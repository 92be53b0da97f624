import Observable.Proofs.Token.Words
/-! A text without blanks and comments that is read as one identifier is that identifier. -/
namespace Observable.Lexer

/-- A row begins with what was read outside all groups; what stands inside the outermost open group
may still be anything. -/
def Begun (ts : List Token) : List OpenGroup → List Token → Prop
  | [], done => done.reverse <+: ts
  | g :: outer, _ =>
    ∃ body close, Begun ts outer (.group g.delimiter body g.place close :: g.before)

theorem Begun.of_append {ts done : List Token} {groups : List OpenGroup} (more : List Token)
    (h : Begun ts groups (more ++ done)) : Begun ts groups done := by
  cases groups with
  | nil =>
    simp only [Begun, List.reverse_append] at h
    exact (List.prefix_append ..).trans h
  | cons g outer => exact h

/-- A group is read as soon as it is opened. -/
theorem Begun.of_open {ts done inside : List Token} {groups : List OpenGroup} {d : Delimiter}
    {p : Position} (h : Begun ts (⟨d, p, done⟩ :: groups) inside) :
    ∃ body close, Begun ts groups (.group d body p close :: done) := h

/-- What is read begins with what was read before. -/
theorem begun_of_run {fuel : Nat} {c : Cursor} {groups : List OpenGroup} {done ts : List Token}
    (h : run fuel c groups done = .ok ts) : Begun ts groups done := by
  induction fuel generalizing c groups done with
  | zero => cases h
  | succ fuel ih =>
    unfold run at h
    split at h
    · split at h
      · cases h
        exact List.prefix_refl _
      · cases h
    · split at h
      · exact ih h
      split at h
      · exact ih h
      split at h
      · exact (ih h).of_append _
      split at h
      · obtain ⟨body, close, hbegun⟩ := (ih h).of_open
        exact hbegun.of_append [_]
      · split at h
        · cases h
        · split at h
          · rename_i hd
            subst hd
            exact ⟨_, _, ih h⟩
          · cases h
      · split at h
        · exact (ih h).of_append [_]
        · cases h

/-- A character that neither separates tokens nor begins a comment. -/
def IsVisible (c : Char) : Prop := isBlank c = false ∧ c ≠ '/' ∧ c ≠ '\ufeff'

/-- Outside all groups a step reads a group or a token that is none, unless a text is over. -/
theorem run_step {fuel : Nat} {ch : Char} {rest : List Char} {place : Position}
    {done ts : List Token} (hch : IsVisible ch)
    (h : run (fuel + 1) ⟨ch :: rest, place⟩ [] done = .ok ts) :
    (∃ d body p q, Begun ts [] (.group d body p q :: done)) ∨
      ∃ t c', readLeaf ⟨ch :: rest, place⟩ = some (t, c') ∧ run fuel c' [] (t :: done)
        = .ok ts := by
  obtain ⟨hblank, hslash, -⟩ := hch
  simp only [run, hblank, passComment_of_ne hslash, docComment?_of_ne hslash, Bool.false_eq_true,
    if_false] at h
  split at h
  · obtain ⟨body, close, hbegun⟩ := (begun_of_run h).of_open
    exact .inl ⟨_, body, _, close, hbegun⟩
  · cases h
  · split at h
    · rename_i t c' hleaf
      exact .inr ⟨t, c', hleaf, h⟩
    · cases h

/-- A text that is read as an identifier holds nothing else, when all its characters are visible. -/
theorem eq_identText_of_tokens {text : List Char} {raw : Bool} {name : String} {p : Position}
    (hvisible : ∀ c ∈ text, IsVisible c) (h : tokens text = .ok [.ident raw name p]) :
    text = (Token.identText raw name).toList := by
  cases text with
  | nil => simp [tokens, run, dropMark, Cursor.moveTo, Cursor.skip] at h
  | cons ch rest =>
    obtain ⟨hch, -⟩ := List.forall_mem_cons.mp hvisible
    have hdrop : dropMark (ch :: rest) = ch :: rest :=
      dropMark_of_head fun heq => hch.2.2 (Option.some.inj heq)
    have hstart : Cursor.moveTo ⟨ch :: rest, .start⟩ (dropMark (ch :: rest))
        = ⟨ch :: rest, .start⟩ := by
      rw [hdrop]
      exact moveTo_append [] _ _
    rw [tokens, hstart] at h
    rcases run_step hch h with ⟨d, body, q, q', hbegun⟩ | ⟨t, c', hleaf, hrun⟩
    · simp [Begun] at hbegun
    obtain rfl : t = .ident raw name p := by
      have hbegun := begun_of_run hrun
      simpa [Begun] using hbegun
    obtain ⟨n, rfl, ⟨hnone, -⟩ | ⟨raw', name', after, hread, ht, rfl⟩⟩ := readLeaf_cases hleaf
    · exact absurd rfl (hnone _ _ _)
    cases ht
    have htext : ch :: rest = (Token.identText raw name).toList ++ after :=
      (eq_append_of_readIdent hread).1
    have hskip := skip_append (Token.identText raw name).toList after .start
    rw [← htext] at hskip
    rw [String.length, hskip] at hrun
    cases after with
    | nil => rw [htext, List.append_nil]
    | cons d after =>
      exfalso
      have hd : IsVisible d := by
        refine hvisible d ?_
        rw [htext]
        simp
      obtain ⟨fuel, hfuel⟩ : ∃ fuel, (ch :: rest).length = fuel + 1 := ⟨rest.length, rfl⟩
      rw [hfuel] at hrun
      rcases run_step hd hrun with ⟨_, _, _, _, hbegun⟩ | ⟨t, c', -, hrun⟩
      · simp [Begun] at hbegun
      · have hbegun := begun_of_run hrun
        simp [Begun] at hbegun

end Observable.Lexer
