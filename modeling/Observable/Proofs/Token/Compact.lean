import Observable.Proofs.Token.Literal
/-! Tokens that were read from a text: a literal ends later than it begins, no name and no mark has
a blank in it, and every group has its delimiters. -/
namespace Observable

mutual
/-- A token as it is read from a text: no name and no mark has a space or a line break in it, a
literal begins with neither, and no group is without delimiters. -/
def Token.Compact : Token → Prop
  | .ident _ name _ => name ≠ "" ∧ ∀ c ∈ name.toList, c ≠ ' ' ∧ c ≠ '\n'
  | .punct c _ _ => c ≠ ' ' ∧ c ≠ '\n'
  | .literal text _ => ∃ c rest, text.toList = c :: rest ∧ c ≠ ' ' ∧ c ≠ '\n'
  | .group d body _ _ => d ≠ .invisible ∧ CompactTokens body

def CompactTokens : List Token → Prop
  | [] => True
  | t :: ts => t.Compact ∧ CompactTokens ts
end

theorem compactTokens_iff {ts : List Token} : CompactTokens ts ↔ ∀ t ∈ ts, t.Compact := by
  induction ts with
  | nil => simp [CompactTokens]
  | cons t ts ih => rw [CompactTokens, ih, List.forall_mem_cons]

namespace Lexer

theorem ne_of_isBlank {c : Char} (h : isBlank c = false) : c ≠ ' ' ∧ c ≠ '\n' := by
  constructor <;> (rintro rfl; exact absurd h (by decide))

theorem compact_of_isName {raw : Bool} {name : String} {place : Position}
    (h : isName name.toList = true) : (Token.ident raw name place).Compact := by
  obtain ⟨c, rest, hname, hc, hrest⟩ := isName_cons h
  refine ⟨fun hnil => by simp [hnil] at hname, fun d hd => ?_⟩
  have hletter : Text.isIdentContinue d = true := by
    rw [hname] at hd
    rcases List.mem_cons.mp hd with rfl | hd
    · exact Text.isIdentContinue_of_isIdentStart hc
    · exact List.all_eq_true.mp hrest d hd
  exact ⟨ne_of_isIdentContinue hletter (by decide), ne_of_isIdentContinue hletter (by decide)⟩

theorem compact_of_readLeaf {c c' : Cursor} {ch : Char} {rest : List Char} {t : Token}
    (hrest : c.rest = ch :: rest) (hblank : isBlank ch = false)
    (h : readLeaf c = some (t, c')) : t.Compact := by
  unfold readLeaf at h
  split at h
  · rename_i tail hread
    cases h
    obtain ⟨n, hn⟩ : ∃ n, c.rest.length - tail.length = n + 1 := by
      have hlength := (hrest ▸ Literal.read_reads hread).behind.length_le
      rw [hrest, List.length_cons]
      exact ⟨rest.length - tail.length, by omega⟩
    refine ⟨ch, rest.take n, ?_, ne_of_isBlank hblank⟩
    rw [String.toList_ofList, Cursor.upTo, hn, hrest, List.take_succ_cons]
  · split at h
    · cases h
    · rename_i ch' tail heq
      obtain ⟨rfl, rfl⟩ := List.cons.inj (hrest.symm.trans heq)
      split at h
      · split at h
        · cases h
          exact ne_of_isBlank hblank
        · cases h
      · split at h
        · cases h
          exact ne_of_isBlank hblank
        · split at h
          · cases h
            exact ⟨'(', _, rfl, by decide, by decide⟩
          · split at h
            · cases h
            · obtain ⟨⟨raw, name, after⟩, hread, ht⟩ := Option.map_eq_some_iff.mp h
              cases ht
              exact compact_of_isName (isName_of_readIdent hread)

theorem compact_docComment (d : DocComment) (place : Position) :
    CompactTokens (d.tokens place) := by
  have hname : "doc".toList.all (fun c => c ≠ ' ' && c ≠ '\n') = true := by decide
  have hdoc : (Token.ident false "doc" place).Compact :=
    ⟨by decide, fun c hc => by simpa using List.all_eq_true.mp hname c hc⟩
  have hvalue : (Token.literal (String.ofList (Text.quoted d.text)) place).Compact :=
    ⟨'"', _, String.toList_ofList, by decide, by decide⟩
  have hmark : ∀ c ∈ ['#', '!', '='], (Token.punct c .alone place).Compact := by
    simp [Token.Compact]
  have hgroup : (Token.group .bracket [.ident false "doc" place, .punct '=' .alone place,
      .literal (String.ofList (Text.quoted d.text)) place] place place).Compact :=
    ⟨by decide, hdoc, hmark '=' (by decide), hvalue, trivial⟩
  unfold DocComment.tokens
  dsimp only
  split
  · exact ⟨hmark '#' (by decide), hmark '!' (by decide), hgroup, trivial⟩
  · exact ⟨hmark '#' (by decide), hgroup, trivial⟩

theorem opens_ne_invisible {c : Char} {d : Delimiter} (h : opens c = some d) : d ≠ .invisible := by
  rintro rfl
  unfold opens at h
  split_ifs at h <;> cases h

/-- A property of tokens that everything read from a text has. -/
structure IsLexical (P : Token → Prop) : Prop where
  leaf {c c' : Cursor} {ch : Char} {rest : List Char} {t : Token} (hrest : c.rest = ch :: rest)
    (hblank : isBlank ch = false) (h : readLeaf c = some (t, c')) : P t
  doc (d : DocComment) (place : Position) : ∀ t ∈ d.tokens place, P t
  group {d : Delimiter} {body : List Token} {p q : Position} (hd : d ≠ .invisible)
    (hbody : ∀ t ∈ body, P t) : P (.group d body p q)

/-- What is read has the property, when what was read before has it. -/
theorem IsLexical.run {P : Token → Prop} (hP : IsLexical P) {fuel : Nat} {c : Cursor}
    {groups : List OpenGroup} {done ts : List Token}
    (hgroups : ∀ g ∈ groups, g.delimiter ≠ .invisible ∧ ∀ t ∈ g.before, P t)
    (hdone : ∀ t ∈ done, P t) (h : run fuel c groups done = .ok ts) : ∀ t ∈ ts, P t := by
  induction fuel generalizing c groups done with
  | zero => cases h
  | succ fuel ih =>
    unfold Lexer.run at h
    split at h
    · split at h
      · cases h
        simpa using hdone
      · cases h
    · rename_i ch rest hrest
      split at h
      · exact ih hgroups hdone h
      rename_i hblank
      split at h
      · exact ih hgroups hdone h
      split at h
      · rename_i d _
        refine ih hgroups (List.forall_mem_append.mpr ⟨?_, hdone⟩) h
        simpa using hP.doc d c.place
      split at h
      · rename_i d hopens
        have hd : d ≠ .invisible := by
          split at hopens
          · cases hopens
          · exact opens_ne_invisible hopens
        exact ih (List.forall_mem_cons.mpr ⟨⟨hd, hdone⟩, hgroups⟩) (by simp) h
      · split at h
        · cases h
        · rename_i g outer
          obtain ⟨⟨hd, hbefore⟩, houter⟩ := List.forall_mem_cons.mp hgroups
          split at h
          · rename_i hclose
            subst hclose
            have hgroup : P (.group g.delimiter done.reverse g.place c.place) :=
              hP.group hd (by simpa using hdone)
            exact ih houter (List.forall_mem_cons.mpr ⟨hgroup, hbefore⟩) h
          · cases h
      · split at h
        · rename_i t c' hleaf
          have ht := hP.leaf hrest (by simpa using hblank) hleaf
          exact ih hgroups (List.forall_mem_cons.mpr ⟨ht, hdone⟩) h
        · cases h

theorem IsLexical.tokens {P : Token → Prop} (hP : IsLexical P) {text : List Char}
    {ts : List Token} (h : tokens text = .ok ts) : ∀ t ∈ ts, P t := hP.run (by simp) (by simp) h

theorem isLexical_compact : IsLexical Token.Compact where
  leaf := compact_of_readLeaf
  doc d place := compactTokens_iff.mp (compact_docComment d place)
  group hd hbody := ⟨hd, compactTokens_iff.mpr hbody⟩

/-- The tokens of a text are compact. -/
theorem compact_of_tokens {text : List Char} {ts : List Token} (h : tokens text = .ok ts) :
    CompactTokens ts :=
  compactTokens_iff.mpr (isLexical_compact.tokens h)

end Lexer

end Observable
