import Mathlib.Data.List.TakeWhile
import Observable.Proofs.Token.Literal
/-! A literal is read up to its end wherever it stands: what follows it matters only by what it
begins with. -/
namespace Observable.Literal

/-- Whether no letter and no digit stands at the front of a text. -/
def stopsIdent (next : List Char) : Bool := next.head?.all fun c => !Text.isIdentContinue c

/-- Whether a number ends in front of a text: no letter and no digit goes on with it, and neither
the sign of an exponent nor a point. -/
def stops (next : List Char) : Bool :=
  next.head?.all fun c => !Text.isIdentContinue c && c ≠ '+' && c ≠ '-' && c ≠ '.'

theorem stopsIdent_of_stops {next : List Char} (h : stops next = true) :
    stopsIdent next = true := by
  cases next with
  | nil => rfl
  | cons c next =>
    simp only [stops, stopsIdent, List.head?_cons, Option.all_some, Bool.and_eq_true] at h ⊢
    exact h.1.1.1

/-- A tail that ends as the text does is a tail of what stands in front of that end. -/
theorem suffix_append {t w x : List Char} (h : t ++ x <:+ w ++ x) : t <:+ w := by
  obtain ⟨front, hfront⟩ := h
  rw [← List.append_assoc] at hfront
  exact ⟨front, List.append_cancel_right hfront⟩

theorem ne_cons_append {c : Char} {w x : List Char} : c :: (w ++ x) ≠ x := by
  intro h
  have hlength := congrArg List.length h
  simp only [List.length_cons, List.length_append] at hlength
  omega

theorem not_suffix_cons {t x : List Char} {c : Char} (h : t ++ c :: x <:+ x) : False := by
  have hlength := h.length_le
  simp only [List.length_append, List.length_cons] at hlength
  omega

section Quoted

variable {family : Family} {w x y t value : List Char}

theorem readQuoted_local {state : Escape}
    (h : readQuoted family state (w ++ x) = some (value, t ++ x)) :
    readQuoted family state (w ++ y) = some (value, t ++ y) := by
  induction w generalizing state value with
  | nil => exact absurd (readQuoted_reads h) Reads.not_longer
  | cons c w ih =>
    rw [List.cons_append, readQuoted] at h ⊢
    split at h
    · rename_i hclosed
      obtain ⟨rfl, htail⟩ := Prod.mk.inj (Option.some.inj h)
      rw [if_pos hclosed, List.append_cancel_right htail]
    · rename_i hopen
      rw [if_neg hopen]
      split at h
      · cases h
      · obtain ⟨⟨value', tail'⟩, hread, heq⟩ := Option.map_eq_some_iff.mp h
        cases heq
        simp only [ih hread, Option.map_some]

/-- A row of pound signs ends where none follows. -/
theorem isPrefixOf_pounds {pounds : Nat} (hy : y.head? ≠ some '#') :
    (List.replicate pounds '#').isPrefixOf (w ++ y) = (List.replicate pounds '#').isPrefixOf w := by
  induction pounds generalizing w with
  | zero => rfl
  | succ n ih =>
    rw [List.replicate_succ]
    cases w with
    | nil =>
      cases y with
      | nil => rfl
      | cons c y =>
        have hne : ('#' == c) = false := beq_eq_false_iff_ne.mpr fun h => hy (h ▸ rfl)
        simp [List.isPrefixOf, hne]
    | cons c w => simp only [List.cons_append, List.isPrefixOf, ih]

/-- A row of pound signs that follows a quote closes the text, whatever comes after the row. -/
theorem readRaw_closed {pounds : Nat} (h : (List.replicate pounds '#').isPrefixOf w = true)
    (z : List Char) :
    readRaw family pounds ('"' :: (w ++ z)) = some ([], w.drop pounds ++ z) := by
  obtain ⟨more, rfl⟩ := List.isPrefixOf_iff_prefix.mp h
  have hlong : (List.replicate pounds '#').isPrefixOf (List.replicate pounds '#' ++ more ++ z)
      = true := by
    rw [List.append_assoc]
    exact List.isPrefixOf_iff_prefix.mpr (List.prefix_append _ _)
  rw [readRaw, if_pos hlong, List.drop_append_of_le_length (by simp)]

/-- A row of pound signs that is dropped whole from the front of a text, and nothing of what
follows with it, stands in the text. -/
theorem isPrefixOf_of_drop {pounds : Nat}
    (h : (List.replicate pounds '#').isPrefixOf (w ++ x) = true)
    (hdrop : (w ++ x).drop pounds = t ++ x) : (List.replicate pounds '#').isPrefixOf w = true := by
  have hprefix := List.isPrefixOf_iff_prefix.mp h
  have hlength : (List.replicate pounds '#').length ≤ w.length := by
    have htail := congrArg List.length hdrop
    have hle := hprefix.length_le
    simp only [List.length_drop, List.length_append, List.length_replicate] at htail hle ⊢
    omega
  exact List.isPrefixOf_iff_prefix.mpr
    (List.prefix_of_prefix_length_le hprefix (List.prefix_append w x) hlength)

/-- A character that raw text may hold is read as itself. -/
theorem readRaw_plain {pounds : Nat} {c : Char} (hquote : c ≠ '"')
    (hplain : (c ≠ '\r' && admits family c) = true) (rest : List Char) :
    readRaw family pounds (c :: rest)
      = (readRaw family pounds rest).map fun read => (c :: read.1, read.2) := by
  obtain ⟨hreturn, -⟩ : c ≠ '\r' ∧ admits family c = true := by simpa using hplain
  rw [readRaw, if_pos hplain]
  · exact fun h => hquote h
  · exact fun _ h => absurd h hreturn

/-- What raw text may not hold by itself is the first character of a line break. -/
theorem readRaw_break {pounds : Nat} {c : Char} (hquote : c ≠ '"')
    (hplain : ¬(c ≠ '\r' && admits family c) = true)
    (h : readRaw family pounds (c :: w) = some (value, t)) :
    c = '\r' ∧ ∃ rest, w = '\n' :: rest ∧ t <:+ rest := by
  rw [readRaw.eq_def] at h
  split at h
  · rename_i heq
    cases heq
  · rename_i heq
    exact absurd (List.cons.inj heq).1 hquote
  · rename_i rest heq
    obtain ⟨rfl, rfl⟩ := List.cons.inj heq
    obtain ⟨⟨value', tail'⟩, hread, heq⟩ := Option.map_eq_some_iff.mp h
    cases heq
    exact ⟨rfl, rest, rfl, (readRaw_reads hread).suffix⟩
  · rename_i heq
    obtain ⟨rfl, rfl⟩ := List.cons.inj heq
    rw [if_neg hplain] at h
    cases h

theorem readRaw_local {pounds : Nat} (hy : y.head? ≠ some '#')
    (h : readRaw family pounds (w ++ x) = some (value, t ++ x)) :
    readRaw family pounds (w ++ y) = some (value, t ++ y) := by
  induction w using readRaw.induct family pounds generalizing value with
  | case1 => exact absurd (readRaw_reads h) Reads.not_longer
  | case2 rest hclosed =>
    rw [List.cons_append, readRaw_closed hclosed] at h ⊢
    obtain ⟨rfl, htail⟩ := Prod.mk.inj (Option.some.inj h)
    rw [List.append_cancel_right htail]
  | case3 rest hopen ih =>
    rw [List.cons_append, readRaw] at h ⊢
    rw [isPrefixOf_pounds hy, if_neg hopen]
    split at h
    · -- The pound signs would reach into what follows, of which nothing was read.
      rename_i hclosed
      exact absurd (isPrefixOf_of_drop hclosed (Prod.mk.inj (Option.some.inj h)).2) hopen
    · obtain ⟨⟨value', tail'⟩, hread, heq⟩ := Option.map_eq_some_iff.mp h
      cases heq
      simp only [ih hread, Option.map_some]
  | case4 rest ih =>
    rw [List.cons_append, List.cons_append, readRaw] at h ⊢
    obtain ⟨⟨value', tail'⟩, hread, heq⟩ := Option.map_eq_some_iff.mp h
    cases heq
    simp only [ih hread, Option.map_some]
  | case5 c rest hquote hbreak hplain ih =>
    rw [List.cons_append, readRaw_plain hquote hplain] at h ⊢
    obtain ⟨⟨value', tail'⟩, hread, heq⟩ := Option.map_eq_some_iff.mp h
    cases heq
    simp only [ih hread, Option.map_some]
  | case6 c rest hquote hbreak hplain =>
    -- Only a line break that was read whole could make a carriage return part of the text.
    rw [List.cons_append] at h
    obtain ⟨rfl, after, hafter, hsuffix⟩ := readRaw_break hquote hplain h
    cases rest with
    | nil =>
      rw [List.nil_append] at hafter
      subst hafter
      exact (not_suffix_cons hsuffix).elim
    | cons d rest =>
      obtain ⟨rfl, -⟩ := List.cons.inj hafter
      exact absurd rfl (hbreak rest rfl)

theorem readPounds_local (hy : y.head? ≠ some '#')
    (h : readPounds family (w ++ x) = some (value, t ++ x)) :
    readPounds family (w ++ y) = some (value, t ++ y) := by
  unfold readPounds at h
  dsimp only at h
  split at h
  · rename_i rest hdrop
    split at h
    · rename_i hpounds
      obtain ⟨body, rfl⟩ : ∃ body, rest = body ++ x := by
        obtain ⟨front, hfront⟩ := (readRaw_reads h).suffix
        exact ⟨front ++ t, by rw [List.append_assoc, hfront]⟩
      -- The pound signs and the quote behind them are all of the literal but its body.
      obtain ⟨pounds, htake⟩ : ∃ pounds, (w ++ x).takeWhile (· == '#') = pounds := ⟨_, rfl⟩
      have hall : ∀ c ∈ pounds, (c == '#') = true := by
        intro c hc
        rw [← htake] at hc
        exact List.mem_takeWhile_imp (p := (· == '#')) hc
      rw [htake] at hdrop hpounds h
      obtain rfl : w = pounds ++ '"' :: body := by
        have hsplit := List.prefix_iff_eq_append.mp (htake ▸ List.takeWhile_prefix (· == '#'))
        rw [hdrop] at hsplit
        have hall' : w ++ x = pounds ++ '"' :: body ++ x := by
          rw [← hsplit, List.append_assoc, List.cons_append]
        exact List.append_cancel_right hall'
      have htakeY : (pounds ++ '"' :: body ++ y).takeWhile (· == '#') = pounds := by
        rw [List.append_assoc, List.takeWhile_append_of_pos hall, List.cons_append,
          List.takeWhile_cons_of_neg (by decide), List.append_nil]
      simp only [readPounds, htakeY]
      rw [List.append_assoc, List.drop_left, List.cons_append]
      simp only [if_pos hpounds]
      exact readRaw_local hy h
    · cases h
  · cases h

theorem readEscape_local {state : Escape}
    (h : readCharBody.readEscape family state (w ++ x) = some (t ++ x)) :
    readCharBody.readEscape family state (w ++ y) = some (t ++ y) := by
  induction w generalizing state with
  | nil => exact absurd (readEscape_reads h) Reads.not_longer
  | cons c w ih =>
    rw [List.cons_append, readCharBody.readEscape] at h ⊢
    split at h
    · rename_i hplain
      rw [if_pos hplain]
      split at h
      · rename_i hclosed
        rw [if_pos hclosed, List.append_cancel_right (Option.some.inj h)]
      · cases h
    · rename_i hopen
      rw [if_neg hopen]
      split at h
      · cases h
      · cases h
      · exact ih h
      · cases h

theorem readCharBody_local (h : readCharBody family (w ++ x) = some (t ++ x)) :
    readCharBody family (w ++ y) = some (t ++ y) := by
  generalize htext : w ++ x = text at h
  unfold readCharBody at h
  split at h
  · rename_i rest
    cases w with
    | nil =>
      rw [List.nil_append] at htext
      subst htext
      exact (not_suffix_cons ((readEscape_reads h).suffix)).elim
    | cons c w =>
      obtain ⟨rfl, rfl⟩ := List.cons.inj htext
      exact readEscape_local h
  · rename_i c rest hplain
    split at h
    · rename_i hadmits
      obtain rfl := Option.some.inj h
      have hall : w ++ x = [c, '\''] ++ t ++ x := by simpa using htext
      obtain rfl := List.append_cancel_right hall
      rw [List.append_assoc, List.cons_append, List.singleton_append, readCharBody, if_pos hadmits]
      exact hplain
    · cases h
  · cases h

end Quoted

theorem dropWhile_stopped {y : List Char} (hy : stopsIdent y = true) :
    y.dropWhile Text.isIdentContinue = y := by
  cases y with
  | nil => rfl
  | cons c y => exact List.dropWhile_cons_of_neg (by simpa [stopsIdent] using hy)

theorem dropIdent_stopped {y : List Char} (hy : stopsIdent y = true) : dropIdent y = y := by
  cases y with
  | nil => rfl
  | cons c y =>
    have hc : Text.isIdentStart c = false := by
      refine Bool.eq_false_iff.mpr fun hstart => ?_
      simp [stopsIdent, Text.isIdentContinue_of_isIdentStart hstart] at hy
    simp [dropIdent, hc]

/-- What is dropped of a text are letters and digits. -/
theorem all_of_dropWhile {w x : List Char} (h : (w ++ x).dropWhile Text.isIdentContinue = x) :
    w.all Text.isIdentContinue = true := by
  induction w with
  | nil => rfl
  | cons c w ih =>
    cases hc : Text.isIdentContinue c with
    | false =>
      rw [List.cons_append, List.dropWhile_cons_of_neg (by simp [hc])] at h
      exact (ne_cons_append h).elim
    | true =>
      rw [List.cons_append, List.dropWhile_cons_of_pos hc] at h
      rw [List.all_cons, hc, ih h]
      rfl

theorem all_of_dropIdent {w x : List Char} (h : dropIdent (w ++ x) = x) :
    w.all Text.isIdentContinue = true := by
  cases w with
  | nil => rfl
  | cons c w =>
    rw [List.cons_append, dropIdent] at h
    split at h
    · rename_i hc
      rw [List.all_cons, Text.isIdentContinue_of_isIdentStart hc, all_of_dropWhile h]
      rfl
    · exact (ne_cons_append h).elim

theorem dropIdent_local {w x y : List Char} (hy : stopsIdent y = true)
    (h : dropIdent (w ++ x) = x) : dropIdent (w ++ y) = y := by
  cases w with
  | nil => exact dropIdent_stopped hy
  | cons c w =>
    rw [List.cons_append, dropIdent] at h ⊢
    split at h
    · rename_i hc
      rw [if_pos hc, List.dropWhile_append_of_pos (List.all_eq_true.mp (all_of_dropWhile h)),
        dropWhile_stopped hy]
    · exact (ne_cons_append h).elim

section Numbers

variable {w x y t : List Char}

/-- What does not go on with a word has no digit, no underscore and no letter in front. -/
theorem stopsIdent_cons {c : Char} {next : List Char} (h : stopsIdent (c :: next) = true) :
    c.isDigit = false ∧ isHexDigit c = false ∧ c ≠ '_' ∧ c ≠ 'e' ∧ c ≠ 'E' ∧
      Text.isIdentStart c = false := by
  have hc : Text.isIdentContinue c = false := by simpa [stopsIdent] using h
  have hnot {p : Bool} (hp : p = true → Text.isIdentContinue c = true) : p = false :=
    Bool.eq_false_iff.mpr fun h => by simp [hp h] at hc
  have hne {d : Char} (hd : Text.isIdentContinue d = true) : c ≠ d := by
    rintro rfl
    simp [hd] at hc
  exact ⟨hnot isIdentContinue_of_isDigit, hnot isIdentContinue_of_isHexDigit, hne (by decide),
    hne (by decide), hne (by decide), hnot Text.isIdentContinue_of_isIdentStart⟩

theorem stops_cons {c : Char} {next : List Char} (h : stops (c :: next) = true) :
    stopsIdent (c :: next) = true ∧ c ≠ '+' ∧ c ≠ '-' ∧ c ≠ '.' := by
  refine ⟨stopsIdent_of_stops h, ?_, ?_, ?_⟩ <;> (rintro rfl; simp [stops] at h)

section Exponent

variable {sign digits : Bool}

/-- Nothing is read of what stands where the digits of an exponent end. -/
theorem readExponent_self (h : readExponent sign digits x = some (t ++ x)) :
    digits = true ∧ t = [] := by
  have hnil : x = t ++ x → t = [] := fun h => List.self_eq_append_left.mp h
  cases x with
  | nil =>
    rw [readExponent] at h
    split at h
    · exact ⟨‹_›, hnil (Option.some.inj h)⟩
    · cases h
  | cons c x =>
    rw [readExponent] at h
    split_ifs at h
    all_goals first
      | exact ⟨‹_›, hnil (Option.some.inj h)⟩
      | exact (not_suffix_cons ((readExponent_ends h).suffix)).elim

theorem readExponent_stopped (hy : stopsIdent y = true) : readExponent sign true y = some y := by
  cases y with
  | nil => rfl
  | cons c y =>
    obtain ⟨hdigit, -, hmark, -⟩ := stopsIdent_cons hy
    simp [readExponent, hdigit, hmark]

theorem readExponent_local (hy : stopsIdent y = true)
    (h : readExponent sign digits (w ++ x) = some (t ++ x)) :
    readExponent sign digits (w ++ y) = some (t ++ y) := by
  induction w generalizing sign digits with
  | nil =>
    obtain ⟨rfl, rfl⟩ := readExponent_self h
    exact readExponent_stopped hy
  | cons c w ih =>
    have hcancel : c :: w ++ x = t ++ x → t = c :: w := fun h => (List.append_cancel_right h).symm
    rw [List.cons_append, readExponent] at h ⊢
    split_ifs at h ⊢
    all_goals first
      | exact ih h
      | rw [hcancel (Option.some.inj h), List.cons_append]

/-- Without digits no exponent is read, unless more of the text belongs to it. -/
theorem readExponent_none (hy : stops y = true) (h : readExponent sign digits (w ++ x) = none) :
    readExponent sign digits (w ++ y) = none := by
  have hsome (sign : Bool) (z : List Char) : readExponent sign true z ≠ none := by
    induction z generalizing sign with
    | nil => simp [readExponent]
    | cons c z ih =>
      simp only [readExponent, if_true]
      split_ifs <;> first | exact ih _ | simp
  induction w generalizing sign digits with
  | nil =>
    cases digits with
    | true => exact absurd h (hsome sign x)
    | false =>
      cases y with
      | nil => rfl
      | cons c y =>
        obtain ⟨hident, hplus, hminus, -⟩ := stops_cons hy
        obtain ⟨hdigit, -, hmark, -⟩ := stopsIdent_cons hident
        simp [readExponent, hdigit, hmark, hplus, hminus]
  | cons c w ih =>
    rw [List.cons_append, readExponent] at h ⊢
    split_ifs at h ⊢
    all_goals first | exact ih h | rfl

theorem readExponent_stays (hy : stops y = true)
    (h : readExponent sign digits (w ++ y) = some x) : ∃ t, x = t ++ y := by
  induction w generalizing sign digits with
  | nil =>
    cases digits with
    | true =>
      rw [List.nil_append, readExponent_stopped (stopsIdent_of_stops hy)] at h
      exact ⟨[], (Option.some.inj h).symm⟩
    | false =>
      have hnone : readExponent sign false ([] ++ y) = none :=
        readExponent_none (w := []) (x := []) hy rfl
      rw [hnone] at h
      cases h
  | cons c w ih =>
    rw [List.cons_append, readExponent] at h
    split_ifs at h
    all_goals first
      | exact ih h
      | exact ⟨c :: w, (Option.some.inj h).symm⟩

end Exponent

section Decimal

variable {point : Bool}

theorem readDecimal_self (h : readDecimal point x = some (t ++ x)) : point = true ∧ t = [] := by
  have hnil : x = t ++ x → t = [] := fun h => List.self_eq_append_left.mp h
  cases x with
  | nil =>
    rw [readDecimal] at h
    split at h
    · exact ⟨‹_›, hnil (Option.some.inj h)⟩
    · cases h
  | cons c x =>
    rw [readDecimal] at h
    split at h
    · exact (not_suffix_cons ((readDecimal_ends h).suffix)).elim
    split at h
    · split_ifs at h
      · exact ⟨‹_›, hnil (Option.some.inj h)⟩
      · exact (not_suffix_cons ((readDecimal_ends h).suffix)).elim
    split at h
    · split at h
      · rename_i hexponent
        rw [Option.some.inj h] at hexponent
        exact (not_suffix_cons ((readExponent_ends hexponent).suffix)).elim
      · split_ifs at h
        exact ⟨‹_›, hnil (Option.some.inj h)⟩
    · split_ifs at h
      exact ⟨‹_›, hnil (Option.some.inj h)⟩

theorem readDecimal_stopped (hy : stops y = true) : readDecimal true y = some y := by
  cases y with
  | nil => rfl
  | cons c y =>
    obtain ⟨hident, -, -, hpoint⟩ := stops_cons hy
    obtain ⟨hdigit, -, hmark, he, hE, -⟩ := stopsIdent_cons hident
    simp [readDecimal, hdigit, hmark, hpoint, he, hE]

/-- After a point, a number ends only where it does not go on; before it, no letter and no digit may
follow. -/
theorem readDecimal_local (hy : stopsIdent y = true)
    (hpoint : point = true ∨ '.' ∈ w → stops y = true)
    (h : readDecimal point (w ++ x) = some (t ++ x)) :
    readDecimal point (w ++ y) = some (t ++ y) := by
  induction w generalizing point with
  | nil =>
    obtain ⟨rfl, rfl⟩ := readDecimal_self h
    exact readDecimal_stopped (hpoint (.inl rfl))
  | cons c w ih =>
    have hcancel : c :: w ++ x = t ++ x → t = c :: w := fun h => (List.append_cancel_right h).symm
    have hlater : point = true ∨ '.' ∈ w → stops y = true :=
      fun h => hpoint (h.imp_right (List.mem_cons_of_mem c))
    rw [List.cons_append, readDecimal] at h ⊢
    split at h
    · rw [if_pos ‹_›]
      exact ih hlater h
    rw [if_neg ‹_›]
    split at h
    · rename_i hc
      subst hc
      have hstops := hpoint (.inr List.mem_cons_self)
      rw [if_pos rfl]
      split_ifs at h with hpoint hnext
      · rw [if_pos hpoint, hcancel (Option.some.inj h), List.cons_append]
      · have hahead : ¬ ((w ++ y).head?.any fun d => d = '.' || Text.isIdentStart d) = true := by
          cases w with
          | cons d w => exact hnext
          | nil =>
            cases y with
            | nil => exact Bool.false_ne_true
            | cons d y =>
              obtain ⟨hident, -, -, hd⟩ := stops_cons hstops
              obtain ⟨-, -, -, -, -, hstart⟩ := stopsIdent_cons hident
              simp [hd, hstart]
        rw [if_neg hpoint, if_neg hahead]
        exact ih (fun _ => hstops) h
    rw [if_neg ‹_›]
    split at h
    · rw [if_pos ‹_›]
      split at h
      · rename_i tail hexponent
        rw [Option.some.inj h] at hexponent
        rw [readExponent_local hy hexponent]
      · rename_i hnone
        split_ifs at h with hpoint'
        rw [readExponent_none (hpoint (.inl hpoint')) hnone]
        simp only [hpoint', if_true, hcancel (Option.some.inj h), List.cons_append]
    · rw [if_neg ‹_›]
      split_ifs at h with hpoint'
      rw [if_pos hpoint', hcancel (Option.some.inj h), List.cons_append]

theorem readDecimal_stays (hy : stops y = true) (h : readDecimal point (w ++ y) = some x) :
    ∃ t, x = t ++ y := by
  induction w generalizing point with
  | nil =>
    cases point with
    | true =>
      rw [List.nil_append, readDecimal_stopped hy] at h
      exact ⟨[], (Option.some.inj h).symm⟩
    | false =>
      exfalso
      cases y with
      | nil => cases h
      | cons c y =>
        obtain ⟨hident, -, -, hpoint⟩ := stops_cons hy
        obtain ⟨hdigit, -, hmark, he, hE, -⟩ := stopsIdent_cons hident
        simp [readDecimal, hdigit, hmark, hpoint, he, hE] at h
  | cons c w ih =>
    rw [List.cons_append, readDecimal] at h
    split at h
    · exact ih h
    split at h
    · split_ifs at h
      · exact ⟨c :: w, (Option.some.inj h).symm⟩
      · exact ih h
    split at h
    · split at h
      · rename_i hexponent
        obtain ⟨t, ht⟩ := readExponent_stays hy hexponent
        exact ⟨t, (Option.some.inj h).symm.trans ht⟩
      · split_ifs at h
        exact ⟨c :: w, (Option.some.inj h).symm⟩
    · split_ifs at h
      exact ⟨c :: w, (Option.some.inj h).symm⟩

end Decimal

section Digits

variable {base : Nat} {seen : Bool}

theorem readDigits_self (h : readDigits base seen x = some (t ++ x)) : seen = true ∧ t = [] := by
  have hnil : x = t ++ x → t = [] := fun h => List.self_eq_append_left.mp h
  cases x with
  | nil =>
    rw [readDigits] at h
    split at h
    · exact ⟨‹_›, hnil (Option.some.inj h)⟩
    · cases h
  | cons c x =>
    rw [readDigits] at h
    split_ifs at h
    all_goals first
      | exact ⟨‹_›, hnil (Option.some.inj h)⟩
      | exact (not_suffix_cons ((readDigits_ends h).suffix)).elim

theorem readDigits_local (hy : stopsIdent y = true)
    (h : readDigits base seen (w ++ x) = some (t ++ x)) :
    readDigits base seen (w ++ y) = some (t ++ y) ∧
      ∃ u, w = u ++ t ∧ u.all Text.isIdentContinue = true := by
  induction w generalizing seen with
  | nil =>
    obtain ⟨rfl, rfl⟩ := readDigits_self h
    refine ⟨?_, [], rfl, rfl⟩
    cases y with
    | nil => rfl
    | cons c y =>
      obtain ⟨hdigit, hhex, hmark, -⟩ := stopsIdent_cons hy
      simp [readDigits, hdigit, hhex, hmark]
  | cons c w ih =>
    have hdone : c :: w ++ x = t ++ x → (some (c :: w ++ y) = some (t ++ y) ∧
        ∃ u, c :: w = u ++ t ∧ u.all Text.isIdentContinue = true) := by
      intro h
      rw [List.append_cancel_right h]
      exact ⟨rfl, [], rfl, rfl⟩
    have hmore (hc : Text.isIdentContinue c = true) {seen : Bool}
        (h : readDigits base seen (w ++ x) = some (t ++ x)) :
        readDigits base seen (w ++ y) = some (t ++ y) ∧
          ∃ u, c :: w = u ++ t ∧ u.all Text.isIdentContinue = true := by
      obtain ⟨hread, u, rfl, hu⟩ := ih h
      exact ⟨hread, c :: u, rfl, by simp [hc, hu]⟩
    rw [List.cons_append, readDigits] at h ⊢
    split_ifs at h ⊢ with hdigit _ hmark _ hhex
    · exact hmore (isIdentContinue_of_isDigit hdigit) h
    · exact hmore (hmark ▸ by decide) h
    · exact hmore (isIdentContinue_of_isHexDigit (Bool.and_eq_true_iff.mp hhex).1) h
    · exact hdone (Option.some.inj h)

end Digits

theorem closeNumber_local (hy : stopsIdent y = true) (h : closeNumber (w ++ x) = some x) :
    closeNumber (w ++ y) = some y ∧ w.all Text.isIdentContinue = true ∧ stopsIdent x = true := by
  unfold closeNumber at h ⊢
  dsimp only at h ⊢
  split at h
  · cases h
  · rename_i hx
    have hdrop := Option.some.inj h
    have hahead : ¬ y.head?.any Text.isIdentContinue = true := by
      cases y with
      | nil => exact Bool.false_ne_true
      | cons c y => simpa [stopsIdent] using hy
    rw [hdrop] at hx
    refine ⟨by rw [dropIdent_local hy hdrop, if_neg hahead], all_of_dropIdent hdrop, ?_⟩
    cases x with
    | nil => rfl
    | cons c x => simpa [stopsIdent] using hx

/-- Letters and digits after a number are all its suffix or none of it. -/
theorem closeNumber_eq (hw : w.all Text.isIdentContinue = true) (hy : stopsIdent y = true)
    (h : closeNumber (w ++ y) = some x) : x = y := by
  unfold closeNumber at h
  dsimp only at h
  cases w with
  | nil =>
    rw [List.nil_append, dropIdent_stopped hy] at h
    split at h <;> cases h
    rfl
  | cons c w =>
    simp only [List.all_cons, Bool.and_eq_true] at hw
    cases hc : Text.isIdentStart c with
    | true =>
      rw [List.cons_append, dropIdent, if_pos hc,
        List.dropWhile_append_of_pos (List.all_eq_true.mp hw.2), dropWhile_stopped hy] at h
      split at h <;> cases h
      rfl
    | false => simp [dropIdent, hc, hw.1] at h

theorem splitBase_plain {text : List Char}
    (h : ∀ d rest, text = '0' :: d :: rest → d ≠ 'x' ∧ d ≠ 'o' ∧ d ≠ 'b') :
    splitBase text = (10, text) := by
  unfold splitBase
  split
  · exact absurd rfl (h _ _ rfl).1
  · exact absurd rfl (h _ _ rfl).2.1
  · exact absurd rfl (h _ _ rfl).2.2
  · rfl

theorem splitBase_append (hw : w ≠ []) (hy : stopsIdent y = true) :
    splitBase (w ++ y) = ((splitBase w).1, (splitBase w).2 ++ y) := by
  rcases w with _ | ⟨c, _ | ⟨d, w⟩⟩
  · exact absurd rfl hw
  · rw [splitBase_plain (show ∀ d rest, [c] = '0' :: d :: rest → _ by simp), splitBase_plain]
    intro d rest h
    obtain ⟨-, rfl⟩ := List.cons.inj h
    refine ⟨?_, ?_, ?_⟩ <;> (rintro rfl; simp [stopsIdent] at hy; exact absurd hy (by decide))
  · by_cases hbase : c = '0' ∧ (d = 'x' ∨ d = 'o' ∨ d = 'b')
    · obtain ⟨rfl, rfl | rfl | rfl⟩ := hbase <;> rfl
    · have hplain (more : List Char) :
          splitBase (c :: d :: more) = (10, c :: d :: more) := by
        refine splitBase_plain fun e rest h => ?_
        obtain ⟨hc, h⟩ := List.cons.inj h
        obtain ⟨rfl, -⟩ := List.cons.inj h
        simpa [hc] using hbase
      rw [List.cons_append, List.cons_append, hplain, hplain]
      rfl

theorem splitBase_suffix (text : List Char) :
    ∃ front, text = front ++ (splitBase text).2 ∧ front.all Text.isIdentContinue = true := by
  unfold splitBase
  split
  · exact ⟨['0', 'x'], rfl, by decide⟩
  · exact ⟨['0', 'o'], rfl, by decide⟩
  · exact ⟨['0', 'b'], rfl, by decide⟩
  · exact ⟨[], rfl, rfl⟩

/-- A number without a point or an exponent is made of digits and letters. -/
theorem readNumber_digits_local (hw : w ≠ []) (hy : stops y = true)
    (h : (readDigits (splitBase (w ++ x)).1 false (splitBase (w ++ x)).2).bind closeNumber
      = some x) :
    (readDigits (splitBase (w ++ y)).1 false (splitBase (w ++ y)).2).bind closeNumber = some y ∧
      w.all Text.isIdentContinue = true ∧ stopsIdent x = true := by
  have hident := stopsIdent_of_stops hy
  obtain ⟨m, hread, hclose⟩ := Option.bind_eq_some_iff.mp h
  obtain ⟨t, rfl⟩ := (closeNumber_ends hclose).suffix
  obtain ⟨-, hall, hx⟩ := closeNumber_local hident hclose
  rw [splitBase_append hw hx] at hread
  obtain ⟨hread', u, hu, hall'⟩ := readDigits_local hident hread
  obtain ⟨front, hfront, hfrontAll⟩ := splitBase_suffix w
  refine ⟨?_, ?_, hx⟩
  · rw [splitBase_append hw hident, hread', Option.bind_some]
    exact (closeNumber_local hident hclose).1
  · rw [hfront, hu]
    simp [hfrontAll, hall', hall]

theorem readNumber_local (hw : w ≠ []) (hy : stops y = true) (h : readNumber (w ++ x) = some x) :
    readNumber (w ++ y) = some y := by
  have hident := stopsIdent_of_stops hy
  have hhead (z : List Char) : (w ++ z).head?.any Char.isDigit = w.head?.any Char.isDigit := by
    cases w with
    | nil => exact absurd rfl hw
    | cons c w => rfl
  cases hdigit : w.head?.any Char.isDigit with
  | false => simp [readNumber, hhead x, hdigit, -List.head?_append] at h
  | true =>
    simp only [readNumber, hhead, hdigit, if_true] at h ⊢
    cases hdecimal : (readDecimal false (w ++ x)).bind closeNumber with
    | some rest =>
      rw [hdecimal] at h
      obtain rfl : rest = x := Option.some.inj h
      obtain ⟨m, hread, hclose⟩ := Option.bind_eq_some_iff.mp hdecimal
      obtain ⟨t, rfl⟩ := (closeNumber_ends hclose).suffix
      rw [readDecimal_local hident (fun _ => hy) hread, Option.bind_some,
        (closeNumber_local hident hclose).1]
    | none =>
      rw [hdecimal] at h
      obtain ⟨hdigits, hall, hx⟩ := readNumber_digits_local hw hy h
      have hnone : (readDecimal false (w ++ y)).bind closeNumber = none := by
        -- Read as a decimal here, it would have been read as one where it stood before.
        by_contra hsome
        obtain ⟨r, hr⟩ := Option.ne_none_iff_exists'.mp hsome
        obtain ⟨m, hread, hclose⟩ := Option.bind_eq_some_iff.mp hr
        obtain ⟨t, rfl⟩ := readDecimal_stays hy hread
        have hpoint : ¬ (false = true ∨ '.' ∈ w) := by
          rintro (h | h)
          · cases h
          · exact absurd (List.all_eq_true.mp hall _ h) (by decide)
        have hreadX := readDecimal_local hx (fun h => absurd h hpoint) hread
        have ht : t.all Text.isIdentContinue = true := by
          obtain ⟨front, rfl⟩ := suffix_append ((readDecimal_ends hread).suffix)
          rw [List.all_append, Bool.and_eq_true] at hall
          exact hall.2
        obtain rfl := closeNumber_eq ht hident hclose
        rw [hreadX, Option.bind_some, (closeNumber_local hx hclose).1] at hdecimal
        cases hdecimal
      rw [hnone]
      exact hdigits

end Numbers

section Whole

variable {w x y : List Char}

/-- A quoted text and the suffix after it. -/
theorem quoted_local {found found' : Option (List Char × List Char)} (hy : stopsIdent y = true)
    (hlocal : ∀ {value t}, found = some (value, t ++ x) → found' = some (value, t ++ y))
    (h : (found.map fun (_, rest) => dropIdent rest) = some x) :
    (found'.map fun (_, rest) => dropIdent rest) = some y := by
  obtain ⟨⟨value, after⟩, hfound, hdrop⟩ := Option.map_eq_some_iff.mp h
  have hafter : x <:+ after := hdrop ▸ (dropIdent_ends after).suffix
  obtain ⟨t, rfl⟩ := hafter
  rw [hlocal hfound]
  exact congrArg some (dropIdent_local hy hdrop)

/-- A character and the suffix after it. -/
theorem character_local {family : Family} (hy : stopsIdent y = true)
    (h : (readCharBody family (w ++ x)).map dropIdent = some x) :
    (readCharBody family (w ++ y)).map dropIdent = some y := by
  obtain ⟨after, hfound, hdrop⟩ := Option.map_eq_some_iff.mp h
  have hafter : x <:+ after := hdrop ▸ (dropIdent_ends after).suffix
  obtain ⟨t, rfl⟩ := hafter
  rw [readCharBody_local hfound, Option.map_some, dropIdent_local hy hdrop]

/-- The first character of a literal belongs to it. -/
theorem exists_cons {c : Char} {rest : List Char} (h : w ++ x = c :: rest) (hx : x <:+ rest) :
    ∃ w', w = c :: w' ∧ rest = w' ++ x := by
  cases w with
  | nil =>
    rw [List.nil_append] at h
    exact (not_suffix_cons (t := []) (h ▸ hx)).elim
  | cons d w =>
    obtain ⟨rfl, rfl⟩ := List.cons.inj h
    exact ⟨w, rfl, rfl⟩

theorem exists_cons_cons {c d : Char} {rest : List Char} (h : w ++ x = c :: d :: rest)
    (hx : Reads rest x) : ∃ w', w = c :: d :: w' ∧ rest = w' ++ x := by
  obtain ⟨w, rfl, htail⟩ := exists_cons h hx.cons.suffix
  obtain ⟨w, rfl, rfl⟩ := exists_cons htail.symm hx.suffix
  exact ⟨w, rfl, rfl⟩

/-- A literal is read up to its end wherever it stands, unless what follows goes on with it. -/
theorem read_local {w x y : List Char} (hident : stopsIdent y = true) (hpound : y.head? ≠ some '#')
    (hnumber : w.head?.any Char.isDigit = true → stops y = true) (h : read (w ++ x) = some x) :
    read (w ++ y) = some y := by
  generalize htext : w ++ x = text at h
  unfold read at h
  dsimp only at h
  split at h
  · obtain ⟨w, rfl, rfl⟩ := exists_cons htext (quoted_reads readQuoted_reads h).suffix
    exact quoted_local hident readQuoted_local h
  · obtain ⟨w, rfl, rfl⟩ := exists_cons htext (quoted_reads readPounds_reads h).suffix
    exact quoted_local hident (readPounds_local hpound) h
  · obtain ⟨w, rfl, rfl⟩ := exists_cons_cons htext (quoted_reads readQuoted_reads h)
    exact quoted_local hident readQuoted_local h
  · obtain ⟨w, rfl, rfl⟩ := exists_cons_cons htext (quoted_reads readPounds_reads h)
    exact quoted_local hident (readPounds_local hpound) h
  · obtain ⟨w, rfl, rfl⟩ := exists_cons_cons htext (character_reads h)
    exact character_local hident h
  · obtain ⟨w, rfl, rfl⟩ := exists_cons_cons htext (quoted_reads readQuoted_reads h)
    exact quoted_local hident readQuoted_local h
  · obtain ⟨w, rfl, rfl⟩ := exists_cons_cons htext (quoted_reads readPounds_reads h)
    exact quoted_local hident (readPounds_local hpound) h
  · obtain ⟨w, rfl, rfl⟩ := exists_cons htext (character_reads h).suffix
    exact character_local hident h
  · obtain ⟨hhead, hreads⟩ := readNumber_reads h
    obtain ⟨c, rest, rfl⟩ := List.exists_cons_of_ne_nil hreads.ne_nil
    obtain ⟨w, rfl, rfl⟩ := exists_cons htext hreads.behind
    have hdigit : c.isDigit = true := hhead
    have hne {d : Char} (hd : d.isDigit = false) : c ≠ d := by
      rintro rfl
      simp [hd] at hdigit
    have hnumber := readNumber_local (List.cons_ne_nil c w) (hnumber hdigit) h
    rw [List.cons_append] at hnumber ⊢
    rw [← hnumber]
    exact Lexer.read_of_other (hne (by decide)) (hne (by decide)) (hne (by decide))
      (hne (by decide))
      (hne (by decide)) _

end Whole

end Observable.Literal
