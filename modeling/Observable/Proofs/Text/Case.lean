import Observable.Proofs.Text.Words
import Observable.Token.Lexer
/-! The characters of identifiers, and that none of them becomes a blank or the mark of a comment
when it is written in another case. -/
namespace Observable.Text

open Lexer (isBlank)

/-- The blanks, `#` and `/`, and the byte order mark: the bounds of their code points. -/
def inkless : List (Nat × Nat) :=
  [(0x9, 0xD), (0x20, 0x20), (0x23, 0x23), (0x2F, 0x2F), (0x85, 0x85), (0xA0, 0xA0),
    (0x1680, 0x1680), (0x2000, 0x200A), (0x200E, 0x200F), (0x2028, 0x2029), (0x202F, 0x202F),
    (0x205F, 0x205F), (0x3000, 0x3000), (0xFEFF, 0xFEFF)]

/-- Whether a character is none of these. -/
def isInk (c : Char) : Bool := inkless.all fun gap => c.toNat < gap.1 || gap.2 < c.toNat

theorem isInk_iff {c : Char} :
    isInk c = true ↔ ∀ gap ∈ inkless, c.toNat < gap.1 ∨ gap.2 < c.toNat := by
  simp [isInk]

theorem ne_of_isInk {c : Char} (h : isInk c = true) :
    isBlank c = false ∧ c ≠ '/' ∧ c ≠ '#' ∧ c ≠ '\ufeff' := by
  have heq : ∀ d : Char, c = d ↔ c.toNat = d.toNat := fun d => Char.toNat_inj.symm
  have hle : ∀ a b : Char, a ≤ b ↔ a.toNat ≤ b.toNat := fun _ _ => Iff.rfl
  have hcodes := isInk_iff.mp h
  simp only [inkless, List.forall_mem_cons] at hcodes
  simp only [isBlank, Bool.or_eq_false_iff, Bool.and_eq_false_iff, decide_eq_false_iff_not, ne_eq,
    heq, hle, Char.reduceToNat]
  omega

/-! Sets of code points, a line of their ranges at a time. -/

/-- The ranges that a line tells of. -/
def lineRanges (line : List Char) : List CodeRange := (line.splitOn ' ').map CodeRange.read

theorem codeRanges_eq (lines : List String) :
    codeRanges lines = lines.flatMap fun line => lineRanges line.toList := by
  rw [codeRanges, words, List.map_flatMap]
  rfl

theorem all_codeRanges_nil (p : CodeRange → Bool) : (codeRanges []).all p = true := rfl

/-- The line is given by its characters, so that no text has to be decoded. -/
theorem all_codeRanges_cons {p : CodeRange → Bool} {line : List Char} {lines : List String}
    (hline : (lineRanges line).all p = true) (hlines : (codeRanges lines).all p = true) :
    (codeRanges (String.ofList line :: lines)).all p = true := by
  rw [codeRanges_eq] at hlines ⊢
  rw [List.flatMap_cons, List.all_append, String.toList_ofList, hline, hlines]
  rfl

/-- Whether a range lies between the code points without ink. -/
def CodeRange.isInk (r : CodeRange) : Bool := inkless.all fun gap => r.high < gap.1 || gap.2 < r.low

theorem isInk_of_inRanges {ranges : List CodeRange} (hranges : ranges.all CodeRange.isInk = true)
    {c : Char} (h : inRanges ranges c = true) : isInk c = true := by
  obtain ⟨r, hr, hcontains⟩ := List.any_eq_true.mp h
  simp only [CodeRange.contains, Bool.and_eq_true, decide_eq_true_eq] at hcontains
  refine isInk_iff.mpr fun gap hgap => ?_
  have hpast := List.all_eq_true.mp (List.all_eq_true.mp hranges r hr) gap hgap
  simp only [Bool.or_eq_true, decide_eq_true_eq] at hpast
  omega

theorem startRanges_isInk : startRanges.all CodeRange.isInk = true := by
  unfold startRanges
  -- A line is matched as it stands: comparing it by its bytes costs as much as the check.
  repeat with_reducible refine all_codeRanges_cons (by decide +kernel) ?_
  exact all_codeRanges_nil _

theorem followRanges_isInk : followRanges.all CodeRange.isInk = true := by
  unfold followRanges
  repeat with_reducible refine all_codeRanges_cons (by decide +kernel) ?_
  exact all_codeRanges_nil _

/-- A fact about an ASCII character, by evaluation. -/
theorem forall_ascii {p : Char → Bool} (h : (List.range 128).all (fun n => p (Char.ofNat n)) = true)
    {c : Char} (hc : c.toNat < 128) : p c = true := by
  have hp := List.all_eq_true.mp h c.toNat (List.mem_range.mpr hc)
  rwa [Char.ofNat_toNat] at hp

theorem isInk_of_isIdentContinue {c : Char} (h : isIdentContinue c = true) : isInk c = true := by
  unfold isIdentContinue at h
  split at h
  · rename_i hc
    have hascii : (!(c.isAlphanum || c == '_') || isInk c) = true :=
      forall_ascii (p := fun c => !(c.isAlphanum || c == '_') || isInk c) (by decide +kernel) hc
    simpa [h] using hascii
  · rcases Bool.or_eq_true .. ▸ h with h | h
    · exact isInk_of_inRanges startRanges_isInk h
    · exact isInk_of_inRanges followRanges_isInk h

/-! Changes of case. -/

/-- Whether a run lies between the code points without ink in its other case. -/
def CaseShift.isInk (s : CaseShift) : Bool :=
  inkless.all fun gap => s.range.high + s.delta < gap.1 || gap.2 < s.range.low + s.delta

theorem CaseShift.toNat_apply (s : CaseShift) (c : Char) :
    (s.apply c).toNat = 0 ∨ ((s.apply c).toNat : Int) = c.toNat + s.delta := by
  let code := ((c.toNat : Int) + s.delta).toNat
  show (Char.ofNat code).toNat = 0 ∨ ((Char.ofNat code).toNat : Int) = c.toNat + s.delta
  by_cases hvalid : code.isValidChar
  · have hcode : (Char.ofNatAux code hvalid).toNat = code := UInt32.toNat_ofNatLT ..
    rw [Char.ofNat, dif_pos hvalid, hcode]
    omega
  · rw [Char.ofNat, dif_neg hvalid]
    exact .inl rfl

theorem CaseShift.isInk_apply {s : CaseShift} (hs : s.isInk = true) {c : Char}
    (h : s.range.contains c.toNat = true) : Text.isInk (s.apply c) = true := by
  simp only [CodeRange.contains, Bool.and_eq_true, decide_eq_true_eq] at h
  refine isInk_iff.mpr fun gap hgap => ?_
  have hpast := List.all_eq_true.mp hs gap hgap
  simp only [Bool.or_eq_true, decide_eq_true_eq] at hpast
  rcases s.toNat_apply c with hzero | hcode
  · rw [hzero]
    have hnull : ∀ gap ∈ inkless, 0 < gap.1 := by decide
    exact .inl (hnull gap hgap)
  · omega

/-- The tables of a change of case lead to no code point of them. -/
theorem all_isInk_mapped {expansions : List CaseExpansion} {shifts : List CaseShift}
    (he : expansions.all (·.result.all isInk) = true) (hs : shifts.all CaseShift.isInk = true)
    {c : Char} (h : isInk c = true) : (mapped expansions shifts c).all isInk = true := by
  unfold mapped
  split
  · rename_i e hfind
    exact List.all_eq_true.mp he e (List.mem_of_find?_eq_some hfind)
  · split
    · rename_i s hfind
      have hshift := List.all_eq_true.mp hs s (List.mem_of_find?_eq_some hfind)
      have hrange : s.range.contains c.toNat = true := by simpa using List.find?_some hfind
      have happly := CaseShift.isInk_apply hshift hrange
      simpa using happly
    · simpa using h

theorem all_isInk_upperChars {c : Char} (h : isInk c = true) :
    (upperChars c).all isInk = true := by
  unfold upperChars
  split
  · rename_i hc
    have hascii := forall_ascii (p := fun c => !isInk c || isInk c.toUpper) (by decide +kernel) hc
    simpa [h] using hascii
  · exact all_isInk_mapped (by decide +kernel) (by decide +kernel) h

theorem all_isInk_lowerChars {c : Char} (h : isInk c = true) :
    (lowerChars c).all isInk = true := by
  unfold lowerChars
  split
  · rename_i hc
    have hascii := forall_ascii (p := fun c => !isInk c || isInk c.toLower) (by decide +kernel) hc
    simpa [h] using hascii
  · exact all_isInk_mapped (by decide +kernel) (by decide +kernel) h

theorem all_isInk_lowerTextAfter {text : List Char} (h : text.all isInk = true)
    (before : List Char) : (lowerTextAfter before text).all isInk = true := by
  induction text generalizing before with
  | nil => rfl
  | cons c rest ih =>
    simp only [List.all_cons, Bool.and_eq_true] at h
    rw [lowerTextAfter, List.all_append, ih h.2, Bool.and_true]
    split_ifs
    · decide
    · decide
    · exact all_isInk_lowerChars h.1

/-- The words of a name have no characters but its own. -/
theorem all_isInk_nameWords {text : List Char} (h : text.all isInk = true) :
    ∀ word ∈ nameWords text, word.all isInk = true := by
  have hletters : ∀ l ∈ letters text, ∀ c ∈ l, isInk c = true := by
    intro l hl c hc
    refine List.all_eq_true.mp h c ?_
    rw [← flatten_letters text]
    exact List.mem_flatten_of_mem hl hc
  intro word hword
  refine List.all_eq_true.mpr fun c hc => ?_
  have hflat : c ∈ (nameWords text).flatten := List.mem_flatten_of_mem hword hc
  rw [nameWords, flatten_splitWords] at hflat
  obtain ⟨l, hl, hcl⟩ := List.mem_flatten.mp hflat
  exact hletters l (List.mem_filter.mp hl).1 c hcl

/-- A name in lower case with underscores. -/
theorem all_isInk_snakeCase {text : List Char} (h : text.all isInk = true) :
    (snakeCase text).all isInk = true := by
  rw [snakeCase]
  split
  · rfl
  · have hwords : ∀ word ∈ (nameWords text).map lowerText, word.all isInk = true := by
      intro word hword
      obtain ⟨w, hw, rfl⟩ := List.mem_map.mp hword
      exact all_isInk_lowerTextAfter (all_isInk_nameWords h w hw) []
    generalize (nameWords text).map lowerText = all at hwords
    induction all with
    | nil => rfl
    | cons w rest ih =>
      obtain ⟨hw, hrest⟩ := List.forall_mem_cons.mp hwords
      cases rest with
      | nil => simpa [List.intercalate] using hw
      | cons v rest =>
        have hmark : ['_'].all isInk = true := by decide
        rw [List.intercalate_cons_cons, List.all_append, List.all_append, hw, hmark, ih hrest]
        rfl

end Observable.Text
