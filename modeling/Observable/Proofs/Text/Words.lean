import Mathlib.Data.List.Basic
import Observable.Text.Words
/-! What a name keeps when it is written in lower case with underscores. -/
namespace Observable.Text

/-- Whether a character cannot be a separator of words. -/
def isSolid (c : Char) : Bool := c != '_' && c != '-' && c != ' '

/-- A character in lower case; a capital sigma has two forms, of which this is one. -/
def lowered (c : Char) : List Char := if c = 'Σ' then ['σ'] else lowerChars c

/-- The number of characters of a text in lower case, separators apart. -/
def solidCount (text : List Char) : Nat := (text.flatMap lowered).countP isSolid

theorem solidCount_append (a b : List Char) :
    solidCount (a ++ b) = solidCount a + solidCount b := by
  rw [solidCount, List.flatMap_append, List.countP_append]
  rfl

/-- A character, the two forms of a small sigma being one. -/
def withoutFinal (c : Char) : Char := if c = 'ς' then 'σ' else c

/-- The characters of a text that cannot be separators, up to the form of a sigma. -/
def solids (text : List Char) : List Char := (text.filter isSolid).map withoutFinal

@[simp] theorem solids_nil : solids [] = [] := rfl

@[simp] theorem solids_append (a b : List Char) : solids (a ++ b) = solids a ++ solids b := by
  simp [solids]

theorem length_solids (text : List Char) : (solids text).length = text.countP isSolid := by
  rw [solids, List.length_map, List.countP_eq_length_filter]

/-- The characters of a text in lower case, separators apart. -/
def loweredSolids (text : List Char) : List Char := solids (text.flatMap lowered)

@[simp] theorem loweredSolids_append (a b : List Char) :
    loweredSolids (a ++ b) = loweredSolids a ++ loweredSolids b := by
  simp [loweredSolids]

private theorem solids_lowerTextAfter (before text : List Char) :
    solids (lowerTextAfter before text) = loweredSolids text := by
  induction text generalizing before with
  | nil => rfl
  | cons c rest ih =>
    have hhead : solids (if c = 'Σ' then
        if meetsCased before && !meetsCased rest then ['ς'] else ['σ']
        else lowerChars c) = solids (lowered c) := by
      by_cases hc : c = 'Σ'
      · rw [lowered, if_pos hc, if_pos hc]
        split_ifs <;> decide
      · rw [lowered, if_neg hc, if_neg hc]
    rw [lowerTextAfter, solids_append, hhead, ih, loweredSolids, loweredSolids, List.flatMap_cons,
      solids_append]

theorem solids_lowerText (text : List Char) : solids (lowerText text) = loweredSolids text :=
  solids_lowerTextAfter [] text

theorem flatten_letters (text : List Char) : (letters text).flatten = text := by
  induction text with
  | nil => rfl
  | cons c rest ih =>
    have happ : ∀ l ls, ((c :: l) :: ls).flatten = c :: (l :: ls).flatten := fun _ _ => rfl
    unfold letters
    split
    · rename_i hletters
      rw [hletters] at ih
      split
      · rw [happ, ih]
      · rw [happ, List.flatten_cons, List.nil_append, ih]
    · rw [happ, List.flatten_cons, List.nil_append, ih]

private theorem flatten_consLetter (l : List Char) (ws : List (List Char)) :
    (consLetter l ws).flatten = l ++ ws.flatten := by
  cases ws <;> simp [consLetter]

/-- The words of a row of letters are its letters without the separators. -/
theorem flatten_splitWords (ls : List (List Char)) :
    (splitWords ls).flatten = (ls.filter fun l => !isSeparator l).flatten := by
  induction ls using splitWords.induct with
  | case1 => rfl
  | case2 a ha => simp [splitWords, ha]
  | case3 a ha => simp [splitWords, ha]
  | case4 a b rest ha ih => simp [splitWords, ha, ih]
  | case5 a b rest ha hends ih => simp [splitWords, ha, hends, ih]
  | case6 a b rest ha hends ih => simp [splitWords, ha, hends, flatten_consLetter, ih]

private theorem loweredSolids_separator {l : List Char} (h : isSeparator l = true) :
    loweredSolids l = [] := by
  simp only [isSeparator, Bool.or_eq_true, beq_iff_eq] at h
  rcases h with (rfl | rfl) | rfl <;> rfl

private theorem loweredSolids_filter (ls : List (List Char)) :
    loweredSolids (ls.filter fun l => !isSeparator l).flatten = loweredSolids ls.flatten := by
  induction ls with
  | nil => rfl
  | cons l ls ih =>
    rw [List.filter_cons, List.flatten_cons, loweredSolids_append]
    by_cases h : isSeparator l
    · simp [h, ih, loweredSolids_separator h]
    · simp [h, ih]

theorem loweredSolids_nameWords (text : List Char) :
    loweredSolids (nameWords text).flatten = loweredSolids text := by
  rw [nameWords, flatten_splitWords, loweredSolids_filter, flatten_letters]

private theorem solids_intercalate (ws : List (List Char)) :
    solids (['_'].intercalate (ws.map lowerText)) = loweredSolids ws.flatten := by
  induction ws with
  | nil => rfl
  | cons w ws ih =>
    cases ws with
    | nil => simp [List.intercalate, solids_lowerText]
    | cons v ws =>
      have hmark : solids ['_'] = [] := by decide
      rw [List.map_cons, List.map_cons, List.intercalate_cons_cons, ← List.map_cons, solids_append,
        solids_append, ih, hmark, List.append_nil, solids_lowerText, ← loweredSolids_append]
      rfl

/-- A name in lower case with underscores has the characters of the name beside separators. -/
theorem solids_snakeCase (text : List Char) : solids (snakeCase text) = loweredSolids text := by
  rw [snakeCase]
  split_ifs with h
  · rw [List.isEmpty_iff.mp h]
    rfl
  · rw [solids_intercalate, loweredSolids_nameWords]

/-- A name in lower case with underscores has as many characters beside separators as the name. -/
theorem countP_snakeCase (text : List Char) :
    (snakeCase text).countP isSolid = solidCount text := by
  rw [← length_solids, solids_snakeCase, loweredSolids, length_solids, solidCount]

end Observable.Text
