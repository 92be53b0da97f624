import Mathlib.Data.List.Lex
/-! The bytes of a text: they can be read back, a character below 128 is one of them, and texts are
ordered as their bytes are. -/
namespace Observable

theorem fromUTF8?_eq_some {bytes : ByteArray} {text : String} :
    String.fromUTF8? bytes = some text ↔ bytes = text.toUTF8 := by
  unfold String.fromUTF8?
  constructor
  · intro h
    split at h
    · cases h
      rfl
    · cases h
  · rintro rfl
    rw [String.toUTF8_eq_toByteArray, dif_pos text.isValidUTF8]
    rfl

namespace Text

open String (utf8EncodeChar)

/-- The bytes of a text in the encoding of source files. -/
def bytes (text : String) : List UInt8 := text.toUTF8.data.toList

theorem bytes_eq (text : String) : bytes text = text.toList.flatMap utf8EncodeChar := by
  rw [bytes, String.toUTF8, ← String.utf8Encode_toList, List.utf8Encode]
  simp

theorem toNat_lt_limit (c : Char) : c.val.toNat < 0x110000 := by
  rcases c.valid with h | h <;> omega

/-- A byte below 128 stands for its character and is no part of another one. -/
theorem mem_utf8EncodeChar_iff {c : Char} {byte : UInt8} (h : byte.toNat < 128) :
    byte ∈ utf8EncodeChar c ↔ c.toNat = byte.toNat := by
  have hc := toNat_lt_limit c
  have hval : c.toNat = c.val.toNat := rfl
  have hbyte : ∀ k < 256, (UInt8.ofNat k).toNat = k := fun k hk => by simpa using hk
  rw [hval]
  simp only [utf8EncodeChar]
  generalize c.val.toNat = m at *
  split_ifs
  all_goals
    simp only [List.mem_cons, List.not_mem_nil, or_false, ← UInt8.toNat_inj]
    simp (disch := omega) only [hbyte]
    omega

/-- The first byte tells how many follow it, and each one has six bits of the character: of two
characters the smaller one has the smaller bytes, whatever comes after them. -/
theorem utf8EncodeChar_lt {c d : Char} (h : c < d) (x y : List UInt8) :
    utf8EncodeChar c ++ x < utf8EncodeChar d ++ y := by
  have hlt : c.val.toNat < d.val.toNat := h
  have hc := toNat_lt_limit c
  have hd := toNat_lt_limit d
  have hdigits : ∀ k, k / 4096 = k / 64 / 64 ∧ k / 262144 = k / 64 / 64 / 64 := fun k => by omega
  have hbyte : ∀ k < 256, (UInt8.ofNat k).toNat = k := fun k hk => by simpa using hk
  simp only [utf8EncodeChar]
  generalize c.val.toNat = m at *
  generalize d.val.toNat = n at *
  simp only [hdigits]
  split_ifs
  all_goals
    simp only [List.cons_append, List.nil_append, List.cons_lt_cons_iff, UInt8.lt_iff_toNat_lt,
      ← UInt8.toNat_inj]
    simp (disch := omega) only [hbyte]
    omega

theorem flatMap_utf8EncodeChar_lt {cs ds : List Char} (h : cs < ds) :
    cs.flatMap utf8EncodeChar < ds.flatMap utf8EncodeChar := by
  induction h with
  | @nil d ds =>
    cases hd : utf8EncodeChar d with
    | nil => exact absurd hd String.utf8EncodeChar_ne_nil
    | cons byte rest => simp [hd]
  | @cons c cs ds _ ih =>
    rw [List.flatMap_cons, List.flatMap_cons]
    exact List.append_left_lt ih
  | rel h => exact utf8EncodeChar_lt h _ _

theorem bytes_lt {a b : String} (h : a < b) : bytes a < bytes b := by
  rw [bytes_eq, bytes_eq]
  exact flatMap_utf8EncodeChar_lt (String.lt_iff.mp h)

/-- The order of texts is the order of their bytes. -/
theorem isLE_compare_iff {a b : String} : (compare a b).isLE = true ↔ bytes a ≤ bytes b := by
  have hle : (compare a b).isLE = true ↔ a ≤ b :=
    isLE_compareOfLessAndEq String.le_antisymm String.not_le String.le_total
  rw [hle]
  constructor
  · intro h
    rcases Std.le_iff_lt_or_eq.mp h with hlt | rfl
    · exact List.le_of_lt (bytes_lt hlt)
    · exact List.le_refl _
  · intro h
    refine String.not_lt.mp fun hlt => ?_
    exact h (bytes_lt hlt)

theorem compare_eq_lt_iff {a b : String} : compare a b = .lt ↔ bytes a < bytes b := by
  rw [← not_iff_not, List.not_lt, ← isLE_compare_iff,
    show compare b a = (compare a b).swap from Std.OrientedCmp.eq_swap]
  cases compare a b <;> decide

theorem bytes_injective {a b : String} (h : bytes a = bytes b) : a = b := by
  refine String.le_antisymm ?_ ?_
  all_goals
    refine String.not_lt.mp fun hlt => ?_
    exact List.lt_irrefl _ (h ▸ bytes_lt hlt)

/-- Rows of texts are ordered, text by text, as their bytes are. -/
theorem compare_list_eq_lt_iff {l l' : List String} :
    compare l l' = .lt ↔ l.map bytes < l'.map bytes := by
  rw [List.compare_eq_compareLex]
  induction l generalizing l' with
  | nil =>
    cases l' with
    | nil => rw [List.compareLex_nil_nil]; simp
    | cons b l' => rw [List.compareLex_nil_cons]; simp
  | cons a l ih =>
    cases l' with
    | nil => rw [List.compareLex_cons_nil]; simp
    | cons b l' =>
      have heq : compare a b = .eq ↔ bytes a = bytes b :=
        Std.LawfulEqOrd.compare_eq_iff_eq.trans ⟨congrArg bytes, bytes_injective⟩
      rw [List.compareLex_cons_cons, Ordering.then_eq_lt, List.map_cons, List.map_cons,
        List.cons_lt_cons_iff, ih, compare_eq_lt_iff, heq]

end Text

end Observable
