import Observable.Proofs.Property.Usable
/-! Which property a field with a name in ASCII backs, if any, and which fields back the same
one. -/
namespace Observable

open Text (isIdentStart isIdentContinue isInk)

/-- The characters of a name in ASCII. -/
def isNameChar (c : Char) : Bool := c.isAlphanum || c = '_'

theorem toNat_lt_of_isNameChar {c : Char} (h : isNameChar c = true) : c.toNat < 128 := by
  rcases Bool.or_eq_true_iff.mp h with halphanum | hmark
  · rcases Bool.or_eq_true_iff.mp halphanum with halpha | hdigit
    · rcases Bool.or_eq_true_iff.mp halpha with hupper | hlower
      · exact Nat.lt_of_le_of_lt (of_decide_eq_true hupper).2 (by decide)
      · exact Nat.lt_of_le_of_lt (of_decide_eq_true (Bool.and_eq_true_iff.mp hlower).2) (by decide)
    · exact Nat.lt_of_le_of_lt (of_decide_eq_true (Bool.and_eq_true_iff.mp hdigit).2) (by decide)
  · rw [of_decide_eq_true hmark]
    decide

/-- A fact about the characters of names in ASCII, by evaluation. -/
theorem forall_isNameChar {p : Char → Bool}
    (h : (List.range 128).all (fun n => !isNameChar (Char.ofNat n) || p (Char.ofNat n)) = true)
    {c : Char} (hc : isNameChar c = true) : p c = true := by
  have hp := Text.forall_ascii (p := fun c => !isNameChar c || p c) h (toNat_lt_of_isNameChar hc)
  simpa [hc] using hp

theorem isIdentContinue_of_isNameChar {c : Char} (h : isNameChar c = true) :
    isIdentContinue c = true := forall_isNameChar (by decide +kernel) h

/-- A name in ASCII begins with anything but a digit. -/
theorem isIdentStart_eq {c : Char} (h : isNameChar c = true) : isIdentStart c = !c.isDigit := by
  have heq := forall_isNameChar (p := fun c => isIdentStart c == !c.isDigit) (by decide +kernel) h
  exact beq_iff_eq.mp heq

theorem isNameChar_toUpper {c : Char} (h : isNameChar c = true) : isNameChar c.toUpper = true :=
  forall_isNameChar (p := fun c => isNameChar c.toUpper) (by decide +kernel) h

theorem upperChars_eq {c : Char} (h : isNameChar c = true) : Text.upperChars c = [c.toUpper] := by
  rw [Text.upperChars, if_pos (toNat_lt_of_isNameChar h)]

theorem isDigit_toUpper {c : Char} (h : isNameChar c = true) : c.toUpper.isDigit = c.isDigit := by
  have heq := forall_isNameChar (p := fun c => c.toUpper.isDigit == c.isDigit) (by decide +kernel) h
  exact beq_iff_eq.mp heq

/-- Upper case forgets no more of a character than its case. -/
theorem toUpper_eq_iff {c d : Char} (hc : isNameChar c = true) (hd : isNameChar d = true) :
    c.toUpper = d.toUpper ↔ c.toLower = d.toLower := by
  have hlower {c : Char} (h : isNameChar c = true) : c.toUpper.toLower = c.toLower :=
    beq_iff_eq.mp (forall_isNameChar (p := fun c => c.toUpper.toLower == c.toLower)
      (by decide +kernel) h)
  have hupper {c : Char} (h : isNameChar c = true) : c.toLower.toUpper = c.toUpper :=
    beq_iff_eq.mp (forall_isNameChar (p := fun c => c.toLower.toUpper == c.toUpper)
      (by decide +kernel) h)
  constructor
  · intro h
    rw [← hlower hc, ← hlower hd, h]
  · intro h
    rw [← hupper hc, ← hupper hd, h]

namespace Property

/-- A name in ASCII is an identifier unless it begins with a digit or is a keyword. -/
theorem isIdentifier_iff {text : String} {first : Char} {rest : List Char}
    (htext : text.toList = first :: rest) (hname : text.toList.all isNameChar = true) :
    isIdentifier text = true ↔ first.isDigit = false ∧ text ∉ Grammar.reservedWords := by
  have hchars : isNameChar first = true ∧ rest.all isNameChar = true := by
    simpa [htext] using hname
  have hcontinue : ∀ c ∈ text.toList, isIdentContinue c = true := fun c hc =>
    isIdentContinue_of_isNameChar (List.all_eq_true.mp hname c hc)
  have hink : text.toList.all isInk = true :=
    List.all_eq_true.mpr fun c hc => Text.isInk_of_isIdentContinue (hcontinue c hc)
  constructor
  · intro h
    obtain ⟨hfree, hword⟩ := (isName_of_isIdentifier hink h).spelled
    obtain ⟨c, more, heq, hstart, -⟩ := Lexer.isName_cons (Bool.and_eq_true_iff.mp hword).1
    obtain ⟨rfl, -⟩ := List.cons.inj (htext.symm.trans heq)
    exact ⟨by simpa [isIdentStart_eq hchars.1] using hstart,
      by simpa [Grammar.isIdentifier_iff] using hfree⟩
  · rintro ⟨hdigit, hkeyword⟩
    have hword : Lexer.isWord false text = true := by
      have hstart : isIdentStart first = true := by rw [isIdentStart_eq hchars.1, hdigit]; rfl
      have hblank := (Text.ne_of_isInk (List.all_eq_true.mp hink first (by simp [htext]))).1
      have hrest : ∀ c ∈ rest, isIdentContinue c = true := fun c hc =>
        hcontinue c (by simp [htext, hc])
      simpa [Lexer.isWord, Lexer.isName, htext, hstart, hblank] using hrest
    obtain ⟨p, hp⟩ := isPlainName_iff.mpr ⟨hword, Grammar.isIdentifier_iff.mpr (.inr hkeyword)⟩
    exact Option.isSome_iff_exists.mpr ⟨_, hp⟩

/-- No keyword begins with an upper-case letter or a mark, but for two. -/
theorem mem_reservedWords_iff {word : String} (h : word.toList.head?.any Char.isLower = false) :
    word ∈ Grammar.reservedWords ↔ word = "_" ∨ word = "Self" := by
  have hwords : Grammar.reservedWords.filter (fun w => !w.toList.head?.any Char.isLower)
      = ["_", "Self"] := by decide +kernel
  rw [← List.mem_pair, ← hwords, List.mem_filter, h]
  simp

/-- What a field derives: its second character in upper case and the rest. -/
def derived (field : String) : String :=
  match field.toList with
  | _ :: second :: rest => String.ofList (second.toUpper :: rest)
  | _ => ""

/-- The fields that derive no identifier: a digit comes first, or the two keywords that do not begin
with a lower-case letter. -/
def DerivesNone (field : String) : Prop :=
  field.toList[1]?.any Char.isDigit = true ∨ field ∈ ["__", "_self", "_Self"]

instance (field : String) : Decidable (DerivesNone field) :=
  inferInstanceAs (Decidable (_ ∨ _))

/-- Two fields that differ in the case of the second character at most. -/
def SameButCase (field other : String) : Prop :=
  ∃ first second second' rest, field.toList = first :: second :: rest ∧
    other.toList = first :: second' :: rest ∧ second.toLower = second'.toLower

theorem derived_eq {field : String} {first second : Char} {rest : List Char}
    (h : field.toList = first :: second :: rest) :
    derived field = String.ofList (second.toUpper :: rest) := by
  rw [derived, h]

/-- The keywords that a field derives. -/
theorem derived_mem_reservedWords_iff {field : String} {second : Char} {rest : List Char}
    (h : field.toList = '_' :: second :: rest) (hsecond : isNameChar second = true) :
    derived field ∈ Grammar.reservedWords ↔ field ∈ ["__", "_self", "_Self"] := by
  have hupper : second.toUpper.isLower = false :=
    (Bool.not_eq_true' _).mp
      (forall_isNameChar (p := fun c => !c.toUpper.isLower) (by decide +kernel) hsecond)
  have hmark : second.toUpper = '_' ↔ second = '_' :=
    of_decide_eq_true (forall_isNameChar (p := fun c => decide (c.toUpper = '_' ↔ c = '_'))
      (by decide +kernel) hsecond)
  have hletter : second.toUpper = 'S' ↔ second = 's' ∨ second = 'S' :=
    of_decide_eq_true (forall_isNameChar
      (p := fun c => decide (c.toUpper = 'S' ↔ c = 's' ∨ c = 'S')) (by decide +kernel) hsecond)
  have hhead : (String.ofList (second.toUpper :: rest)).toList.head?.any Char.isLower = false := by
    rw [String.toList_ofList]
    exact hupper
  rw [derived_eq h, mem_reservedWords_iff hhead]
  simp only [← String.toList_inj, String.toList_ofList, List.mem_cons, List.not_mem_nil,
    or_false, h]
  simp only [String.reduceToList, List.cons.injEq, hmark, hletter, true_and, or_and_right]

/-- A field with the mark backs what it derives, if that is an identifier. -/
theorem nameOf_of_mark {field : String} {second : Char} {rest : List Char}
    (h : field.toList = '_' :: second :: rest) (hsecond : isNameChar second = true) :
    nameOf field =
      if isIdentifier (derived field) = true then .ok (derived field)
      else .error (.invalidIdentifier field (derived field)) := by
  simp only [nameOf, h, fieldMark, upperChars_eq hsecond, List.singleton_append, derived_eq h,
    ne_eq, not_true_eq_false, if_false]

theorem isIdentifier_derived_iff {field : String} {second : Char} {rest : List Char}
    (h : field.toList = '_' :: second :: rest) (hname : field.toList.all isNameChar = true) :
    isIdentifier (derived field) = true ↔ ¬DerivesNone field := by
  have hchars : isNameChar second = true ∧ rest.all isNameChar = true := by
    simp only [h, List.all_cons, Bool.and_eq_true] at hname
    exact hname.2
  have htext : (derived field).toList = second.toUpper :: rest := by
    rw [derived_eq h, String.toList_ofList]
  have hderived : (derived field).toList.all isNameChar = true := by
    rw [htext, List.all_cons, isNameChar_toUpper hchars.1, hchars.2]
    rfl
  rw [isIdentifier_iff htext hderived, isDigit_toUpper hchars.1,
    derived_mem_reservedWords_iff h hchars.1, DerivesNone, not_or]
  simp [h]

/-- Whether a field backs a property that another field backs shows in their characters. -/
theorem nameOf_eq_ok_iff_of_eq_ok {field other property : String}
    (hname : field.toList.all isNameChar = true) (hother : other.toList.all isNameChar = true)
    (h : nameOf field = .ok property) : nameOf other = .ok property ↔ SameButCase field other := by
  obtain ⟨second, rest, hfield, hproperty⟩ := nameOf_eq_ok h
  have hsecond : isNameChar second = true := List.all_eq_true.mp hname _ (by simp [hfield])
  rw [upperChars_eq hsecond] at hproperty
  constructor
  · intro h'
    obtain ⟨second', rest', hfield', hproperty'⟩ := nameOf_eq_ok h'
    have hsecond' : isNameChar second' = true := List.all_eq_true.mp hother _ (by simp [hfield'])
    rw [upperChars_eq hsecond', hproperty] at hproperty'
    obtain ⟨hupper, rfl⟩ := List.cons.inj hproperty'
    exact ⟨_, second, second', rest, hfield, hfield', (toUpper_eq_iff hsecond hsecond').mp hupper⟩
  · rintro ⟨first, c, second', more, hchars, hfield', hlower⟩
    obtain ⟨rfl, htail⟩ := List.cons.inj (hfield.symm.trans hchars)
    obtain ⟨rfl, rfl⟩ := List.cons.inj htail
    have hsecond' : isNameChar second' = true := List.all_eq_true.mp hother _ (by simp [hfield'])
    have hderived : derived other = property := by
      rw [derived_eq hfield', ← (toUpper_eq_iff hsecond hsecond').mpr hlower, ← String.toList_inj,
        String.toList_ofList, hproperty]
      rfl
    rw [nameOf_of_mark hfield' hsecond', hderived, if_pos (isIdentifier_of_nameOf h)]

/-- What a field in ASCII derives, by its length, its mark and what stands behind the mark; of two
fields of which one derives a property, the other derives the same exactly when they differ in the
case of the second character at most. -/
theorem nameOf_ascii_iff {field : String} (hname : field.toList.all isNameChar = true) :
    (nameOf field = .error (.tooShort field) ↔ field.length < 2) ∧
    (nameOf field = .error (.missingPrefix field) ↔
      2 ≤ field.length ∧ field.toList.head? ≠ some '_') ∧
    (nameOf field = .error (.invalidIdentifier field (derived field)) ↔
      2 ≤ field.length ∧ field.toList.head? = some '_' ∧ DerivesNone field) ∧
    (nameOf field = .ok (derived field) ↔
      2 ≤ field.length ∧ field.toList.head? = some '_' ∧ ¬DerivesNone field) ∧
    ∀ other property, other.toList.all isNameChar = true → nameOf field = .ok property →
      (nameOf other = .ok property ↔ SameButCase field other) := by
  rw [← String.length_toList]
  rcases h : field.toList with _ | ⟨first, _ | ⟨second, rest⟩⟩
  case nil => simp [nameOf, h]
  case cons.nil => simp [nameOf, h]
  case cons.cons =>
    by_cases hmark : first = '_'
    · subst hmark
      have hsecond : isNameChar second = true := List.all_eq_true.mp hname _ (by simp [h])
      have hresult := nameOf_of_mark h hsecond
      simp only [isIdentifier_derived_iff h hname] at hresult
      by_cases hnone : DerivesNone field
      · rw [if_neg (not_not.mpr hnone)] at hresult
        simp [hresult, hnone]
      · rw [if_pos hnone] at hresult
        exact ⟨by simp [hresult], by simp [hresult], by simp [hresult, hnone],
          by simp [hresult, hnone],
          fun _ _ hother hok => nameOf_eq_ok_iff_of_eq_ok hname hother hok⟩
    · have hresult : nameOf field = .error (.missingPrefix field) := by
        simp only [nameOf, h, fieldMark, ne_eq, hmark, not_false_eq_true, if_true]
      simp [hresult, hmark]

/-- A field that backs what the one with a capital letter backs, and one that derives a keyword. -/
theorem nameOf_ascii_iff_speed :
    "_speed".toList.all isNameChar = true ∧ "_self".toList.all isNameChar = true ∧
      nameOf "_speed" = .ok "Speed" ∧ nameOf "_Speed" = .ok "Speed" ∧
      nameOf "_self" = .error (.invalidIdentifier "_self" "Self") := by
  have hname : "_speed".toList.all isNameChar = true := by decide
  have hself : "_self".toList.all isNameChar = true := by decide
  obtain ⟨-, -, -, hok, hsame⟩ := nameOf_ascii_iff hname
  obtain ⟨-, -, hnone, -⟩ := nameOf_ascii_iff hself
  have hspeed : nameOf "_speed" = .ok "Speed" :=
    hok.mpr ⟨by decide, by decide, by decide⟩
  have hcapital : SameButCase "_speed" "_Speed" := ⟨'_', 's', 'S', "peed".toList, by decide⟩
  exact ⟨hname, hself, hspeed, (hsame _ _ (by decide) hspeed).mpr hcapital,
    hnone.mpr ⟨by decide, by decide, by decide⟩⟩

end Property

end Observable
