import Observable.Text.Printable
import Observable.Token.Literal
/-! The quoted form of a text is read back as that text. -/
namespace Observable.Literal

open Text

theorem hexDigitValue_digitChar {d : Nat} (h : d < 16) : hexDigitValue d.digitChar = d := by
  have hall : ∀ d : Fin 16, hexDigitValue d.val.digitChar = d.val := by decide
  exact hall ⟨d, h⟩

theorem isHexDigit_digitChar {d : Nat} (h : d < 16) : isHexDigit d.digitChar = true := by
  have hall : ∀ d : Fin 16, isHexDigit d.val.digitChar = true := by decide
  exact hall ⟨d, h⟩

theorem hexDigits_isHexDigit (n : Nat) : ∀ c ∈ hexDigits n, isHexDigit c = true := by
  induction n using Nat.strongRecOn with
  | _ n ih =>
    by_cases hn : n < 16
    · rw [hexDigits, Nat.toDigits_of_lt_base hn]
      simpa using isHexDigit_digitChar hn
    · rw [hexDigits, Nat.toDigits_of_base_le (by decide) (Nat.le_of_not_lt hn)]
      intro c hc
      rcases List.mem_append.mp hc with hc | hc
      · exact ih (n / 16) (by omega) c hc
      · rw [List.mem_singleton.mp hc]
        exact isHexDigit_digitChar (Nat.mod_lt n (by decide))

theorem hexValue_hexDigits (n : Nat) : hexValue (hexDigits n) = n := by
  induction n using Nat.strongRecOn with
  | _ n ih =>
    by_cases hn : n < 16
    · rw [hexDigits, Nat.toDigits_of_lt_base hn]
      simpa [hexValue] using hexDigitValue_digitChar hn
    · have hlast := hexDigitValue_digitChar (Nat.mod_lt n (by decide : 0 < 16))
      have hfront := ih (n / 16) (by omega)
      rw [hexValue, hexDigits] at hfront
      rw [hexValue, hexDigits, Nat.toDigits_of_base_le (by decide) (Nat.le_of_not_lt hn),
        List.foldl_append, hfront, List.foldl_cons, List.foldl_nil, hlast]
      omega

theorem step_plain (c : Char) :
    step .text .plain c = if c = '\\' then some (.backslash, [])
      else if c = '\r' then some (.lineBreak, []) else some (.plain, [c]) := rfl

/-- One character between the quotes that does not close them. -/
theorem readQuoted_cons {state state' : Escape} {c : Char} {out : List Char} (hc : c ≠ '"')
    (h : step .text state c = some (state', out)) (rest : List Char) :
    readQuoted .text state (c :: rest)
      = (readQuoted .text state' rest).map fun (text, tail) => (out ++ text, tail) := by
  simp [readQuoted, hc, h]

theorem readQuoted_silent {state state' : Escape} {c : Char} (hc : c ≠ '"')
    (h : step .text state c = some (state', [])) (rest : List Char) :
    readQuoted .text state (c :: rest) = readQuoted .text state' rest := by
  rw [readQuoted_cons hc h]
  exact Option.map_id'

/-- A simple escape stands for its character. -/
theorem readQuoted_simpleEscape {e d : Char} (h : simpleEscape .text e = some d)
    (rest : List Char) :
    readQuoted .text .plain ('\\' :: e :: rest)
      = (readQuoted .text .plain rest).map fun (text, tail) => (d :: text, tail) := by
  have hstep : step .text .backslash e = some (.plain, [d]) := by simp only [step, h]
  rw [readQuoted_silent (by decide) rfl]
  simp [readQuoted, hstep]

/-- The digits between the braces of an escape, up to the closing brace. -/
theorem readQuoted_unicode {digits : List Char} (hdigits : ∀ c ∈ digits, isHexDigit c = true)
    (value count : Nat) (hcount : count + digits.length ≤ 6) (hsome : 0 < count + digits.length)
    {n : Nat} (hn : digits.foldl (fun n c => 16 * n + hexDigitValue c) value = n)
    (hscalar : isScalar n = true) (rest : List Char) :
    readQuoted .text (.unicode value count) (digits ++ '\x7d' :: rest)
      = (readQuoted .text .plain rest).map fun (text, tail) => (Char.ofNat n :: text, tail) := by
  induction digits generalizing value count with
  | nil =>
    have hcount : count ≠ 0 := Nat.pos_iff_ne_zero.mp hsome
    obtain rfl : value = n := hn
    simp [readQuoted, step, hcount, hscalar, admitsValue]
  | cons d digits ih =>
    simp only [List.length_cons] at hcount
    have hd : isHexDigit d = true := hdigits d List.mem_cons_self
    have hunder : d ≠ '_' := by rintro rfl; exact absurd hd (by decide)
    have hclose : d ≠ '\x7d' := by rintro rfl; exact absurd hd (by decide)
    have hquote : d ≠ '"' := by rintro rfl; exact absurd hd (by decide)
    have hlt : count < 6 := by omega
    have hstep : step .text (.unicode value count) d
        = some (.unicode (16 * value + hexDigitValue d) (count + 1), []) := by
      simp [step, hunder, hclose, hd, hlt]
    rw [List.cons_append, readQuoted_silent hquote hstep]
    exact ih (fun c hc => hdigits c (List.mem_cons_of_mem d hc)) _ _ (by omega) (by omega) hn

theorem isScalar_toNat (c : Char) : isScalar c.toNat = true := by
  have hvalid : c.toNat < 0xd800 ∨ 0xdfff < c.toNat ∧ c.toNat < 0x110000 := c.valid
  simpa [isScalar] using hvalid

theorem hexDigits_length_le (c : Char) : (hexDigits c.toNat).length ≤ 6 := by
  have hvalid : c.toNat < 0xd800 ∨ 0xdfff < c.toNat ∧ c.toNat < 0x110000 := c.valid
  rw [hexDigits, Nat.length_toDigits_le_iff (by decide) (by decide)]
  omega

/-- A character in its quoted spelling stands for itself. -/
theorem readQuoted_quotedChar (c : Char) (next : Option Char) (rest : List Char) :
    readQuoted .text .plain (quotedChar c next ++ rest)
      = (readQuoted .text .plain rest).map fun (text, tail) => (c :: text, tail) := by
  by_cases hnull : c = '\x00'
  · subst hnull
    simp only [quotedChar, if_true]
    split
    · change readQuoted .text .plain ('\\' :: 'x' :: '0' :: '0' :: rest) = _
      rw [readQuoted_silent (by decide) rfl, readQuoted_silent (by decide) rfl,
        readQuoted_silent (by decide) rfl, readQuoted_cons (by decide) rfl]
      rfl
    · exact readQuoted_simpleEscape rfl rest
  by_cases htab : c = '\t'
  · subst htab
    exact readQuoted_simpleEscape rfl rest
  by_cases hreturn : c = '\r'
  · subst hreturn
    exact readQuoted_simpleEscape rfl rest
  by_cases hfeed : c = '\n'
  · subst hfeed
    exact readQuoted_simpleEscape rfl rest
  by_cases hslash : c = '\\'
  · subst hslash
    exact readQuoted_simpleEscape rfl rest
  by_cases hquote : c = '"'
  · subst hquote
    exact readQuoted_simpleEscape rfl rest
  simp only [quotedChar, hnull, htab, hreturn, hfeed, hslash, hquote, decide_false, Bool.or_self,
    Bool.false_eq_true, if_false]
  split
  · have hstep : step .text .plain c = some (.plain, [c]) := by
      simp only [step_plain, hslash, hreturn, if_false]
    exact readQuoted_cons hquote hstep rest
  · have hdigits := readQuoted_unicode (hexDigits_isHexDigit c.toNat) 0 0
      (by rw [Nat.zero_add]; exact hexDigits_length_le c)
      (by rw [Nat.zero_add]; exact List.length_pos_iff.mpr Nat.toDigits_ne_nil)
      (hexValue_hexDigits c.toNat) (isScalar_toNat c) rest
    rw [Char.ofNat_toNat] at hdigits
    simp only [List.cons_append, List.nil_append, List.append_assoc]
    rw [readQuoted_silent (by decide) rfl, readQuoted_silent (by decide) rfl,
      readQuoted_silent (by decide) rfl, hdigits]

/-- The body of a quoted text is read as that text. -/
theorem readQuoted_quotedBody (text tail : List Char) :
    readQuoted .text .plain (quotedBody text ++ '"' :: tail) = some (text, tail) := by
  induction text with
  | nil => simp [quotedBody, readQuoted]
  | cons c text ih =>
    rw [quotedBody, List.append_assoc, readQuoted_quotedChar, ih]
    rfl

/-- The value of a quoted text is that text. -/
theorem stringValue?_quoted (text : List Char) : stringValue? (quoted text) = some text := by
  simp only [stringValue?, form, quoted, readQuoted_quotedBody]

/-- A quoted text ends at its quote, unless an identifier is right after it. -/
theorem read_quoted (text : List Char) {next : List Char} (h : dropIdent next = next) :
    read (quoted text ++ next) = some next := by
  simp [read, quoted, readQuoted_quotedBody, h]

end Observable.Literal
