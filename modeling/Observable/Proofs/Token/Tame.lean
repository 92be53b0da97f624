import Observable.Proofs.Token.Eased
import Observable.Proofs.Token.Spelling
import Observable.Token.Spaced
/-! Rows of tokens whose plain text is read back as they are. -/
namespace Observable

open Lexer

/-- The operators of two characters. -/
def isPair (a b : Char) : Bool := [(':', ':'), ('-', '>'), ('!', '=')].contains (a, b)

/-- Whether a row begins with an operator in front of a type, which a space separates from a
colon. -/
def typeOperatorAhead : List Token → Bool
  | .punct c .alone _ :: _ => c = '&' || c = '*'
  | .punct c .joint _ :: .punct d .alone _ :: _ => c = ':' && d = ':'
  | _ => false

/-- The digits of a decimal integer. -/
def isDecimal : List Char → Bool
  | [] => false
  | c :: rest => c.isDigit && rest.all fun d => d.isDigit || d = '_'

/-- A literal as generated text holds it: quoted text or a decimal integer. -/
def IsLiteral (text : String) : Prop :=
  (∃ value, text.toList = Text.quoted value) ∨ isDecimal text.toList = true

/-- Rows of tokens that are read back from their text: operators have one or two characters,
literals end their row, and only attributes are marked. -/
inductive Tame : List Token → Prop
  | nil : Tame []
  | word {raw name p rest} (hword : isWord raw name = true) (h : Tame rest) :
      Tame (.ident raw name p :: rest)
  | literal {text p} (h : IsLiteral text) : Tame [.literal text p]
  | mark {c p rest} (hmark : isMark c = true) (hpound : c ≠ '#')
      (hnext : isSoft c = true ∨ noPunctAhead rest = true ∨
      (c = ':' ∧ typeOperatorAhead rest = true))
      (h : Tame rest) : Tame (.punct c .alone p :: rest)
  | pair {a b p q rest} (hpair : isPair a b = true)
      (hnext : isSoft b = true ∨ noPunctAhead rest = true) (h : Tame rest) :
      Tame (.punct a .joint p :: .punct b .alone q :: rest)
  | lifetime {name p q rest} (hword : isWord false name = true) (h : Tame rest) :
      Tame (.punct '\'' .joint p :: .ident false name q :: rest)
  | group {d body p q rest} (hd : d ≠ .invisible) (hbody : Tame body) (h : Tame rest) :
      Tame (.group d body p q :: rest)
  | attr {body p q r rest} (hbody : Tame body) (h : Tame rest) (hrest : rest ≠ []) :
      Tame (.punct '#' .alone p :: .group .bracket body q r :: rest)

namespace Lexer

/-- Whether a blank or a closing delimiter stands at the front of a text, or nothing. -/
def isEnd (next : List Char) : Bool := next.head?.all (" \n)]\x7d".toList.contains ·)

/-- A text that ends what stands before it. -/
theorem isEnd_cases {next : List Char} (h : isEnd next = true) :
    next = [] ∨ ∃ c rest, next = c :: rest ∧ c ∈ [' ', '\n', ')', ']', '\x7d'] := by
  cases next with
  | nil => exact .inl rfl
  | cons c rest => exact .inr ⟨c, rest, rfl, by simpa [isEnd] using h⟩

theorem stopsWord_of_isEnd {next : List Char} (h : isEnd next = true) : stopsWord next = true := by
  rcases isEnd_cases h with rfl | ⟨c, rest, rfl, hc⟩
  · rfl
  · have hall : ∀ c ∈ [' ', '\n', ')', ']', '\x7d'],
        (!Text.isIdentContinue c && c ≠ '"' && c ≠ '\'' && c ≠ '#') = true :=
      forall_mem_of_all (by decide +kernel)
    simpa [stopsWord] using hall c hc

theorem punctAhead_of_isEnd {next : List Char} (h : isEnd next = true) :
    punctAhead next = false := by
  rcases isEnd_cases h with rfl | ⟨c, rest, rfl, hc⟩
  · rfl
  · have hall : ∀ c ∈ [' ', '\n', ')', ']', '\x7d'], isPunct c = false :=
      forall_mem_of_all (by decide +kernel)
    simp [punctAhead, hall c hc]

theorem dropIdent_of_isEnd {next : List Char} (h : isEnd next = true) :
    Literal.dropIdent next = next := by
  rcases isEnd_cases h with rfl | ⟨c, rest, rfl, hc⟩
  · rfl
  · have hall : ∀ c ∈ [' ', '\n', ')', ']', '\x7d'], Text.isIdentStart c = false :=
      forall_mem_of_all (by decide +kernel)
    simp [Literal.dropIdent, hall c hc]

theorem isEnd_closing {d : Delimiter} (hd : d ≠ .invisible) (text : List Char) :
    isEnd (d.closing.toList ++ text) = true := by
  cases d with
  | invisible => exact absurd rfl hd
  | _ => rfl

end Lexer

namespace Literal

theorem hexDigitValue_lt_of_isDigit {c : Char} (h : c.isDigit = true) :
    Text.hexDigitValue c < 10 := by
  have hrange : '0' ≤ c ∧ c ≤ '9' := by
    simp only [Char.isDigit, Bool.and_eq_true, decide_eq_true_eq] at h
    exact h
  have hcode : 48 ≤ c.toNat ∧ c.toNat ≤ 57 := hrange
  have hzero : '0'.toNat = 48 := rfl
  rw [Text.hexDigitValue, if_pos (by simpa using hrange), hzero]
  omega

/-- A digit or an underscore, as a decimal integer has them after its first digit. -/
def isDigitOrMark (c : Char) : Bool := c.isDigit || c = '_'

theorem readDecimal_digits {digits next : List Char} (hdigits : digits.all isDigitOrMark = true)
    (h : isEnd next = true) : readDecimal false (digits ++ next) = none := by
  induction digits with
  | nil =>
    rcases isEnd_cases h with rfl | ⟨c, rest, rfl, hc⟩
    · rfl
    · have hall : ∀ c ∈ [' ', '\n', ')', ']', '\x7d'], c.isDigit = false ∧ c ≠ '_' ∧ c ≠ '.' ∧
          c ≠ 'e' ∧ c ≠ 'E' := forall_mem_of_all (by decide +kernel)
      obtain ⟨hdigit, hunder, hpoint, he, hE⟩ := hall c hc
      simp [readDecimal, hdigit, hunder, hpoint, he, hE]
  | cons d digits ih =>
    simp only [List.all_cons, Bool.and_eq_true] at hdigits
    have hd : (d.isDigit || decide (d = '_')) = true := hdigits.1
    rw [List.cons_append, readDecimal, if_pos hd]
    exact ih hdigits.2

theorem readDigits_digits {digits next : List Char} (hdigits : digits.all isDigitOrMark = true)
    (h : isEnd next = true) : readDigits 10 true (digits ++ next) = some next := by
  induction digits with
  | nil =>
    rcases isEnd_cases h with rfl | ⟨c, rest, rfl, hc⟩
    · rfl
    · have hall : ∀ c ∈ [' ', '\n', ')', ']', '\x7d'], c.isDigit = false ∧ c ≠ '_' ∧
          isHexDigit c = false := forall_mem_of_all (by decide +kernel)
      obtain ⟨hdigit, hunder, hhex⟩ := hall c hc
      simp [readDigits, hdigit, hunder, hhex]
  | cons d digits ih =>
    simp only [List.all_cons, Bool.and_eq_true, isDigitOrMark, Bool.or_eq_true,
      decide_eq_true_eq] at hdigits
    rw [List.cons_append, readDigits]
    rcases hdigits.1 with hd | rfl
    · rw [if_pos hd, if_pos (hexDigitValue_lt_of_isDigit hd)]
      exact ih hdigits.2
    · rw [if_neg (by decide), if_pos rfl, if_neg (by decide)]
      exact ih hdigits.2

theorem splitBase_digits {c : Char} {digits next : List Char}
    (hdigits : digits.all isDigitOrMark = true) (h : isEnd next = true) :
    splitBase (c :: digits ++ next) = (10, c :: digits ++ next) := by
  have hfirst : ∀ d rest, digits ++ next = d :: rest → d ≠ 'x' ∧ d ≠ 'o' ∧ d ≠ 'b' := by
    intro d rest heq
    cases digits with
    | nil =>
      rcases isEnd_cases h with rfl | ⟨e, rest', rfl, he⟩
      · cases heq
      · obtain ⟨rfl, -⟩ := List.cons.inj heq
        have hall : ∀ c ∈ [' ', '\n', ')', ']', '\x7d'], c ≠ 'x' ∧ c ≠ 'o' ∧ c ≠ 'b' :=
          forall_mem_of_all (by decide +kernel)
        exact hall e he
    | cons e digits =>
      obtain ⟨rfl, -⟩ := List.cons.inj heq
      simp only [List.all_cons, Bool.and_eq_true] at hdigits
      refine ⟨?_, ?_, ?_⟩ <;> rintro rfl <;> exact absurd hdigits.1 (by decide)
  unfold splitBase
  split <;> rename_i heq <;> first | rfl | obtain ⟨-, heq⟩ := List.cons.inj heq
  · exact absurd rfl (hfirst _ _ heq).1
  · exact absurd rfl (hfirst _ _ heq).2.1
  · exact absurd rfl (hfirst _ _ heq).2.2

theorem numberForm_ne_string (text value : List Char) :
    numberForm text ≠ .string value := by
  rw [numberForm]
  split <;> simp

/-- A number has no text. -/
theorem stringValue?_decimal {text : List Char} (h : isDecimal text = true) :
    stringValue? text = none := by
  cases text with
  | nil => cases h
  | cons c digits =>
    simp only [isDecimal, Bool.and_eq_true] at h
    have hform : Literal.form (c :: digits) = numberForm (c :: digits) := by
      unfold Literal.form
      split <;> rename_i heq
      all_goals first
        | (obtain ⟨rfl, -⟩ := List.cons.inj heq; exact absurd h.1 (by decide))
        | skip
      · obtain ⟨rfl, -⟩ := List.cons.inj heq
        rw [if_pos h.1]
      · cases heq
    rw [stringValue?, hform]
    split
    · rename_i heq
      exact absurd heq (numberForm_ne_string _ _)
    · rfl

end Literal

/-- A decimal integer is read up to its last digit. -/
theorem Literal.read_decimal {text next : List Char} (hdecimal : isDecimal text = true)
    (h : isEnd next = true) :
    ∃ c digits, text = c :: digits ∧ c.isDigit = true ∧ Literal.read (text ++ next)
      = some next := by
  cases text with
  | nil => cases hdecimal
  | cons c digits =>
    simp only [isDecimal, Bool.and_eq_true] at hdecimal
    obtain ⟨hc, hdigits⟩ := hdecimal
    have hdigits : digits.all isDigitOrMark = true := hdigits
    have hvalue : (c :: digits).all isDigitOrMark = true := by simp [isDigitOrMark, hc, hdigits]
    have hdecimal := readDecimal_digits hvalue h
    have hread : readDigits 10 false (c :: digits ++ next) = some next := by
      rw [List.cons_append, readDigits, if_pos hc, if_pos (hexDigitValue_lt_of_isDigit hc)]
      exact readDigits_digits hdigits h
    have hclose : closeNumber next = some next := by
      rw [closeNumber, dropIdent_of_isEnd h]
      have hstop := stopsWord_of_isEnd h
      cases next with
      | nil => rfl
      | cons d rest =>
        simp only [stopsWord, List.head?_cons, Option.all_some, Bool.and_eq_true] at hstop
        have hd : Text.isIdentContinue d = false := by simpa using hstop.1.1.1
        simp [hd]
    have hnumber : readNumber (c :: digits ++ next) = some next := by
      rw [readNumber, splitBase_digits hdigits h]
      simp only [List.cons_append, List.head?_cons, Option.any_some, hc, if_true]
        at hdecimal hread ⊢
      simp only [hdecimal, hread, Option.bind_none, Option.bind_some, hclose]
    refine ⟨c, digits, rfl, hc, ?_⟩
    rw [← hnumber]
    exact read_of_other (by rintro rfl; exact absurd hc (by decide))
      (by rintro rfl; exact absurd hc (by decide)) (by rintro rfl; exact absurd hc (by decide))
      (by rintro rfl; exact absurd hc (by decide)) (by rintro rfl; exact absurd hc (by decide)) _

/-- A literal of generated text is read up to its end. -/
theorem IsLiteral.read {text : String} (hliteral : IsLiteral text) {next : List Char}
    (h : isEnd next = true) :
    ∃ c lit, text.toList = c :: lit ∧ (c = '"' ∨ c.isDigit = true) ∧
      Literal.read (c :: lit ++ next) = some next := by
  rcases hliteral with ⟨value, hvalue⟩ | hdecimal
  · refine ⟨'"', Text.quotedBody value ++ ['"'], hvalue, .inl rfl, ?_⟩
    exact Literal.read_quoted value (dropIdent_of_isEnd h)
  · obtain ⟨c, digits, htext, hc, hread⟩ := Literal.read_decimal hdecimal h
    exact ⟨c, digits, htext, .inr hc, htext ▸ hread⟩

theorem isPair_marks {a b : Char} (h : isPair a b = true) :
    isMark a = true ∧ isMark b = true ∧ ∀ text, spacingBefore (b :: text) = .joint := by
  have hcases : (a = ':' ∧ b = ':') ∨ (a = '-' ∧ b = '>') ∨ (a = '!' ∧ b = '=') := by
    simpa [isPair] using h
  have hjoint : ∀ {c : Char}, isPunct c = true → c ≠ '/' → ∀ text, spacingBefore (c :: text)
      = .joint := by
    intro c hc hslash text
    have hne : ('/' == c) = false := by simpa using Ne.symm hslash
    simp [spacingBefore, punctAhead, startsWith, List.isPrefixOf, hne, hc]
  rcases hcases with ⟨rfl, rfl⟩ | ⟨rfl, rfl⟩ | ⟨rfl, rfl⟩ <;>
    exact ⟨by decide, by decide, hjoint (by decide) (by decide)⟩

/-- The plain text of tokens after another one, with the space in front of it. -/
def spacedTail : List Token → List Char
  | [] => []
  | t :: ts => ' ' :: (spacedTokens (t :: ts)).toList

theorem spacedTokens_cons {t : Token} (h : ∀ c p, t ≠ .punct c .joint p) (rest : List Token) :
    (spacedTokens (t :: rest)).toList = t.spaced.toList ++ spacedTail rest := by
  cases rest with
  | nil => simp [spacedTokens, spacedTail]
  | cons u us =>
    rw [spacedTokens.eq_4 _ _ _ fun c p heq => h c p heq]
    simp [spacedTail]

theorem spacedTokens_joint (c : Char) (p : Position) (u : Token) (us : List Token) :
    (spacedTokens (.punct c .joint p :: u :: us)).toList
      = c :: (spacedTokens (u :: us)).toList := by
  simp [spacedTokens]

theorem isEnd_spacedTail {next : List Char} (h : isEnd next = true) (ts : List Token) :
    isEnd (spacedTail ts ++ next) = true := by
  cases ts with
  | nil => exact h
  | cons => rfl

/-- A space before some tokens spells nothing. -/
theorem spells_spacedTail {ts us : List Token} {next : List Char}
    (h : Spells ((spacedTokens ts).toList ++ next) us next) :
    Spells (spacedTail ts ++ next) us next := by
  cases ts with
  | nil => simpa [spacedTokens, spacedTail] using h
  | cons => exact .blank (by decide) h

/-- The plain text of a group. -/
theorem spells_spaced_group {d : Delimiter} (hd : d ≠ .invisible) {body us : List Token}
    (p q : Position) (hbody : ∀ next, isEnd next = true →
      Spells ((spacedTokens body).toList ++ next) (unplacedTokens body) next)
    {text next : List Char} (h : Spells text us next) :
    Spells ((Token.group d body p q).spaced.toList ++ text)
      (.group d (unplacedTokens body) .start .start :: us) next := by
  have hopen : Spells ((spacedTokens body).toList ++ (d.closing.toList ++ text))
      (unplacedTokens body) (d.closing.toList ++ text) := hbody _ (isEnd_closing hd text)
  have hspace : Spells (' ' :: ((spacedTokens body).toList ++ ' ' :: '\x7d' :: text))
      (unplacedTokens body) ('\x7d' :: text) := by
    have hclose : Spells (' ' :: '\x7d' :: text) [] ('\x7d' :: text) :=
      .blank (by decide) (.done _)
    have hblank := (hbody (' ' :: '\x7d' :: text) rfl).append hclose
    rw [List.append_nil] at hblank
    exact .blank (by decide) hblank
  cases d with
  | invisible => exact absurd rfl hd
  | brace =>
    cases body with
    | nil =>
      have hgroup := Spells.group (d := .brace) hd (.blank (c := ' ') (by decide) (.done _)) h
      simpa [Token.spaced, Delimiter.opening, Delimiter.closing, unplacedTokens] using hgroup
    | cons t ts =>
      have hgroup := Spells.group (d := .brace) hd hspace h
      simpa [Token.spaced, Delimiter.opening] using hgroup
  | parenthesis => simpa [Token.spaced] using Spells.group (d := .parenthesis) hd hopen h
  | bracket => simpa [Token.spaced] using Spells.group (d := .bracket) hd hopen h

/-- The plain text of a punctuation on its own. -/
theorem spells_spaced_mark {c : Char} (hmark : isMark c = true) (p : Position) {rest : List Token}
    {next : List Char} (hnext : isEnd next = true)
    (h : Spells ((spacedTokens rest).toList ++ next) (unplacedTokens rest) next) :
    Spells ((spacedTokens (.punct c .alone p :: rest)).toList ++ next)
      (unplacedTokens (.punct c .alone p :: rest)) next := by
  have hspacing : spacingBefore (spacedTail rest ++ next) = .alone := by
    rw [spacingBefore, punctAhead_of_isEnd (isEnd_spacedTail hnext rest)]
    rfl
  have hspells := Spells.mark hmark (spells_spacedTail h)
  rw [hspacing] at hspells
  rw [spacedTokens_cons (by simp), List.append_assoc]
  simpa [Token.spaced, unplacedTokens, Token.unplaced] using hspells

/-- The plain text of a tame row spells its tokens. -/
theorem Tame.spells_spaced {ts : List Token} (h : Tame ts) :
    ∀ next, isEnd next = true →
      Spells ((spacedTokens ts).toList ++ next) (unplacedTokens ts) next := by
  induction h with
  | nil => exact fun next _ => .done next
  | @word raw name p rest hword _ ih =>
    intro next hnext
    rw [spacedTokens_cons (by simp), List.append_assoc]
    exact .word hword (stopsWord_of_isEnd (isEnd_spacedTail hnext rest))
      (spells_spacedTail (ih next hnext))
  | @literal text p hliteral =>
    intro next hnext
    obtain ⟨c, lit, htext, hfirst, hread⟩ := hliteral.read hnext
    have hofList : String.ofList (c :: lit) = text := by rw [← htext, String.ofList_toList]
    have hspells := Spells.literal hfirst hread (.done next)
    rw [hofList] at hspells
    simpa [spacedTokens, Token.spaced, htext, unplacedTokens, Token.unplaced] using hspells
  | @mark c p rest hmark _ _ _ ih =>
    exact fun next hnext => spells_spaced_mark hmark p hnext (ih next hnext)
  | @pair a b p q rest hpair _ _ ih =>
    intro next hnext
    have htail := isEnd_spacedTail hnext rest
    have hspacing : spacingBefore (spacedTail rest ++ next) = .alone := by
      rw [spacingBefore, punctAhead_of_isEnd htail]
      rfl
    obtain ⟨ha, hb, hjoint⟩ := isPair_marks hpair
    have hspells := Spells.mark ha (Spells.mark hb (spells_spacedTail (ih next hnext)))
    rw [hspacing, hjoint] at hspells
    rw [spacedTokens_joint, spacedTokens_cons (by simp), List.cons_append, List.append_assoc]
    simpa [Token.spaced, unplacedTokens, Token.unplaced] using hspells
  | @lifetime name p q rest hword _ ih =>
    intro next hnext
    have hspells := Spells.lifetime hword (stopsWord_of_isEnd (isEnd_spacedTail hnext rest))
      (spells_spacedTail (ih next hnext))
    rw [spacedTokens_joint, spacedTokens_cons (by simp), List.cons_append, List.append_assoc]
    exact hspells
  | @group d body p q rest hd _ _ ihbody ih =>
    intro next hnext
    rw [spacedTokens_cons (by simp), List.append_assoc]
    exact spells_spaced_group hd p q ihbody (spells_spacedTail (ih next hnext))
  | @attr body p q r rest _ _ _ ihbody ih =>
    intro next hnext
    refine spells_spaced_mark (by decide) p hnext ?_
    rw [spacedTokens_cons (by simp), List.append_assoc]
    exact spells_spaced_group (by decide) q r ihbody (spells_spacedTail (ih next hnext))

/-- Soft punctuation stands alone in a tame row. -/
theorem Tame.eased {ts : List Token} (h : Tame ts) : easedTokens ts = unplacedTokens ts := by
  induction h with
  | nil => rfl
  | word _ _ ih => simp only [easedTokens, unplacedTokens, Token.eased, Token.unplaced, ih]
  | literal => rfl
  | mark _ _ _ _ ih =>
    simp only [easedTokens, unplacedTokens, Token.eased, Token.unplaced, ih, ite_self]
  | @pair a b p q rest hpair _ _ ih =>
    have hsoft : isSoft a = false := by
      have hcases : (a = ':' ∧ b = ':') ∨ (a = '-' ∧ b = '>') ∨ (a = '!' ∧ b = '=') := by
        simpa [isPair] using hpair
      rcases hcases with ⟨rfl, rfl⟩ | ⟨rfl, rfl⟩ | ⟨rfl, rfl⟩ <;> rfl
    simp only [easedTokens, unplacedTokens, Token.eased, Token.unplaced, ih, hsoft, ite_self,
      Bool.and_false, Bool.false_eq_true, if_false]
  | lifetime _ _ ih =>
    simp only [easedTokens, unplacedTokens, Token.eased, Token.unplaced, ih]
    rfl
  | group _ _ _ ihbody ih =>
    simp only [easedTokens, unplacedTokens, Token.eased, Token.unplaced, ih, ihbody]
  | attr _ _ _ ihbody ih =>
    simp only [easedTokens, unplacedTokens, Token.eased, Token.unplaced, ih, ihbody, ite_self]

end Observable
