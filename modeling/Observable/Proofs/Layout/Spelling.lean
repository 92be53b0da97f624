import Observable.Proofs.Token.Tame
/-! The layout of a tame row spells its tokens. -/
namespace Observable.Layout

open Lexer

namespace Printer

/-- The text that a layout in progress has written. -/
def written (p : Printer) : List Char := p.out.reverse.flatMap fun a => a.text.toList

/-- What is written in front of a word. -/
def gap (p : Printer) (space : Bool) : List Char :=
  if p.pending > 0 then
    (Atom.breaks (if writesNothing p.out then 0 else p.pending) p.indent).text.toList
  else if space && !p.atLineStart then [' ']
  else []

/-- Whether the next word is on the line of the last one. -/
def onLine (p : Printer) : Bool := !p.atLineStart

end Printer

theorem written_write (p : Printer) (text : String) (space : Bool) :
    (p.write text space).written = p.written ++ (p.gap space ++ text.toList) := by
  simp only [Printer.write, Printer.gap]
  split
  · simp [Printer.written, Atom.text]
  · split <;> simp [Printer.written, Atom.text]

theorem isBlank_gap (p : Printer) (space : Bool) : ∀ c ∈ p.gap space, isBlank c = true := by
  intro c hc
  have hcases : c = '\n' ∨ c = ' ' := by
    simp only [Printer.gap] at hc
    split at hc
    · simp only [Atom.text, String.toList_ofList, List.mem_append, List.mem_replicate] at hc
      exact hc.imp And.right And.right
    · split at hc
      · exact .inr (List.mem_singleton.mp hc)
      · cases hc
  rcases hcases with rfl | rfl <;> decide

/-- Pending line breaks are written first. -/
theorem gap_of_pending {p : Printer} (h : 0 < p.pending) (hsome : writesNothing p.out = false)
    (space : Bool) : ∃ rest, p.gap space = '\n' :: rest := by
  obtain ⟨n, hn⟩ := Nat.exists_eq_succ_of_ne_zero (Nat.ne_zero_of_lt h)
  refine ⟨List.replicate n '\n' ++ List.replicate (Atom.indentWidth * p.indent) ' ', ?_⟩
  simp [Printer.gap, hsome, Atom.text, hn, List.replicate_succ]

/-- On the line of the last word there is one space or none. -/
theorem gap_of_onLine {p : Printer} (h : p.onLine = true) (space : Bool) :
    p.gap space = if space then [' '] else [] := by
  have hstart : p.atLineStart = false := by simpa [Printer.onLine] using h
  have hpending : ¬ p.pending > 0 := by
    have hboth := hstart
    simp only [Printer.atLineStart, Bool.or_eq_false_iff, decide_eq_false_iff_not] at hboth
    exact hboth.1
  cases space <;> simp [Printer.gap, hpending, hstart]

/-- A word that ends in no line break leaves the layout on its line. -/
theorem endsLine_write (p : Printer) {text : String} {front : List Char} {c : Char}
    (htext : text.toList = front ++ [c]) (hc : c ≠ '\n') (space : Bool) :
    endsLine (p.write text space).out = false := by
  have hend : ∀ out, endsLine (.word text :: out) = false := by
    intro out
    simp [endsLine, Atom.text, htext, hc]
  simp only [Printer.write]
  split
  · exact hend _
  · split <;> exact hend _

theorem pending_write (p : Printer) (text : String) (space : Bool) :
    (p.write text space).pending = 0 := by
  simp only [Printer.write]
  split
  · rfl
  · split <;> simp_all

theorem writesNothing_write (p : Printer) {text : String} (htext : text.toList ≠ [])
    (space : Bool) :
    writesNothing (p.write text space).out = false := by
  have hword : ∀ out, writesNothing (.word text :: out) = false := by
    intro out
    have hempty : text.isEmpty = false := by
      refine Bool.eq_false_iff.mpr fun h => htext ?_
      rw [String.isEmpty_iff.mp h]
      rfl
    simp [writesNothing, Atom.text, hempty]
  simp only [Printer.write]
  split
  · exact hword _
  · split <;> exact hword _

/-- How what is written next begins: after pending line breaks on a new line, and apart from what it
would be read with. -/
structure Begins (p : Printer) (ts : List Token) (text : List Char) : Prop where
  breaks : 0 < p.pending → writesNothing p.out = false → ts ≠ [] → ∃ rest, text = '\n' :: rest
  apart : p.onLine = true → p.last.glues = false →
    ∀ next, isEnd next = true → stopsWord (text ++ next) = true
  calm : noPunctAhead ts = true → ∀ next, isEnd next = true → punctAhead (text ++ next) = false
  colon : p.onLine = true → p.last = .colon → typeOperatorAhead ts = true →
    ∀ next, punctAhead (text ++ next) = false

theorem Begins.nil {p : Printer} : Begins p [] [] where
  breaks _ _ h := absurd rfl h
  apart _ _ next hnext := stopsWord_of_isEnd hnext
  calm _ next hnext := punctAhead_of_isEnd hnext
  colon _ _ h := by cases h

theorem punctAhead_of_isBlank {c : Char} (h : isBlank c = true) (text : List Char) :
    punctAhead (c :: text) = false := by
  have hpunct : isPunct c = false := by
    refine Bool.eq_false_iff.mpr fun hp => ?_
    have hmem : c ∈ "~!@#$%^&*-=+|;:,<.>/?'".toList := by simpa [isPunct] using hp
    have hall : ∀ d ∈ "~!@#$%^&*-=+|;:,<.>/?'".toList, isBlank d = false :=
      forall_mem_of_all (by decide +kernel)
    exact absurd h (by simp [hall c hmem])
  simp [punctAhead, hpunct]

/-- What begins with a gap and then with something that is not empty. -/
theorem Begins.of_gap {p : Printer} {ts : List Token} {space : Bool} {front tail : List Char}
    (happart : p.onLine = true → p.last.glues = false →
      space = true ∨ ∀ next, stopsWord (front ++ next) = true)
    (hcalm : noPunctAhead ts = true → ∀ next, punctAhead (front ++ next) = false)
    (hcolon : p.last = .colon → typeOperatorAhead ts = true → space = true) :
    Begins p ts (p.gap space ++ (front ++ tail)) where
  breaks hpending hsome _ := by
    obtain ⟨rest, hrest⟩ := gap_of_pending hpending hsome space
    exact ⟨rest ++ (front ++ tail), by rw [hrest, List.cons_append]⟩
  apart honLine hglues next hnext := by
    rw [gap_of_onLine honLine]
    rcases happart honLine hglues with hspace | hstop
    · simp only [hspace, if_true]
      exact stopsWord_of_isEnd rfl
    · cases space
      · simpa using hstop (tail ++ next)
      · simp only [if_true]
        exact stopsWord_of_isEnd rfl
  calm hnone next _ := by
    cases hgap : p.gap space with
    | nil => simpa using hcalm hnone (tail ++ next)
    | cons c gap =>
      exact punctAhead_of_isBlank (isBlank_gap p space c (by rw [hgap]; exact List.mem_cons_self)) _
  colon honLine hlast hoperator next := by
    rw [gap_of_onLine honLine, hcolon hlast hoperator]
    exact punctAhead_of_isBlank (by decide) _

/-- Writing some tokens leads from one layout to another, and what it writes spells these tokens. -/
def Lays (p p' : Printer) (ts : List Token) : Prop :=
  ∃ text, p'.written = p.written ++ text ∧ Begins p ts text ∧
    ∀ next, isEnd next = true →
      ∃ us, easedTokens us = unplacedTokens ts ∧ Spells (text ++ next) us next

theorem Lays.nil (p : Printer) : Lays p p [] :=
  ⟨[], (List.append_nil _).symm, .nil, fun next _ => ⟨[], rfl, .done next⟩⟩

theorem noPunctAhead_of_eased {us rest : List Token} (h : easedTokens us = unplacedTokens rest) :
    noPunctAhead us = noPunctAhead rest := by
  rw [← noPunctAhead_easedTokens us, h, noPunctAhead_unplacedTokens]

theorem stopsWord_of_isMark {c : Char} (hmark : isMark c = true) (hpound : c ≠ '#')
    (next : List Char) : stopsWord (c :: next) = true := by
  have hpunct := (isMark_facts hmark).2.2.2.2.2.2.1
  have hmem : c ∈ "~!@#$%^&*-=+|;:,<.>/?'".toList := by simpa [isPunct] using hpunct
  have hall : ∀ d ∈ "~!@#$%^&*-=+|;:,<.>/?'".toList,
      Text.isIdentContinue d = false ∧ d ≠ '"' := forall_mem_of_all (by decide +kernel)
  obtain ⟨hletter, hquote⟩ := hall c hmem
  simp [stopsWord, hletter, hquote, (isMark_facts hmark).2.2.1, hpound]

theorem punctAhead_word {raw : Bool} {name : String} (hword : isWord raw name = true)
    (next : List Char) : punctAhead ((Token.identText raw name).toList ++ next) = false := by
  obtain ⟨c, rest, htext, -, hc, -⟩ := word_front hword (show stopsWord [] = true from rfl)
  rw [List.append_nil] at htext
  rw [htext, List.cons_append]
  simp [punctAhead, isPunct_of_isIdentContinue (Text.isIdentContinue_of_isIdentStart hc)]

/-- A word, after which the layout is on its line and asks for a space. -/
theorem Lays.word {p p₁ p' : Printer} {raw : Bool} {name : String} {q : Position}
    {rest : List Token} (hword : isWord raw name = true)
    (hwritten : p₁.written
      = p.written ++ (p.gap (!p.last.glues) ++ (Token.identText raw name).toList))
    (honLine : p₁.onLine = true) (hglues : p₁.last.glues = false) (h : Lays p₁ p' rest) :
    Lays p p' (.ident raw name q :: rest) := by
  obtain ⟨text, htext, hbegins, hspells⟩ := h
  refine ⟨p.gap (!p.last.glues) ++ ((Token.identText raw name).toList ++ text), ?_,
    .of_gap (fun _ hglued => .inl (by simp [hglued])) (fun _ next => punctAhead_word hword next)
      (fun _ h => by cases h), fun next hnext => ?_⟩
  · rw [htext, hwritten]
    simp only [List.append_assoc]
  · obtain ⟨us, hus, hspells⟩ := hspells next hnext
    refine ⟨.ident raw name .start :: us, ?_, ?_⟩
    · simp only [easedTokens, unplacedTokens, Token.eased, Token.unplaced, hus]
    · rw [List.append_assoc, List.append_assoc]
      exact .blanks (isBlank_gap p _)
        (.word hword (hbegins.apart honLine hglues next hnext) hspells)

/-- The spacing of an operator's last character, when it is soft or nothing is written right after
it that it would be joint with. -/
theorem spacing_of_begins {p : Printer} {c : Char} {rest us : List Token} {text next : List Char}
    (hus : easedTokens us = unplacedTokens rest) (hbegins : Begins p rest text)
    (hnext : isEnd next = true)
    (h : isSoft c = true ∨ noPunctAhead rest = true ∨
      (p.onLine = true ∧ p.last = .colon ∧ typeOperatorAhead rest = true)) :
    (if (!noPunctAhead us && isSoft c) = true then Spacing.alone else spacingBefore (text ++ next))
      = .alone := by
  rw [noPunctAhead_of_eased hus]
  have hcalm : punctAhead (text ++ next) = false → spacingBefore (text ++ next) = .alone :=
    fun h => by rw [spacingBefore, h]; rfl
  cases hahead : noPunctAhead rest with
  | true => simp [hcalm (hbegins.calm hahead next hnext)]
  | false =>
    rcases h with hsoft | hnone | ⟨honLine, hlast, hoperator⟩
    · simp [hsoft]
    · rw [hahead] at hnone
      cases hnone
    · simp [hcalm (hbegins.colon honLine hlast hoperator next)]

/-- An operator of one character. -/
theorem Lays.mark {p p₁ p' : Printer} {c : Char} {q : Position} {rest : List Token} {space : Bool}
    (hmark : isMark c = true) (hpound : c ≠ '#')
    (hwritten : p₁.written = p.written ++ (p.gap space ++ [c]))
    (hspace : p.last = .colon → c = '&' ∨ c = '*' → space = true)
    (hnext : isSoft c = true ∨ noPunctAhead rest = true ∨
      (p₁.onLine = true ∧ p₁.last = .colon ∧ typeOperatorAhead rest = true))
    (h : Lays p₁ p' rest) : Lays p p' (.punct c .alone q :: rest) := by
  obtain ⟨text, htext, hbegins, hspells⟩ := h
  refine ⟨p.gap space ++ ([c] ++ text), ?_,
    .of_gap (fun _ _ => .inr fun next => stopsWord_of_isMark hmark hpound next)
      (fun h => by cases h) (fun hlast h => hspace hlast (by simpa [typeOperatorAhead] using h)),
    fun next hend => ?_⟩
  · rw [htext, hwritten]
    simp only [List.append_assoc]
  · obtain ⟨us, hus, hspells⟩ := hspells next hend
    refine ⟨.punct c (spacingBefore (text ++ next)) .start :: us, ?_, ?_⟩
    · simp only [easedTokens, unplacedTokens, Token.eased, Token.unplaced, hus,
        spacing_of_begins hus hbegins hend hnext]
    · rw [List.append_assoc, List.append_assoc]
      exact .blanks (isBlank_gap p _) (.mark hmark hspells)

/-- An operator of two characters. -/
theorem Lays.pair {p p₁ p' : Printer} {a b : Char} {q r : Position} {rest : List Token}
    {space : Bool} (hpair : isPair a b = true)
    (hwritten : p₁.written = p.written ++ (p.gap space ++ [a, b]))
    (hspace : p.last = .colon → a = ':' → space = true)
    (hnext : isSoft b = true ∨ noPunctAhead rest = true) (h : Lays p₁ p' rest) :
    Lays p p' (.punct a .joint q :: .punct b .alone r :: rest) := by
  obtain ⟨text, htext, hbegins, hspells⟩ := h
  obtain ⟨ha, hb, hjoint⟩ := isPair_marks hpair
  have hcases : (a = ':' ∧ b = ':') ∨ (a = '-' ∧ b = '>') ∨ (a = '!' ∧ b = '=') := by
    simpa [isPair] using hpair
  have hhard : a ≠ '#' ∧ isSoft a = false := by
    rcases hcases with ⟨rfl, -⟩ | ⟨rfl, -⟩ | ⟨rfl, -⟩ <;> decide
  refine ⟨p.gap space ++ ([a, b] ++ text), ?_,
    .of_gap (fun _ _ => .inr fun next => stopsWord_of_isMark ha hhard.1 _) (fun h => by cases h)
      (fun hlast h => hspace hlast (by simp [typeOperatorAhead] at h; exact h.1)),
    fun next hend => ?_⟩
  · rw [htext, hwritten]
    simp only [List.append_assoc]
  · obtain ⟨us, hus, hspells⟩ := hspells next hend
    refine ⟨.punct a .joint .start :: .punct b (spacingBefore (text ++ next)) .start :: us, ?_, ?_⟩
    · simp only [easedTokens, unplacedTokens, Token.eased, Token.unplaced, hus, hhard.2,
        Bool.and_false, Bool.false_eq_true, if_false,
        spacing_of_begins hus hbegins hend (hnext.imp_right .inl)]
    · have hmarks := Spells.mark ha (Spells.mark hb hspells)
      rw [hjoint] at hmarks
      rw [List.append_assoc, List.append_assoc]
      exact .blanks (isBlank_gap p _) hmarks

/-- A lifetime, whose name is written right after its mark. -/
theorem Lays.lifetime {p p₁ p' : Printer} {name : String} {q r : Position} {rest : List Token}
    (hword : isWord false name = true)
    (hwritten : p₁.written = p.written ++ (p.gap (!p.last.glues) ++ '\'' :: name.toList))
    (honLine : p₁.onLine = true) (hglues : p₁.last.glues = false) (h : Lays p₁ p' rest) :
    Lays p p' (.punct '\'' .joint q :: .ident false name r :: rest) := by
  obtain ⟨text, htext, hbegins, hspells⟩ := h
  refine ⟨p.gap (!p.last.glues) ++ ('\'' :: name.toList ++ text), ?_,
    .of_gap (fun _ hglued => .inl (by simp [hglued])) (fun h => by cases h)
      (fun _ h => by simp [typeOperatorAhead] at h), fun next hnext => ?_⟩
  · rw [htext, hwritten]
    simp only [List.append_assoc]
  · obtain ⟨us, hus, hspells⟩ := hspells next hnext
    refine ⟨.punct '\'' .joint .start :: .ident false name .start :: us, ?_, ?_⟩
    · simp only [easedTokens, unplacedTokens, Token.eased, Token.unplaced, hus]
      rfl
    · rw [List.append_assoc, List.cons_append, List.cons_append, List.append_assoc]
      exact .blanks (isBlank_gap p _)
        (.lifetime hword (hbegins.apart honLine hglues next hnext) hspells)

/-- A literal at the end of its row. -/
theorem Lays.literal {p p₁ : Printer} {lit : String} {q : Position} (hliteral : IsLiteral lit)
    (hwritten : p₁.written = p.written ++ (p.gap (!p.last.glues) ++ lit.toList)) :
    Lays p p₁ [.literal lit q] := by
  obtain ⟨c, rest, htext, hfirst, -⟩ := hliteral.read (show isEnd [] = true from rfl)
  have hpunct : isPunct c = false := by
    rcases hfirst with rfl | hdigit
    · decide
    · refine Bool.eq_false_iff.mpr fun hp => ?_
      have hmem : c ∈ "~!@#$%^&*-=+|;:,<.>/?'".toList := by simpa [isPunct] using hp
      have hall : ∀ d ∈ "~!@#$%^&*-=+|;:,<.>/?'".toList, d.isDigit = false :=
        forall_mem_of_all (by decide +kernel)
      exact absurd hdigit (by simp [hall c hmem])
  refine ⟨p.gap (!p.last.glues) ++ (lit.toList ++ []), by rw [hwritten, List.append_nil],
    .of_gap (fun _ hglued => .inl (by simp [hglued])) (fun _ next => ?_) (fun _ h => by cases h),
    fun next hnext => ?_⟩
  · simp [htext, punctAhead, hpunct]
  · obtain ⟨c, rest, htext, hfirst, hread⟩ := hliteral.read hnext
    have hofList : String.ofList (c :: rest) = lit := by rw [← htext, String.ofList_toList]
    have hspells := Spells.literal hfirst hread (.done next)
    rw [hofList] at hspells
    refine ⟨[.literal lit .start], rfl, ?_⟩
    rw [List.append_nil, List.append_assoc, htext]
    exact .blanks (isBlank_gap p _) hspells

/-- A text that spells what stands in a group, up to the end of the group. -/
def Encloses (d : Delimiter) (body : List Token) (inner : List Char) : Prop :=
  ∀ text, ∃ us, easedTokens us = unplacedTokens body ∧
    Spells (inner ++ text) us (d.closing.toList ++ text)

/-- What a layout writes for the tokens of a group, with blanks around it. -/
theorem Lays.encloses {p p' : Printer} {body : List Token} (h : Lays p p' body)
    {d : Delimiter} {front back : List Char} (hfront : ∀ c ∈ front, isBlank c = true)
    (hback : ∀ c ∈ back, isBlank c = true)
    (hend : ∀ text, isEnd (back ++ (d.closing.toList ++ text)) = true) :
    ∃ inner, p'.written = p.written ++ inner ∧
      Encloses d body (front ++ (inner ++ (back ++ d.closing.toList))) := by
  obtain ⟨inner, hinner, -, hspells⟩ := h
  refine ⟨inner, hinner, fun text => ?_⟩
  obtain ⟨us, hus, hspells⟩ := hspells _ (hend text)
  have hclose : Spells (back ++ (d.closing.toList ++ text)) [] (d.closing.toList ++ text) :=
    .blanks hback (.done _)
  have hbody := hspells.append hclose
  rw [List.append_nil] at hbody
  refine ⟨us, hus, ?_⟩
  simp only [List.append_assoc]
  exact .blanks hfront hbody

/-- A group. -/
theorem Lays.group {p p₁ p' : Printer} {d : Delimiter} {body rest : List Token} {q r : Position}
    {inner : List Char} (hd : d ≠ .invisible) (hinner : Encloses d body inner) (space : Bool)
    (hwritten : p₁.written = p.written ++ (p.gap space ++ (d.opening.toList ++ inner)))
    (h : Lays p₁ p' rest) : Lays p p' (.group d body q r :: rest) := by
  obtain ⟨text, htext, -, hspells⟩ := h
  have hopening : (∀ next, stopsWord (d.opening.toList ++ next) = true) ∧
      ∀ next, punctAhead (d.opening.toList ++ next) = false := by
    have hall : ∀ c ∈ "([\x7b".toList,
      (!Text.isIdentContinue c && c ≠ '"' && c ≠ '\'' && c ≠ '#') = true
        ∧ isPunct c = false := forall_mem_of_all (by decide +kernel)
    cases d with
    | invisible => exact absurd rfl hd
    | parenthesis =>
      obtain ⟨hstop, hpunct⟩ := hall '(' (by decide)
      exact ⟨fun next => by simpa [Delimiter.opening, stopsWord] using hstop,
        fun next => by simp [Delimiter.opening, punctAhead, hpunct]⟩
    | bracket =>
      obtain ⟨hstop, hpunct⟩ := hall '[' (by decide)
      exact ⟨fun next => by simpa [Delimiter.opening, stopsWord] using hstop,
        fun next => by simp [Delimiter.opening, punctAhead, hpunct]⟩
    | brace =>
      obtain ⟨hstop, hpunct⟩ := hall '\x7b' (by decide)
      exact ⟨fun next => by simpa [Delimiter.opening, stopsWord] using hstop,
        fun next => by simp [Delimiter.opening, punctAhead, hpunct]⟩
  refine ⟨p.gap space ++ (d.opening.toList ++ (inner ++ text)), ?_,
    .of_gap (fun _ _ => .inr hopening.1) (fun _ => hopening.2) (fun _ h => by cases h),
    fun next hend => ?_⟩
  · rw [htext, hwritten]
    simp only [List.append_assoc]
  · obtain ⟨us, hus, hspells⟩ := hspells next hend
    obtain ⟨vs, hvs, hbody⟩ := hinner (text ++ next)
    refine ⟨.group d vs .start .start :: us, ?_, ?_⟩
    · simp only [easedTokens, unplacedTokens, Token.eased, Token.unplaced, hus, hvs]
    · simp only [List.append_assoc]
      exact .blanks (isBlank_gap p _) (.group hd hbody hspells)

/-- An attribute with its brackets. -/
theorem Lays.attr {p p₁ p' : Printer} {body rest : List Token} {q r r' : Position}
    {inner : List Char} (hinner : Encloses .bracket body inner)
    (hwritten : p₁.written = p.written ++ (p.gap (!p.last.glues) ++ ('#' :: '[' :: inner)))
    (h : Lays p₁ p' rest) :
    Lays p p' (.punct '#' .alone q :: .group .bracket body r r' :: rest) := by
  obtain ⟨text, htext, -, hspells⟩ := h
  refine ⟨p.gap (!p.last.glues) ++ (['#'] ++ ('[' :: (inner ++ text))), ?_,
    .of_gap (fun _ hglued => .inl (by simp [hglued])) (fun h => by cases h)
      (fun _ h => by simp [typeOperatorAhead] at h), fun next hend => ?_⟩
  · rw [htext, hwritten]
    simp
  · obtain ⟨us, hus, hspells⟩ := hspells next hend
    obtain ⟨vs, hvs, hbody⟩ := hinner (text ++ next)
    have hgroup := Spells.group (d := .bracket) (by decide) hbody hspells
    have hspacing : ∀ text, spacingBefore ('[' :: text) = .alone := fun text => by
      have hpunct : punctAhead ('[' :: text) = false := by
        simp [punctAhead, show isPunct '[' = false by decide]
      rw [spacingBefore, hpunct]
      rfl
    have hmark := Spells.mark (c := '#') (by decide) hgroup
    rw [show Delimiter.bracket.opening.toList = ['['] from rfl, List.cons_append, hspacing] at hmark
    refine ⟨.punct '#' .alone .start :: .group .bracket vs .start .start :: us, ?_, ?_⟩
    · simp only [easedTokens, unplacedTokens, Token.eased, Token.unplaced, hus, hvs, ite_self]
    · rw [List.append_assoc, List.append_assoc]
      exact .blanks (isBlank_gap p _) (by simpa using hmark)

/-- A line of documentation, which is written at the start of a line and ends its line. -/
theorem Lays.doc {p p₁ p' : Printer} {body rest : List Token} {q r r' : Position}
    {line : List Char} (hline : isDocLine line = true)
    (hbody : unplacedTokens [.punct '#' .alone q, .group .bracket body r r'] = docTokens line)
    (hstart : p.onLine = false)
    (hwritten : p₁.written = p.written ++ (p.gap false ++ ('/' :: '/' :: '/' :: line)))
    (hpending : 0 < p₁.pending) (hsome : writesNothing p₁.out = false) (hrest : rest ≠ [])
    (h : Lays p₁ p' rest) :
    Lays p p' (.punct '#' .alone q :: .group .bracket body r r' :: rest) := by
  obtain ⟨text, htext, hbegins, hspells⟩ := h
  obtain ⟨tail, rfl⟩ := hbegins.breaks hpending hsome hrest
  refine ⟨p.gap false ++ ('/' :: '/' :: '/' :: line ++ '\n' :: tail), ?_,
    .of_gap (fun honLine => by rw [hstart] at honLine; cases honLine) (fun h => by cases h)
      (fun _ h => by simp [typeOperatorAhead] at h), fun next hend => ?_⟩
  · rw [htext, hwritten]
    simp
  · obtain ⟨us, hus, hspells⟩ := hspells next hend
    refine ⟨docTokens line ++ us, ?_, ?_⟩
    · have hfront : unplacedTokens (.punct '#' .alone q :: .group .bracket body r r' :: rest)
          = docTokens line ++ unplacedTokens rest := by
        rw [← hbody, ← unplacedTokens_append]
        rfl
      rw [hfront, ← hus]
      rfl
    · have hdoc := Spells.doc hline hspells
      rw [List.append_assoc]
      exact .blanks (isBlank_gap p _) (by simpa using hdoc)

theorem onLine_of {p : Printer} (hpending : p.pending = 0) (hline : endsLine p.out = false) :
    p.onLine = true := by
  simp [Printer.onLine, Printer.atLineStart, hpending, hline]

/-- What is left of a layout once a word is written, whatever becomes of its class. -/
theorem onLine_write (p : Printer) {text : String} {front : List Char} {c : Char}
    (htext : text.toList = front ++ [c]) (hc : c ≠ '\n') (space : Bool) :
    (p.write text space).onLine = true :=
  onLine_of (pending_write p text space) (endsLine_write p htext hc space)

theorem word_last {raw : Bool} {name : String} (hword : isWord raw name = true) :
    ∃ front c, (Token.identText raw name).toList = front ++ [c] ∧ c ≠ '\n' := by
  simp only [isWord, Bool.and_eq_true] at hword
  obtain ⟨c, rest, hname, hc, hrest⟩ := isName_cons hword.1
  have hall : ∀ d ∈ name.toList, d ≠ '\n' := by
    intro d hd
    have hletter : Text.isIdentContinue d = true := by
      rw [hname] at hd
      rcases List.mem_cons.mp hd with rfl | hd
      · exact Text.isIdentContinue_of_isIdentStart hc
      · exact List.all_eq_true.mp hrest d hd
    exact ne_of_isIdentContinue hletter (by decide)
  have hne : name.toList ≠ [] := by rw [hname]; exact List.cons_ne_nil _ _
  have hsplit := List.dropLast_concat_getLast hne
  have hlast := hall _ (List.getLast_mem hne)
  cases raw with
  | false => exact ⟨_, _, hsplit.symm, hlast⟩
  | true =>
    refine ⟨'r' :: '#' :: name.toList.dropLast, _, ?_, hlast⟩
    rw [List.cons_append, List.cons_append, hsplit]
    simp [Token.identText]

theorem written_of_out {p p' : Printer} (h : p'.out = p.out) : p'.written = p.written := by
  rw [Printer.written, Printer.written, h]

theorem out_word (p : Printer) (text : String) :
    (p.word text).out = (p.write text (!p.last.glues)).out := by
  rw [Printer.word]
  split <;> rfl

theorem written_word (p : Printer) (text : String) :
    (p.word text).written = p.written ++ (p.gap (!p.last.glues) ++ text.toList) :=
  (written_of_out (out_word p text)).trans (written_write p text _)

theorem onLine_word (p : Printer) {text : String} {front : List Char} {c : Char}
    (htext : text.toList = front ++ [c]) (hc : c ≠ '\n') : (p.word text).onLine = true := by
  rw [← onLine_write p htext hc (!p.last.glues), Printer.word]
  split <;> rfl

theorem glues_word (p : Printer) (text : String) : (p.word text).last.glues = false := by
  rw [Printer.word]
  split <;> rfl

theorem out_operator (p : Printer) (frame : Frame) (op : String) :
    (p.operator frame op).1.out = (p.write op (operatorStyle p frame op).1).out := by
  simp only [Printer.operator]
  split
  · split
    · rfl
    · split <;> rfl
  · rfl

theorem written_operator (p : Printer) (frame : Frame) (op : String) :
    (p.operator frame op).1.written
      = p.written ++ (p.gap (operatorStyle p frame op).1 ++ op.toList) :=
  (written_of_out (out_operator p frame op)).trans (written_write p op _)

theorem last_operator (p : Printer) (frame : Frame) (op : String) :
    (p.operator frame op).1.last = (operatorStyle p frame op).2 := by
  simp only [Printer.operator]
  split
  · split
    · rfl
    · split <;> rfl
  · rfl

/-- Nothing but a comma and a semicolon ends the line. -/
theorem onLine_operator (p : Printer) (frame : Frame) {op : String} {front : List Char} {c : Char}
    (hop : op.toList = front ++ [c]) (hc : c ≠ '\n') (hcomma : op ≠ ",") (hsemi : op ≠ ";") :
    (p.operator frame op).1.onLine = true := by
  rw [← onLine_write p hop hc (operatorStyle p frame op).1]
  simp [Printer.operator, hcomma, hsemi]
  rfl

theorem operatorAt_mark (p : Printer) (frame : Frame) (c : Char) (q : Position)
    (rest : List Token) :
    operatorAt p frame (.punct c .alone q :: rest) = String.ofList [c] := by
  simp [operatorAt, gather]

theorem operatorAt_pair (p : Printer) (frame : Frame) {a b : Char} (h : isPair a b = true)
    (q r : Position) (rest : List Token) :
    operatorAt p frame (.punct a .joint q :: .punct b .alone r :: rest) = String.ofList [a, b] := by
  have hcases : (a = ':' ∧ b = ':') ∨ (a = '-' ∧ b = '>') ∨ (a = '!' ∧ b = '=') := by
    simpa [isPair] using h
  have hgather : gather [] (.punct a .joint q :: .punct b .alone r :: rest) = [a, b] := by
    have hbegins : beginsOperator [a, b] = true := by
      rcases hcases with ⟨rfl, rfl⟩ | ⟨rfl, rfl⟩ | ⟨rfl, rfl⟩ <;> decide
    simp [gather, hbegins]
  rcases hcases with ⟨rfl, rfl⟩ | ⟨rfl, rfl⟩ | ⟨rfl, rfl⟩ <;> simp [operatorAt, hgather]

theorem attributeAt_of_ne {c : Char} (hc : c ≠ '#') (s : Spacing) (q : Position)
    (rest : List Token) : attributeAt (.punct c s q :: rest) = none := by
  unfold attributeAt
  split <;> rename_i heq
  · obtain ⟨h, -⟩ := List.cons.inj heq
    cases h
    simp [hc]
  · obtain ⟨h, -⟩ := List.cons.inj heq
    cases h
    simp [hc]
  · rfl

theorem writeTokens_mark (p : Printer) (frame : Frame) {c : Char} (hc : c ≠ '#') (q : Position)
    (rest : List Token) :
    writeTokens p frame {} (.punct c .alone q :: rest)
      = writeTokens (p.operator frame (String.ofList [c])).1
          (p.operator frame (String.ofList [c])).2 {} rest := by
  rw [writeTokens, if_neg (by decide), writeToken, attributeAt_of_ne hc, operatorAt_mark]
  simp only [String.length_ofList]
  rfl

theorem writeTokens_pair (p : Printer) (frame : Frame) {a b : Char} (h : isPair a b = true)
    (q r : Position) (rest : List Token) :
    writeTokens p frame {} (.punct a .joint q :: .punct b .alone r :: rest)
      = writeTokens (p.operator frame (String.ofList [a, b])).1
          (p.operator frame (String.ofList [a, b])).2 {} rest := by
  have hpound : a ≠ '#' := by
    rintro rfl
    simp [isPair] at h
  rw [writeTokens, if_neg (by decide), writeToken, attributeAt_of_ne hpound,
    operatorAt_pair p frame h]
  simp only [String.length_ofList]
  rw [writeTokens]
  exact if_pos (Nat.lt_add_one 0)

theorem writeTokens_lifetime (p : Printer) (frame : Frame) (name : String) (q r : Position)
    (rest : List Token) :
    writeTokens p frame {} (.punct '\'' .joint q :: .ident false name r :: rest)
      = writeTokens ((p.operator frame "'").1.word name) (p.operator frame "'").2 {} rest := by
  have hgather : gather [] (.punct '\'' .joint q :: .ident false name r :: rest) = ['\''] := by
    simp [gather]
  have hoperator : operatorAt p frame (.punct '\'' .joint q :: .ident false name r :: rest)
      = "'" := by
    rw [operatorAt, hgather]
    rfl
  rw [writeTokens, if_neg (by decide), writeToken, attributeAt_of_ne (by decide), hoperator]
  rfl

theorem out_afterBlock (p : Printer) (frame : Frame) (next : Option Token) :
    (p.afterBlock frame next).out = p.out := by
  unfold Printer.afterBlock
  repeat' split
  all_goals first | rfl | (dsimp only; split <;> rfl)

theorem written_afterBlock (p : Printer) (frame : Frame) (next : Option Token) :
    (p.afterBlock frame next).written = p.written :=
  written_of_out (out_afterBlock p frame next)

theorem out_endAttribute (p : Printer) (frame : Frame) : (p.endAttribute frame).out = p.out := by
  rw [Printer.endAttribute]
  split <;> rfl

theorem written_leaveBlock (p : Printer) :
    ∃ back, (∀ c ∈ back, isBlank c = true) ∧ (∀ text, isEnd (back ++ '\x7d' :: text) = true) ∧
      p.leaveBlock.written = p.written ++ (back ++ ['\x7d']) := by
  let p₁ : Printer := { p with indent := p.indent - 1, pending := 1 }
  refine ⟨p₁.gap false, isBlank_gap p₁ false, fun text => ?_, written_write p₁ "\x7d" false⟩
  cases hgap : p₁.gap false with
  | nil => rfl
  | cons c gap =>
    have hpending : p₁.gap false
        = (Atom.breaks (if writesNothing p₁.out then 0 else 1) p₁.indent).text.toList := rfl
    have hmem : c ∈ p₁.gap false := by rw [hgap]; exact List.mem_cons_self
    simp only [hpending, Atom.text, String.toList_ofList, List.mem_append,
      List.mem_replicate] at hmem
    rcases hmem with ⟨-, rfl⟩ | ⟨-, rfl⟩ <;> rfl

theorem isEnd_gap (p : Printer) (space : Bool) {d : Delimiter} (hd : d ≠ .invisible)
    (text : List Char) : isEnd (p.gap space ++ (d.closing.toList ++ text)) = true := by
  cases hgap : p.gap space with
  | nil => exact isEnd_closing hd text
  | cons c gap =>
    have hmem : c ∈ p.gap space := by rw [hgap]; exact List.mem_cons_self
    simp only [Printer.gap] at hmem
    split at hmem
    · simp only [Atom.text, String.toList_ofList, List.mem_append, List.mem_replicate] at hmem
      rcases hmem with ⟨-, rfl⟩ | ⟨-, rfl⟩ <;> rfl
    · split at hmem
      · rw [List.mem_singleton.mp hmem]
        rfl
      · cases hmem

/-- A group that stays on its line, with a space inside or none. -/
theorem encloses_inline {p p' : Printer} {body : List Token} {d : Delimiter} (hd : d ≠ .invisible)
    (h : Lays p p' body) (space : Bool) :
    ∃ inner, Encloses d body inner ∧
      (p'.leave d.closing space).written = p.written ++ inner := by
  obtain ⟨inner, hinner, hencloses⟩ := h.encloses (show ∀ c ∈ [], isBlank c = true by simp)
    (isBlank_gap p' space) (isEnd_gap p' space hd)
  refine ⟨_, hencloses, ?_⟩
  have hleave : (p'.leave d.closing space).written = (p'.write d.closing space).written := rfl
  rw [hleave, written_write, hinner, List.nil_append, List.append_assoc]

/-- The tokens between parentheses or square brackets. -/
theorem lays_delimited {p p' : Printer} {frame : Frame} {d : Delimiter} {body rest : List Token}
    (hd : d ≠ .invisible) (q r : Position) (space : Bool)
    (hbody : ∀ p frame, Lays p (writeTokens p frame {} body) body)
    (h : ∀ p frame, Lays p (writeTokens p frame {} rest) rest)
    (hp' : p' = writeTokens
      ((writeTokens (Printer.enter { p with declaration := false } d.opening space)
        { mode := .inline } {} body).leave d.closing false) frame {} rest) :
    Lays p p' (.group d body q r :: rest) := by
  subst hp'
  let p₀ : Printer := { p with declaration := false }
  obtain ⟨inner, hinner, hwritten⟩ :=
    encloses_inline hd (hbody (p₀.enter d.opening space) { mode := .inline }) false
  refine .group hd hinner space (hwritten.trans ?_) (h _ _)
  have henter : (p₀.enter d.opening space).written
      = p.written ++ (p.gap space ++ d.opening.toList) := written_write p₀ d.opening space
  rw [henter]
  simp only [List.append_assoc]

/-- The tokens between braces, in any of their styles. -/
theorem lays_braces {p p' : Printer} {frame : Frame} {body rest : List Token} (q r : Position)
    (hbody : ∀ p frame, Lays p (writeTokens p frame {} body) body)
    (h : ∀ p frame, Lays p (writeTokens p frame {} rest) rest)
    (hp' : p' = writeTokens p frame {} (.group .brace body q r :: rest)) :
    Lays p p' (.group .brace body q r :: rest) := by
  let p₀ : Printer := { p with declaration := false }
  have hwrite : ∀ text space, (p₀.write text space).written
      = p.written ++ (p.gap space ++ text.toList) := written_write p₀
  simp only [writeTokens, writeToken] at hp'
  subst hp'
  simp only [Nat.lt_irrefl, if_false, Bool.false_eq_true, gt_iff_lt]
  cases hstyle : braceStyle p₀ frame body with
  | empty =>
    have hnil : body = [] := by
      have hempty : body.isEmpty = true := by
        refine Bool.not_eq_false _ ▸ fun hne => ?_
        simp only [braceStyle, hne, Bool.false_eq_true, if_false] at hstyle
        repeat' split at hstyle
        all_goals cases hstyle
      exact List.isEmpty_iff.mp hempty
    subst hnil
    have hencloses : Encloses .brace [] ['\x7d'] := fun text => ⟨[], rfl, .done _⟩
    refine .group (by decide) hencloses (!p.last.glues) ?_ (h _ _)
    rw [written_afterBlock]
    exact hwrite "\x7b\x7d" (!p.last.glues)
  | tight =>
    obtain ⟨inner, hinner, hwritten⟩ :=
      encloses_inline (show Delimiter.brace ≠ .invisible by decide)
      (hbody (p₀.enter "\x7b" false) { mode := .inline }) false
    refine .group (by decide) hinner false ?_ (h _ _)
    rw [show ("\x7d" : String) = Delimiter.brace.closing from rfl, hwritten]
    have henter : (p₀.enter "\x7b" false).written = (p₀.write "\x7b" false).written := rfl
    rw [henter, hwrite]
    simp [Delimiter.opening]
  | spaced =>
    let p₁ : Printer := p₀.enter "\x7b" (!p.last.glues)
    have h₁ : Printer.written { p₁ with out := .space :: p₁.out }
        = p.written ++ (p.gap (!p.last.glues) ++ ['\x7b', ' ']) := by
      have henter : p₁.written = p.written ++ (p.gap (!p.last.glues) ++ ['\x7b']) :=
        hwrite "\x7b" (!p.last.glues)
      rw [show Printer.written { p₁ with out := .space :: p₁.out } = p₁.written ++ [' '] by
        simp [Printer.written, Atom.text], henter]
      simp
    let p₂ := writeTokens { p₁ with out := .space :: p₁.out } { mode := .inline } {} body
    have hlays : Lays _ p₂ body := hbody { p₁ with out := .space :: p₁.out } { mode := .inline }
    obtain ⟨inner, hinner, hencloses⟩ := hlays.encloses
      (show ∀ c ∈ [' '], isBlank c = true from forall_mem_of_all (by decide)) (isBlank_gap p₂ true)
      (isEnd_gap p₂ true (show Delimiter.brace ≠ .invisible by decide))
    refine .group (by decide) hencloses (!p.last.glues) ?_ (h _ _)
    refine (written_write p₂ "\x7d" true).trans ?_
    rw [hinner, h₁]
    simp [Delimiter.opening, Delimiter.closing]
  | block =>
    have h₁ : p₀.enterBlock.written = p.written ++ (p.gap true ++ ['\x7b']) := hwrite "\x7b" true
    have hlays := hbody p₀.enterBlock { mode := .block }
    obtain ⟨back, hback, hend, hleave⟩ :=
      written_leaveBlock (writeTokens p₀.enterBlock { mode := .block } {} body)
    have hend' : ∀ text, isEnd (back ++ (Delimiter.brace.closing.toList ++ text)) = true := hend
    obtain ⟨inner, hinner, hencloses⟩ :=
      hlays.encloses (show ∀ c ∈ [], isBlank c = true by simp) hback hend'
    refine .group (by decide) hencloses true ?_ (h _ _)
    rw [written_afterBlock, hleave, hinner, h₁]
    simp [Delimiter.opening, Delimiter.closing]

/-- A documentation attribute that is written as a line stands for that line. -/
theorem docLine_tame {body : List Token} {line : String} (h : docLine false body = some line)
    (hbody : Tame body) :
    ∃ text, line.toList = '/' :: '/' :: '/' :: text ∧ isDocLine text = true ∧
      ∀ q r r', unplacedTokens [.punct '#' .alone q, .group .bracket body r r']
        = docTokens text := by
  unfold docLine at h
  split at h
  · rename_i name p₁ eq s p₂ value p₃
    split at h
    · rename_i hname
      obtain ⟨rfl, rfl⟩ : name = "doc" ∧ eq = '=' := by simpa using hname
      split at h
      · rename_i text hvalue
        split at h
        · cases h
        · rename_i hplain
          obtain rfl := Option.some.inj h
          have hrest : Tame (.punct '=' s p₂ :: [.literal value p₃]) := by cases hbody; assumption
          obtain ⟨rfl, hliteral⟩ : s = .alone ∧ IsLiteral value := by
            cases hrest with
            | mark _ _ _ hlast => cases hlast; exact ⟨rfl, by assumption⟩
          have hquoted : value = String.ofList (Text.quoted text) := by
            rcases hliteral with ⟨original, horiginal⟩ | hdecimal
            · rw [horiginal, Literal.stringValue?_quoted] at hvalue
              rw [← Option.some.inj hvalue, ← horiginal, String.ofList_toList]
            · rw [Literal.stringValue?_decimal hdecimal] at hvalue
              cases hvalue
          refine ⟨text, by simp, ?_, fun q r r' => ?_⟩
          · simpa [isDocLine] using hplain
          · rw [hquoted]
            rfl
      · cases h
    · cases h
  · cases h

theorem encloses_attribute {p₁ p' : Printer} {body : List Token}
    (h : Lays (p₁.enter "[" false) p' body) (frame : Frame) (honLine : p₁.onLine = true) :
    ∃ inner, Encloses .bracket body inner ∧
      ((p'.leave "]" false).endAttribute frame).written = p₁.written ++ ('[' :: inner) := by
  obtain ⟨inner, hinner, hwritten⟩ := encloses_inline (d := .bracket) (by decide) h false
  refine ⟨inner, hinner, ?_⟩
  have hend : ((p'.leave "]" false).endAttribute frame).written
      = (p'.leave Delimiter.bracket.closing false).written :=
    written_of_out (out_endAttribute _ frame)
  have henter : (p₁.enter "[" false).written = p₁.written ++ ['['] := by
    have hwrite := written_write p₁ "[" false
    rw [gap_of_onLine honLine] at hwrite
    exact hwrite
  rw [hend, hwritten, henter, List.append_assoc]
  rfl

/-- An attribute, as a line of documentation or with its brackets. -/
theorem lays_attribute (p : Printer) (frame : Frame) {body rest : List Token} (q r r' : Position)
    (htame : Tame body) (hbody : ∀ p frame, Lays p (writeTokens p frame {} body) body)
    (h : ∀ p frame, Lays p (writeTokens p frame {} rest) rest) (hrest : rest ≠ []) :
    Lays p (writeTokens p frame {} (.punct '#' .alone q :: .group .bracket body r r' :: rest))
      (.punct '#' .alone q :: .group .bracket body r r' :: rest) := by
  have hattribute : attributeAt (.punct '#' .alone q :: .group .bracket body r r' :: rest)
      = some (false, body) := by simp [attributeAt]
  cases hline : (if frame.mode = .block && p.atLineStart then docLine false body else none) with
  | none =>
    let p₁ : Printer := { p.write "#" (!p.last.glues) with last := .hash }
    have hpound : p₁.written = p.written ++ (p.gap (!p.last.glues) ++ ['#']) :=
      written_write p "#" (!p.last.glues)
    have honLine : p₁.onLine = true :=
      onLine_write p (show "#".toList = [] ++ ['#'] from rfl) (by decide) (!p.last.glues)
    let p₂ := writeTokens (p₁.enter "[" false) { mode := .inline } {} body
    obtain ⟨inner, hinner, hwritten⟩ := encloses_attribute
      (hbody (p₁.enter "[" false) { mode := .inline }) frame honLine
    have hwrite : writeTokens p frame {} (.punct '#' .alone q :: .group .bracket body r r' :: rest)
        = writeTokens ((p₂.leave "]" false).endAttribute frame) frame {} rest := by
      simp only [writeTokens, writeToken, hattribute, Printer.startAttribute, hline]
      rfl
    rw [hwrite]
    refine .attr hinner ?_ (h _ _)
    rw [hwritten, hpound]
    simp
  | some line =>
    have hstart : p.atLineStart = true := by
      split at hline
      · rename_i hboth
        simp only [Bool.and_eq_true] at hboth
        exact hboth.2
      · cases hline
    obtain ⟨text, htext, hdocLine, hdoc⟩ := docLine_tame (by
      split at hline
      · exact hline
      · cases hline) htame
    let p₁ : Printer := { p.write line false with last := .attr, declaration := false }
    have hwrite : writeTokens p frame {} (.punct '#' .alone q :: .group .bracket body r r' :: rest)
        = writeTokens (p₁.newline 1) frame {} rest := by
      simp only [writeTokens, writeToken, hattribute, Printer.startAttribute, hline]
      rfl
    rw [hwrite]
    have hnext : writesNothing (p₁.newline 1).out = false :=
      writesNothing_write p (show line.toList ≠ [] by rw [htext]; simp) false
    refine .doc hdocLine (hdoc q r r') (by simp [Printer.onLine, hstart]) ?_ ?_ hnext hrest (h _ _)
    · exact (written_write p line false).trans (by rw [htext])
    · exact Nat.lt_of_lt_of_le Nat.zero_lt_one (Nat.le_max_right _ _)

/-- Whatever the layout has written before, what it writes for a tame row spells the row. -/
theorem lays_of_tame {ts : List Token} (h : Tame ts) :
    ∀ p frame, Lays p (writeTokens p frame {} ts) ts := by
  induction h with
  | nil => exact fun p frame => by rw [writeTokens]; exact .nil p
  | @word raw name q rest hword _ ih =>
    intro p frame
    obtain ⟨front, c, htext, hc⟩ := word_last hword
    exact .word hword (written_word p _) (onLine_word p htext hc) (glues_word p _) (ih _ frame)
  | @literal text q hliteral =>
    exact fun p frame => .literal hliteral (written_write p text (!p.last.glues))
  | @mark c q rest hmark hpound hnext _ ih =>
    intro p frame
    have hne : c ≠ '\n' := by rintro rfl; exact absurd hmark (by decide)
    rw [writeTokens_mark p frame hpound]
    refine .mark hmark hpound ((written_operator p frame _).trans (by rw [String.toList_ofList]))
      (fun hlast hc => ?_) (hnext.imp_right fun hnext => hnext.imp_right fun ⟨hcolon, hahead⟩ => ?_)
      (ih _ _)
    · rcases hc with rfl | rfl <;>
        simp [operatorStyle, hlast, Class.glues, Class.expectsOperand]
    · subst hcolon
      refine ⟨onLine_operator p frame (show (String.ofList [':']).toList = [] ++ [':'] from rfl)
        (by decide) (by decide) (by decide), ?_, hahead⟩
      rw [last_operator]
      rfl
  | @pair a b q r rest hpair hnext _ ih =>
    intro p frame
    have hcases : (a = ':' ∧ b = ':') ∨ (a = '-' ∧ b = '>') ∨ (a = '!' ∧ b = '=') := by
      simpa [isPair] using hpair
    rw [writeTokens_pair p frame hpair]
    refine .pair hpair ((written_operator p frame _).trans (by rw [String.toList_ofList]))
      (fun hlast ha => ?_) hnext (ih _ _)
    obtain ⟨rfl, rfl⟩ : a = ':' ∧ b = ':' := by
      rcases hcases with h | ⟨rfl, -⟩ | ⟨rfl, -⟩
      · exact h
      · exact absurd ha (by decide)
      · exact absurd ha (by decide)
    simp [operatorStyle, hlast, Class.glues, Class.isPlainWord]
  | @lifetime name q r rest hword _ ih =>
    intro p frame
    rw [writeTokens_lifetime]
    let p₁ := (p.operator frame "'").1
    have hmark : p₁.written = p.written ++ (p.gap (!p.last.glues) ++ ['\'']) :=
      written_operator p frame "'"
    have honLine : p₁.onLine = true :=
      onLine_operator p frame (show "'".toList = [] ++ ['\''] from rfl) (by decide) (by decide)
        (by decide)
    have hglues : p₁.last.glues = true := by
      rw [last_operator]
      rfl
    obtain ⟨front, c, htext, hc⟩ := word_last hword
    refine .lifetime hword ?_ (onLine_word p₁ htext hc) (glues_word p₁ _) (ih _ _)
    rw [written_word, hmark, gap_of_onLine honLine, hglues]
    simp [Token.identText]
  | @group d body q r rest hd _ _ ihbody ih =>
    intro p frame
    cases d with
    | invisible => exact absurd rfl hd
    | brace => exact lays_braces q r ihbody ih rfl
    | parenthesis =>
      exact lays_delimited (by decide) q r (Printer.spaceBeforeParen _) ihbody ih rfl
    | bracket =>
      exact lays_delimited (by decide) q r (Printer.spaceBeforeBracket _) ihbody ih rfl
  | @attr body q r r' rest htame _ hrest ihbody ih =>
    exact fun p frame => lays_attribute p frame q r r' htame ihbody ih hrest

theorem renderFile_toList (ts : List Token) :
    (renderFile ts).toList
      = (writeTokens {} { mode := .block, top := true } {} ts).written ++ ['\n'] := by
  simp [renderFile, fileAtoms, textOf, Printer.written, -List.map_reverse, List.flatMap_map]

theorem renderInline_toList (ts : List Token) :
    (renderInline ts).toList = (writeTokens {} { mode := .inline } {} ts).written := by
  simp [renderInline, inlineAtoms, textOf, Printer.written, -List.map_reverse, List.flatMap_map]

/-- The text of a tame file spells its tokens. -/
theorem spells_renderFile {ts : List Token} (h : Tame ts) :
    ∃ us, easedTokens us = unplacedTokens ts ∧ Spells (renderFile ts).toList us [] := by
  obtain ⟨text, htext, -, hspells⟩ := lays_of_tame h {} { mode := .block, top := true }
  obtain ⟨us, hus, hspells⟩ := hspells ['\n'] rfl
  refine ⟨us, hus, ?_⟩
  have hempty : Printer.written {} = [] := rfl
  rw [renderFile_toList, htext, hempty, List.nil_append]
  have hbreak : Spells ['\n'] [] [] := .blank (by decide) (.done [])
  have hall := hspells.append hbreak
  rwa [List.append_nil] at hall

end Observable.Layout
