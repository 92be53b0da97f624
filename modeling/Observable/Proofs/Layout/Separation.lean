import Mathlib.Data.List.Chain
import Observable.Proofs.Layout.Conservation
/-! A layout keeps words apart, starts no comment of its own, and ends the line of each comment. -/
namespace Observable

mutual
/-- A token as a text can have it: an identifier is made of letters, digits and underscores, and a
literal neither begins as a comment could nor ends a line. -/
def Token.Legible : Token → Prop
  | .ident _ name _ => name ≠ "" ∧ ∀ c ∈ name.toList, Text.isIdentContinue c = true
  | .punct .. => True
  | .literal text _ =>
    (∃ c rest, text.toList = c :: rest ∧ c ≠ '/' ∧ c ≠ '*') ∧
      text.toList.getLast? ≠ some '\n'
  | .group _ body _ _ => LegibleTokens body

/-- Tokens as a text can have them. -/
def LegibleTokens : List Token → Prop
  | [] => True
  | t :: ts => t.Legible ∧ LegibleTokens ts
end

namespace Layout

namespace Piece

/-- Identifiers and literals, which would be read as one if they touched. -/
def isWord : Piece → Bool
  | word _ | literal _ => true
  | _ => false

/-- What would be read with a word in front of it: another word, the mark of a lifetime, the pound
sign of a raw string and the sign of an exponent. -/
def ties : Piece → Bool
  | word _ | literal _ => true
  | mark c => c = '\'' || c = '#' || c = '+' || c = '-'
  | _ => false

def isComment : Piece → Bool
  | comment .. => true
  | _ => false

/-- Pieces that may have anything in them. -/
def isFree : Piece → Bool
  | literal _ | comment .. => true
  | _ => false

/-- A piece as it is written for a legible token. -/
def Legible : Piece → Prop
  | word text => text.toList ≠ [] ∧ ∀ c ∈ text.toList, c ≠ '/' ∧ c ≠ '*' ∧ c ≠ '\n'
  | literal text =>
    (∃ c rest, text.toList = c :: rest ∧ c ≠ '/' ∧ c ≠ '*') ∧ text.toList.getLast? ≠ some '\n'
  | opening d | closing d => d ≠ .invisible
  | _ => True

end Piece

theorem Token.Legible.word {raw : Bool} {name : String} {q : Position}
    (h : (Token.ident raw name q).Legible) : (Piece.word (Token.identText raw name)).Legible := by
  obtain ⟨hne, hall⟩ := h
  have hchar : ∀ c ∈ name.toList, c ≠ '/' ∧ c ≠ '*' ∧ c ≠ '\n' := by
    intro c hc
    refine ⟨?_, ?_, ?_⟩ <;> (rintro rfl; exact absurd (hall _ hc) (by decide))
  cases raw with
  | false => exact ⟨fun h => hne (String.toList_eq_nil_iff.mp h), hchar⟩
  | true =>
    have htext : (Token.identText true name).toList = 'r' :: '#' :: name.toList := by
      simp [Token.identText]
    refine ⟨by simp [htext], fun c hc => ?_⟩
    rw [htext] at hc
    rcases List.mem_cons.mp hc with rfl | hc
    · decide
    · rcases List.mem_cons.mp hc with rfl | hc
      · decide
      · exact hchar c hc

theorem Flat.legible {lines : Bool} {ts : List Token} {ps : List Piece} (h : Flat lines ts ps)
    (hts : LegibleTokens ts) : ∀ piece ∈ ps, piece.Legible := by
  induction h with
  | nil => simp
  | ident _ ih =>
    exact List.forall_mem_cons.mpr ⟨Token.Legible.word hts.1, ih hts.2⟩
  | literal _ ih => exact List.forall_mem_cons.mpr ⟨hts.1, ih hts.2⟩
  | punct _ ih => exact List.forall_mem_cons.mpr ⟨trivial, ih hts.2⟩
  | group hd _ _ ihbody ih =>
    exact List.forall_mem_cons.mpr ⟨hd, List.forall_mem_append.mpr
      ⟨ihbody hts.1, List.forall_mem_cons.mpr ⟨hd, ih hts.2⟩⟩⟩
  | invisible _ _ ihbody ih => exact List.forall_mem_append.mpr ⟨ihbody hts.1, ih hts.2⟩
  | outerDoc _ _ _ _ ih => exact List.forall_mem_cons.mpr ⟨trivial, ih hts.2.2⟩
  | innerDoc _ _ _ _ ih => exact List.forall_mem_cons.mpr ⟨trivial, ih hts.2.2.2⟩

/-- A gap that keeps a piece apart from the one before it: something stands between a word and what
would be read with it, and between a slash and what would make it a comment, nothing stands between
the mark of a lifetime and its name, and a comment ends its line. -/
structure Apart (a b : Piece) (gap : List Char) : Prop where
  words : a.isWord = true → b.ties = true → gap ≠ []
  tick : a = .mark '\'' → b.isWord = true → gap = []
  slash : a = .mark '/' → b = .mark '/' ∨ b = .mark '*' ∨ b.isComment = true → gap ≠ []
  line : a.isComment = true → ∃ rest, gap = '\n' :: rest

/-- A text that is some pieces in their order, with blanks that keep each of them apart from the one
before it; the last comment ends its line too. -/
inductive Spread : Option Piece → List Piece → List Char → Prop
  | nil {before gap} (hgap : ∀ c ∈ gap, c = ' ' ∨ c = '\n')
      (hline : ∀ a ∈ before, a.isComment = true → ∃ rest, gap = '\n' :: rest) :
      Spread before [] gap
  | cons {before gap piece pieces text} (hgap : ∀ c ∈ gap, c = ' ' ∨ c = '\n')
      (hapart : ∀ a ∈ before, Apart a piece gap) (h : Spread (some piece) pieces text) :
      Spread before (piece :: pieces) (gap ++ (piece.chars ++ text))

/-- What a layout knows when a piece is the last that it has written: a space or a line break comes
before the next piece wherever one is needed. -/
structure Settled (p : Printer) (a : Piece) : Prop where
  some : writesNothing p.out = false
  apart : a.isWord = true ∨ a = .mark '/' → p.last.glues = false ∧ endsLine p.out = false
  tick : a = .mark '\'' → p.last.glues = true ∧ p.pending = 0
  line : a.isComment = true → 0 < p.pending

theorem Settled.of_delimiter {p : Printer} {a : Piece} (hsome : writesNothing p.out = false)
    (ha : (∃ d, a = .opening d) ∨ ∃ d, a = .closing d) : Settled p a := by
  rcases ha with ⟨d, rfl⟩ | ⟨d, rfl⟩ <;>
    exact ⟨hsome, by simp [Piece.isWord], by simp, by simp [Piece.isComment]⟩

theorem Settled.gap_ne_nil {p : Printer} {a : Piece} (h : Settled p a)
    (ha : a.isWord = true ∨ a = .mark '/') {space : Bool}
    (hspace : p.atLineStart = true ∨ (p.last.glues = false → space = true)) :
    p.gap space ≠ [] := by
  obtain ⟨hglues, hline⟩ := h.apart ha
  by_cases hpending : 0 < p.pending
  · obtain ⟨rest, hrest⟩ := gap_of_pending hpending h.some space
    simp [hrest]
  · have honLine : p.onLine = true := onLine_of (Nat.eq_zero_of_not_pos hpending) hline
    rcases hspace with hstart | hspace
    · simp [Printer.onLine, hstart] at honLine
    · simp [gap_of_onLine honLine, hspace hglues]

/-- A piece asks for what keeps it apart: a word, a slash, a star and what would be read with a word
for a space, unless the piece before it glues, and a comment for a line of its own. -/
structure Asks (p : Printer) (b : Piece) (space : Bool) : Prop where
  space : b.ties = true ∨ b = .mark '/' ∨ b = .mark '*' → space = !p.last.glues
  line : b.isComment = true → p.atLineStart = true

theorem Piece.ties_of_isWord {b : Piece} (h : b.isWord = true) : b.ties = true := by
  cases b <;> first | rfl | cases h

/-- A delimiter asks for nothing. -/
theorem Asks.of_delimiter {p : Printer} {b : Piece} (space : Bool)
    (hb : (∃ d, b = .opening d) ∨ ∃ d, b = .closing d) : Asks p b space := by
  rcases hb with ⟨d, rfl⟩ | ⟨d, rfl⟩ <;> exact ⟨by simp [Piece.ties], by simp [Piece.isComment]⟩

theorem Settled.apart_gap {p : Printer} {a b : Piece} (h : Settled p a) {space : Bool}
    (hasks : Asks p b space) : Apart a b (p.gap space) where
  words ha hb := h.gap_ne_nil (.inl ha) (.inr fun hglues => by simp [hasks.space (.inl hb), hglues])
  tick ha hb := by
    obtain ⟨hglues, hpending⟩ := h.tick ha
    have hspace : space = false := by
      simp [hasks.space (.inl (Piece.ties_of_isWord hb)), hglues]
    simp [Printer.gap, hpending, hspace]
  slash ha hb := by
    refine h.gap_ne_nil (.inr ha) ?_
    rcases hb with hb | hb | hb
    · exact .inr fun hglues => by simp [hasks.space (.inr (.inl hb)), hglues]
    · exact .inr fun hglues => by simp [hasks.space (.inr (.inr hb)), hglues]
    · exact .inl (hasks.line hb)
  line ha := gap_of_pending (h.line ha) h.some space

/-- From one layout to another some pieces are written and kept apart, from each other and from what
stands before them. -/
def Printer.Keeps (p p' : Printer) (ps : List Piece) : Prop :=
  (∀ piece ∈ ps, piece.Legible) → ∀ before : Option Piece, (∀ a ∈ before, Settled p a) →
    (∀ a ∈ ps.getLast?.or before, Settled p' a) ∧
    ∃ text, p'.written = p.written ++ text ∧ ∀ qs tail,
      Spread (ps.getLast?.or before) qs tail → Spread before (ps ++ qs) (text ++ tail)

/-- Pieces without gaps between them. -/
theorem Spread.joined {b : Piece} {bs : List Piece}
    (hchain : List.IsChain (fun a b => Apart a b []) (b :: bs)) {qs : List Piece}
    {tail : List Char} (h : Spread ((b :: bs).getLast?) qs tail) :
    Spread (some b) (bs ++ qs) (bs.flatMap Piece.chars ++ tail) := by
  induction bs generalizing b with
  | nil => exact h
  | cons c bs ih =>
    obtain ⟨hbc, hchain⟩ := List.isChain_cons_cons.mp hchain
    rw [List.getLast?_cons_cons] at h
    have hgap : ∀ x ∈ ([] : List Char), x = ' ' ∨ x = '\n' := by simp
    have hapart : ∀ a ∈ some b, Apart a c [] := fun a ha => Option.some.inj ha ▸ hbc
    have hspread := Spread.cons hgap hapart (ih hchain h)
    rwa [List.nil_append, ← List.append_assoc] at hspread

theorem Spread.space {a : Piece} (ha : a.isComment = false) (htick : a ≠ .mark '\'')
    {qs : List Piece} {tail : List Char} (h : Spread (some a) qs tail) :
    Spread (some a) qs (' ' :: tail) := by
  have hblank : ∀ {gap : List Char}, (∀ c ∈ gap, c = ' ' ∨ c = '\n') →
      ∀ c ∈ ' ' :: gap, c = ' ' ∨ c = '\n' :=
    fun hgap => List.forall_mem_cons.mpr ⟨.inl rfl, hgap⟩
  cases h with
  | nil hgap _ => exact .nil (hblank hgap) fun b hb hcomment => by cases hb; simp [ha] at hcomment
  | cons hgap _ h =>
    refine .cons (hblank hgap) (fun b hb => ?_) h
    cases hb
    exact ⟨fun _ _ => List.cons_ne_nil _ _, fun h => absurd h htick,
      fun _ _ => List.cons_ne_nil _ _, by simp [ha]⟩

theorem Piece.Legible.chars_ne_nil {piece : Piece} (h : piece.Legible) : piece.chars ≠ [] := by
  cases piece with
  | word text => exact h.1
  | literal text =>
    obtain ⟨⟨c, rest, htext, -⟩, -⟩ := h
    simp [Piece.chars, htext]
  | mark c | comment inner text => simp [Piece.chars]
  | opening d | closing d => cases d <;> simp_all [Piece.Legible, Piece.chars, Delimiter.opening,
      Delimiter.closing]

/-- A word ends in no line break. -/
theorem Piece.Legible.last_ne {piece : Piece} (h : piece.Legible) (hword : piece.isWord = true) :
    ∃ front c, piece.chars = front ++ [c] ∧ c ≠ '\n' := by
  have hne := h.chars_ne_nil
  refine ⟨_, _, (List.dropLast_concat_getLast hne).symm, fun hbreak => ?_⟩
  have hlast : piece.chars.getLast? = some '\n' := by
    rw [List.getLast?_eq_some_getLast hne, hbreak]
  cases piece with
  | word text => exact (h.2 '\n' (List.mem_of_getLast? hlast)).2.2 rfl
  | literal text => exact h.2 hlast
  | _ => cases hword

namespace Printer.Keeps

/-- Without writing anything a layout may forget things. -/
theorem of_out {p p' : Printer} (hout : p'.out = p.out) (hlast : p'.last = p.last)
    (hpending : p'.pending = p.pending) : p.Keeps p' [] := by
  intro _ before hbefore
  refine ⟨fun a ha => ?_, [], by simp [Printer.written, hout], fun qs tail h => h⟩
  obtain ⟨hsome, hapart, htick, hline⟩ := hbefore a ha
  exact ⟨by rwa [hout], by rwa [hlast, hout], by rwa [hlast, hpending], by rwa [hpending]⟩

theorem trans {p p' p'' : Printer} {ps qs : List Piece} (h : p.Keeps p' ps) (h' : p'.Keeps p'' qs) :
    p.Keeps p'' (ps ++ qs) := by
  intro hlegible before hbefore
  obtain ⟨hps, hqs⟩ := List.forall_mem_append.mp hlegible
  obtain ⟨hsettled, text, hwritten, hspread⟩ := h hps before hbefore
  obtain ⟨hsettled', text', hwritten', hspread'⟩ := h' hqs _ hsettled
  rw [List.getLast?_append, Option.or_assoc]
  refine ⟨hsettled', text ++ text', by rw [hwritten', hwritten, List.append_assoc],
    fun rs tail hrs => ?_⟩
  rw [List.append_assoc, List.append_assoc]
  exact hspread _ _ (hspread' _ _ hrs)

/-- Some pieces that are written as one word, perhaps after some line breaks more than the layout
asks for. -/
theorem of_write {p q p' : Printer} {word : String} {space : Bool} {b : Piece} {bs : List Piece}
    (hout : p'.out = (q.write word space).out) (hfrom : q.out = p.out)
    (hword : word.toList = (b :: bs).flatMap Piece.chars)
    (hgap : ∀ a, Settled p a → Apart a b (q.gap space))
    (hchain : List.IsChain (fun a b => Apart a b []) (b :: bs))
    (hsettled : ∀ a, (b :: bs).getLast? = some a → a.Legible → writesNothing p'.out = false →
      Settled p' a) :
    p.Keeps p' (b :: bs) := by
  intro hlegible before hbefore
  have hb : b.chars ≠ [] := (hlegible b List.mem_cons_self).chars_ne_nil
  have hsome : writesNothing p'.out = false := by
    rw [hout]
    exact writesNothing_write q (by simp [hword, hb]) space
  have hwritten : p'.written = p.written ++ (q.gap space ++ word.toList) := by
    rw [written_of_out hout, written_write, written_of_out hfrom]
  obtain ⟨a, ha⟩ : ∃ a, (b :: bs).getLast? = some a := ⟨_, List.getLast?_eq_some_getLast (by simp)⟩
  rw [ha, Option.some_or]
  refine ⟨fun a' ha' => Option.some.inj ha' ▸ hsettled a ha
    (hlegible a (List.mem_of_getLast? ha)) hsome, _, hwritten, fun qs tail h => ?_⟩
  rw [hword, List.flatMap_cons, List.append_assoc, List.append_assoc, List.cons_append]
  exact .cons mem_gap (fun a' ha' => hgap a' (hbefore a' ha')) (.joined hchain (ha ▸ h))

/-- A delimiter, which needs nothing around it. -/
theorem of_delimiter {p p' : Printer} {word : String} {space : Bool} {b : Piece}
    (hout : p'.out = (p.write word space).out) (hword : word.toList = b.chars)
    (hb : (∃ d, b = .opening d) ∨ ∃ d, b = .closing d) : p.Keeps p' [b] := by
  refine of_write hout rfl (by simp [hword]) (fun a ha => ha.apart_gap (.of_delimiter space hb))
    (List.isChain_singleton b) fun a ha _ hsome => ?_
  obtain rfl := Option.some.inj ha
  exact .of_delimiter hsome hb

/-- An identifier or a literal. -/
theorem of_word {p p' : Printer} {word : String} {b : Piece}
    (hout : p'.out = (p.write word (!p.last.glues)).out) (hword : word.toList = b.chars)
    (hb : b.isWord = true) (hglues : p'.last.glues = false) : p.Keeps p' [b] := by
  have hcomment : b.isComment = false := by cases b <;> first | rfl | cases hb
  have htick : b ≠ .mark '\'' := by rintro rfl; cases hb
  refine of_write hout rfl (by simp [hword])
    (fun a ha => ha.apart_gap ⟨fun _ => rfl, by simp [hcomment]⟩) (List.isChain_singleton b)
    fun a ha hlegible hsome => ?_
  obtain rfl := Option.some.inj ha
  obtain ⟨front, c, hchars, hc⟩ := hlegible.last_ne hb
  refine ⟨hsome, fun _ => ⟨hglues, ?_⟩, fun h => absurd h htick, by simp [hcomment]⟩
  rw [hout]
  exact endsLine_write p (hword.trans hchars) hc _

end Printer.Keeps

/-- No operator has a slash, a star or the mark of a lifetime after its first character. -/
theorem mem_of_beginsOperator {c : Char} {cs : List Char} (h : beginsOperator (c :: cs) = true) :
    ∀ d ∈ cs, d ≠ '/' ∧ d ≠ '*' ∧ d ≠ '\'' := by
  have hall : ∀ o ∈ operators,
      o.toList.tail.all (fun d => d ≠ '/' && d ≠ '*' && d ≠ '\'') = true :=
    forall_mem_of_all (by decide +kernel)
  obtain ⟨o, ho, hprefix⟩ := List.any_eq_true.mp h
  obtain ⟨rest, hrest⟩ := List.isPrefixOf_iff_prefix.mp hprefix
  intro d hd
  have hmem : d ∈ o.toList.tail := by
    rw [← hrest]
    exact List.mem_append_left rest hd
  simpa [and_assoc] using List.all_eq_true.mp (hall o ho) d hmem

theorem isChain_marks {c : Char} {cs : List Char} (h : ∀ d ∈ cs, d ≠ '/' ∧ d ≠ '*' ∧ d ≠ '\'') :
    List.IsChain (fun a b => Apart a b []) ((c :: cs).map Piece.mark) := by
  induction cs generalizing c with
  | nil => exact List.isChain_singleton _
  | cons d cs ih =>
    obtain ⟨hd, hcs⟩ := List.forall_mem_cons.mp h
    refine List.isChain_cons_cons.mpr ⟨⟨nofun, fun _ => nofun, fun _ hb => ?_, nofun⟩, ih hcs⟩
    simp [hd.1, hd.2.1, Piece.isComment] at hb

/-- A slash, a star and what would be read with a word ask for a space. -/
theorem operatorStyle_space (p : Printer) (frame : Frame) {op : String} {c : Char} {cs : List Char}
    (hop : op.toList = c :: cs) (hc : c ∈ ['/', '*', '\'', '#', '+', '-']) :
    (operatorStyle p frame op).1 = !p.last.glues := by
  have hne : ∀ o ∈ [",", ";", ":", ".", "..", "...", "..=", "::", "?", "<", ">", "|", "$", "!"],
      op ≠ o := by
    have hall : ∀ o ∈ [",", ";", ":", ".", "..", "...", "..=", "::", "?", "<", ">", "|", "$", "!"],
        o.toList.head?.all (! ['/', '*', '\'', '#', '+', '-'].contains ·) = true := by decide
    rintro _ ho rfl
    have hhead := hall _ ho
    rw [hop, List.head?_cons, Option.all_some, List.contains_iff_mem.mpr hc] at hhead
    cases hhead
  simp only [List.forall_mem_cons] at hne
  simp only [operatorStyle, hne]
  simp only [decide_false, Bool.false_and, Bool.or_false, Bool.false_eq_true, if_false]
  repeat' split
  all_goals rfl

/-- After the mark of a lifetime comes its name, on the same line. -/
theorem operator_tick (p : Printer) (frame : Frame) :
    (p.operator frame "'").1.last = .tick ∧ (p.operator frame "'").1.pending = 0 := by
  have hpending := pending_write p "'" (!p.last.glues)
  have hcomma : ("'" = ",") = False := by decide
  have hsemi : ("'" = ";") = False := by decide
  simp only [Printer.operator, operatorStyle, hcomma, hsemi, if_true, decide_false, Bool.false_and,
    Bool.false_eq_true, if_false, ite_self]
  exact ⟨trivial, hpending⟩

/-- After a slash that stands alone comes a space. -/
theorem glues_slash (p : Printer) (frame : Frame) :
    (operatorStyle p frame "/").2.glues = false := by
  simp [operatorStyle, Class.glues]

theorem steps_keeps : Steps Printer.Keeps where
  refl p := .of_out rfl rfl rfl
  trans := .trans
  forget p := .of_out rfl rfl rfl
  word p text := .of_word (out_word p text) rfl rfl (glues_word p text)
  literal p text := .of_word rfl rfl rfl rfl
  operator p frame op c cs hop hkept := by
    have hcs : ∀ d ∈ cs, d ≠ '/' ∧ d ≠ '*' ∧ d ≠ '\'' :=
      hkept.elim (fun h => by simp [h]) mem_of_beginsOperator
    have hasks : Asks p (.mark c) (operatorStyle p frame op).1 := by
      refine ⟨fun hb => operatorStyle_space p frame hop ?_, by simp [Piece.isComment]⟩
      simpa [Piece.ties, or_assoc, or_comm, or_left_comm] using hb
    -- A slash and the mark of a lifetime stand only for themselves.
    have halone : ∀ {d : Char}, d = '/' ∨ d = '\'' → (c :: cs).getLast? = some d →
        op = String.ofList [d] := by
      intro d hd hlast
      cases cs with
      | nil =>
        obtain rfl : c = d := by simpa using hlast
        rw [← hop, String.ofList_toList]
      | cons e cs =>
        rw [List.getLast?_cons_cons] at hlast
        obtain ⟨hslash, -, htick⟩ := hcs d (List.mem_of_getLast? hlast)
        exact (hd.elim hslash htick).elim
    refine .of_write (out_operator p frame op) rfl (by simp [hop, List.flatMap_map, Piece.chars])
      (fun a ha => ha.apart_gap hasks) (isChain_marks hcs) fun a ha _ hsome => ?_
    rw [← List.map_cons, List.getLast?_map] at ha
    obtain ⟨d, hd, rfl⟩ := Option.map_eq_some_iff.mp ha
    refine ⟨hsome, fun hslash => ?_, fun htick => ?_, by simp [Piece.isComment]⟩
    · obtain rfl : d = '/' := by simpa [Piece.isWord] using hslash
      obtain rfl : op = "/" := halone (.inl rfl) hd
      rw [last_operator, out_operator]
      have hlast : "/".toList = [] ++ ['/'] := rfl
      exact ⟨glues_slash p frame, endsLine_write p hlast (by decide) _⟩
    · obtain rfl : d = '\'' := by simpa using htick
      obtain rfl : op = "'" := halone (.inr rfl) hd
      obtain ⟨hlast, hpending⟩ := operator_tick p frame
      exact ⟨by rw [hlast]; rfl, hpending⟩
  comment p line inner text hstart hline hplain := by
    refine .of_write rfl rfl (by simp [hline])
      (fun a ha => ha.apart_gap ⟨by simp [Piece.ties], fun _ => hstart⟩)
      (List.isChain_singleton _) fun a ha _ hsome => ?_
    obtain rfl := Option.some.inj ha
    exact ⟨hsome, by simp [Piece.isWord], by simp,
      fun _ => Nat.lt_of_lt_of_le Nat.zero_lt_one (Nat.le_max_right _ _)⟩
  pound p text cs htext hinner := by
    have hcs : ∀ d ∈ cs, d ≠ '/' ∧ d ≠ '*' ∧ d ≠ '\'' := by rcases hinner with rfl | rfl <;> simp
    refine .of_write rfl rfl (by simp [htext, List.flatMap_map, Piece.chars])
      (fun a ha => ha.apart_gap ⟨fun _ => rfl, by simp [Piece.isComment]⟩)
      (isChain_marks hcs) fun a ha _ hsome => ?_
    rcases hinner with rfl | rfl <;>
      (obtain rfl := Option.some.inj ha; exact ⟨hsome, by simp [Piece.isWord], by simp,
        by simp [Piece.isComment]⟩)
  bracket p frame := .of_delimiter (out_endAttribute _ frame) rfl (.inr ⟨_, rfl⟩)
  enter p d hd space := .of_delimiter rfl rfl (.inl ⟨d, rfl⟩)
  pad p space := by
    intro hlegible before hbefore
    have henter : p.Keeps (p.enter "\x7b" space) [.opening .brace] :=
      .of_delimiter rfl rfl (.inl ⟨_, rfl⟩)
    obtain ⟨-, text, hwritten, hspread⟩ := henter hlegible before hbefore
    refine ⟨fun a ha => ?_, text ++ [' '], ?_, fun qs tail h => ?_⟩
    · obtain rfl : Piece.opening .brace = a := Option.some.inj ha
      exact .of_delimiter (by simp [writesNothing, Atom.text]) (.inl ⟨_, rfl⟩)
    · rw [← List.append_assoc, ← hwritten]
      simp [Printer.written, Atom.text]
    · rw [List.append_assoc]
      exact hspread _ _ (h.space rfl (by simp))
  leave p d hd space := .of_delimiter rfl rfl (.inr ⟨d, rfl⟩)
  empty p space frame next := by
    refine .of_write (out_afterBlock _ frame next) rfl rfl
      (fun a ha => ha.apart_gap (.of_delimiter space (.inl ⟨_, rfl⟩))) ?_ fun a ha _ hsome => ?_
    · apply List.isChain_cons_cons.mpr
      exact ⟨⟨by simp [Piece.isWord], by simp, by simp, by simp [Piece.isComment]⟩,
        List.isChain_singleton _⟩
    · obtain rfl := Option.some.inj ha
      exact .of_delimiter hsome (.inr ⟨_, rfl⟩)
  enterBlock p := .of_delimiter rfl rfl (.inl ⟨_, rfl⟩)
  leaveBlock p frame next := by
    let q : Printer := { p with indent := p.indent - 1, pending := 1 }
    have hout : (p.leaveBlock.afterBlock frame next).out = (q.write "\x7d" false).out :=
      out_afterBlock p.leaveBlock frame next
    refine .of_write hout rfl rfl (fun a ha => ?_) (List.isChain_singleton _) fun a ha _ hsome => ?_
    · have hgap : ∃ rest, q.gap false = '\n' :: rest :=
        gap_of_pending (p := q) Nat.one_pos ha.some false
      exact ⟨by simp [Piece.ties], by simp [Piece.isWord], by simp [Piece.isComment], fun _ => hgap⟩
    · obtain rfl := Option.some.inj ha
      exact .of_delimiter hsome (.inr ⟨_, rfl⟩)

/-- A comment starts at the front of a text. -/
def startsComment : List Char → Bool
  | '/' :: c :: _ => c = '/' || c = '*'
  | _ => false

theorem startsComment_of_ne {c : Char} (hc : c ≠ '/') (text : List Char) :
    startsComment (c :: text) = false := by
  unfold startsComment
  split
  · rename_i heq
    exact absurd (List.cons.inj heq).1 hc
  · rfl

/-- What is neither a slash, a star nor a comment begins with neither. -/
theorem Piece.Legible.front_ne {piece : Piece} (h : piece.Legible)
    (hplain : ¬ (piece = .mark '/' ∨ piece = .mark '*' ∨ piece.isComment = true)) :
    ∃ c rest, piece.chars = c :: rest ∧ c ≠ '/' ∧ c ≠ '*' := by
  cases piece with
  | word text =>
    obtain ⟨c, rest, htext⟩ := List.exists_cons_of_ne_nil h.1
    obtain ⟨hslash, hstar, -⟩ := h.2 c (htext ▸ List.mem_cons_self)
    exact ⟨c, rest, htext, hslash, hstar⟩
  | literal text => exact h.1
  | mark c => exact ⟨c, [], rfl, by simpa [Piece.isComment] using hplain⟩
  | opening d | closing d =>
    cases d with
    | invisible => exact absurd rfl h
    | _ => exact ⟨_, [], rfl, by decide, by decide⟩
  | comment inner text => simp [Piece.isComment] at hplain

/-- Only a slash, a literal and a comment have slashes in them. -/
theorem Piece.Legible.eq_slash {piece : Piece} (h : piece.Legible) (hfree : piece.isFree = false)
    (hmem : '/' ∈ piece.chars) : piece = .mark '/' := by
  cases piece with
  | word text => exact absurd rfl (h.2 '/' hmem).1
  | mark c => rw [List.mem_singleton.mp hmem]
  | opening d | closing d => cases d <;> exact absurd hmem (by decide)
  | literal text | comment inner text => cases hfree

/-- No comment starts with a slash that is a token and what is written after it. -/
theorem Spread.startsComment_eq_false {ps : List Piece} {text : List Char}
    (h : Spread (some (.mark '/')) ps text) (hlegible : ∀ piece ∈ ps, piece.Legible) :
    startsComment ('/' :: text) = false := by
  have hblank : ∀ {c : Char}, c = ' ' ∨ c = '\n' → ∀ rest, startsComment ('/' :: c :: rest)
      = false := by
    rintro c (rfl | rfl) rest <;> rfl
  cases h with
  | nil hgap _ =>
    cases text with
    | nil => rfl
    | cons c rest => exact hblank (hgap c List.mem_cons_self) rest
  | @cons _ gap piece ps text hgap hapart h =>
    cases gap with
    | cons c gap => exact hblank (hgap c List.mem_cons_self) _
    | nil =>
      obtain ⟨c, rest, hchars, hslash, hstar⟩ := (hlegible piece List.mem_cons_self).front_ne
        fun hb => (hapart _ rfl).slash rfl hb rfl
      simp [hchars, startsComment, hslash, hstar]

theorem Spread.scatters {before : Option Piece} {ps : List Piece} {text : List Char}
    (h : Spread before ps text) : Scatters (ps.map Piece.chars) text := by
  induction h with
  | nil hgap _ => exact .nil hgap
  | cons hgap _ _ ih => exact .cons hgap ih

/-- No comment starts in a gap. -/
theorem append_of_startsComment {gap text front back : List Char}
    (hgap : ∀ c ∈ gap, c = ' ' ∨ c = '\n') (h : gap ++ text = front ++ back)
    (hback : startsComment back = true) :
    ∃ front', front = gap ++ front' ∧ text = front' ++ back := by
  induction gap generalizing front with
  | nil => exact ⟨front, rfl, h⟩
  | cons c gap ih =>
    obtain ⟨hc, hgap⟩ := List.forall_mem_cons.mp hgap
    cases front with
    | nil =>
      have hne : c ≠ '/' := by rcases hc with rfl | rfl <;> decide
      rw [List.nil_append] at h
      rw [← h, List.cons_append, startsComment_of_ne hne] at hback
      cases hback
    | cons d front =>
      obtain ⟨rfl, htail⟩ := List.cons.inj h
      obtain ⟨front', rfl, htext⟩ := ih hgap htail
      exact ⟨front', rfl, htext⟩

/-- Wherever a comment starts in a text that is some pieces, it starts inside a literal or a line of
documentation. -/
def CommentsWithin (ps : List Piece) (text : List Char) : Prop :=
  ∀ front back, text = front ++ back → startsComment back = true →
    ∃ ps₁ piece ps₂ text₁ inside rest text₂, ps = ps₁ ++ piece :: ps₂ ∧ piece.isFree = true ∧
      Scatters (ps₁.map Piece.chars) text₁ ∧ piece.chars = inside ++ rest ∧ rest ≠ [] ∧
      Scatters (ps₂.map Piece.chars) text₂ ∧ front = text₁ ++ inside ∧ back = rest ++ text₂

theorem Spread.commentsWithin {before : Option Piece} {ps : List Piece} {text : List Char}
    (h : Spread before ps text) (hlegible : ∀ piece ∈ ps, piece.Legible) :
    CommentsWithin ps text := by
  induction h with
  | @nil before gap hgap _ =>
    intro front back htext hback
    obtain ⟨front', -, hnil⟩ :=
      append_of_startsComment hgap ((List.append_nil gap).trans htext) hback
    obtain ⟨-, rfl⟩ := List.append_eq_nil_iff.mp hnil.symm
    cases hback
  | @cons before gap piece ps text hgap _ hspread ih =>
    intro front back htext hback
    obtain ⟨hpiece, hps⟩ := List.forall_mem_cons.mp hlegible
    obtain ⟨front₁, rfl, htext₁⟩ := append_of_startsComment hgap htext hback
    have hlater : ∀ {front₂}, front₁ = piece.chars ++ front₂ → text = front₂ ++ back →
        ∃ ps₁ piece' ps₂ text₁ inside rest text₂, piece :: ps = ps₁ ++ piece' :: ps₂ ∧
          piece'.isFree = true ∧ Scatters (ps₁.map Piece.chars) text₁ ∧
          piece'.chars = inside ++ rest ∧ rest ≠ [] ∧ Scatters (ps₂.map Piece.chars) text₂ ∧
          gap ++ front₁ = text₁ ++ inside ∧ back = rest ++ text₂ := by
      rintro front₂ rfl htext₂
      obtain ⟨ps₁, piece', ps₂, text₁, inside, rest, text₂, rfl, hfree, hbefore, hinside, hne,
        hafter, rfl, hrest⟩ := ih hps front₂ back htext₂ hback
      exact ⟨piece :: ps₁, piece', ps₂, gap ++ (piece.chars ++ text₁), inside, rest, text₂, rfl,
        hfree, .cons hgap hbefore, hinside, hne, hafter, by simp only [List.append_assoc], hrest⟩
    rcases List.append_eq_append_iff.mp htext₁ with
      ⟨front₂, hfront, htext₂⟩ | ⟨rest, hchars, hrest⟩
    · exact hlater hfront htext₂
    · cases rest with
      | nil =>
        exact hlater (by rw [hchars, List.append_nil, List.append_nil])
          (by rw [hrest, List.nil_append, List.nil_append])
      | cons c rest =>
        cases hfree : piece.isFree with
        | true =>
          exact ⟨[], piece, ps, gap, front₁, c :: rest, text, rfl, hfree, .nil hgap, hchars,
            List.cons_ne_nil c rest, hspread.scatters, rfl, hrest⟩
        | false =>
          obtain rfl : c = '/' := by
            by_contra hne
            rw [hrest, List.cons_append, startsComment_of_ne hne] at hback
            cases hback
          obtain rfl := hpiece.eq_slash hfree (by simp [hchars])
          obtain rfl : rest = [] := by
            have hlength := congrArg List.length hchars
            simp only [Piece.chars, List.length_append, List.length_cons,
              List.length_nil] at hlength
            exact List.eq_nil_of_length_eq_zero (by omega)
          rw [hrest, List.singleton_append, hspread.startsComment_eq_false hps] at hback
          cases hback

/-- What is written from an empty layout on is kept apart, when what follows ends a last comment. -/
theorem Printer.Keeps.spread {p : Printer} {ps : List Piece} (h : Printer.Keeps {} p ps)
    (hlegible : ∀ piece ∈ ps, piece.Legible) {back : List Char}
    (hback : ∀ c ∈ back, c = ' ' ∨ c = '\n')
    (hline : ∀ a ∈ ps.getLast?, a.isComment = true → ∃ rest, back = '\n' :: rest) :
    Spread none ps (p.written ++ back) := by
  obtain ⟨-, text, hwritten, hspread⟩ := h hlegible none (by simp)
  rw [Option.or_none] at hspread
  have hall := hspread [] back (.nil hback hline)
  rwa [List.append_nil, ← List.nil_append text, ← show Printer.written {} = [] from rfl, ← hwritten]
    at hall

theorem Flat.isComment_eq_false {ts : List Token} {ps : List Piece} (h : Flat false ts ps) :
    ∀ a ∈ ps, a.isComment = false := by
  induction h with
  | nil => simp
  | ident _ ih | literal _ ih | punct _ ih => exact List.forall_mem_cons.mpr ⟨rfl, ih⟩
  | group _ _ _ ihbody ih =>
    exact List.forall_mem_cons.mpr ⟨rfl, List.forall_mem_append.mpr
      ⟨ihbody, List.forall_mem_cons.mpr ⟨rfl, ih⟩⟩⟩
  | invisible _ _ ihbody ih => exact List.forall_mem_append.mpr ⟨ihbody, ih⟩
  | outerDoc hlines | innerDoc hlines => cases hlines

/-- Whatever legible tokens are laid out, on one line or as a file: something stands between two
words, and between a word and a mark that would be read with it, no slash is followed by a slash or
a star so that no comment starts but in a literal or a line of documentation, and each line of
documentation ends with its line. -/
theorem render_keeps_apart {ts : List Token} (h : LegibleTokens ts) :
    (∃ pieces, Flat false ts pieces ∧ Spread none pieces (renderInline ts).toList ∧
      CommentsWithin pieces (renderInline ts).toList) ∧
    ∃ pieces, Flat true ts pieces ∧ Spread none pieces (renderFile ts).toList ∧
      CommentsWithin pieces (renderFile ts).toList := by
  constructor
  · obtain ⟨ps, hflat, hkeeps⟩ := steps_keeps.runs ts {} { mode := .inline }
    have hspread : Spread none ps (renderInline ts).toList := by
      rw [renderInline_toList, ← List.append_nil (Printer.written _)]
      refine hkeeps.spread (hflat.legible h) (by simp) fun a ha hcomment => ?_
      rw [hflat.isComment_eq_false a (List.mem_of_getLast? ha)] at hcomment
      cases hcomment
    exact ⟨ps, hflat, hspread, hspread.commentsWithin (hflat.legible h)⟩
  · obtain ⟨ps, hflat, hkeeps⟩ := steps_keeps.runs ts {} { mode := .block, top := true }
    have hspread : Spread none ps (renderFile ts).toList := by
      rw [renderFile_toList]
      exact hkeeps.spread (hflat.legible h) (by simp) fun _ _ _ => ⟨[], rfl⟩
    exact ⟨ps, hflat, hspread, hspread.commentsWithin (hflat.legible h)⟩

/-- Two words, two slashes, and a slash before a star. -/
theorem render_keeps_apart_slashes :
    let mark (c : Char) (s : Spacing) : Token := .punct c s .start
    let ts : List Token := [.ident false "a" .start, .literal "1" .start, mark '/' .joint,
      mark '/' .joint, mark '*' .alone, .ident false "b" .start]
    LegibleTokens ts ∧ renderInline ts = "a 1 / / *b" ∧ renderFile ts = "a 1 / / *b\n" ∧
      ∃ pieces, Flat true ts pieces ∧ Spread none pieces (renderFile ts).toList := by
  intro mark ts
  have hlegible : LegibleTokens ts := by
    have ha : "a".toList.all Text.isIdentContinue = true := by decide
    have hb : "b".toList.all Text.isIdentContinue = true := by decide
    exact ⟨⟨by decide, List.all_eq_true.mp ha⟩, ⟨⟨'1', [], rfl, by decide, by decide⟩, by decide⟩,
      trivial, trivial, trivial, ⟨by decide, List.all_eq_true.mp hb⟩, trivial⟩
  obtain ⟨-, pieces, hflat, hspread, -⟩ := render_keeps_apart hlegible
  exact ⟨hlegible, by decide +kernel, by decide +kernel, pieces, hflat, hspread⟩

end Layout

end Observable
