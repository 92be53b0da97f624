import Observable.Proofs.Layout.Inline
import Observable.Proofs.Token.Compact
/-! A file is laid out in lines: what stands between two tokens is nothing, a space, or one or two
line breaks and the indent of the blocks that are open there. -/
namespace Observable

mutual
theorem Token.Compact.visible : (t : Token) → t.Compact → t.Visible
  | .ident .., _ => trivial
  | .punct .., _ => trivial
  | .literal .., _ => trivial
  | .group _ body _ _, h => ⟨h.1, CompactTokens.visible body h.2⟩

theorem CompactTokens.visible : (ts : List Token) → CompactTokens ts → VisibleTokens ts
  | [], _ => trivial
  | t :: ts, h => ⟨Token.Compact.visible t h.1, CompactTokens.visible ts h.2⟩
end

namespace Layout

/-- A piece as it is written for a compact token: it begins with no blank, and only a literal and a
line of documentation have blanks inside them. -/
structure Piece.Compact (piece : Piece) : Prop where
  front : ∃ c rest, piece.chars = c :: rest ∧ c ≠ ' ' ∧ c ≠ '\n'
  plain : piece.isFree = false → ∀ c ∈ piece.chars, c ≠ ' ' ∧ c ≠ '\n'

theorem Piece.Compact.of_plain {piece : Piece} (hsome : piece.chars ≠ [])
    (hplain : ∀ c ∈ piece.chars, c ≠ ' ' ∧ c ≠ '\n') : piece.Compact where
  front := by
    obtain ⟨c, rest, hchars⟩ := List.exists_cons_of_ne_nil hsome
    exact ⟨c, rest, hchars, hplain c (hchars ▸ List.mem_cons_self)⟩
  plain _ := hplain

theorem Token.Compact.word {raw : Bool} {name : String} {q : Position}
    (h : (Token.ident raw name q).Compact) : (Piece.word (Token.identText raw name)).Compact := by
  obtain ⟨hne, hplain⟩ := h
  have hname : name.toList ≠ [] := fun h => hne (String.toList_eq_nil_iff.mp h)
  cases raw with
  | false => exact .of_plain hname hplain
  | true =>
    have htext : (Piece.word (Token.identText true name)).chars = 'r' :: '#' :: name.toList := by
      simp [Piece.chars, Token.identText]
    refine .of_plain (by simp [htext]) ?_
    rw [htext]
    exact List.forall_mem_cons.mpr ⟨by decide, List.forall_mem_cons.mpr ⟨by decide, hplain⟩⟩

theorem compact_delimiter {d : Delimiter} (hd : d ≠ .invisible) :
    (Piece.opening d).Compact ∧ (Piece.closing d).Compact := by
  cases d with
  | invisible => exact absurd rfl hd
  | _ => exact ⟨.of_plain (by decide) (forall_mem_of_all (by decide)),
      .of_plain (by decide) (forall_mem_of_all (by decide))⟩

theorem compact_comment (inner : Bool) (text : List Char) : (Piece.comment inner text).Compact where
  front := ⟨'/', _, rfl, by decide, by decide⟩
  plain h := Bool.noConfusion h

theorem Flat.compact {lines : Bool} {ts : List Token} {ps : List Piece} (h : Flat lines ts ps)
    (hts : CompactTokens ts) : ∀ piece ∈ ps, piece.Compact := by
  induction h with
  | nil => simp
  | ident _ ih => exact List.forall_mem_cons.mpr ⟨Token.Compact.word hts.1, ih hts.2⟩
  | literal _ ih =>
    exact List.forall_mem_cons.mpr ⟨⟨hts.1, fun h => Bool.noConfusion h⟩, ih hts.2⟩
  | punct _ ih =>
    have hmark : (Piece.mark _).Compact :=
      .of_plain (List.cons_ne_nil _ _) (List.forall_mem_singleton.mpr hts.1)
    exact List.forall_mem_cons.mpr ⟨hmark, ih hts.2⟩
  | group hd _ _ ihbody ih =>
    obtain ⟨hopening, hclosing⟩ := compact_delimiter hd
    exact List.forall_mem_cons.mpr ⟨hopening, List.forall_mem_append.mpr
      ⟨ihbody hts.1.2, List.forall_mem_cons.mpr ⟨hclosing, ih hts.2⟩⟩⟩
  | invisible => exact absurd rfl hts.1.1
  | outerDoc _ _ _ _ ih =>
    exact List.forall_mem_cons.mpr ⟨compact_comment _ _, ih hts.2.2⟩
  | innerDoc _ _ _ _ ih =>
    exact List.forall_mem_cons.mpr ⟨compact_comment _ _, ih hts.2.2.2⟩

/-- What may stand between two pieces where so many blocks are open. -/
inductive Gap (depth : Nat) : List Char → Prop
  | none : Gap depth []
  | space : Gap depth [' ']
  | lines {n} (hn : n = 1 ∨ n = 2) :
      Gap depth (List.replicate n '\n' ++ List.replicate (4 * depth) ' ')

/-- How many of the open delimiters are blocks; of each it is known whether it is one. -/
def depth (opened : List Bool) : Nat := opened.count true

/-- The delimiters that are open before a piece: one that closes has closed already. -/
def Piece.before (opened : List Bool) : Piece → List Bool
  | .closing _ => opened.tail
  | _ => opened

/-- The delimiters that are open after a piece, given what is written after it: a brace opens a
block when it ends its line. -/
def Piece.after (opened : List Bool) (text : List Char) : Piece → List Bool
  | .opening d => (d = .brace && text.head? = some '\n') :: opened
  | .closing _ => opened.tail
  | _ => opened

/-- A text that is some pieces in their order where some delimiters are open: in front of each piece
stands what may stand there, and behind the last one, where all delimiters are closed, one line
break. -/
inductive Laid : List Bool → List Piece → List Char → Prop
  | nil : Laid [] [] ['\n']
  | cons {opened gap piece pieces text} (hgap : Gap (depth (piece.before opened)) gap)
      (h : Laid (piece.after opened text) pieces text) :
      Laid opened (piece :: pieces) (gap ++ (piece.chars ++ text))

/-- A whole file of some pieces: nothing stands in front of the first one. -/
inductive LaidOut : List Piece → List Char → Prop
  | nil : LaidOut [] ['\n']
  | cons {piece pieces text} (h : Laid (piece.after [] text) pieces text) :
      LaidOut (piece :: pieces) (piece.chars ++ text)

/-- A text that is some pieces, which close what they open, in front of whatever may follow them. -/
def Spans (opened : List Bool) (ps : List Piece) (text : List Char) : Prop :=
  ∀ qs tail, Laid opened qs tail → Laid opened (ps ++ qs) (text ++ tail)

/-- A piece that neither opens nor closes anything. -/
def Piece.Level (piece : Piece) : Prop :=
  ∀ opened text, piece.before opened = opened ∧ piece.after opened text = opened

theorem Spans.append {opened : List Bool} {ps qs : List Piece} {text tail : List Char}
    (h : Spans opened ps text) (h' : Spans opened qs tail) :
    Spans opened (ps ++ qs) (text ++ tail) := by
  intro rs back hrs
  rw [List.append_assoc, List.append_assoc]
  exact h _ _ (h' _ _ hrs)

/-- Level pieces that touch. -/
theorem Spans.touching {opened : List Bool} {b : Piece} {bs : List Piece} {gap : List Char}
    (hlevel : ∀ piece ∈ b :: bs, piece.Level) (hgap : Gap (depth opened) gap) :
    Spans opened (b :: bs) (gap ++ (b :: bs).flatMap Piece.chars) := by
  induction bs generalizing b gap with
  | nil =>
    intro qs tail h
    obtain ⟨hb, -⟩ := List.forall_mem_cons.mp hlevel
    obtain ⟨hbefore, hafter⟩ := hb opened tail
    rw [List.flatMap_singleton, List.append_assoc, List.singleton_append]
    exact .cons (by rwa [hbefore]) (by rwa [hafter])
  | cons c bs ih =>
    intro qs tail h
    obtain ⟨hb, hlevel⟩ := List.forall_mem_cons.mp hlevel
    have hrest := ih hlevel .none qs tail h
    obtain ⟨hbefore, hafter⟩ := hb opened ((c :: bs).flatMap Piece.chars ++ tail)
    rw [List.flatMap_cons, List.append_assoc, List.append_assoc, List.cons_append]
    exact .cons (by rwa [hbefore]) (by rwa [hafter])

/-- Delimiters and what stands between them, which is one level deeper when they are a block. -/
theorem Spans.group {opened : List Bool} {d : Delimiter} {block : Bool} {bs : List Piece}
    {gap inner gap' : List Char} (hgap : Gap (depth opened) gap) (hgap' : Gap (depth opened) gap')
    (hblock : ∀ tail, (d = .brace &&
      (inner ++ (gap' ++ (d.closing.toList ++ tail))).head? = some '\n') = block)
    (hinner : Spans (block :: opened) bs inner) :
    Spans opened (.opening d :: (bs ++ [.closing d]))
      (gap ++ (d.opening.toList ++ (inner ++ (gap' ++ d.closing.toList)))) := by
  intro qs tail h
  have hclosing : Laid (block :: opened) (.closing d :: qs) (gap' ++ (d.closing.toList ++ tail)) :=
    .cons hgap' h
  have hall := hinner _ _ hclosing
  rw [← hblock tail] at hall
  have hopening : Laid opened (.opening d :: (bs ++ .closing d :: qs))
      (gap ++ (d.opening.toList ++ (inner ++ (gap' ++ (d.closing.toList ++ tail))))) :=
    .cons hgap hall
  simpa only [List.append_assoc, List.cons_append, List.nil_append] using hopening

theorem indent_write (p : Printer) (text : String) (space : Bool) :
    (p.write text space).indent = p.indent := by
  simp only [Printer.write]
  split
  · rfl
  · split <;> rfl

namespace Printer

/-- What every layout in progress keeps: it asks for at most two line breaks, and for none before
something is written. -/
structure Fit (p : Printer) : Prop where
  lines : p.pending ≤ 2
  some : 0 < p.pending → writesNothing p.out = false

theorem Fit.of_pending {p : Printer} (h : p.pending = 0) : p.Fit where
  lines := by omega
  some hpending := absurd h (Nat.ne_of_gt hpending)

theorem Fit.gap {p : Printer} (h : p.Fit) (space : Bool) : Gap p.indent (p.gap space) := by
  by_cases hpending : 0 < p.pending
  · have hgap : p.gap space
        = List.replicate p.pending '\n' ++ List.replicate (4 * p.indent) ' ' := by
      simp [Printer.gap, hpending, h.some hpending, Atom.text, Atom.indentWidth]
    rw [hgap]
    have hlines := h.lines
    exact .lines (by omega)
  · simp only [Printer.gap, hpending, if_false]
    split
    · exact .space
    · exact .none

/-- How some pieces are written from one layout to another: none, or after a gap a text that begins
with no blank and is these pieces at the level of the indent. Inline, no space is asked for after
what holds the next word close. -/
inductive Sets (m : Mode) (p p' : Printer) : List Piece → Prop
  | nothing (hout : p'.out = p.out) (hpending : p'.pending = p.pending) (hlast : p'.last = p.last) :
      Sets m p p' []
  | pieces {ps : List Piece} {space : Bool} {body : List Char}
      (hspace : m = .inline → p.last.glues = true → space = false)
      (hwritten : p'.written = p.written ++ (p.gap space ++ body))
      (hsome : writesNothing p'.out = false)
      (hfront : ∃ c rest, body = c :: rest ∧ c ≠ ' ' ∧ c ≠ '\n')
      (hspans : ∀ opened gap, depth opened = p.indent → Gap p.indent gap →
        Spans opened ps (gap ++ body)) :
      Sets m p p' ps

/-- A group from its opening to its closing, with what stands in it a level deeper in a block. -/
theorem Sets.group (block : Bool) {m : Mode} {p p₁ p' p'' : Printer} {d : Delimiter} {space : Bool}
    {bs : List Piece} {pad inner gap' : List Char} (hd : d ≠ .invisible)
    (hspace : m = .inline → p.last.glues = true → space = false)
    (hopen : p₁.written = p.written ++ (p.gap space ++ (d.opening.toList ++ pad)))
    (hinner : p'.written = p₁.written ++ inner)
    (hclose : p''.written = p'.written ++ (gap' ++ d.closing.toList))
    (hsome : writesNothing p''.out = false) (hgap' : Gap p.indent gap')
    (hblock : ∀ tail, (d = .brace &&
      ((pad ++ inner) ++ (gap' ++ (d.closing.toList ++ tail))).head? = some '\n') = block)
    (hspans : ∀ opened, depth opened = p.indent → Spans (block :: opened) bs (pad ++ inner)) :
    Sets m p p'' (.opening d :: (bs ++ [.closing d])) := by
  have hwritten : p''.written = p.written ++
      (p.gap space ++ (d.opening.toList ++ ((pad ++ inner) ++ (gap' ++ d.closing.toList)))) := by
    rw [hclose, hinner, hopen]
    simp only [List.append_assoc]
  obtain ⟨c, front, hchars, hc⟩ := (compact_delimiter hd).1.front
  have hfront : d.opening.toList = c :: front := hchars
  refine .pieces hspace hwritten hsome ⟨c, _, by rw [hfront, List.cons_append], hc⟩ ?_
  intro opened gap hdepth hgap
  rw [← hdepth] at hgap hgap'
  exact Spans.group hgap hgap' hblock (hspans opened hdepth)

/-- From one layout to another compact pieces are written at the level of the indent, which is the
same before and after them. -/
def Indents (m : Mode) (p p' : Printer) (ps : List Piece) : Prop :=
  (∀ piece ∈ ps, piece.Compact) → p.Fit → p'.Fit ∧ p'.indent = p.indent ∧ Sets m p p' ps

namespace Indents

variable {m : Mode} {p p' p'' : Printer} {ps qs : List Piece}

theorem of_out (hout : p'.out = p.out) (hpending : p'.pending = p.pending)
    (hlast : p'.last = p.last) (hindent : p'.indent = p.indent) : p.Indents m p' [] := by
  intro _ hfit
  refine ⟨⟨?_, ?_⟩, hindent, .nothing hout hpending hlast⟩
  · rw [hpending]
    exact hfit.lines
  · rw [hpending, hout]
    exact hfit.some

theorem trans (h : p.Indents m p' ps) (h' : p'.Indents m p'' qs) : p.Indents m p'' (ps ++ qs) := by
  intro hcompact hfit
  obtain ⟨hps, hqs⟩ := List.forall_mem_append.mp hcompact
  obtain ⟨hfit', hindent, hsets⟩ := h hps hfit
  obtain ⟨hfit'', hindent', hsets'⟩ := h' hqs hfit'
  refine ⟨hfit'', hindent'.trans hindent, ?_⟩
  cases hsets with
  | nothing hout hpending hlast =>
    have hgap : ∀ space, p'.gap space = p.gap space := by
      intro space
      unfold Printer.gap Printer.atLineStart
      rw [hout, hpending, hindent]
    cases hsets' with
    | nothing hout' hpending' hlast' =>
      exact .nothing (hout'.trans hout) (hpending'.trans hpending) (hlast'.trans hlast)
    | pieces hspace hwritten hsome hfront hspans =>
      rw [hlast] at hspace
      rw [hgap, written_of_out hout] at hwritten
      rw [hindent] at hspans
      exact .pieces hspace hwritten hsome hfront hspans
  | @pieces ps space body hspace hwritten hsome hfront hspans =>
    cases hsets' with
    | nothing hout' hpending' hlast' =>
      rw [← written_of_out hout'] at hwritten
      rw [← hout'] at hsome
      rw [List.append_nil]
      exact .pieces hspace hwritten hsome hfront hspans
    | @pieces qs space' body' hspace' hwritten' hsome' hfront' hspans' =>
      obtain ⟨c, rest, rfl, hc⟩ := hfront
      have hboth : p''.written
          = p.written ++ (p.gap space ++ (c :: rest ++ (p'.gap space' ++ body'))) := by
        rw [hwritten', hwritten]
        simp only [List.append_assoc]
      refine .pieces hspace hboth hsome' ⟨c, _, rfl, hc⟩ fun opened gap hdepth hgap => ?_
      have hlater := hspans' opened (p'.gap space') (hdepth.trans hindent.symm) (hfit'.gap space')
      rw [← List.append_assoc]
      exact (hspans opened gap hdepth hgap).append hlater

/-- After some pieces a layout may ask for line breaks. -/
theorem relax (h : p.Indents m p' ps) (hsome : ps ≠ []) (hout : p''.out = p'.out)
    (hindent : p''.indent = p'.indent) (hpending : p''.pending ≤ 2) : p.Indents m p'' ps := by
  intro hcompact hfit
  obtain ⟨-, hindent', hsets⟩ := h hcompact hfit
  cases hsets with
  | nothing => exact absurd rfl hsome
  | pieces hspace hwritten hwrites hfront hspans =>
    rw [← written_of_out hout] at hwritten
    rw [← hout] at hwrites
    exact ⟨⟨hpending, fun _ => hwrites⟩, hindent.trans hindent',
      .pieces hspace hwritten hwrites hfront hspans⟩

/-- Level pieces that are written as one word. -/
theorem of_write {word : String} {space : Bool} {b : Piece} {bs : List Piece}
    (hword : word.toList = (b :: bs).flatMap Piece.chars) (hlevel : ∀ piece ∈ b :: bs, piece.Level)
    (hspace : m = .inline → p.last.glues = true → space = false)
    (hout : p'.out = (p.write word space).out) (hindent : p'.indent = p.indent)
    (hpending : p'.pending ≤ 2) : p.Indents m p' (b :: bs) := by
  intro hcompact _
  obtain ⟨c, rest, hchars, hc⟩ := (hcompact b List.mem_cons_self).front
  have hfront : word.toList = c :: (rest ++ bs.flatMap Piece.chars) := by
    rw [hword, List.flatMap_cons, hchars, List.cons_append]
  have hsome : writesNothing p'.out = false := by
    rw [hout]
    exact writesNothing_write p (by simp [hfront]) space
  have hwritten : p'.written = p.written ++ (p.gap space ++ word.toList) :=
    (written_of_out hout).trans (written_write p word space)
  refine ⟨⟨hpending, fun _ => hsome⟩, hindent,
    .pieces hspace hwritten hsome ⟨c, _, hfront, hc⟩ fun opened gap hdepth hgap => ?_⟩
  rw [hword]
  exact Spans.touching hlevel (by rwa [hdepth])

/-- A group that stays on its line, with a space or nothing after its opening delimiter: what stands
in it is at the level of the group. -/
theorem delimited {p₁ : Printer} {d : Delimiter} {space space' : Bool} {pad : List Char}
    {bs : List Piece} (h : p₁.Indents .inline p' bs) (hd : d ≠ .invisible)
    (hspace : m = .inline → p.last.glues = true → space = false)
    (hopen : p₁.written = p.written ++ (p.gap space ++ (d.opening.toList ++ pad)))
    (hlast : p₁.last = .start) (hpending : p₁.pending = 0) (hindent : p₁.indent = p.indent)
    (hpad : pad = [] ∨ pad = [' ']) (hempty : bs = [] → pad = [] ∧ space' = false) :
    p.Indents m (p'.leave d.closing space') (.opening d :: (bs ++ [.closing d])) := by
  intro hcompact hfit
  obtain ⟨hbs, -⟩ := List.forall_mem_append.mp (List.forall_mem_cons.mp hcompact).2
  obtain ⟨hfit', hindent', hsets⟩ := h hbs (.of_pending hpending)
  have hlevel : p'.indent = p.indent := hindent'.trans hindent
  obtain ⟨c, back, hchars, -, hc⟩ := (compact_delimiter hd).2.front
  have hclosing : d.closing.toList = c :: back := hchars
  have hclose := written_write p' d.closing space'
  have hsome : writesNothing (p'.write d.closing space').out = false :=
    writesNothing_write p' (by rw [hclosing]; exact List.cons_ne_nil c back) space'
  have hgap' : Gap p.indent (p'.gap space') := hlevel ▸ hfit'.gap space'
  have hdepth : ∀ opened, depth opened = p.indent → depth (false :: opened) = p.indent := by
    intro opened h
    rwa [depth, List.count_cons_of_ne (by decide)]
  refine ⟨.of_pending (pending_write p' d.closing space'), ?_, ?_⟩
  · rw [← hlevel]
    exact indent_write p' d.closing space'
  cases hsets with
  | nothing hout hpending' _ =>
    obtain ⟨rfl, rfl⟩ := hempty rfl
    have hnone : p'.gap false = [] := by simp [Printer.gap, hpending', hpending]
    have hinner : p'.written = p₁.written ++ [] := by rw [List.append_nil, written_of_out hout]
    refine .group false hd hspace hopen hinner hclose hsome hgap' (fun tail =>
      ?_) fun opened _ => ?_
    · simp [hnone, hclosing, hc]
    · exact fun _ _ h => h
  | @pieces _ space₁ body hglued hbody _ hfront hspans =>
    obtain ⟨e, rest, rfl, -, he⟩ := hfront
    have hnone : p₁.gap space₁ = [] := by
      rw [hglued rfl (by rw [hlast]; rfl)]
      simp [Printer.gap, hpending]
    rw [hnone, List.nil_append] at hbody
    have hgap : Gap p₁.indent pad := by
      rcases hpad with rfl | rfl
      · exact .none
      · exact .space
    refine .group false hd hspace hopen hbody hclose hsome hgap' (fun tail => ?_) fun opened h => ?_
    · rcases hpad with rfl | rfl <;> simp [he]
    · exact hspans (false :: opened) pad ((hdepth opened h).trans hindent.symm) hgap

/-- Braces with nothing in them, which are written as one word. -/
theorem empty {space : Bool} (hspace : m = .inline → p.last.glues = true → space = false) :
    p.Indents m { p.write "\x7b\x7d" space with last := .group }
      [.opening .brace, .closing .brace] := by
  intro _ _
  let p₁ := p.enter "\x7b" space
  have hopen : p₁.written = p.written ++ (p.gap space ++ (Delimiter.brace.opening.toList ++ [])) :=
    written_write p "\x7b" space
  have hclose : Printer.written { p.write "\x7b\x7d" space with last := .group }
      = p₁.written ++ ([] ++ Delimiter.brace.closing.toList) := by
    rw [hopen, List.append_assoc, List.append_assoc]
    exact written_write p "\x7b\x7d" space
  refine ⟨.of_pending (pending_write p _ space), indent_write p _ space, ?_⟩
  have hnothing : ∀ opened, depth opened = p.indent → Spans (false :: opened) [] ([] ++ []) :=
    fun _ _ _ _ h => h
  exact .group false (by decide) hspace hopen (List.append_nil _).symm hclose
    (writesNothing_write p (by decide) space) .none (fun _ => rfl) hnothing

/-- A block: what stands in it begins on a new line, and so does its closing brace. -/
theorem block {bs : List Piece} (h : p.enterBlock.Indents .block p' bs) :
    p.Indents .block p'.leaveBlock (.opening .brace :: (bs ++ [.closing .brace])) := by
  intro hcompact hfit
  obtain ⟨hbs, -⟩ := List.forall_mem_append.mp (List.forall_mem_cons.mp hcompact).2
  have hopened : writesNothing p.enterBlock.out = false :=
    writesNothing_write p (by decide) true
  have hpending : p.enterBlock.pending = 1 := by
    have hnone := pending_write p "\x7b" true
    simp [Printer.enterBlock, Printer.newline, Printer.enter, hnone]
  have hindent : p.enterBlock.indent = p.indent + 1 := by
    have hsame := indent_write p "\x7b" true
    simp [Printer.enterBlock, Printer.newline, Printer.enter, hsame]
  have hinside : p.enterBlock.Fit := ⟨by omega, fun _ => hopened⟩
  obtain ⟨hfit', hindent', hsets⟩ := h hbs hinside
  let q : Printer := { p' with indent := p'.indent - 1, pending := 1 }
  have hlevel : q.indent = p.indent := by
    show p'.indent - 1 = p.indent
    omega
  have hwrites : writesNothing p'.out = false := by
    cases hsets with
    | nothing hout => rwa [hout]
    | pieces _ _ hsome => exact hsome
  have hq : q.Fit := ⟨Nat.le_succ 1, fun _ => hwrites⟩
  have hgap' : Gap p.indent (q.gap false) := hlevel ▸ hq.gap false
  have hclose : p'.leaveBlock.written
    = p'.written ++ (q.gap false ++ Delimiter.brace.closing.toList) :=
    written_write q "\x7d" false
  have hsome : writesNothing p'.leaveBlock.out = false := writesNothing_write q (by decide) false
  have hopen : p.enterBlock.written
      = p.written ++ (p.gap true ++ (Delimiter.brace.opening.toList ++ [])) :=
    written_write p "\x7b" true
  have hspace : Mode.block = .inline → p.last.glues = true → true = false := fun h => nomatch h
  have hdepth : ∀ opened, depth opened = p.indent →
      depth (true :: opened) = p.enterBlock.indent := by
    intro opened h
    rw [depth, List.count_cons_self, hindent]
    exact congrArg (· + 1) h
  refine ⟨.of_pending (pending_write q "\x7d" false), ?_, ?_⟩
  · exact (indent_write q "\x7d" false).trans hlevel
  cases hsets with
  | nothing hout =>
    have hinner : p'.written = p.enterBlock.written ++ [] := by
      rw [List.append_nil, written_of_out hout]
    obtain ⟨rest, hrest⟩ := gap_of_pending (p := q) Nat.one_pos hwrites false
    refine .group true (by decide) hspace hopen hinner hclose hsome hgap' (fun tail => ?_) ?_
    · rw [hrest]
      rfl
    · exact fun _ _ _ _ h => h
  | @pieces _ space₁ body _ hbody _ _ hspans =>
    obtain ⟨rest, hrest⟩ := gap_of_pending (by omega : 0 < p.enterBlock.pending) hopened space₁
    refine .group true (by decide) hspace hopen hbody hclose hsome hgap' (fun tail => ?_) ?_
    · rw [hrest]
      rfl
    · intro opened h
      exact hspans (true :: opened) _ (hdepth opened h) (hinside.gap space₁)

end Indents

end Printer

theorem indent_word (p : Printer) (text : String) : (p.word text).indent = p.indent := by
  rw [Printer.word]
  split <;> exact indent_write p text _

theorem pending_newline {p : Printer} {lines : Nat} (hpending : p.pending ≤ 2)
    (hlines : lines ≤ 2) :
    (p.newline lines).pending ≤ 2 := Nat.max_le.mpr ⟨hpending, hlines⟩

/-- An operator keeps the indent and asks for at most two line breaks. -/
theorem operator_facts (p : Printer) (frame : Frame) (op : String) :
    (p.operator frame op).1.indent = p.indent ∧ (p.operator frame op).1.pending ≤ 2 := by
  have hindent := indent_write p op (operatorStyle p frame op).1
  have hpending := pending_write p op (operatorStyle p frame op).1
  simp only [Printer.operator]
  split_ifs <;> refine ⟨hindent, ?_⟩ <;> simp [Printer.newline, hpending]

/-- After a block at most two line breaks are asked for. -/
theorem afterBlock_facts (p : Printer) (frame : Frame) (next : Option Token)
    (hpending : p.pending ≤ 2) :
    (p.afterBlock frame next).indent = p.indent ∧ (p.afterBlock frame next).pending ≤ 2 := by
  unfold Printer.afterBlock
  dsimp only
  repeat' split
  all_goals first
    | exact ⟨rfl, hpending⟩
    | exact ⟨rfl, pending_newline hpending (by omega)⟩

theorem endAttribute_facts (p : Printer) (frame : Frame) (hpending : p.pending ≤ 2) :
    (p.endAttribute frame).indent = p.indent ∧ (p.endAttribute frame).pending ≤ 2 := by
  unfold Printer.endAttribute
  dsimp only
  split
  · exact ⟨rfl, pending_newline hpending (by omega)⟩
  · exact ⟨rfl, hpending⟩

/-- What holds the next word close asks for no space before an operator. -/
theorem operatorStyle_glued {p : Printer} (h : p.last.glues = true) (frame : Frame) (op : String) :
    (operatorStyle p frame op).1 = false := by
  simp only [operatorStyle, h, Bool.not_true, Bool.false_and, Bool.and_false, apply_ite Prod.fst,
    ite_self]

theorem nests_indents : Nests True Printer.Indents := by
  have hglued : ∀ {m : Mode} {p : Printer},
      m = .inline → p.last.glues = true → (!p.last.glues) = false := fun _ h => by rw [h]; rfl
  have hmarks : ∀ cs : List Char, ∀ piece ∈ cs.map Piece.mark, piece.Level := by
    intro cs piece hpiece
    obtain ⟨c, -, rfl⟩ := List.mem_map.mp hpiece
    exact fun _ _ => ⟨rfl, rfl⟩
  exact {
    refl := fun m p => .of_out rfl rfl rfl rfl
    trans := .trans
    forget := fun m p => .of_out rfl rfl rfl rfl
    word := fun m p text => by
      refine .of_write (by simp [Piece.chars]) ?_ hglued (out_word p text) (indent_word p text) ?_
      · exact List.forall_mem_singleton.mpr fun _ _ => ⟨rfl, rfl⟩
      · rw [pending_word]
        omega
    literal := fun m p text => by
      refine .of_write (by simp [Piece.chars]) ?_ hglued rfl (indent_write p text _) ?_
      · exact List.forall_mem_singleton.mpr fun _ _ => ⟨rfl, rfl⟩
      · exact Nat.le_trans (Nat.le_of_eq (pending_write p text _)) (Nat.zero_le 2)
    operator := fun p frame op c cs hop _ => by
      obtain ⟨hindent, hpending⟩ := operator_facts p frame op
      exact .of_write (by simp [hop, List.flatMap_map, Piece.chars]) (hmarks (c :: cs))
        (fun _ h => operatorStyle_glued h frame op) (out_operator p frame op) hindent hpending
    comment := fun p line inner text _ hline _ => by
      refine .of_write (by simp [hline]) ?_ (fun h => by cases h) rfl (indent_write p line false) ?_
      · exact List.forall_mem_singleton.mpr fun _ _ => ⟨rfl, rfl⟩
      · exact pending_newline (Nat.le_trans (Nat.le_of_eq (pending_write p line false)) (by omega))
          (by omega)
    pound := fun m p text cs htext _ => by
      refine .of_write (by simp [htext, List.flatMap_map, Piece.chars]) (hmarks ('#' :: cs)) hglued
        rfl (indent_write p text _) ?_
      exact Nat.le_trans (Nat.le_of_eq (pending_write p text _)) (Nat.zero_le 2)
    brackets := fun frame p p' bs h => by
      have hgroup : p.Indents frame.mode (p'.leave "]" false)
          (.opening .bracket :: (bs ++ [.closing .bracket])) :=
        .delimited h (by decide) (fun _ _ => rfl)
          (by rw [List.append_nil]; exact written_write p "[" false) rfl
          (pending_write p "[" false) (indent_write p "[" false) (.inl rfl) fun _ => ⟨rfl, rfl⟩
      have hpending : (p'.leave "]" false).pending ≤ 2 :=
        Nat.le_trans (Nat.le_of_eq (pending_write p' "]" false)) (Nat.zero_le 2)
      obtain ⟨hindent, hlines⟩ := endAttribute_facts (p'.leave "]" false) frame hpending
      exact hgroup.relax (by simp) (out_endAttribute _ frame) hindent hlines
    group := fun m d hd space p p' bs hspace h =>
      .delimited h hd (fun _ => hspace)
        (by rw [List.append_nil]; exact written_write p d.opening space) rfl
        (pending_write p d.opening space) (indent_write p d.opening space) (.inl rfl)
        fun _ => ⟨rfl, rfl⟩
    spaced := fun m space p p' bs hbs hspace h => by
      have hopen : Printer.written { p.enter "\x7b" space with
            out := .space :: (p.enter "\x7b" space).out }
          = p.written ++ (p.gap space ++ (Delimiter.brace.opening.toList ++ [' '])) := by
        have hwrite := written_write p "\x7b" space
        rw [← List.append_assoc (p.gap space), ← List.append_assoc]
        rw [show Delimiter.brace.opening = "\x7b" from rfl, ← hwrite]
        simp [Printer.written, Printer.enter, Atom.text]
      exact .delimited h (d := .brace) (by decide) (fun _ => hspace) hopen rfl
        (pending_write p "\x7b" space) (indent_write p "\x7b" space) (.inr rfl)
        fun h => absurd h (hbs trivial)
    empty := fun {p space} hspace frame next => by
      have hpending : (p.write "\x7b\x7d" space).pending ≤ 2 :=
        Nat.le_trans (Nat.le_of_eq (pending_write p _ space)) (Nat.zero_le 2)
      have hgroup := Printer.Indents.empty (m := frame.mode) fun _ => hspace
      obtain ⟨hindent, hlines⟩ :=
        afterBlock_facts { p.write "\x7b\x7d" space with last := .group } frame next hpending
      exact hgroup.relax (by simp) (out_afterBlock _ frame next) hindent hlines
    block := fun frame next p p' bs h => by
      have hpending : p'.leaveBlock.pending ≤ 2 :=
        Nat.le_trans (Nat.le_of_eq (pending_write _ "\x7d" false)) (Nat.zero_le 2)
      obtain ⟨hindent, hlines⟩ := afterBlock_facts p'.leaveBlock frame next hpending
      exact (Printer.Indents.block h).relax (by simp) (out_afterBlock _ frame next) hindent hlines
    invisible := fun m hhidden => absurd trivial hhidden }

/-- Where nothing stands before it, a text begins with its first piece. -/
theorem Laid.laidOut {ps : List Piece} {c : Char} {rest : List Char} (h : Laid [] ps (c :: rest))
    (hc : c ≠ ' ' ∧ c ≠ '\n') : LaidOut ps (c :: rest) := by
  generalize htext : c :: rest = text at h
  cases h with
  | nil => exact absurd (List.cons.inj htext).1 hc.2
  | @cons _ gap piece ps text hgap h =>
    have hnone : gap = [] := by
      cases hgap with
      | none => rfl
      | space => exact absurd (List.cons.inj htext).1 hc.1
      | lines hn =>
        rcases hn with rfl | rfl <;> exact absurd (List.cons.inj htext).1 hc.2
    rw [hnone, List.nil_append]
    exact .cons h

/-- A space at the end of a line, or a second empty line, starts at the front of a text. -/
def startsRagged : List Char → Bool
  | ' ' :: '\n' :: _ => true
  | '\n' :: '\n' :: '\n' :: _ => true
  | _ => false

theorem startsRagged_of_ne {c : Char} (hc : c ≠ ' ' ∧ c ≠ '\n') (text : List Char) :
    startsRagged (c :: text) = false := by
  unfold startsRagged
  split
  · rename_i heq
    exact absurd (List.cons.inj heq).1 hc.1
  · rename_i heq
    exact absurd (List.cons.inj heq).1 hc.2
  · rfl

/-- No line ends and no second empty line starts in a gap. -/
theorem Gap.startsRagged_eq_false {n : Nat} {gap back : List Char} (h : Gap n gap)
    (hback : back <:+ gap) (hsome : back ≠ []) {c : Char} (hc : c ≠ ' ' ∧ c ≠ '\n')
    (text : List Char) : startsRagged (back ++ c :: text) = false := by
  have hspaces : ∀ k, startsRagged (List.replicate (k + 1) ' ' ++ c :: text) = false := by
    intro k
    cases k with
    | zero => simp [startsRagged, hc.2]
    | succ k => simp [startsRagged, List.replicate_succ]
  have hindent : ∀ k, startsRagged ('\n' :: (List.replicate k ' ' ++ c :: text)) = false ∧
      startsRagged ('\n' :: '\n' :: (List.replicate k ' ' ++ c :: text)) = false := by
    intro k
    cases k with
    | zero => simp [startsRagged, hc.2]
    | succ k => simp [startsRagged, List.replicate_succ]
  have hin : ∀ k, back <:+ List.replicate k ' ' → startsRagged (back ++ c :: text) = false := by
    intro k hsuffix
    obtain ⟨-, hback⟩ := List.suffix_replicate_iff.mp hsuffix
    obtain ⟨j, hj⟩ := Nat.exists_eq_succ_of_ne_zero fun h => hsome (List.eq_nil_of_length_eq_zero h)
    rw [hback, hj]
    exact hspaces j
  cases h with
  | none => exact absurd (List.suffix_nil.mp hback) hsome
  | space => exact hin 1 hback
  | lines hn =>
    have hone : back <:+ '\n' :: List.replicate (4 * n) ' ' →
        startsRagged (back ++ c :: text) = false := by
      intro hsuffix
      rcases List.suffix_cons_iff.mp hsuffix with rfl | hsuffix
      · exact (hindent _).1
      · exact hin _ hsuffix
    rcases hn with rfl | rfl
    · exact hone hback
    · rcases List.suffix_cons_iff.mp hback with rfl | hsuffix
      · exact (hindent _).2
      · exact hone hsuffix

/-- The place between two parts of a text that is some pieces is inside a literal or a line of
documentation, or in front of it. -/
def FreePlace (ps : List Piece) (front back : List Char) : Prop :=
  ∃ ps₁ piece ps₂ text₁ inside rest text₂, ps = ps₁ ++ piece :: ps₂ ∧ piece.isFree = true ∧
    Scatters (ps₁.map Piece.chars) text₁ ∧ piece.chars = inside ++ rest ∧ rest ≠ [] ∧
    Scatters (ps₂.map Piece.chars) text₂ ∧ front = text₁ ++ inside ∧ back = rest ++ text₂

theorem FreePlace.cons {gap front back : List Char} {piece : Piece} {ps : List Piece}
    (hgap : ∀ c ∈ gap, c = ' ' ∨ c = '\n') (h : FreePlace ps front back) :
    FreePlace (piece :: ps) (gap ++ (piece.chars ++ front)) back := by
  obtain ⟨ps₁, piece', ps₂, text₁, inside, rest, text₂, rfl, hfree, hbefore, hinside, hne, hafter,
    rfl, hrest⟩ := h
  exact ⟨piece :: ps₁, piece', ps₂, gap ++ (piece.chars ++ text₁), inside, rest, text₂, rfl, hfree,
    .cons hgap hbefore, hinside, hne, hafter, by simp only [List.append_assoc], hrest⟩

theorem Gap.blank {n : Nat} {gap : List Char} (h : Gap n gap) : ∀ c ∈ gap, c = ' ' ∨ c = '\n' := by
  intro c hc
  cases h with
  | none => cases hc
  | space => exact .inl (List.mem_singleton.mp hc)
  | lines =>
    simp only [List.mem_append, List.mem_replicate] at hc
    exact hc.symm.imp And.right And.right

theorem Laid.scatters {opened : List Bool} {ps : List Piece} {text : List Char}
    (h : Laid opened ps text) : Scatters (ps.map Piece.chars) text := by
  induction h with
  | nil => exact .nil (by simp)
  | cons hgap _ ih => exact .cons hgap.blank ih

/-- Wherever a line ends with a space or a second empty line starts, it is in a literal or a line of
documentation. -/
theorem Laid.freePlace {opened : List Bool} {ps : List Piece} {text : List Char}
    (h : Laid opened ps text) (hcompact : ∀ piece ∈ ps, piece.Compact) {front back : List Char}
    (htext : text = front ++ back) (hback : startsRagged back = true) :
    FreePlace ps front back := by
  induction h generalizing front with
  | nil =>
    rcases List.append_eq_singleton_iff.mp htext.symm with ⟨-, rfl⟩ | ⟨-, rfl⟩ <;> cases hback
  | @cons opened gap piece ps text hgap hlaid ih =>
    obtain ⟨hpiece, hps⟩ := List.forall_mem_cons.mp hcompact
    have hpast : ∀ front₁, piece.chars ++ text = front₁ ++ back →
        FreePlace (piece :: ps) (gap ++ front₁) back := by
      intro front₁ htext₁
      rcases List.append_eq_append_iff.mp htext₁ with ⟨front₂, rfl, htext₂⟩ | ⟨rest, hchars, hrest⟩
      · exact (ih hps htext₂).cons hgap.blank
      · cases rest with
        | nil =>
          have hlater : text = [] ++ back := hrest.symm
          have hplace : FreePlace (piece :: ps) (gap ++ (piece.chars ++ [])) back :=
            (ih hps hlater).cons hgap.blank
          rwa [List.append_nil, hchars, List.append_nil] at hplace
        | cons e rest =>
          cases hfree : piece.isFree with
          | true =>
            exact ⟨[], piece, ps, gap, front₁, e :: rest, text, rfl, hfree, .nil hgap.blank, hchars,
              List.cons_ne_nil e rest, hlaid.scatters, rfl, hrest⟩
          | false =>
            have he := hpiece.plain hfree e (by simp [hchars])
            rw [hrest, List.cons_append, startsRagged_of_ne he] at hback
            cases hback
    rcases List.append_eq_append_iff.mp htext with ⟨front₁, rfl, htext₁⟩ | ⟨back₁, hfront, hrest⟩
    · exact hpast front₁ htext₁
    · by_cases hsome : back₁ = []
      · subst hsome
        have hplace := hpast [] hrest.symm
        rwa [hfront, List.append_nil, List.append_nil] at hplace
      · obtain ⟨c, rest, hchars, hc⟩ := hpiece.front
        have hsuffix : back₁ <:+ gap := hfront ▸ List.suffix_append front back₁
        rw [hrest, hchars, List.cons_append,
          hgap.startsRagged_eq_false hsuffix hsome hc] at hback
        cases hback

/-- A file of the tokens of a text is laid out in lines. A line of documentation counts as one
token: between two tokens stands nothing, a space, or one or two line breaks and four spaces for
each block that is open there; nothing stands before the first one and one line break after the last
one, so the indent is none at the end. No line ends with a space and no two empty lines follow each
other but in a literal or a line of documentation. -/
theorem renderFile_laidOut {text : List Char} {ts : List Token} (h : Lexer.tokens text = .ok ts) :
    (writeTokens {} { mode := .block, top := true } {} ts).indent = 0 ∧
      (renderFile [] = "\n") ∧
      ∃ pieces, Flat true ts pieces ∧ LaidOut pieces (renderFile ts).toList ∧
        ∀ front back, (renderFile ts).toList = front ++ back → startsRagged back = true →
          FreePlace pieces front back := by
  have hcompact := Lexer.compact_of_tokens h
  obtain ⟨pieces, hflat, hindents⟩ :=
    nests_indents.runs ts (fun _ => hcompact.visible ts) {} { mode := .block, top := true }
  have hfile : Flat true ts pieces := hflat
  have hpieces := hfile.compact hcompact
  obtain ⟨-, hindent, hsets⟩ := hindents hpieces (.of_pending rfl)
  have hlaid : Laid [] pieces (renderFile ts).toList ∧ LaidOut pieces (renderFile ts).toList := by
    rw [renderFile_toList]
    cases hsets with
    | nothing hout =>
      rw [written_of_out hout]
      exact ⟨.nil, .nil⟩
    | @pieces _ space body _ hwritten _ hfront hspans =>
      obtain ⟨c, rest, rfl, hc⟩ := hfront
      have hnone : Printer.gap {} space = [] := by
        cases space <;> rfl
      have hall := hspans [] [] rfl .none [] ['\n'] .nil
      rw [List.append_nil, List.nil_append] at hall
      rw [hwritten, hnone, List.nil_append, show Printer.written {} = [] from rfl, List.nil_append]
      exact ⟨hall, hall.laidOut hc⟩
  exact ⟨hindent, rfl, pieces, hfile, hlaid.2, fun front back => hlaid.1.freePlace hpieces⟩

/-- Blocks in one another, braces that are no block, a line of documentation that ends with a space,
and a string with empty lines. -/
theorem renderFile_laidOut_blocks :
    let source := "use a::\x7bb\x7d;\n/// d \nfn f()\x7bg(\"\n\n\n\");if a\x7bb\x7delse\x7b\x7d\x7d"
    let file := "use a::\x7bb\x7d;\n\n/// d \nfn f() \x7b\n    g(\"\n\n\n\");\n    if a \x7b\n" ++
      "        b\n    \x7d else \x7b\x7d\n\x7d\n"
    ∃ ts, Lexer.tokens source.toList = .ok ts ∧ renderFile ts = file ∧
      (writeTokens {} { mode := .block, top := true } {} ts).indent = 0 ∧
      ∃ pieces, Flat true ts pieces ∧ LaidOut pieces (renderFile ts).toList := by
  intro source file
  have hread : (Lexer.tokens source.toList).map renderFile = .ok file := by decide +kernel
  cases hts : Lexer.tokens source.toList with
  | error place =>
    rw [hts] at hread
    cases hread
  | ok ts =>
    rw [hts] at hread
    obtain ⟨hindent, -, pieces, hflat, hlaid, -⟩ := renderFile_laidOut hts
    exact ⟨ts, rfl, Except.ok.inj hread, hindent, pieces, hflat, hlaid⟩

end Layout

end Observable
