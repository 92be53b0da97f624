import Observable.Proofs.Layout.Separation
import Observable.Proofs.Token.Compact
/-! Inline text stays on its line: only a literal brings a line break into it, and no line of
documentation is written. -/
namespace Observable

mutual
/-- A token whose names and marks have no line break in them; its literals may have any. -/
def Token.Unbroken : Token → Prop
  | .ident _ name _ => '\n' ∉ name.toList
  | .punct c _ _ => c ≠ '\n'
  | .literal .. => True
  | .group _ body _ _ => UnbrokenTokens body

def UnbrokenTokens : List Token → Prop
  | [] => True
  | t :: ts => t.Unbroken ∧ UnbrokenTokens ts
end

mutual
theorem Token.Compact.unbroken : (t : Token) → t.Compact → t.Unbroken
  | .ident .., h => fun hbreak => (h.2 '\n' hbreak).2 rfl
  | .punct .., h => h.2
  | .literal .., _ => trivial
  | .group _ body _ _, h => CompactTokens.unbroken body h.2

/-- The tokens of a text are unbroken. -/
theorem CompactTokens.unbroken : (ts : List Token) → CompactTokens ts → UnbrokenTokens ts
  | [], _ => trivial
  | t :: ts, h => ⟨Token.Compact.unbroken t h.1, CompactTokens.unbroken ts h.2⟩
end

mutual
/-- How many line breaks the literals of a token have in their texts. -/
def Token.literalBreaks : Token → Nat
  | .literal text _ => text.toList.count '\n'
  | .group _ body _ _ => literalBreaks body
  | _ => 0

def literalBreaks : List Token → Nat
  | [] => 0
  | t :: ts => t.literalBreaks + literalBreaks ts
end

namespace Layout

/-- The number of line breaks in some pieces. -/
def breaksOf (ps : List Piece) : Nat := (ps.map fun piece => piece.chars.count '\n').sum

theorem breaksOf_cons (piece : Piece) (ps : List Piece) :
    breaksOf (piece :: ps) = piece.chars.count '\n' + breaksOf ps := by
  simp [breaksOf]

theorem breaksOf_append (ps qs : List Piece) :
    breaksOf (ps ++ qs) = breaksOf ps + breaksOf qs := by
  simp [breaksOf]

/-- A text that is some pieces in their order on one line: nothing but spaces stands in front of
them, between them and after them. -/
inductive InLine : List Piece → List Char → Prop
  | nil {gap} (hgap : ∀ c ∈ gap, c = ' ') : InLine [] gap
  | cons {gap piece pieces text} (hgap : ∀ c ∈ gap, c = ' ') (h : InLine pieces text) :
      InLine (piece :: pieces) (gap ++ (piece.chars ++ text))

namespace InLine

theorem gap {ps : List Piece} {gap text : List Char} (hgap : ∀ c ∈ gap, c = ' ')
    (h : InLine ps text) : InLine ps (gap ++ text) := by
  cases h with
  | nil hend => exact .nil fun c hc => (List.mem_append.mp hc).elim (hgap c) (hend c)
  | cons hfront h =>
    rw [← List.append_assoc]
    exact .cons (fun c hc => (List.mem_append.mp hc).elim (hgap c) (hfront c)) h

theorem append {ps qs : List Piece} {text tail : List Char} (h : InLine ps text)
    (h' : InLine qs tail) : InLine (ps ++ qs) (text ++ tail) := by
  induction h with
  | nil hgap => exact h'.gap hgap
  | cons hgap _ ih =>
    simp only [List.append_assoc]
    exact .cons hgap ih

/-- Pieces that touch. -/
theorem touching (ps : List Piece) : InLine ps (ps.flatMap Piece.chars) := by
  have hnone : ∀ c ∈ ([] : List Char), c = ' ' := by simp
  induction ps with
  | nil => exact .nil hnone
  | cons piece ps ih => exact .cons hnone ih

/-- The line breaks of such a text are those of its pieces. -/
theorem count_eq {ps : List Piece} {text : List Char} (h : InLine ps text) :
    text.count '\n' = breaksOf ps := by
  have hspaces : ∀ {gap : List Char}, (∀ c ∈ gap, c = ' ') → gap.count '\n' = 0 := by
    intro gap hgap
    rw [List.count_eq_zero]
    intro hbreak
    exact absurd (hgap _ hbreak) (by decide)
  induction h with
  | nil hgap => rw [hspaces hgap, breaksOf, List.map_nil, List.sum_nil]
  | cons hgap _ ih =>
    rw [List.count_append, List.count_append, hspaces hgap, ih, Nat.zero_add, breaksOf_cons]

end InLine

/-- Where no line break is asked for, at most a space comes in front of a word. -/
theorem eq_space_of_mem_gap {p : Printer} (hpending : p.pending = 0) (space : Bool) :
    ∀ c ∈ p.gap space, c = ' ' := by
  intro c hc
  simp only [Printer.gap, hpending, Nat.lt_irrefl, if_false] at hc
  split at hc
  · exact List.mem_singleton.mp hc
  · cases hc

/-- From one layout to another some pieces are written on the same line: where no line break is
asked for, none is written in front of them or between them, and none is asked for after them. -/
def Printer.Stays (p p' : Printer) (ps : List Piece) : Prop :=
  p.pending = 0 → p'.pending = 0 ∧ ∃ text, p'.written = p.written ++ text ∧ InLine ps text

namespace Printer.Stays

theorem trans {p p' p'' : Printer} {ps qs : List Piece} (h : p.Stays p' ps)
    (h' : p'.Stays p'' qs) : p.Stays p'' (ps ++ qs) := by
  intro hpending
  obtain ⟨hpending', text, htext, hps⟩ := h hpending
  obtain ⟨hpending'', tail, htail, hqs⟩ := h' hpending'
  exact ⟨hpending'', text ++ tail, by rw [htail, htext, List.append_assoc], hps.append hqs⟩

/-- Pieces that are written as one word, however the layout goes on. -/
theorem of_write {p p' : Printer} {word : String} {space : Bool} {ps : List Piece}
    (hword : word.toList = ps.flatMap Piece.chars) (hout : p'.out = (p.write word space).out)
    (hpending : p'.pending = (p.write word space).pending) : p.Stays p' ps := by
  intro hnone
  have hwritten : p'.written = p.written ++ (p.gap space ++ word.toList) :=
    (written_of_out hout).trans (written_write p word space)
  refine ⟨hpending.trans (pending_write p word space), _, hwritten, ?_⟩
  rw [hword]
  exact (InLine.touching ps).gap (eq_space_of_mem_gap hnone space)

/-- A group between its delimiters. -/
theorem group {p p' : Printer} (d : Delimiter) (space : Bool) {bs : List Piece}
    (h : (p.enter d.opening space).Stays p' bs) (space' : Bool) :
    p.Stays (p'.leave d.closing space') (.opening d :: (bs ++ [.closing d])) := by
  have hopening : p.Stays (p.enter d.opening space) [.opening d] :=
    of_write (by simp [Piece.chars]) rfl rfl
  have hclosing : p'.Stays (p'.leave d.closing space') [.closing d] :=
    of_write (by simp [Piece.chars]) rfl rfl
  exact hopening.trans (h.trans hclosing)

end Printer.Stays

theorem pending_word (p : Printer) (text : String) : (p.word text).pending = 0 := by
  rw [Printer.word]
  split <;> exact pending_write p text _

/-- What a layout writes inline stays on the line. A line of documentation and the lines of a block
are written in a block only, and so are the breaks after an operator, an attribute and a block. -/
theorem nests_stays : Nests False fun m p p' ps => m = .inline → p.Stays p' ps where
  refl m p _ hpending := ⟨hpending, [], (List.append_nil _).symm, .nil (by simp)⟩
  trans h h' hm := (h hm).trans (h' hm)
  forget m p _ hpending := ⟨hpending, [], (List.append_nil _).symm, .nil (by simp)⟩
  word m p text _ :=
    .of_write (by simp [Piece.chars]) (out_word p text)
      ((pending_word p text).trans (pending_write p text _).symm)
  literal m p text _ := .of_write (by simp [Piece.chars]) rfl rfl
  operator p frame op c cs hop _ hm := by
    refine .of_write (by simp [hop, List.flatMap_map, Piece.chars]) (out_operator p frame op) ?_
    simp [Printer.operator, hm]
  comment p line inner text _ _ _ hm := nomatch hm
  pound m p text cs htext _ _ :=
    .of_write (by simp [htext, List.flatMap_map, Piece.chars]) rfl rfl
  brackets frame p p' bs h hm := by
    intro hpending
    obtain ⟨hnone, hwritten⟩ := Printer.Stays.group .bracket false (h rfl) false hpending
    simp only [Printer.endAttribute, hm]
    exact ⟨hnone, hwritten⟩
  group m d _ space p p' bs _ h _ := .group d space (h rfl) false
  spaced m space p p' bs _ _ h _ := by
    refine .group .brace space (fun hpending => ?_) true
    obtain ⟨hnone, text, hwritten, htext⟩ := h rfl hpending
    have hspaces : ∀ c ∈ [' '], c = ' ' := by simp
    refine ⟨hnone, ' ' :: text, ?_, htext.gap hspaces⟩
    rw [hwritten]
    simp [Printer.written, Atom.text, Delimiter.opening]
  empty {p space} _ frame next hm := by
    have hout := out_afterBlock { p.write "\x7b\x7d" space with last := .group } frame next
    refine .of_write rfl hout ?_
    simp [Printer.afterBlock, hm]
  block frame next p p' bs _ hm := nomatch hm
  invisible m _ p p' bs h _ := h rfl

/-- In pieces that stand for unbroken tokens one for one, only the literals have line breaks. -/
theorem Flat.breaks {ts : List Token} {ps : List Piece} (h : Flat false ts ps)
    (hts : UnbrokenTokens ts) :
    breaksOf ps = literalBreaks ts ∧
      ∀ piece ∈ ps, '\n' ∈ piece.chars → ∃ text, piece = .literal text := by
  have hdelimiter : ∀ d : Delimiter, '\n' ∉ d.opening.toList ∧ '\n' ∉ d.closing.toList := by
    intro d
    cases d <;> decide
  have hcons : ∀ {piece : Piece} {ps : List Piece}, '\n' ∉ piece.chars →
      (∀ piece ∈ ps, '\n' ∈ piece.chars → ∃ text, piece = .literal text) →
      ∀ piece' ∈ piece :: ps, '\n' ∈ piece'.chars → ∃ text, piece' = .literal text :=
    fun hpiece hps => List.forall_mem_cons.mpr ⟨fun hbreak => absurd hbreak hpiece, hps⟩
  induction h with
  | nil => exact ⟨rfl, by simp⟩
  | @ident raw name q ts ps _ ih =>
    obtain ⟨hcount, hwithin⟩ := ih hts.2
    have hname : '\n' ∉ (Piece.word (Token.identText raw name)).chars := by
      have hplain : '\n' ∉ name.toList := hts.1
      cases raw <;> simp [Piece.chars, Token.identText, hplain]
    refine ⟨?_, hcons hname hwithin⟩
    rw [breaksOf_cons, List.count_eq_zero.mpr hname, hcount]
    simp only [literalBreaks, Token.literalBreaks]
  | @literal text q ts ps _ ih =>
    obtain ⟨hcount, hwithin⟩ := ih hts.2
    refine ⟨?_, List.forall_mem_cons.mpr ⟨fun _ => ⟨text, rfl⟩, hwithin⟩⟩
    rw [breaksOf_cons, hcount, literalBreaks, Token.literalBreaks, Piece.chars]
  | @punct c s q ts ps _ ih =>
    obtain ⟨hcount, hwithin⟩ := ih hts.2
    have hmark : '\n' ∉ (Piece.mark c).chars := fun h => hts.1 (List.mem_singleton.mp h).symm
    refine ⟨?_, hcons hmark hwithin⟩
    rw [breaksOf_cons, List.count_eq_zero.mpr hmark, hcount]
    simp only [literalBreaks, Token.literalBreaks]
  | @group d body q r ts bs ps _ _ _ ihbody ih =>
    obtain ⟨hinner, hinside⟩ := ihbody hts.1
    obtain ⟨hcount, hwithin⟩ := ih hts.2
    obtain ⟨hopening, hclosing⟩ := hdelimiter d
    refine ⟨?_, hcons hopening (List.forall_mem_append.mpr ⟨hinside, hcons hclosing hwithin⟩)⟩
    have hends : (Piece.opening d).chars.count '\n' = 0 ∧ (Piece.closing d).chars.count '\n' = 0 :=
      ⟨List.count_eq_zero.mpr hopening, List.count_eq_zero.mpr hclosing⟩
    rw [breaksOf_cons, breaksOf_append, breaksOf_cons, hends.1, hends.2, hinner, hcount,
      literalBreaks, Token.literalBreaks]
    omega
  | invisible _ _ ihbody ih =>
    obtain ⟨hinner, hinside⟩ := ihbody hts.1
    obtain ⟨hcount, hwithin⟩ := ih hts.2
    refine ⟨?_, List.forall_mem_append.mpr ⟨hinside, hwithin⟩⟩
    rw [breaksOf_append, hinner, hcount, literalBreaks, Token.literalBreaks]
  | outerDoc hlines | innerDoc hlines => cases hlines

/-- Inline text is the pieces of its tokens on one line. -/
theorem renderInline_pieces (ts : List Token) :
    ∃ pieces, Flat false ts pieces ∧ InLine pieces (renderInline ts).toList := by
  obtain ⟨pieces, hflat, hstays⟩ := nests_stays.runs ts False.elim {} { mode := .inline }
  obtain ⟨-, text, hwritten, hline⟩ := hstays rfl rfl
  exact ⟨pieces, hflat, ((renderInline_toList ts).trans hwritten) ▸ hline⟩

/-- The inline text of tokens that were read has the line breaks of their literals. -/
theorem count_renderInline_of_tokens {text : List Char} {ts : List Token}
    (h : Lexer.tokens text = .ok ts) :
    (renderInline ts).toList.count '\n' = literalBreaks ts := by
  obtain ⟨pieces, hflat, hline⟩ := renderInline_pieces ts
  exact hline.count_eq.trans (hflat.breaks (Lexer.compact_of_tokens h).unbroken).1

/-- Whatever the tokens are, their inline text has one piece for each of them and each delimiter,
with nothing but spaces between them: every attribute keeps its mark and its brackets, and no line
of documentation is written. When names and marks have no line break in them, all line breaks are
those inside the texts of the literals. -/
theorem renderInline_breaks_in_literals (ts : List Token) :
    ∃ pieces, Flat false ts pieces ∧ InLine pieces (renderInline ts).toList ∧
      (∀ piece ∈ pieces, piece.isComment = false) ∧
      (UnbrokenTokens ts → (renderInline ts).toList.count '\n' = literalBreaks ts ∧
        ∀ piece ∈ pieces, '\n' ∈ piece.chars → ∃ text, piece = .literal text) := by
  obtain ⟨pieces, hflat, hline⟩ := renderInline_pieces ts
  refine ⟨pieces, hflat, hline, hflat.isComment_eq_false, fun hunbroken => ?_⟩
  obtain ⟨hcount, hwithin⟩ := hflat.breaks hunbroken
  exact ⟨hline.count_eq.trans hcount, hwithin⟩

/-- An attribute with a documentation of two lines, braces with a semicolon in them, and a group
without delimiters around a literal that has a line break. -/
theorem renderInline_breaks_in_literals_struct :
    let mark (c : Char) : Token := .punct c .alone .start
    let word (name : String) : Token := .ident false name .start
    let group (d : Delimiter) (body : List Token) : Token := .group d body .start .start
    let ts : List Token :=
      [mark '#', group .bracket [word "doc", mark '=', .literal "\"a\nb\"" .start],
      word "struct", word "S", group .brace [word "x", mark ';', group .brace [word "y", mark ';']],
      group .invisible [.literal "\"\n\"" .start], mark ';']
    UnbrokenTokens ts ∧
      renderInline ts = "#[doc = \"a\nb\"] struct S \x7b x; \x7b y; \x7d \x7d \"\n\";" ∧
      (renderInline ts).toList.count '\n' = literalBreaks ts ∧ literalBreaks ts = 2 := by
  intro mark word group ts
  have hunbroken : UnbrokenTokens ts := by
    simp [ts, mark, word, group, UnbrokenTokens, Token.Unbroken]
  obtain ⟨pieces, -, -, -, hliterals⟩ := renderInline_breaks_in_literals ts
  have hcount := (hliterals hunbroken).1
  exact ⟨hunbroken, by decide +kernel, hcount, by decide +kernel⟩

end Layout

end Observable
