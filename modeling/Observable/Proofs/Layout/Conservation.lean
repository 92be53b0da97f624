import Observable.Proofs.Layout.Run
import Observable.Proofs.Layout.Spelling
/-! A layout writes the text of each token once and in order, and nothing else but blanks. -/
namespace Observable

mutual
/-- The texts of a token, with those inside a group between its delimiters; an invisible group adds
none of its own. -/
def Token.texts : Token → List (List Char)
  | .ident raw name _ => [(Token.identText raw name).toList]
  | .punct c _ _ => [[c]]
  | .literal text _ => [text.toList]
  | .group .invisible body _ _ => tokenTexts body
  | .group d body _ _ => d.opening.toList :: (tokenTexts body ++ [d.closing.toList])

/-- The texts of a row of tokens. -/
def tokenTexts : List Token → List (List Char)
  | [] => []
  | t :: ts => t.texts ++ tokenTexts ts
end

namespace Layout

/-- A text that is some pieces in their order, each once, with nothing but spaces and line breaks in
front of them, between them and after them. -/
inductive Scatters : List (List Char) → List Char → Prop
  | nil {gap} (hgap : ∀ c ∈ gap, c = ' ' ∨ c = '\n') : Scatters [] gap
  | cons {gap piece pieces text} (hgap : ∀ c ∈ gap, c = ' ' ∨ c = '\n')
      (h : Scatters pieces text) : Scatters (piece :: pieces) (gap ++ (piece ++ text))

/-- What may stand for a row of tokens: their texts, and, where lines of documentation are allowed,
such a line in place of an attribute that documents with a string. -/
inductive Pieces (lines : Bool) : List Token → List (List Char) → Prop
  | nil : Pieces lines [] []
  | ident {raw name q ts ps} (h : Pieces lines ts ps) :
      Pieces lines (.ident raw name q :: ts) ((Token.identText raw name).toList :: ps)
  | punct {c s q ts ps} (h : Pieces lines ts ps) : Pieces lines (.punct c s q :: ts) ([c] :: ps)
  | literal {text q ts ps} (h : Pieces lines ts ps) :
      Pieces lines (.literal text q :: ts) (text.toList :: ps)
  | group {d body q r ts bs ps} (hd : d ≠ .invisible) (hbody : Pieces lines body bs)
      (h : Pieces lines ts ps) :
      Pieces lines (.group d body q r :: ts)
        (d.opening.toList :: (bs ++ d.closing.toList :: ps))
  | invisible {body q r ts bs ps} (hbody : Pieces lines body bs) (h : Pieces lines ts ps) :
      Pieces lines (.group .invisible body q r :: ts) (bs ++ ps)
  | outerDoc {s q q₁ s₂ q₂ value q₃ r r' ts ps text} (hlines : lines = true)
      (hvalue : Literal.stringValue? value.toList = some text) (h : Pieces lines ts ps) :
      Pieces lines
        (.punct '#' s q :: .group .bracket
          [.ident false "doc" q₁, .punct '=' s₂ q₂, .literal value q₃] r r' :: ts)
        (('/' :: '/' :: '/' :: text) :: ps)
  | innerDoc {s q s' q' q₁ s₂ q₂ value q₃ r r' ts ps text} (hlines : lines = true)
      (hvalue : Literal.stringValue? value.toList = some text) (h : Pieces lines ts ps) :
      Pieces lines
        (.punct '#' s q :: .punct '!' s' q' :: .group .bracket
          [.ident false "doc" q₁, .punct '=' s₂ q₂, .literal value q₃] r r' :: ts)
        (('/' :: '/' :: '!' :: text) :: ps)

/-- Without lines of documentation there is one way to write some tokens. -/
theorem Pieces.eq_tokenTexts {ts : List Token} {ps : List (List Char)} (h : Pieces false ts ps) :
    ps = tokenTexts ts := by
  induction h with
  | nil => rfl
  | ident _ ih | punct _ ih | literal _ ih =>
    rw [ih, tokenTexts, Token.texts, List.singleton_append]
  | @group d body q r ts bs ps hd _ _ ihbody ih =>
    have htexts : (Token.group d body q r).texts
        = d.opening.toList :: (tokenTexts body ++ [d.closing.toList]) := by
      cases d with
      | invisible => exact absurd rfl hd
      | _ => rfl
    rw [tokenTexts, htexts, ihbody, ih]
    simp
  | invisible _ _ ihbody ih => rw [ihbody, ih, tokenTexts, Token.texts]
  | outerDoc hlines | innerDoc hlines => cases hlines

theorem Scatters.gap {ps : List (List Char)} {gap text : List Char}
    (hgap : ∀ c ∈ gap, c = ' ' ∨ c = '\n') (h : Scatters ps text) : Scatters ps (gap ++ text) := by
  cases h with
  | nil hend => exact .nil fun c hc => (List.mem_append.mp hc).elim (hgap c) (hend c)
  | cons hfront h =>
    rw [← List.append_assoc]
    exact .cons (fun c hc => (List.mem_append.mp hc).elim (hgap c) (hfront c)) h

theorem Scatters.append {ps qs : List (List Char)} {text tail : List Char} (h : Scatters ps text)
    (h' : Scatters qs tail) : Scatters (ps ++ qs) (text ++ tail) := by
  induction h with
  | nil hgap => exact h'.gap hgap
  | cons hgap _ ih =>
    simp only [List.append_assoc]
    exact .cons hgap ih

theorem Scatters.one (piece : List Char) : Scatters [piece] piece := by
  have hempty : ∀ c ∈ [], c = ' ' ∨ c = '\n' := by simp
  have h : Scatters [piece] ([] ++ (piece ++ [])) := .cons hempty (.nil hempty)
  rwa [List.nil_append, List.append_nil] at h

/-- The characters of an operator, which are tokens of their own. -/
theorem Scatters.chars (cs : List Char) : Scatters (cs.map fun c => [c]) cs := by
  induction cs with
  | nil => exact .nil (by simp)
  | cons c cs ih => exact (Scatters.one [c]).append ih

theorem mem_gap {p : Printer} {space : Bool} : ∀ c ∈ p.gap space, c = ' ' ∨ c = '\n' := by
  intro c hc
  simp only [Printer.gap] at hc
  split at hc
  · simp only [Atom.text, String.toList_ofList, List.mem_append, List.mem_replicate] at hc
    exact hc.symm.imp And.right And.right
  · split at hc
    · exact .inl (List.mem_singleton.mp hc)
    · cases hc

/-- From one layout to another some pieces are written. -/
def Printer.Adds (p p' : Printer) (pieces : List (List Char)) : Prop :=
  ∃ text, p'.written = p.written ++ text ∧ Scatters pieces text

namespace Printer.Adds

theorem refl (p : Printer) : p.Adds p [] :=
  ⟨[], (List.append_nil _).symm, .nil (by simp)⟩

theorem trans {p₁ p₂ p₃ : Printer} {ps qs : List (List Char)} (h : p₁.Adds p₂ ps)
    (h' : p₂.Adds p₃ qs) : p₁.Adds p₃ (ps ++ qs) := by
  obtain ⟨text, htext, hps⟩ := h
  obtain ⟨tail, htail, hqs⟩ := h'
  exact ⟨text ++ tail, by rw [htail, htext, List.append_assoc], hps.append hqs⟩

/-- What matters of a layout is what it has written. -/
theorem of_written {p p' q q' : Printer} {ps : List (List Char)} (h : p.Adds p' ps)
    (hfrom : q.written = p.written) (hto : q'.written = p'.written) : q.Adds q' ps := by
  obtain ⟨text, htext, hps⟩ := h
  exact ⟨text, by rw [hto, htext, hfrom], hps⟩

/-- A word may be several pieces, without a gap between them. -/
theorem write (p : Printer) {text : String} {ps : List (List Char)} (h : Scatters ps text.toList)
    (space : Bool) : p.Adds (p.write text space) ps :=
  ⟨p.gap space ++ text.toList, written_write p text space, h.gap mem_gap⟩

end Printer.Adds

/-- However a row of tokens is laid out, pieces that stand for it are written, with lines of
documentation in a block only. -/
def Conserves (ts : List Token) : Prop :=
  ∀ (p : Printer) (frame : Frame), ∃ ps, Pieces (frame.mode = .block) ts ps ∧
    p.Adds (writeTokens p frame {} ts) ps

/-- Pieces that stand for some tokens have texts that do. -/
theorem Flat.pieces {lines : Bool} {ts : List Token} {ps : List Piece} (h : Flat lines ts ps) :
    Pieces lines ts (ps.map Piece.chars) := by
  induction h with
  | nil => exact .nil
  | ident _ ih => exact .ident ih
  | literal _ ih => exact .literal ih
  | punct _ ih => exact .punct ih
  | group hd _ _ ihbody ih =>
    rw [List.map_cons, List.map_append, List.map_cons]
    exact .group hd ihbody ih
  | invisible _ _ ihbody ih =>
    rw [List.map_append]
    exact .invisible ihbody ih
  | outerDoc hlines hvalue _ _ ih => exact .outerDoc hlines hvalue ih
  | innerDoc hlines hvalue _ _ ih => exact .innerDoc hlines hvalue ih

/-- Each step of a layout writes its pieces, after a gap. -/
theorem steps_adds : Steps fun p p' ps => p.Adds p' (ps.map Piece.chars) := by
  have hwrite : ∀ (p : Printer) (text : String) (space : Bool) {p' : Printer} {ps : List Piece},
      Scatters (ps.map Piece.chars) text.toList → p'.written = (p.write text space).written →
      p.Adds p' (ps.map Piece.chars) :=
    fun p text space _ _ h hto => (Printer.Adds.write p h space).of_written rfl hto
  have hone : ∀ (piece : Piece) {text : List Char}, text = piece.chars →
      Scatters ([piece].map Piece.chars) text := fun _ _ h => h ▸ .one _
  have hmarks : ∀ {cs text : List Char}, text = cs →
      Scatters ((cs.map Piece.mark).map Piece.chars) text := by
    rintro cs _ rfl
    rw [List.map_map]
    exact .chars _
  exact {
    refl := .refl
    trans := fun h h' => by rw [List.map_append]; exact h.trans h'
    forget := fun p => (Printer.Adds.refl p).of_written rfl rfl
    word := fun p text => ⟨_, written_word p text, .gap mem_gap (.one _)⟩
    literal := fun p text => hwrite p text _ (hone _ rfl) rfl
    operator := fun p frame op c cs hop _ =>
      ⟨_, written_operator p frame op, .gap mem_gap (hmarks hop)⟩
    comment := fun p line inner text _ hline _ => hwrite p line false (hone _ hline) rfl
    pound := fun p text cs htext _ => hwrite p text _ (hmarks htext) rfl
    bracket := fun p frame => hwrite p "]" false (hone _ rfl)
      (written_of_out (out_endAttribute _ frame))
    enter := fun p d _ space => hwrite p d.opening space (hone _ rfl) rfl
    pad := fun p space => by
      have hopen : p.Adds (p.enter "\x7b" space) [Delimiter.brace.opening.toList] :=
        hwrite p "\x7b" space (hone (.opening .brace) rfl) rfl
      have hspace : (p.enter "\x7b" space).Adds
          { p.enter "\x7b" space with out := .space :: (p.enter "\x7b" space).out } [] :=
        ⟨[' '], by simp [Printer.written, Atom.text], .nil (by simp)⟩
      exact hopen.trans hspace
    leave := fun p d _ space => hwrite p d.closing space (hone _ rfl) rfl
    empty := fun p space frame next =>
      hwrite p "\x7b\x7d" space (.chars ['\x7b', '\x7d']) (written_afterBlock _ frame next)
    enterBlock := fun p => hwrite p "\x7b" true (hone _ rfl) rfl
    leaveBlock := fun p frame next => by
      have hclose : Printer.Adds { p with indent := p.indent - 1, pending := 1 } p.leaveBlock
          [Delimiter.brace.closing.toList] :=
        hwrite _ "\x7d" false (hone (.closing .brace) rfl) rfl
      exact hclose.of_written rfl (written_afterBlock _ frame next) }

theorem conserves (ts : List Token) : Conserves ts := by
  intro p frame
  obtain ⟨ps, hflat, hadds⟩ := steps_adds.runs ts p frame
  exact ⟨_, hflat.pieces, hadds⟩

/-- Whatever the tokens are, on one line the text of each is written once and in order, with spaces
and line breaks around them. So it is in a file, which ends in one more line break, but for its
attributes that document with a string: a line of documentation may stand for one. -/
theorem render_conserves (ts : List Token) :
    Scatters (tokenTexts ts) (renderInline ts).toList ∧
      ∃ pieces text, Pieces true ts pieces ∧ Scatters pieces text ∧
        (renderFile ts).toList = text ++ ['\n'] := by
  constructor
  · obtain ⟨ps, hpieces, text, htext, hscatters⟩ := conserves ts {} { mode := .inline }
    have hinline : (renderInline ts).toList
        = (writeTokens {} { mode := .inline } {} ts).written := by
      simp [renderInline, inlineAtoms, textOf, Printer.written, -List.map_reverse, List.flatMap_map]
    rw [hinline, htext, ← Pieces.eq_tokenTexts hpieces]
    exact hscatters
  · obtain ⟨ps, hpieces, text, htext, hscatters⟩ := conserves ts {} { mode := .block, top := true }
    refine ⟨ps, text, hpieces, hscatters, ?_⟩
    rw [renderFile_toList, htext]
    rfl

end Layout
end Observable
