import Observable.Proofs.Layout.Reading
/-! What the words of a layout tell about its text: with which spacing the punctuation in it will be
read, and whether a number runs into a point. -/
namespace Observable.Layout

open Lexer

/-- The text of some pieces of output. -/
def charsOf (atoms : List Atom) : List Char := atoms.flatMap fun a => a.text.toList

/-- The spacings of an operator's characters in front of a text. -/
def markSpacings : List Char → List Char → List Spacing
  | [], _ => []
  | c :: cs, after =>
    if isPunct c && c ≠ '\'' then spacingBefore (cs ++ after) :: markSpacings cs after else []

/-- The spacings with which a word is read in front of a text. -/
def wordSpacings (word after : List Char) : List Spacing :=
  match word with
  | ['\''] => [.joint]
  | '/' :: '/' :: c :: _ => List.replicate (if c = '!' then 3 else 2) .alone
  | _ => markSpacings word after

/-- The spacings with which the words of a layout are read. -/
def spacings : List Atom → List Spacing
  | [] => []
  | .word text :: rest => wordSpacings text.toList (charsOf rest) ++ spacings rest
  | _ :: rest => spacings rest

/-- Whether no number runs into a point that is written right after it. -/
def numbersApart : List Atom → Bool
  | [] => true
  | .word text :: rest =>
    (!text.toList.head?.any Char.isDigit || (charsOf rest).head? ≠ some '.'
      || Literal.read (text.toList ++ charsOf rest) = some (charsOf rest)) && numbersApart rest
  | _ :: rest => numbersApart rest

/-- The pieces of output of a whole file, with the line break at its end. -/
def wholeFile (tokens : List Token) : List Atom := fileAtoms tokens ++ [.breaks 1 0]

theorem charsOf_wholeFile (ts : List Token) : charsOf (wholeFile ts) = (renderFile ts).toList := by
  simp [charsOf, wholeFile, renderFile, textOf, Atom.text, List.flatMap_map]

/-- What is written for some pieces: a word for each of them, but one for all characters of an
operator and one for the braces around nothing. -/
inductive Writes : List Piece → List Atom → Prop
  | nil : Writes [] []
  | space {ps as} (h : Writes ps as) : Writes ps (.space :: as)
  | breaks {lines indent ps as} (h : Writes ps as) : Writes ps (.breaks lines indent :: as)
  | piece {text piece ps as} (htext : text.toList = piece.chars) (hpiece : ∀ c, piece ≠ .mark c)
      (h : Writes ps as) : Writes (piece :: ps) (.word text :: as)
  | marks {text c cs ps as} (htext : text.toList = c :: cs) (htick : c = '\'' → cs = [])
      (hcs : ∀ d ∈ cs, d ≠ '/' ∧ d ≠ '*' ∧ d ≠ '\'') (h : Writes ps as) :
      Writes ((c :: cs).map .mark ++ ps) (.word text :: as)
  | braces {ps as} (h : Writes ps as) :
      Writes (.opening .brace :: .closing .brace :: ps) (.word "\x7b\x7d" :: as)

theorem Writes.append {ps qs : List Piece} {as bs : List Atom} (h : Writes ps as)
    (h' : Writes qs bs) : Writes (ps ++ qs) (as ++ bs) := by
  induction h with
  | nil => exact h'
  | space _ ih => exact .space ih
  | breaks _ ih => exact .breaks ih
  | piece htext hpiece _ ih => exact .piece htext hpiece ih
  | marks htext htick hcs _ ih =>
    rw [List.append_assoc]
    exact .marks htext htick hcs ih
  | braces _ ih => exact .braces ih

/-- From one layout to another some pieces are written. -/
def Printer.Puts (p p' : Printer) (ps : List Piece) : Prop :=
  ∃ added, p'.out.reverse = p.out.reverse ++ added ∧ Writes ps added

namespace Printer.Puts

theorem of_out {p p' : Printer} (hout : p'.out = p.out) : p.Puts p' [] :=
  ⟨[], by rw [hout, List.append_nil], .nil⟩

theorem trans {p p' p'' : Printer} {ps qs : List Piece} (h : p.Puts p' ps) (h' : p'.Puts p'' qs) :
    p.Puts p'' (ps ++ qs) := by
  obtain ⟨added, hout, hsets⟩ := h
  obtain ⟨added', hout', hsets'⟩ := h'
  exact ⟨added ++ added', by rw [hout', hout, List.append_assoc], hsets.append hsets'⟩

/-- A word comes after a gap, if there is one. -/
theorem of_write {p q p' : Printer} {word : String} {space : Bool} {ps : List Piece}
    (hout : p'.out = (q.write word space).out) (hfrom : q.out = p.out)
    (hword : Writes ps [.word word]) : p.Puts p' ps := by
  rw [Puts, hout, Printer.write, ← hfrom]
  split
  · let gap : Atom := .breaks (if writesNothing q.out then 0 else q.pending) q.indent
    exact ⟨[gap, .word word], by simp [gap], .breaks hword⟩
  · split
    · exact ⟨[.space, .word word], by simp, .space hword⟩
    · exact ⟨[.word word], by simp, hword⟩

theorem of_piece {p q p' : Printer} {word : String} {space : Bool} {piece : Piece}
    (hout : p'.out = (q.write word space).out) (hfrom : q.out = p.out)
    (hword : word.toList = piece.chars) (hpiece : ∀ c, piece ≠ .mark c) : p.Puts p' [piece] :=
  of_write hout hfrom (.piece hword hpiece .nil)

end Printer.Puts

/-- No operator begins with the mark of a lifetime. -/
theorem beginsOperator_tick (cs : List Char) : beginsOperator ('\'' :: cs) = false := by
  have hall : ∀ o ∈ operators, o.toList.head?.all (· ≠ '\'') = true :=
    forall_mem_of_all (by decide +kernel)
  refine List.any_eq_false.mpr fun o ho hprefix => ?_
  obtain ⟨rest, hrest⟩ := List.isPrefixOf_iff_prefix.mp hprefix
  have hhead := hall o ho
  rw [← hrest] at hhead
  cases hhead

theorem steps_puts : Steps Printer.Puts where
  refl p := .of_out rfl
  trans := .trans
  forget p := .of_out rfl
  word p text := .of_piece (out_word p text) rfl rfl nofun
  literal p text := .of_piece rfl rfl rfl nofun
  operator p frame op c cs hop hkept := by
    have hcs : ∀ d ∈ cs, d ≠ '/' ∧ d ≠ '*' ∧ d ≠ '\'' :=
      hkept.elim (fun h => by simp [h]) mem_of_beginsOperator
    have htick : c = '\'' → cs = [] := by
      rintro rfl
      exact hkept.resolve_right fun hbegins => by simp [beginsOperator_tick] at hbegins
    have hmarks : Writes ((c :: cs).map .mark) [.word op] := by
      simpa using Writes.marks hop htick hcs .nil
    exact .of_write (out_operator p frame op) rfl hmarks
  comment p line inner text _ hline _ := .of_piece rfl rfl hline nofun
  pound p text cs htext hinner := by
    have hcs : ∀ d ∈ cs, d ≠ '/' ∧ d ≠ '*' ∧ d ≠ '\'' := by rcases hinner with rfl | rfl <;> simp
    have hmarks : Writes (('#' :: cs).map .mark) [.word text] := by
      simpa using Writes.marks htext (by simp) hcs .nil
    exact .of_write rfl rfl hmarks
  bracket p frame := .of_piece (out_endAttribute _ frame) rfl rfl nofun
  enter p d _ space := .of_piece rfl rfl rfl nofun
  pad p space := by
    have henter : p.Puts (p.enter "\x7b" space) [.opening .brace] := .of_piece rfl rfl rfl nofun
    have hspace : (p.enter "\x7b" space).Puts
        { p.enter "\x7b" space with out := .space :: (p.enter "\x7b" space).out } [] :=
      ⟨[.space], by simp, .space .nil⟩
    exact henter.trans hspace
  leave p d _ space := .of_piece rfl rfl rfl nofun
  empty p space frame next := .of_write (out_afterBlock _ frame next) rfl (.braces .nil)
  enterBlock p := .of_piece rfl rfl rfl nofun
  leaveBlock p frame next := by
    let q : Printer := { p with indent := p.indent - 1, pending := 1 }
    have hout : (p.leaveBlock.afterBlock frame next).out = (q.write "\x7d" false).out :=
      out_afterBlock p.leaveBlock frame next
    exact .of_piece hout rfl rfl nofun

theorem follow_next {text : List Char} {piece : Piece} {ps : List Piece} (h : piece.Readable) :
    follow (piece :: ps) (piece.chars ++ text) = (piece, text) :: follow ps text :=
  follow_cons (show ∀ c ∈ [], c = ' ' ∨ c = '\n' by simp) h

/-- A gap in front of a text changes nothing about what follows the pieces in it. -/
theorem follow_gap {gap : List Char} (hgap : ∀ c ∈ gap, c = ' ' ∨ c = '\n') (ps : List Piece)
    (text : List Char) : follow ps (gap ++ text) = follow ps text := by
  cases ps with
  | nil => rfl
  | cons piece ps =>
    have hdrop : (gap ++ text).dropWhile (fun c => c = ' ' || c = '\n')
        = text.dropWhile fun c => c = ' ' || c = '\n' :=
      List.dropWhile_append_of_pos fun c hc => by simpa using hgap c hc
    simp only [follow, hdrop]

/-- What begins a literal is no punctuation, unless it is the quote of a character. -/
theorem IsLiteralText.isPunct_front {text : String} (h : IsLiteralText text) :
    ∃ c rest, text.toList = c :: rest ∧ (isPunct c = false ∨ c = '\'' ∧ rest ≠ []) := by
  rcases h with rfl | ⟨next, hread⟩
  · exact ⟨'(', _, rfl, .inl (by decide)⟩
  · obtain ⟨⟨c, rest, htext, -⟩, -⟩ := IsLiteralText.front (.inr ⟨next, hread⟩)
    rw [htext] at hread
    refine ⟨c, rest, htext, ?_⟩
    rcases read_front hread with hmem | hdigit
    · by_cases htick : c = '\''
      · subst htick
        refine .inr ⟨rfl, ?_⟩
        rintro rfl
        have hbody : (Literal.readCharBody .text next).map Literal.dropIdent = some next := hread
        exact absurd (Literal.character_reads hbody) Literal.Reads.irrefl
      · have hall : ∀ d ∈ ['"', 'r', 'b', 'c', '\''], d ≠ '\'' → isPunct d = false :=
          forall_mem_of_all (by decide)
        exact .inl (hall c hmem htick)
    · refine .inl (Bool.eq_false_iff.mpr fun hpunct => ?_)
      have hident := (isPunct_facts hpunct).2.2
      rw [Literal.isIdentContinue_of_isDigit hdigit] at hident
      cases hident

theorem markSpacings_of_not_isPunct {c : Char} (hc : isPunct c = false) (cs after : List Char) :
    markSpacings (c :: cs) after = [] := by
  simp [markSpacings, hc]

/-- A word that begins with no punctuation is read as no mark. -/
theorem wordSpacings_of_not_isPunct {c : Char} (hc : isPunct c = false) (cs after : List Char) :
    wordSpacings (c :: cs) after = [] := by
  have htick : c ≠ '\'' := by rintro rfl; cases hc
  have hslash : c ≠ '/' := by rintro rfl; cases hc
  unfold wordSpacings
  split
  · rename_i heq
    exact absurd (List.cons.inj heq).1 htick
  · rename_i heq
    exact absurd (List.cons.inj heq).1 hslash
  · exact markSpacings_of_not_isPunct hc cs after

/-- A word is read with the spacings of the piece it is written for. -/
theorem Piece.Readable.wordSpacings {piece : Piece} (h : piece.Readable)
    (hpiece : ∀ c, piece ≠ .mark c) (after : List Char) :
    wordSpacings piece.chars after = piece.spacings after := by
  cases piece with
  | mark c => exact absurd rfl (hpiece c)
  | word text =>
    obtain ⟨raw, name, rfl, hword⟩ := h
    obtain ⟨c, rest, htext, -, hc, -⟩ := word_front hword (show stopsWord [] = true from rfl)
    rw [List.append_nil] at htext
    have hpunct := isPunct_of_isIdentContinue (Text.isIdentContinue_of_isIdentStart hc)
    simp only [Piece.chars, htext, wordSpacings_of_not_isPunct hpunct, Piece.spacings]
  | literal text =>
    obtain ⟨c, rest, htext, hc | ⟨rfl, hrest⟩⟩ := IsLiteralText.isPunct_front h
    · simp only [Piece.chars, htext, wordSpacings_of_not_isPunct hc, Piece.spacings]
    · obtain ⟨d, rest, rfl⟩ := List.exists_cons_of_ne_nil hrest
      simp [Piece.chars, htext, Layout.wordSpacings, markSpacings, Piece.spacings]
  | opening d | closing d =>
    cases d with
    | invisible => exact absurd rfl h
    | _ => exact wordSpacings_of_not_isPunct (by decide) [] after
  | comment inner text => cases inner <;> rfl

theorem follow_marks {cs : List Char} (hcs : ∀ c ∈ cs, isPunct c = true) (ps : List Piece)
    (text : List Char) :
    follow (cs.map .mark ++ ps) (cs ++ text)
      = follow (cs.map .mark) (cs ++ text) ++ follow ps text := by
  induction cs with
  | nil => rfl
  | cons c cs ih =>
    obtain ⟨hpunct, hcs⟩ := List.forall_mem_cons.mp hcs
    have hpiece : (Piece.mark c).Readable := hpunct
    have hfollow (qs : List Piece) : follow (.mark c :: qs) (c :: (cs ++ text))
        = (.mark c, cs ++ text) :: follow qs (cs ++ text) := follow_next hpiece
    simp only [List.map_cons, List.cons_append, hfollow, ih hcs]

/-- Every mark of an operator is read with its spacing. -/
theorem spacings_marks {cs : List Char} (hcs : ∀ c ∈ cs, isPunct c = true ∧ c ≠ '\'')
    (text : List Char) :
    (follow (cs.map .mark) (cs ++ text)).flatMap (fun x => x.1.spacings x.2)
      = markSpacings cs text := by
  induction cs with
  | nil => rfl
  | cons c cs ih =>
    obtain ⟨⟨hpunct, htick⟩, hcs⟩ := List.forall_mem_cons.mp hcs
    have hpiece : (Piece.mark c).Readable := hpunct
    have hfollow : follow (.mark c :: cs.map .mark) (c :: (cs ++ text))
        = (.mark c, cs ++ text) :: follow (cs.map .mark) (cs ++ text) :=
      follow_next hpiece
    simp only [List.map_cons, List.cons_append, hfollow, List.flatMap_cons, ih hcs]
    simp [markSpacings, hpunct, htick, Piece.spacings]

theorem wordSpacings_marks {c : Char} {cs : List Char} (hpunct : ∀ d ∈ c :: cs, isPunct d = true)
    (htick : c = '\'' → cs = []) (hcs : ∀ d ∈ cs, d ≠ '/' ∧ d ≠ '*' ∧ d ≠ '\'') (text : List Char) :
    (follow ((c :: cs).map .mark) (c :: cs ++ text)).flatMap (fun x => x.1.spacings x.2)
      = wordSpacings (c :: cs) text := by
  by_cases hc : c = '\''
  · obtain rfl := htick hc
    subst hc
    have hpiece : (Piece.mark '\'').Readable := hpunct '\'' List.mem_cons_self
    have hfollow : follow [.mark '\''] ('\'' :: text) = [(.mark '\'', text)] :=
      follow_next hpiece
    simp only [List.map_cons, List.map_nil, List.cons_append, List.nil_append, hfollow]
    rfl
  · rw [spacings_marks fun d hd => ⟨hpunct d hd, ?_⟩]
    · unfold wordSpacings
      split
      · rename_i heq
        exact absurd (List.cons.inj heq).1 hc
      · rename_i heq
        obtain ⟨-, rfl⟩ := List.cons.inj heq
        exact absurd rfl (hcs '/' List.mem_cons_self).1
      · rfl
    · rcases List.mem_cons.mp hd with rfl | hd
      · exact hc
      · exact (hcs d hd).2.2

theorem charsOf_cons (a : Atom) (as : List Atom) :
    charsOf (a :: as) = a.text.toList ++ charsOf as := rfl

theorem follow_space (ps : List Piece) (as : List Atom) :
    follow ps (charsOf (.space :: as)) = follow ps (charsOf as) := by
  have hgap : ∀ c ∈ [' '], c = ' ' ∨ c = '\n' := by simp
  exact follow_gap hgap ps _

theorem follow_breaks (lines indent : Nat) (ps : List Piece) (as : List Atom) :
    follow ps (charsOf (.breaks lines indent :: as)) = follow ps (charsOf as) := by
  refine follow_gap (fun c hc => ?_) ps _
  simp only [Atom.text, String.toList_ofList] at hc
  rcases List.mem_append.mp hc with hc | hc
  · exact .inr (List.eq_of_mem_replicate hc)
  · exact .inl (List.eq_of_mem_replicate hc)

theorem follow_piece {text : String} {piece : Piece} (htext : text.toList = piece.chars)
    (hpiece : piece.Readable) (ps : List Piece) (as : List Atom) :
    follow (piece :: ps) (charsOf (.word text :: as))
      = (piece, charsOf as) :: follow ps (charsOf as) := by
  rw [charsOf_cons, Atom.text, htext]
  exact follow_next hpiece

theorem follow_braces (ps : List Piece) (as : List Atom) :
    follow (.opening .brace :: .closing .brace :: ps) (charsOf (.word "\x7b\x7d" :: as))
      = (.opening .brace, '\x7d' :: charsOf as) :: (.closing .brace, charsOf as)
        :: follow ps (charsOf as) := by
  have hbrace : Delimiter.brace ≠ .invisible := by decide
  have hopening : (Piece.opening .brace).Readable := hbrace
  have hclosing : (Piece.closing .brace).Readable := hbrace
  have hrest : follow (.closing .brace :: ps) ('\x7d' :: charsOf as)
      = (.closing .brace, charsOf as) :: follow ps (charsOf as) := follow_next hclosing
  exact (follow_next hopening).trans (congrArg _ hrest)

/-- The words of a layout are read with the spacings of the pieces that they are written for. -/
theorem Writes.spacings_follow {ps : List Piece} {as : List Atom} (h : Writes ps as)
    (hps : ∀ piece ∈ ps, piece.Readable) :
    (follow ps (charsOf as)).flatMap (fun x => x.1.spacings x.2) = spacings as := by
  induction h with
  | nil => rfl
  | space _ ih => rw [follow_space]; exact ih hps
  | breaks _ ih => rw [follow_breaks]; exact ih hps
  | piece htext hpiece _ ih =>
    obtain ⟨hreadable, hps⟩ := List.forall_mem_cons.mp hps
    rw [follow_piece htext hreadable, List.flatMap_cons, ih hps, spacings, htext,
      hreadable.wordSpacings hpiece]
  | @marks text c cs ps as htext htick hcs _ ih =>
    obtain ⟨hmarks, hps⟩ := List.forall_mem_append.mp hps
    have hpunct : ∀ d ∈ c :: cs, isPunct d = true :=
      fun d hd => hmarks (.mark d) (List.mem_map_of_mem hd)
    rw [charsOf_cons, Atom.text, htext, follow_marks hpunct, List.flatMap_append,
      wordSpacings_marks hpunct htick hcs, ih hps, spacings, htext]
  | braces _ ih =>
    obtain ⟨-, hps⟩ := List.forall_mem_cons.mp hps
    obtain ⟨-, hps⟩ := List.forall_mem_cons.mp hps
    rw [follow_braces, List.flatMap_cons, List.flatMap_cons, ih hps]
    rfl

theorem mem_follow {x : Piece × List Char} {ps : List Piece} {text : List Char}
    (h : x ∈ follow ps text) : x.1 ∈ ps := by
  induction ps generalizing text with
  | nil => cases h
  | cons piece ps ih =>
    rcases List.mem_cons.mp h with rfl | h
    · exact List.mem_cons_self
    · exact List.mem_cons_of_mem _ (ih h)

/-- Where the words of a layout keep numbers apart from points, so do its pieces. -/
theorem Writes.stands_follow {ps : List Piece} {as : List Atom} (h : Writes ps as)
    (hps : ∀ piece ∈ ps, piece.Readable) (hapart : numbersApart as = true) :
    ∀ x ∈ follow ps (charsOf as), x.1.Stands x.2 := by
  induction h with
  | nil => nofun
  | space _ ih => rw [follow_space]; exact ih hps hapart
  | breaks _ ih => rw [follow_breaks]; exact ih hps hapart
  | @piece text piece ps as htext hpiece _ ih =>
    obtain ⟨hreadable, hps⟩ := List.forall_mem_cons.mp hps
    rw [numbersApart, Bool.and_eq_true] at hapart
    rw [follow_piece htext hreadable]
    refine List.forall_mem_cons.mpr ⟨?_, ih hps hapart.2⟩
    cases piece with
    | literal lit =>
      obtain rfl : text = lit := String.toList_injective htext
      intro hdigit hpoint
      simpa [hdigit, hpoint] using hapart.1
    | _ => trivial
  | @marks text c cs ps as htext htick hcs _ ih =>
    obtain ⟨hmarks, hps⟩ := List.forall_mem_append.mp hps
    have hpunct : ∀ d ∈ c :: cs, isPunct d = true :=
      fun d hd => hmarks (.mark d) (List.mem_map_of_mem hd)
    rw [numbersApart, Bool.and_eq_true] at hapart
    rw [charsOf_cons, Atom.text, htext, follow_marks hpunct]
    refine List.forall_mem_append.mpr ⟨fun x hx => ?_, ih hps hapart.2⟩
    obtain ⟨d, -, hd⟩ := List.mem_map.mp (mem_follow hx)
    rw [← hd]
    trivial
  | braces _ ih =>
    obtain ⟨-, hps⟩ := List.forall_mem_cons.mp hps
    obtain ⟨-, hps⟩ := List.forall_mem_cons.mp hps
    rw [numbersApart, Bool.and_eq_true] at hapart
    rw [follow_braces]
    exact List.forall_mem_cons.mpr ⟨trivial, List.forall_mem_cons.mpr ⟨trivial, ih hps hapart.2⟩⟩

/-- Two things that layouts keep step by step, they keep together. -/
theorem Steps.and {R R' : Printer → Printer → List Piece → Prop} (h : Steps R) (h' : Steps R') :
    Steps fun p p' ps => R p p' ps ∧ R' p p' ps where
  refl p := ⟨h.refl p, h'.refl p⟩
  trans hr hr' := ⟨h.trans hr.1 hr'.1, h'.trans hr.2 hr'.2⟩
  forget p := ⟨h.forget p, h'.forget p⟩
  word p text := ⟨h.word p text, h'.word p text⟩
  literal p text := ⟨h.literal p text, h'.literal p text⟩
  operator p frame _ _ _ hop hkept := ⟨h.operator p frame hop hkept, h'.operator p frame hop hkept⟩
  comment p _ _ _ hstart hline hplain :=
    ⟨h.comment p hstart hline hplain, h'.comment p hstart hline hplain⟩
  pound p _ _ htext hinner := ⟨h.pound p htext hinner, h'.pound p htext hinner⟩
  bracket p frame := ⟨h.bracket p frame, h'.bracket p frame⟩
  enter p _ hd space := ⟨h.enter p hd space, h'.enter p hd space⟩
  pad p space := ⟨h.pad p space, h'.pad p space⟩
  leave p _ hd space := ⟨h.leave p hd space, h'.leave p hd space⟩
  empty p space frame next := ⟨h.empty p space frame next, h'.empty p space frame next⟩
  enterBlock p := ⟨h.enterBlock p, h'.enterBlock p⟩
  leaveBlock p frame next := ⟨h.leaveBlock p frame next, h'.leaveBlock p frame next⟩

end Observable.Layout
