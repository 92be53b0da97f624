import Mathlib.Tactic.SplitIfs
import Observable.Layout.Printer
/-! What the steps of a layout do to its state, a whole run does: the steps are the few ways to
write a piece of text, and a run writes pieces that stand for its tokens. -/
namespace Observable

mutual
/-- A token that is no group without delimiters and has none inside it. -/
def Token.Visible : Token → Prop
  | .group d body _ _ => d ≠ .invisible ∧ VisibleTokens body
  | _ => True

/-- Tokens without groups that have no delimiters. -/
def VisibleTokens : List Token → Prop
  | [] => True
  | t :: ts => t.Visible ∧ VisibleTokens ts
end

theorem VisibleTokens.drop {ts : List Token} (h : VisibleTokens ts) (n : Nat) :
    VisibleTokens (ts.drop n) := by
  induction ts generalizing n with
  | nil => rwa [List.drop_nil]
  | cons t ts ih =>
    cases n with
    | zero => exact h
    | succ n => exact ih h.2 n

namespace Layout

/-- A piece of text that a layout writes as it is: what is written for a token, a delimiter, or a
line of documentation after its two slashes. -/
inductive Piece where
  | word (text : String)
  | literal (text : String)
  | mark (c : Char)
  | opening (d : Delimiter)
  | closing (d : Delimiter)
  | comment (inner : Bool) (text : List Char)
deriving DecidableEq

def Piece.chars : Piece → List Char
  | .word text | .literal text => text.toList
  | .mark c => [c]
  | .opening d => d.opening.toList
  | .closing d => d.closing.toList
  | .comment inner text => '/' :: '/' :: (if inner then '!' else '/') :: text

/-- Whether a text can be what follows the mark of a line of documentation: it stays on its line,
and no fourth slash makes it an ordinary comment. -/
def isPlainLine (inner : Bool) (text : List Char) : Bool :=
  text.all (fun c => c ≠ '\n' && c ≠ '\r') && (inner || text.head? ≠ some '/')

/-- Pieces that stand for a row of tokens: one for each token and each delimiter, none for an
invisible group itself, and, where lines of documentation are allowed, such a line in place of an
attribute that documents with a string of one line. -/
inductive Flat (lines : Bool) : List Token → List Piece → Prop
  | nil : Flat lines [] []
  | ident {raw name q ts ps} (h : Flat lines ts ps) :
      Flat lines (.ident raw name q :: ts) (.word (Token.identText raw name) :: ps)
  | literal {text q ts ps} (h : Flat lines ts ps) :
      Flat lines (.literal text q :: ts) (.literal text :: ps)
  | punct {c s q ts ps} (h : Flat lines ts ps) : Flat lines (.punct c s q :: ts) (.mark c :: ps)
  | group {d body q r ts bs ps} (hd : d ≠ .invisible) (hbody : Flat lines body bs)
      (h : Flat lines ts ps) :
      Flat lines (.group d body q r :: ts) (.opening d :: (bs ++ .closing d :: ps))
  | invisible {body q r ts bs ps} (hbody : Flat lines body bs) (h : Flat lines ts ps) :
      Flat lines (.group .invisible body q r :: ts) (bs ++ ps)
  | outerDoc {s q q₁ s₂ q₂ value q₃ r r' ts ps text} (hlines : lines = true)
      (hvalue : Literal.stringValue? value.toList = some text)
      (hplain : isPlainLine false text = true) (h : Flat lines ts ps) :
      Flat lines
        (.punct '#' s q :: .group .bracket
          [.ident false "doc" q₁, .punct '=' s₂ q₂, .literal value q₃] r r' :: ts)
        (.comment false text :: ps)
  | innerDoc {s q s' q' q₁ s₂ q₂ value q₃ r r' ts ps text} (hlines : lines = true)
      (hvalue : Literal.stringValue? value.toList = some text)
      (hplain : isPlainLine true text = true) (h : Flat lines ts ps) :
      Flat lines
        (.punct '#' s q :: .punct '!' s' q' :: .group .bracket
          [.ident false "doc" q₁, .punct '=' s₂ q₂, .literal value q₃] r r' :: ts)
        (.comment true text :: ps)

/-- Pieces may stand for their tokens wherever lines of documentation may. -/
theorem Flat.allow {ts : List Token} {ps : List Piece} (h : Flat false ts ps) (lines : Bool) :
    Flat lines ts ps := by
  induction h with
  | nil => exact .nil
  | ident _ ih => exact .ident ih
  | literal _ ih => exact .literal ih
  | punct _ ih => exact .punct ih
  | group hd _ _ ihbody ih => exact .group hd ihbody ih
  | invisible _ _ ihbody ih => exact .invisible ihbody ih
  | outerDoc hlines | innerDoc hlines => cases hlines

/-- Something is written for tokens that can be seen. -/
theorem Flat.ne_nil {lines : Bool} {ts : List Token} {ps : List Piece} (h : Flat lines ts ps)
    (hvisible : VisibleTokens ts) (hsome : ts ≠ []) : ps ≠ [] := by
  cases h with
  | nil => exact absurd rfl hsome
  | invisible => exact absurd rfl hvisible.1.1
  | _ => exact List.cons_ne_nil _ _

/-- A relation between layouts and what is written from one to the other that holds of each step: it
adds up, and the steps are those that write a word, a literal, an operator, a line of documentation,
the mark and the brackets of an attribute, and the delimiters of a group. -/
structure Steps (R : Printer → Printer → List Piece → Prop) : Prop where
  refl (p : Printer) : R p p []
  trans {p p' p'' : Printer} {ps qs : List Piece} (h : R p p' ps) (h' : R p' p'' qs) :
    R p p'' (ps ++ qs)
  /-- What was declared is forgotten at a group. -/
  forget (p : Printer) : R p { p with declaration := false } []
  word (p : Printer) (text : String) : R p (p.word text) [.word text]
  literal (p : Printer) (text : String) : R p (p.literal text) [.literal text]
  operator (p : Printer) (frame : Frame) {op : String} {c : Char} {cs : List Char}
    (hop : op.toList = c :: cs) (hkept : cs = [] ∨ beginsOperator (c :: cs) = true) :
    R p (p.operator frame op).1 ((c :: cs).map .mark)
  comment (p : Printer) {line : String} {inner : Bool} {text : List Char}
    (hstart : p.atLineStart = true) (hline : line.toList = (Piece.comment inner text).chars)
    (hplain : isPlainLine inner text = true) :
    R p ({ p.write line false with last := .attr, declaration := false }.newline 1)
      [.comment inner text]
  pound (p : Printer) {text : String} {cs : List Char} (htext : text.toList = '#' :: cs)
    (hinner : cs = [] ∨ cs = ['!']) :
    R p { p.write text (!p.last.glues) with last := .hash } (('#' :: cs).map .mark)
  bracket (p : Printer) (frame : Frame) :
    R p ((p.leave "]" false).endAttribute frame) [.closing .bracket]
  enter (p : Printer) {d : Delimiter} (hd : d ≠ .invisible) (space : Bool) :
    R p (p.enter d.opening space) [.opening d]
  pad (p : Printer) (space : Bool) :
    R p { p.enter "\x7b" space with out := .space :: (p.enter "\x7b" space).out } [.opening .brace]
  leave (p : Printer) {d : Delimiter} (hd : d ≠ .invisible) (space : Bool) :
    R p (p.leave d.closing space) [.closing d]
  empty (p : Printer) (space : Bool) (frame : Frame) (next : Option Token) :
    R p ({ p.write "\x7b\x7d" space with last := .group }.afterBlock frame next)
      [.opening .brace, .closing .brace]
  enterBlock (p : Printer) : R p p.enterBlock [.opening .brace]
  leaveBlock (p : Printer) (frame : Frame) (next : Option Token) :
    R p (p.leaveBlock.afterBlock frame next) [.closing .brace]

/-- A relation as for steps, where a group from its opening to its closing is one step, so that what
is written in the group may matter for what is written around it. It may depend on the mode, and it
may ask for all groups to be visible. -/
structure Nests (visible : Prop) (R : Mode → Printer → Printer → List Piece → Prop) : Prop where
  refl (m : Mode) (p : Printer) : R m p p []
  trans {m : Mode} {p p' p'' : Printer} {ps qs : List Piece} (h : R m p p' ps)
    (h' : R m p' p'' qs) : R m p p'' (ps ++ qs)
  /-- What was declared is forgotten at a group. -/
  forget (m : Mode) (p : Printer) : R m p { p with declaration := false } []
  word (m : Mode) (p : Printer) (text : String) : R m p (p.word text) [.word text]
  literal (m : Mode) (p : Printer) (text : String) : R m p (p.literal text) [.literal text]
  operator (p : Printer) (frame : Frame) {op : String} {c : Char} {cs : List Char}
    (hop : op.toList = c :: cs) (hkept : cs = [] ∨ beginsOperator (c :: cs) = true) :
    R frame.mode p (p.operator frame op).1 ((c :: cs).map .mark)
  comment (p : Printer) {line : String} {inner : Bool} {text : List Char}
    (hstart : p.atLineStart = true) (hline : line.toList = (Piece.comment inner text).chars)
    (hplain : isPlainLine inner text = true) :
    R .block p ({ p.write line false with last := .attr, declaration := false }.newline 1)
      [.comment inner text]
  pound (m : Mode) (p : Printer) {text : String} {cs : List Char} (htext : text.toList = '#' :: cs)
    (hinner : cs = [] ∨ cs = ['!']) :
    R m p { p.write text (!p.last.glues) with last := .hash } (('#' :: cs).map .mark)
  /-- The brackets of an attribute. -/
  brackets (frame : Frame) {p p' : Printer} {bs : List Piece}
    (h : R .inline (p.enter "[" false) p' bs) :
    R frame.mode p ((p'.leave "]" false).endAttribute frame)
      (.opening .bracket :: (bs ++ [.closing .bracket]))
  /-- A group that stays on its line. -/
  group (m : Mode) {d : Delimiter} (hd : d ≠ .invisible) {space : Bool} {p p' : Printer}
    {bs : List Piece} (hspace : p.last.glues = true → space = false)
    (h : R .inline (p.enter d.opening space) p' bs) :
    R m p (p'.leave d.closing false) (.opening d :: (bs ++ [.closing d]))
  /-- Braces that stay on their line, with spaces inside them. -/
  spaced (m : Mode) {space : Bool} {p p' : Printer} {bs : List Piece} (hbs : visible → bs ≠ [])
    (hspace : p.last.glues = true → space = false)
    (h : R .inline
      { p.enter "\x7b" space with out := .space :: (p.enter "\x7b" space).out } p' bs) :
    R m p (p'.leave "\x7d" true) (.opening .brace :: (bs ++ [.closing .brace]))
  empty {p : Printer} {space : Bool} (hspace : p.last.glues = true → space = false)
    (frame : Frame) (next : Option Token) :
    R frame.mode p ({ p.write "\x7b\x7d" space with last := .group }.afterBlock frame next)
      [.opening .brace, .closing .brace]
  block (frame : Frame) (next : Option Token) {p p' : Printer} {bs : List Piece}
    (h : R .block p.enterBlock p' bs) :
    R .block p (p'.leaveBlock.afterBlock frame next)
      (.opening .brace :: (bs ++ [.closing .brace]))
  invisible (m : Mode) (hhidden : ¬ visible) {p p' : Printer} {bs : List Piece}
    (h : R .inline p p' bs) : R m p p' bs

/-- The steps of a layout make up its groups. -/
theorem Steps.nests {R : Printer → Printer → List Piece → Prop} (steps : Steps R) :
    Nests False fun _ => R where
  refl _ := steps.refl
  trans := steps.trans
  forget _ := steps.forget
  word _ := steps.word
  literal _ := steps.literal
  operator := steps.operator
  comment := steps.comment
  pound _ := steps.pound
  brackets frame _ _ _ h :=
    steps.trans (steps.enter _ (by decide) false) (steps.trans h (steps.bracket _ frame))
  group _ _ hd space _ _ _ _ h :=
    steps.trans (steps.enter _ hd space) (steps.trans h (steps.leave _ hd false))
  spaced _ space _ _ _ _ _ h :=
    steps.trans (steps.pad _ space) (steps.trans h (steps.leave _ (d := .brace) (by decide) true))
  empty _ := steps.empty _ _
  block frame next _ _ _ h :=
    steps.trans (steps.enterBlock _) (steps.trans h (steps.leaveBlock _ frame next))
  invisible _ _ _ _ _ h := h

/-- The tokens that were written with an earlier one are passed over. -/
theorem writeTokens_skip (p : Printer) (frame : Frame) (skip : Nat) (brackets : Bool)
    (ts : List Token) :
    writeTokens p frame { skip := skip, brackets := brackets } ts
      = writeTokens p frame { brackets := brackets } (ts.drop skip) := by
  induction ts generalizing skip with
  | nil => rw [List.drop_nil, writeTokens, writeTokens]
  | cons t ts ih =>
    cases skip with
    | zero => rfl
    | succ skip =>
      rw [writeTokens, if_pos (Nat.succ_pos skip), List.drop_succ_cons]
      exact ih skip

/-- A row of tokens begins with some punctuation characters. -/
inductive Leads : List Char → List Token → Prop
  | nil (ts) : Leads [] ts
  | cons {c cs s q ts} (h : Leads cs ts) : Leads (c :: cs) (.punct c s q :: ts)

/-- What is gathered are the characters of the first tokens, as long as an operator begins so. -/
theorem gather_leads {chars : List Char} (hchars : chars ≠ []) (ts : List Token) :
    ∃ front, gather chars ts = chars ++ front ∧ Leads front ts ∧
      (front = [] ∨ beginsOperator (chars ++ front) = true) := by
  induction ts generalizing chars with
  | nil => exact ⟨[], (List.append_nil _).symm, .nil _, .inl rfl⟩
  | cons t ts ih =>
    cases t with
    | punct c s q =>
      have hsome : chars.isEmpty = false := by simpa using hchars
      rw [gather]
      simp only [hsome, Bool.not_false, Bool.true_and, Bool.not_eq_true']
      split
      · exact ⟨[], (List.append_nil _).symm, .nil _, .inl rfl⟩
      · rename_i hbegins
        rw [Bool.not_eq_false] at hbegins
        split
        · exact ⟨[c], rfl, .cons (.nil ts), .inr hbegins⟩
        · obtain ⟨front, hgather, hleads, hfront⟩ := ih (List.concat_ne_nil c chars)
          have happend : chars ++ [c] ++ front = chars ++ c :: front := by
            rw [List.append_assoc, List.singleton_append]
          refine ⟨c :: front, hgather.trans happend, .cons hleads, .inr ?_⟩
          rcases hfront with rfl | hfront
          · exact hbegins
          · rwa [happend] at hfront
    | _ => exact ⟨[], (List.append_nil _).symm, .nil _, .inl rfl⟩

/-- An operator is its first character and those of some tokens after it, also when it is cut
back. -/
theorem operatorAt_leads (p : Printer) (frame : Frame) (c : Char) (s : Spacing) (q : Position)
    (rest : List Token) :
    ∃ front, (operatorAt p frame (.punct c s q :: rest)).toList = c :: front ∧ Leads front rest ∧
      (front = [] ∨ beginsOperator (c :: front) = true) := by
  obtain ⟨front, hgather, hleads, hfront⟩ :
      ∃ front, gather [] (.punct c s q :: rest) = c :: front ∧ Leads front rest ∧
        (front = [] ∨ beginsOperator (c :: front) = true) := by
    rw [gather]
    simp only [List.isEmpty_nil, Bool.not_true, Bool.false_and, Bool.false_eq_true, if_false,
      List.nil_append]
    split
    · exact ⟨[], rfl, .nil rest, .inl rfl⟩
    · exact gather_leads (List.cons_ne_nil c []) rest
  have hcut : (operatorAt p frame (.punct c s q :: rest)).toList = [c] ∨
      (operatorAt p frame (.punct c s q :: rest)).toList = c :: front := by
    rw [operatorAt, hgather]
    split <;> (rw [String.toList_ofList]; split)
    all_goals first | exact .inl rfl | exact .inr rfl
  exact hcut.elim (fun h => ⟨[], h, .nil rest, .inl rfl⟩) fun h => ⟨front, h, hleads, hfront⟩

theorem Flat.leading {lines : Bool} {cs : List Char} {ts : List Token} {ps : List Piece}
    (hleads : Leads cs ts) (h : Flat lines (ts.drop cs.length) ps) :
    Flat lines ts (cs.map .mark ++ ps) := by
  induction hleads with
  | nil => exact h
  | cons _ ih => exact .punct (ih h)

theorem mode_operator (p : Printer) (frame : Frame) (op : String) :
    (p.operator frame op).2.mode = frame.mode := by
  have hafter : ∀ style, (frame.afterOperator op style).mode = frame.mode := by
    intro style
    unfold Frame.afterOperator
    repeat' split
    all_goals rfl
  simp only [Printer.operator]
  repeat' split
  all_goals exact hafter _

/-- A group leaves the enclosing delimiter and the tokens after it as they are. -/
theorem writeTokens_group (p : Printer) (frame : Frame) (d : Delimiter) (body : List Token)
    (q r : Position) (rest : List Token) :
    writeTokens p frame {} (.group d body q r :: rest)
      = writeTokens (writeToken p frame {} rest (.group d body q r)).1 frame {} rest := by
  have hafter : (writeToken p frame {} rest (.group d body q r)).2 = (frame, {}) := by
    cases d with
    | brace =>
      simp only [writeToken, Bool.false_eq_true, if_false]
      split <;> rfl
    | _ => simp only [writeToken, Bool.false_eq_true, if_false]
  rw [writeTokens, if_neg (Nat.lt_irrefl 0)]
  simp only [hafter]

/-- The style of braces tells whether something is between them and where they are. -/
theorem braceStyle_facts (p : Printer) (frame : Frame) (body : List Token) :
    (braceStyle p frame body = .empty ↔ body = []) ∧
      (braceStyle p frame body = .block → frame.mode = .block) := by
  unfold braceStyle
  rw [← List.isEmpty_iff]
  split_ifs with hempty hpath hinline
  · exact ⟨⟨fun _ => hempty, fun _ => rfl⟩, nofun⟩
  · exact ⟨⟨nofun, fun h => absurd h hempty⟩, nofun⟩
  · exact ⟨⟨nofun, fun h => absurd h hempty⟩, nofun⟩
  · refine ⟨⟨nofun, fun h => absurd h hempty⟩, fun _ => ?_⟩
    cases hmode : frame.mode with
    | block => rfl
    | inline => simp [hmode] at hinline

/-- An attribute begins with its mark, and its contents stand in the brackets after it. -/
theorem attributeAt_eq_some {c : Char} {s : Spacing} {q : Position} {rest : List Token}
    {inner : Bool} {body : List Token}
    (h : attributeAt (.punct c s q :: rest) = some (inner, body)) :
    c = '#' ∧ ∃ r r' tail,
      (inner = true ∧ ∃ s' q', rest = .punct '!' s' q' :: .group .bracket body r r' :: tail) ∨
        (inner = false ∧ rest = .group .bracket body r r' :: tail) := by
  unfold attributeAt at h
  split at h
  · rename_i c' s₁ q₁ d s₂ q₂ b r r' tail heq
    obtain ⟨⟨rfl, rfl, rfl⟩, rfl⟩ : (c = c' ∧ s = s₁ ∧ q = q₁) ∧
        rest = .punct d s₂ q₂ :: .group .bracket b r r' :: tail := by simpa using heq
    split at h
    · rename_i hmarks
      obtain ⟨rfl, rfl⟩ : c = '#' ∧ d = '!' := by simpa using hmarks
      obtain ⟨rfl, rfl⟩ : true = inner ∧ b = body := by simpa using h
      exact ⟨rfl, r, r', tail, .inl ⟨rfl, s₂, q₂, rfl⟩⟩
    · cases h
  · rename_i c' s₁ q₁ b r r' tail heq
    obtain ⟨⟨rfl, rfl, rfl⟩, rfl⟩ : (c = c' ∧ s = s₁ ∧ q = q₁) ∧
        rest = .group .bracket b r r' :: tail := by simpa using heq
    split at h
    · rename_i hmark
      obtain ⟨rfl, rfl⟩ : false = inner ∧ b = body := by simpa using h
      exact ⟨hmark, r, r', tail, .inr ⟨rfl, rfl⟩⟩
    · cases h
  · cases h

/-- A line of documentation is its mark and the value of a string of one line, and its attribute has
nothing else in it. -/
theorem docLine_eq_some {inner : Bool} {body : List Token} {line : String}
    (h : docLine inner body = some line) :
    ∃ q₁ s₂ q₂ value q₃ text, body = [.ident false "doc" q₁, .punct '=' s₂ q₂, .literal value q₃] ∧
      Literal.stringValue? value.toList = some text ∧ isPlainLine inner text = true ∧
      line.toList = (Piece.comment inner text).chars := by
  unfold docLine at h
  split at h
  · rename_i name q₁ eq s₂ q₂ value q₃
    split at h
    · rename_i hname
      obtain ⟨rfl, rfl⟩ : name = "doc" ∧ eq = '=' := by simpa using hname
      split at h
      · rename_i text hvalue
        split at h
        · cases h
        · rename_i hplain
          obtain rfl := Option.some.inj h
          refine ⟨q₁, s₂, q₂, value, q₃, text, rfl, hvalue, ?_, ?_⟩
          · cases inner <;> simpa [isPlainLine] using hplain
          · cases inner <;> simp [Piece.chars]
      · cases h
    · cases h
  · cases h

theorem countTokens_drop_le (ts : List Token) (n : Nat) :
    countTokens (ts.drop n) ≤ countTokens ts := by
  induction ts generalizing n with
  | nil => exact Nat.le_of_eq (by rw [List.drop_nil])
  | cons t ts ih =>
    cases n with
    | zero => exact Nat.le_refl _
    | succ n =>
      rw [List.drop_succ_cons, countTokens]
      exact Nat.le_trans (ih n) (Nat.le_add_left _ _)

/-- The contents of an attribute are smaller than the row it begins. -/
theorem countTokens_of_attributeAt {c : Char} {s : Spacing} {q : Position} {rest : List Token}
    {inner : Bool} {body : List Token}
    (h : attributeAt (.punct c s q :: rest) = some (inner, body)) :
    countTokens body < countTokens (.punct c s q :: rest) := by
  obtain ⟨-, r, r', tail, ⟨-, s', q', rfl⟩ | ⟨-, rfl⟩⟩ := attributeAt_eq_some h <;>
    simp only [countTokens, Token.count] <;> omega

theorem visible_of_attributeAt {c : Char} {s : Spacing} {q : Position} {rest : List Token}
    {inner : Bool} {body : List Token}
    (h : attributeAt (.punct c s q :: rest) = some (inner, body))
    (hvisible : VisibleTokens (.punct c s q :: rest)) : VisibleTokens body := by
  obtain ⟨-, r, r', tail, ⟨-, s', q', rfl⟩ | ⟨-, rfl⟩⟩ := attributeAt_eq_some h
  · exact hvisible.2.2.1.2
  · exact hvisible.2.1.2

/-- However a row of tokens is laid out, pieces that stand for it are written, with lines of
documentation in a block only. -/
def Runs (R : Mode → Printer → Printer → List Piece → Prop) (ts : List Token) : Prop :=
  ∀ (p : Printer) (frame : Frame), ∃ ps, Flat (frame.mode = .block) ts ps ∧
    R frame.mode p (writeTokens p frame {} ts) ps

namespace Nests

variable {visible : Prop} {R : Mode → Printer → Printer → List Piece → Prop}
  (nests : Nests visible R)
include nests

theorem runs_ident {raw : Bool} {name : String} {q : Position} {rest : List Token}
    (h : Runs R rest) : Runs R (.ident raw name q :: rest) := by
  intro p frame
  obtain ⟨ps, hflat, hrun⟩ := h (p.word (Token.identText raw name)) frame
  exact ⟨_, .ident hflat, nests.trans (nests.word _ p _) hrun⟩

theorem runs_literal {text : String} {q : Position} {rest : List Token} (h : Runs R rest) :
    Runs R (.literal text q :: rest) := by
  intro p frame
  obtain ⟨ps, hflat, hrun⟩ := h (p.literal text) frame
  exact ⟨_, .literal hflat, nests.trans (nests.literal _ p _) hrun⟩

theorem runs_operator {c : Char} {s : Spacing} {q : Position} {rest : List Token}
    (hnone : attributeAt (.punct c s q :: rest) = none) (h : ∀ n, Runs R (rest.drop n)) :
    Runs R (.punct c s q :: rest) := by
  intro p frame
  let op := operatorAt p frame (.punct c s q :: rest)
  obtain ⟨front, hop, hleads, hfront⟩ := operatorAt_leads p frame c s q rest
  have hlength : op.length - 1 = front.length := by
    rw [← String.length_toList, hop, List.length_cons, Nat.add_sub_cancel]
  have hwrite : writeTokens p frame {} (.punct c s q :: rest)
      = writeTokens (p.operator frame op).1 (p.operator frame op).2 {}
          (rest.drop front.length) := by
    rw [writeTokens, if_neg (Nat.lt_irrefl 0), writeToken, hnone]
    dsimp only
    rw [writeTokens_skip, hlength]
  obtain ⟨ps, hflat, hrun⟩ := h front.length (p.operator frame op).1 (p.operator frame op).2
  rw [mode_operator] at hflat hrun
  refine ⟨_, .leading (.cons hleads) hflat, ?_⟩
  rw [hwrite]
  exact nests.trans (nests.operator p frame hop hfront) hrun

/-- A group between delimiters, from what is written for it alone. -/
theorem runs_delimited {d : Delimiter} {body rest : List Token} {q r : Position}
    (hd : d ≠ .invisible) (h : Runs R rest)
    (hgroup : ∀ (p : Printer) (frame : Frame), ∃ bs, Flat (frame.mode = .block) body bs ∧
      R frame.mode { p with declaration := false }
        (writeToken p frame {} rest (.group d body q r)).1 (.opening d :: (bs ++ [.closing d]))) :
    Runs R (.group d body q r :: rest) := by
  intro p frame
  obtain ⟨bs, hbody, hrun₁⟩ := hgroup p frame
  obtain ⟨ps, hflat, hrun⟩ := h (writeToken p frame {} rest (.group d body q r)).1 frame
  refine ⟨_, .group hd hbody hflat, ?_⟩
  rw [writeTokens_group]
  have hboth := nests.trans (nests.forget _ p) (nests.trans hrun₁ hrun)
  rwa [List.nil_append, List.cons_append, List.append_assoc, List.singleton_append] at hboth

theorem runs_brace {body rest : List Token} {q r : Position}
    (hvisible : visible → VisibleTokens body) (hbody : Runs R body) (h : Runs R rest) :
    Runs R (.group .brace body q r :: rest) := by
  have hbrace : Delimiter.brace ≠ .invisible := by decide
  refine nests.runs_delimited hbrace h fun p frame => ?_
  let p₀ : Printer := { p with declaration := false }
  obtain ⟨hempty, hblock⟩ := braceStyle_facts p₀ frame body
  have hglued : p₀.last.glues = true → (!p₀.last.glues) = false := fun h => by rw [h]; rfl
  simp only [writeToken, Bool.false_eq_true, if_false]
  cases hstyle : braceStyle p₀ frame body with
  | empty =>
    obtain rfl := hempty.mp hstyle
    exact ⟨[], .nil, nests.empty hglued frame rest.head?⟩
  | tight =>
    obtain ⟨bs, hflat, hrun⟩ := hbody (p₀.enter "\x7b" false) { mode := .inline }
    exact ⟨bs, hflat.allow _, nests.group _ hbrace (fun _ => rfl) hrun⟩
  | spaced =>
    let p₁ := p₀.enter "\x7b" (!p₀.last.glues)
    obtain ⟨bs, hflat, hrun⟩ := hbody { p₁ with out := .space :: p₁.out } { mode := .inline }
    have hsome : body ≠ [] := by
      intro hnil
      cases hstyle.symm.trans (hempty.mpr hnil)
    have hbs : visible → bs ≠ [] := fun hv => hflat.ne_nil (hvisible hv) hsome
    exact ⟨bs, hflat.allow _, nests.spaced _ hbs hglued hrun⟩
  | block =>
    obtain ⟨bs, hflat, hrun⟩ := hbody p₀.enterBlock { mode := .block }
    rw [hblock hstyle]
    exact ⟨bs, hflat, nests.block frame rest.head? hrun⟩

theorem runs_group {d : Delimiter} {body rest : List Token} {q r : Position}
    (hvisible : visible → (Token.group d body q r).Visible) (hbody : Runs R body)
    (h : Runs R rest) : Runs R (.group d body q r :: rest) := by
  cases d with
  | brace => exact nests.runs_brace (fun hv => (hvisible hv).2) hbody h
  | invisible =>
    intro p frame
    obtain ⟨bs, hflat, hrun⟩ := hbody { p with declaration := false } { mode := .inline }
    obtain ⟨ps, hflat', hrun'⟩ :=
      h (writeTokens { p with declaration := false } { mode := .inline } {} body) frame
    have hhidden : ¬ visible := fun hv => (hvisible hv).1 rfl
    refine ⟨_, .invisible (hflat.allow _) hflat', ?_⟩
    rw [writeTokens_group]
    have hgroup := nests.invisible frame.mode hhidden hrun
    exact nests.trans (nests.trans (nests.forget _ p) hgroup) hrun'
  | parenthesis =>
    refine nests.runs_delimited (by decide) h fun p frame => ?_
    obtain ⟨bs, hflat, hrun⟩ := hbody _ { mode := .inline }
    exact ⟨bs, hflat.allow _, nests.group (d := .parenthesis) _ (by decide)
      (fun h => by simp only [Printer.spaceBeforeParen, h, Bool.not_true, Bool.false_and]) hrun⟩
  | bracket =>
    refine nests.runs_delimited (by decide) h fun p frame => ?_
    obtain ⟨bs, hflat, hrun⟩ := hbody _ { mode := .inline }
    exact ⟨bs, hflat.allow _, nests.group (d := .bracket) _ (by decide)
      (fun h => by simp only [Printer.spaceBeforeBracket, h, Bool.not_true, Bool.false_and]) hrun⟩

/-- The brackets of an attribute, after its mark. -/
theorem runs_brackets {body rest : List Token} (hbody : Runs R body) (h : Runs R rest)
    (p : Printer) (frame : Frame) (r r' : Position) :
    ∃ ps, Flat (frame.mode = .block) (.group .bracket body r r' :: rest) ps ∧
      R frame.mode p
        (writeTokens p frame { brackets := true } (.group .bracket body r r' :: rest)) ps := by
  let p₁ := writeTokens (p.enter "[" false) { mode := .inline } {} body
  obtain ⟨bs, hflat, hrun⟩ := hbody (p.enter "[" false) { mode := .inline }
  obtain ⟨ps, hflat', hrun'⟩ := h ((p₁.leave "]" false).endAttribute frame) frame
  have hwrite : writeTokens p frame { brackets := true } (.group .bracket body r r' :: rest)
      = writeTokens ((p₁.leave "]" false).endAttribute frame) frame {} rest := by
    rw [writeTokens, if_neg (Nat.lt_irrefl 0), writeToken]
    rfl
  have hboth := nests.trans (nests.brackets frame hrun) hrun'
  rw [List.cons_append, List.append_assoc, List.singleton_append] at hboth
  exact ⟨_, .group (by decide) (hflat.allow _) hflat', by rwa [hwrite]⟩

/-- An attribute, as a line of documentation or with its mark and its brackets. -/
theorem runs_attribute {c : Char} {s : Spacing} {q : Position} {rest : List Token}
    {inner : Bool} {body : List Token}
    (hattribute : attributeAt (.punct c s q :: rest) = some (inner, body)) (hbody : Runs R body)
    (h : ∀ n, Runs R (rest.drop n)) : Runs R (.punct c s q :: rest) := by
  intro p frame
  have hwrite : writeTokens p frame {} (.punct c s q :: rest)
      = writeTokens (p.startAttribute frame inner body).1 frame
          (p.startAttribute frame inner body).2 rest := by
    rw [writeTokens, if_neg (Nat.lt_irrefl 0), writeToken, hattribute]
  obtain ⟨rfl, r, r', tail, hform⟩ := attributeAt_eq_some hattribute
  rw [hwrite]
  cases hline : (if frame.mode = .block && p.atLineStart then docLine inner body else none) with
  | none =>
    simp only [Printer.startAttribute, hline]
    rcases hform with ⟨rfl, s', q', rfl⟩ | ⟨rfl, rfl⟩
    · have hmark := nests.pound frame.mode p (show "#!".toList = ['#', '!'] from rfl) (.inr rfl)
      obtain ⟨ps, hflat, hrun⟩ := nests.runs_brackets hbody (h 2)
        { p.write "#!" (!p.last.glues) with last := .hash } frame r r'
      exact ⟨_, .punct (.punct hflat), nests.trans hmark hrun⟩
    · have hmark := nests.pound frame.mode p (show "#".toList = ['#'] from rfl) (.inl rfl)
      obtain ⟨ps, hflat, hrun⟩ := nests.runs_brackets hbody (h 1)
        { p.write "#" (!p.last.glues) with last := .hash } frame r r'
      exact ⟨_, .punct hflat, nests.trans hmark hrun⟩
  | some line =>
    obtain ⟨⟨hblock, hstart⟩, hdoc⟩ :
        (frame.mode = .block ∧ p.atLineStart = true) ∧ docLine inner body = some line := by
      split at hline
      · rename_i hboth
        simp only [Bool.and_eq_true, decide_eq_true_eq] at hboth
        exact ⟨hboth, hline⟩
      · cases hline
    obtain ⟨q₁, s₂, q₂, value, q₃, text, rfl, hvalue, hplain, htext⟩ := docLine_eq_some hdoc
    simp only [Printer.startAttribute, hline]
    rw [writeTokens_skip]
    have hcomment := nests.comment p hstart htext hplain
    rw [← hblock] at hcomment
    rcases hform with ⟨rfl, s', q', rfl⟩ | ⟨rfl, rfl⟩
    · obtain ⟨ps, hflat, hrun⟩ := h 2 _ frame
      exact ⟨_, .innerDoc (decide_eq_true hblock) hvalue hplain hflat, nests.trans hcomment hrun⟩
    · obtain ⟨ps, hflat, hrun⟩ := h 1 _ frame
      exact ⟨_, .outerDoc (decide_eq_true hblock) hvalue hplain hflat, nests.trans hcomment hrun⟩

/-- The induction is on the size of a row, since after an operator or an attribute it goes on with a
later tail. -/
theorem runs (ts : List Token) (hts : visible → VisibleTokens ts) : Runs R ts := by
  induction hn : countTokens ts using Nat.strongRecOn generalizing ts with
  | _ n ih =>
    subst hn
    cases ts with
    | nil => exact fun p frame => ⟨[], .nil, by rw [writeTokens]; exact nests.refl _ p⟩
    | cons t rest =>
      have hrest : ∀ n, Runs R (rest.drop n) := by
        intro n
        refine ih _ (Nat.lt_of_le_of_lt (countTokens_drop_le rest n) ?_) _
          (fun hv => (hts hv).2.drop n) rfl
        have hpos : 0 < t.count := by cases t <;> simp [Token.count]
        rw [countTokens]
        omega
      cases t with
      | ident raw name q => exact nests.runs_ident (hrest 0)
      | literal text q => exact nests.runs_literal (hrest 0)
      | punct c s q =>
        cases hattribute : attributeAt (.punct c s q :: rest) with
        | none => exact nests.runs_operator hattribute hrest
        | some found =>
          have hbody := ih _ (countTokens_of_attributeAt hattribute) found.2
            (fun hv => visible_of_attributeAt hattribute (hts hv)) rfl
          exact nests.runs_attribute hattribute hbody hrest
      | group d body q r =>
        have hbody : Runs R body := by
          refine ih _ ?_ body (fun hv => (hts hv).1.2) rfl
          simp only [countTokens, Token.count]
          omega
        exact nests.runs_group (fun hv => (hts hv).1) hbody (hrest 0)

end Nests

theorem Steps.runs {R : Printer → Printer → List Piece → Prop} (steps : Steps R)
    (ts : List Token) : Runs (fun _ => R) ts := steps.nests.runs ts False.elim

end Layout

end Observable
