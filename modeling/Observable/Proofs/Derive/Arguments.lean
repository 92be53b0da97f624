import Mathlib.Tactic.ByContra
import Observable.Derive.Check
import Observable.Proofs.Grammar.Outcome
import Observable.Proofs.Grammar.Shape
/-! The arguments in the group of a marker: what can be wrong with one, and that the check says what
is wrong with the first that cannot be used. -/
namespace Observable.Derive

open Grammar

/-- What follows the colons that a path may begin with. -/
def afterColons : List Token → List Token
  | .punct ':' .joint _ :: .punct ':' _ _ :: ts => ts
  | ts => ts

/-- More words of a path, with colons before each; no colons follow the last. -/
inductive MoreWords : List Token → List String → List Token → Prop
  | nil {ts} (h : Look.op "::" ts = false) : MoreWords ts [] ts
  | cons {p sp q raw name r ts words rest} (h : MoreWords ts words rest) :
      MoreWords (.punct ':' .joint p :: .punct ':' sp q :: .ident raw name r :: ts)
        (Token.identText raw name :: words) rest

/-- More words of a path, and colons behind them that no word follows. -/
inductive BreaksOff : List Token → List Token → Prop
  | here {p sp q rest} (h : Look.anyWord rest = false) :
      BreaksOff (.punct ':' .joint p :: .punct ':' sp q :: rest) rest
  | later {p sp q raw name r ts rest} (h : BreaksOff ts rest) :
      BreaksOff (.punct ':' .joint p :: .punct ':' sp q :: .ident raw name r :: ts) rest

/-- What is said of tokens that no path begins with. -/
def noPathComplaint (ts : List Token) : Complaint :=
  if atEnd ts then .noNestedAttribute
  else if Look.literal ts then .literalInAttribute
  else .tokenInAttribute

/-- Tokens begin with an argument that cannot be used, and what is wrong with it. -/
inductive Offends (close : Position) : List Token → SyntaxError → Prop
  | noPath {ts} (hne : ts ≠ []) (h : Look.anyWord (afterColons ts) = false) :
      Offends close ts (refusedAt close (afterColons ts) (noPathComplaint (afterColons ts)))
  | brokenPath {ts raw name q more rest} (h : afterColons ts = .ident raw name q :: more)
      (hmore : BreaksOff more rest) : Offends close ts (refusedAt close rest .noWord)
  | unknown {ts raw name q more words rest} (h : afterColons ts = .ident raw name q :: more)
      (hmore : MoreWords more words rest)
      (hother : Look.op "::" ts = true ∨ Token.identText raw name ≠ Marker.nameArgument
        ∨ words ≠ []) :
      Offends close ts { place := q, complaint := .custom "unknown ReactiveProperty argument" }
  | noEquals {q rest} (hcolons : Look.op "::" rest = false) (h : Look.op "=" rest = false) :
      Offends close (.ident false Marker.nameArgument q :: rest)
        { place := placeAhead close rest, complaint := .expected [.spelled "="] }
  | noString {q sp p rest} (h : Look.string rest = false) :
      Offends close (.ident false Marker.nameArgument q :: .punct '=' sp p :: rest)
        (refusedAt close rest (.expected [.stringLiteral]))
  | empty {q sp p text r rest} (h : Literal.stringValue? text.toList = some []) :
      Offends close
        (.ident false Marker.nameArgument q :: .punct '=' sp p :: .literal text r :: rest)
        { place := q, complaint := .custom "property_name cannot be empty" }

/-- Arguments of which one cannot be used, and what is wrong with the first such. -/
inductive Misgiven (close : Position) : List Token → SyntaxError → Prop
  | here {ts e} (h : Offends close ts e) : Misgiven close ts e
  | noComma {q sp p text r name t rest} (h : Literal.stringValue? text.toList = some name)
      (hname : name ≠ []) (hcomma : Look.op "," (t :: rest) = false) :
      Misgiven close (.ident false Marker.nameArgument q :: .punct '=' sp p :: .literal text r
        :: t :: rest) { place := t.place, complaint := .expected [.spelled ","] }
  | later {q sp p text r name sp' p' ts e} (h : Literal.stringValue? text.toList = some name)
      (hname : name ≠ []) (hrest : Misgiven close ts e) :
      Misgiven close (.ident false Marker.nameArgument q :: .punct '=' sp p :: .literal text r
        :: .punct ',' sp' p' :: ts) e

/-- Tokens that give the name of a property any number of times, with commas between them. -/
inductive Gives : List Token → List (List Char) → Prop
  | nil : Gives [] []
  | last {q s q₁ text q₂ name} (h : Literal.stringValue? text.toList = some name) :
      Gives [.ident false Marker.nameArgument q, .punct '=' s q₁, .literal text q₂] [name]
  | more {q s q₁ text q₂ s' q₃ name ts names} (h : Literal.stringValue? text.toList = some name)
      (hrest : Gives ts names) :
      Gives (.ident false Marker.nameArgument q :: .punct '=' s q₁ :: .literal text q₂
        :: .punct ',' s' q₃ :: ts) (name :: names)

/-- Arguments that can all be used. -/
def IsGiven (ts : List Token) : Prop := ∃ names, Gives ts names ∧ [] ∉ names

section

variable {s : Input} {ts rest : List Token} {close : Position} {e : SyntaxError}
  {bad : SyntaxError → Prop}

/-- An operator of one character that stands ahead. -/
theorem exists_of_op_mark {c : Char} {text : String} (htext : text.toList = [c])
    (h : Look.op text ts = true) : ∃ sp q rest, ts = .punct c sp q :: rest := by
  rw [Look.op, htext] at h
  rcases ts with _ | ⟨_ | ⟨d, sp, q⟩ | _ | _, rest⟩ <;> simp [Look.spells] at h
  exact ⟨sp, q, rest, by rw [h]⟩

theorem exists_of_op_colons (h : Look.op "::" ts = true) :
    ∃ p sp q rest, ts = .punct ':' .joint p :: .punct ':' sp q :: rest := by
  have htext : "::".toList = [':', ':'] := rfl
  rw [Look.op, htext] at h
  rcases ts with _ | ⟨_ | ⟨c, sp, p⟩ | _ | _, _ | ⟨_ | ⟨d, sp', q⟩ | _ | _, rest⟩⟩ <;>
    simp [Look.spells] at h
  obtain ⟨⟨rfl, rfl⟩, rfl⟩ := h
  exact ⟨p, sp', q, rest, rfl⟩

theorem op_colons {p q : Position} {sp : Spacing} :
    Look.op "::" (.punct ':' .joint p :: .punct ':' sp q :: rest) = true := by
  have htext : "::".toList = [':', ':'] := rfl
  simp [Look.op, htext, Look.spells]

theorem afterColons_eq_self (h : Look.op "::" ts = false) : afterColons ts = ts := by
  unfold afterColons
  split
  · rw [op_colons] at h
    cases h
  · rfl

/-- Parts of a path: words without arguments, with colons before each. -/
inductive Tail : List Tree → List String → Prop
  | nil : Tail [] []
  | cons {colons raw name q parts words} (h : Tail parts words) :
      Tail (.node .sequence colons :: .node .segment [.token (.ident raw name q), .absent] :: parts)
        (Token.identText raw name :: words)

theorem Tail.pathWords {parts : List Tree} {words : List String} (h : Tail parts words) :
    (Grammar.Tree.node .path parts).pathWords = words := by
  induction h with
  | nil => rfl
  | cons _ ih => simpa [Tree.pathWords, Tree.pathIdents] using ih

theorem Tail.pathIsPlain {parts : List Tree} {words : List String} (h : Tail parts words) :
    (Grammar.Tree.node .path parts).pathIsPlain = true := by
  induction h with
  | nil => rfl
  | cons _ ih => simpa [Tree.pathIsPlain, Tree.absent, Tree.isPresent] using ih

/-- What is wrong with a path whose colons no word follows. -/
def PathBroken (close : Position) (ts : List Token) (e : SyntaxError) : Prop :=
  ∃ rest, BreaksOff ts rest ∧ e = refusedAt close rest .noWord

theorem ends_nextWord (found : List Tree) :
    Ends (nextWord found) s (PathBroken s.close s.rest) fun r s' =>
      (Look.op "::" s.rest = false ∧ r = (found, false) ∧ s' = s) ∨
        ∃ p sp q raw name place colons,
          s.rest = .punct ':' .joint p :: .punct ':' sp q :: .ident raw name place :: s'.rest ∧
          s' = { s with rest := s'.rest } ∧
          r = (.node .segment [.token (.ident raw name place), .absent] :: .node .sequence colons
            :: found, true) := by
  refine .branch (fun hcolons => ?_) (fun hcolons => .pure (.inl ⟨hcolons, rfl, rfl⟩))
  obtain ⟨p, sp, q, rest, hs⟩ := exists_of_op_colons hcolons
  have hlength : "::".length = 2 := rfl
  refine .bind (m := fun t s' => t = _ ∧ s' = { s with rest := rest })
    (ends_op (fun _ => ⟨rfl, by rw [hs, hlength]; rfl⟩) fun h => ?_) ?_
  · rw [hcolons] at h
    cases h
  · rintro _ _ ⟨rfl, rfl⟩
    refine .bind (m := fun t s' => ∃ raw name place, t = .token (.ident raw name place) ∧
      rest = .ident raw name place :: s'.rest ∧ s' = { s with rest := s'.rest })
      (ends_oneToken ?_ fun h => ⟨rest, hs ▸ .here ?_, rfl⟩) ?_
    · intro u left hrest hlook
      cases u with
      | ident raw name place => exact ⟨raw, name, place, rfl, hrest, rfl⟩
      | _ => cases hlook
    · rcases h with h | h
      · exact h
      · change rest = [] at h
        rw [h]
        rfl
    · rintro _ s' ⟨raw, name, place, rfl, hrest, hs'⟩
      exact .pure (.inr ⟨p, sp, q, raw, name, place, _, by rw [hs, hrest], hs', rfl⟩)

/-- The words behind the first one are read to the last, or up to colons that no word follows. -/
theorem ends_moreWords {n : Nat} (hn : s.rest.length < n) (found : List Tree) :
    Ends (iterateUpTo nextWord n found) s (PathBroken s.close s.rest) fun more s' =>
      ∃ front words, more = front ++ found ∧ Tail front.reverse words ∧
        MoreWords s.rest words s'.rest ∧ s' = { s with rest := s'.rest } := by
  -- the bound exceeds the tokens that are left, so that the words are read to the last
  induction n generalizing found s with
  | zero => omega
  | succ n ih =>
    refine (ends_nextWord found).bind fun r s₁ hstep => ?_
    rcases hstep with ⟨hcolons, rfl, rfl⟩ | ⟨p, sp, q, raw, name, place, colons, hs, hs₁, rfl⟩
    · exact .pure ⟨[], [], rfl, .nil, .nil hcolons, rfl⟩
    · have hlength : s₁.rest.length < n := by
        rw [hs] at hn
        simp only [List.length_cons] at hn
        omega
      refine (ih hlength _).mono ?_ ?_
      · rintro e ⟨rest, hbreaks, rfl⟩
        exact ⟨rest, hs ▸ hbreaks.later, by rw [hs₁]⟩
      · rintro _ s₂ ⟨front, words, rfl, htail, hwords, hs₂⟩
        refine ⟨front ++ [.node .segment [.token (.ident raw name place), .absent],
          .node .sequence colons], Token.identText raw name :: words, by simp, ?_, hs ▸ hwords.cons,
          by rw [hs₂, hs₁]⟩
        simpa using htail.cons

/-- What a path begins with is read. -/
theorem ends_leadingColons : Ends (op? "::") s bad fun leading s' =>
    leading.IsNode .sequence ∧ leading.isPresent = Look.op "::" s.rest ∧
      s' = { s with rest := afterColons s.rest } := by
  refine .branch (fun hcolons => ?_) fun hcolons => .pure ⟨⟨[], rfl⟩, hcolons.symm, ?_⟩
  · obtain ⟨p, sp, q, rest, hs⟩ := exists_of_op_colons hcolons
    have hlength : "::".length = 2 := rfl
    refine ends_op (fun _ => ⟨⟨_, rfl⟩, ?_, ?_⟩) fun h => ?_
    · rw [hcolons, hs, hlength]
      rfl
    · rw [hs, hlength]
      rfl
    · rw [hcolons] at h
      cases h
  · rw [afterColons_eq_self hcolons]

theorem Tail.pathIs_iff {parts : List Tree} {words : List String} (h : Tail parts words)
    (colons : List Tree) (raw : Bool) (name : String) (q : Position) (word : String) :
    (Grammar.Tree.node .path (.node .sequence colons
        :: .node .segment [.token (.ident raw name q), .absent] :: parts)).pathIs word = true ↔
      (Grammar.Tree.node .sequence colons).isPresent = false ∧ Token.identText raw name = word ∧
        words = [] := by
  have hwords : (Grammar.Tree.node .path (.node .sequence colons
      :: .node .segment [.token (.ident raw name q), .absent] :: parts)).pathWords
        = Token.identText raw name :: words := by
    simpa [Tree.pathWords, Tree.pathIdents] using h.pathWords
  have hplain : (Grammar.Tree.node .path (.node .sequence colons
      :: .node .segment [.token (.ident raw name q), .absent] :: parts)).pathIsPlain = true := by
    simpa [Tree.pathIsPlain, Tree.absent, Tree.isPresent] using h.pathIsPlain
  rw [Tree.pathIs, hwords, hplain]
  simp [Tree.pathIsGlobal]

/-- Where no path begins, it is said why. -/
theorem ends_noPath {α : Type} {good : α → Input → Prop}
    (h : bad (refusedAt s.close s.rest (noPathComplaint s.rest))) :
    Ends (do
      if ← looking atEnd then refuse .noNestedAttribute
      else if ← looking Look.literal then refuse .literalInAttribute
      else refuse .tokenInAttribute) s bad good := by
  unfold noPathComplaint at h
  refine .branch (fun hend => ends_refuse ?_) fun hend => .branch (fun hliteral => ends_refuse ?_)
    fun hliteral => ends_refuse ?_
  · rwa [if_pos hend] at h
  · rwa [if_neg (Bool.eq_false_iff.mp hend), if_pos hliteral] at h
  · rwa [if_neg (Bool.eq_false_iff.mp hend), if_neg (Bool.eq_false_iff.mp hliteral)] at h

/-- A word that stands ahead is read. -/
theorem ends_anyWord (h : Look.anyWord s.rest = true) : Ends anyWord s bad fun t s' =>
    ∃ raw name q, t = .token (.ident raw name q) ∧ s.rest = .ident raw name q :: s'.rest ∧
      s' = { s with rest := s'.rest } := by
  refine ends_oneToken ?_ ?_
  · intro u rest hs hlook
    cases u with
    | ident raw name q => exact ⟨raw, name, q, rfl, hs, rfl⟩
    | _ => cases hlook
  · rintro (hlook | hnil)
    · rw [h] at hlook
      cases hlook
    · rw [hnil] at h
      cases h

/-- A path is read to its last word, or what stands ahead offends. -/
theorem ends_argumentPath (hne : s.rest ≠ []) :
    Ends argumentPath s (Offends s.close s.rest) fun path s' =>
      ∃ raw name q more words, afterColons s.rest = .ident raw name q :: more ∧
        MoreWords more words s'.rest ∧ s' = { s with rest := s'.rest } ∧ path.pathPlace = q ∧
        (path.pathIs Marker.nameArgument = true ↔
          Look.op "::" s.rest = false ∧ Token.identText raw name = Marker.nameArgument ∧
            words = []) := by
  refine ends_leadingColons.bind ?_
  rintro _ s₁ ⟨⟨colons, rfl⟩, hpresent, hs₁⟩
  have hclose : s₁.close = s.close := by rw [hs₁]
  have hrest : s₁.rest = afterColons s.rest := by rw [hs₁]
  refine .branch (fun hword => ?_) fun hword => ends_noPath ?_
  · refine (ends_anyWord hword).bind ?_
    rintro _ s₂ ⟨raw, name, q, rfl, hs, hs₂⟩
    have hahead : afterColons s.rest = .ident raw name q :: s₂.rest := hrest ▸ hs
    have hclose₂ : s₂.close = s.close := by rw [hs₂, hclose]
    refine .bind ((ends_moreWords (Nat.lt_succ_self _) []).mono ?_ fun _ _ h => h) ?_
    · rintro e ⟨rest, hbreaks, rfl⟩
      exact hclose₂ ▸ .brokenPath hahead hbreaks
    · rintro _ s₃ ⟨front, words, rfl, htail, hwords, hs₃⟩
      refine .pure ⟨raw, name, q, s₂.rest, words, hahead, hwords, by rw [hs₃, hs₂, hs₁], rfl, ?_⟩
      rw [List.append_nil, htail.pathIs_iff, hpresent]
  · rw [hclose, hrest]
    exact .noPath hne (hrest ▸ hword)

/-- An operator of one character that stands ahead is read. -/
theorem ends_mark {c : Char} {mark : String} (hmark : mark.toList = [c])
    (hbad : Look.op mark s.rest = false →
      bad { place := placeAhead s.close s.rest, complaint := .expected [.spelled mark] }) :
    Ends (op mark) s bad fun _ s' =>
      ∃ sp p, s.rest = .punct c sp p :: s'.rest ∧ s' = { s with rest := s'.rest } := by
  refine ends_op (fun hlook => ?_) hbad
  obtain ⟨sp, p, rest, hs⟩ := exists_of_op_mark hmark hlook
  have hlength : mark.length = 1 := by rw [← String.length_toList, hmark]; rfl
  exact ⟨sp, p, by rw [hs, hlength]; rfl, rfl⟩

theorem form_eq_string_of_sign {digits value : List Char} :
    Literal.form ('-' :: digits) ≠ .string value := by
  rw [Literal.form, Literal.numberForm]
  split <;> exact fun h => by cases h

/-- A string stands ahead in a literal, and not in a word or behind a sign. -/
theorem string_ahead {u : Token} {rest : List Token} (h : Look.string (u :: rest) = true) :
    ∃ text q name, u = .literal text q ∧ Literal.form text.toList = .string name := by
  unfold Look.string at h
  split at h
  · rename_i value hform
    obtain ⟨text, htext, hvalue⟩ := Option.map_eq_some_iff.mp hform
    cases u with
    | literal text' q =>
      cases htext
      exact ⟨text, q, value, rfl, hvalue⟩
    | ident raw name q =>
      cases raw with
      | true => cases htext
      | false =>
        simp only [Look.literalText?, Option.ite_none_right_eq_some, Option.some.injEq,
          Bool.or_eq_true, decide_eq_true_eq] at htext
        have htrue : Literal.form "true".toList = .other := rfl
        have hfalse : Literal.form "false".toList = .other := rfl
        obtain ⟨rfl | rfl, rfl⟩ := htext
        · rw [htrue] at hvalue
          cases hvalue
        · rw [hfalse] at hvalue
          cases hvalue
    | punct c sp q =>
      unfold Look.literalText? at htext
      split at htext
      · rename_i heq
        cases heq
      · rename_i heq
        cases heq
      · rename_i number _ _ heq
        cases heq
        have hsign : ∀ {signed}, some ("-" ++ number) = some signed →
            Literal.form signed.toList ≠ .string value := by
          rintro _ ⟨rfl⟩
          rw [String.toList_append]
          exact form_eq_string_of_sign
        split at htext
        · exact absurd hvalue (hsign htext)
        · exact absurd hvalue (hsign htext)
        · cases htext
      · cases htext
    | group => cases htext
  · cases h

/-- A string is read from a literal that is one. -/
theorem ends_string (hbad : Look.string s.rest = false →
      bad (refusedAt s.close s.rest (.expected [.stringLiteral]))) :
    Ends string s bad fun t s' => ∃ text r, s.rest = .literal text r :: s'.rest ∧
      s' = { s with rest := s'.rest } ∧ Literal.stringValue? text.toList = some t.stringValue := by
  refine ends_oneToken (fun u rest hs hlook => ?_) fun h => hbad ?_
  · obtain ⟨text, r, name, rfl, hform⟩ := string_ahead hlook
    refine ⟨text, r, hs, rfl, ?_⟩
    simp [Literal.stringValue?, Tree.stringValue, Tree.tokens, Look.literalForm?, Look.literalText?,
      hform]
  · rcases h with h | h
    · exact h
    · rw [h]
      rfl

/-- Between two states an argument that can be used has been read. -/
def TakesArgument (s s' : Input) : Prop :=
  ∃ q sp p text r name, s.rest = .ident false Marker.nameArgument q :: .punct '=' sp p
    :: .literal text r :: s'.rest ∧ s' = { s with rest := s'.rest } ∧
    Literal.stringValue? text.toList = some name ∧ name ≠ []

/-- Behind the name of the argument its value is read, or the argument offends. -/
theorem ends_argument {path : Tree} {q : Position} {more : List Token}
    (hpath : path.pathIs Marker.nameArgument = true) (hplace : path.pathPlace = q)
    (hmore : s.rest = more) (hcolons : Look.op "::" more = false) :
    Ends (argument path) s
      (Offends s.close (.ident false Marker.nameArgument q :: more)) fun _ s' =>
      ∃ sp p text r name, more = .punct '=' sp p :: .literal text r :: s'.rest ∧
        s' = { s with rest := s'.rest } ∧ Literal.stringValue? text.toList = some name ∧
        name ≠ [] := by
  subst hmore
  refine .ite (fun _ => ?_) fun h => absurd hpath h
  refine (ends_mark (c := '=') rfl fun hlook => .noEquals hcolons hlook).bind ?_
  rintro _ s₁ ⟨sp, p, hs, hs₁⟩
  have hclose : s₁.close = s.close := by rw [hs₁]
  refine (ends_string fun hlook => hs ▸ hclose ▸ .noString hlook).bind ?_
  rintro value s₂ ⟨text, r, hs', hs₂, hvalue⟩
  refine .ite (fun hempty => ?_) fun hempty => .pure ?_
  · rw [List.isEmpty_iff.mp hempty] at hvalue
    have hoffends : Offends s.close (.ident false Marker.nameArgument q :: s.rest)
        { place := q, complaint := .custom "property_name cannot be empty" } := by
      rw [hs, hs']
      exact .empty hvalue
    rw [← hplace] at hoffends ⊢
    exact hoffends
  · exact ⟨sp, p, text, r, value.stringValue, by rw [hs, hs'], by rw [hs₂, hs₁], hvalue,
      fun hnil => hempty (List.isEmpty_iff.mpr hnil)⟩

theorem identText_eq_nameArgument {raw : Bool} {name : String}
    (h : Token.identText raw name = Marker.nameArgument) :
    raw = false ∧ name = Marker.nameArgument := by
  cases raw with
  | false => exact ⟨rfl, h⟩
  | true =>
    have hfront := congrArg (fun t => t.toList.head?) h
    simp [Token.identText, Marker.nameArgument] at hfront

/-- An argument is read, or it offends. -/
theorem ends_entry (hne : s.rest ≠ []) :
    Ends (do argument (← argumentPath)) s (Offends s.close s.rest)
      fun _ s' => TakesArgument s s' := by
  refine (ends_argumentPath hne).bind ?_
  rintro path s₁ ⟨raw, name, q, more, words, hahead, hwords, hs₁, hplace, hpath⟩
  have hclose : s₁.close = s.close := by rw [hs₁]
  cases hname : path.pathIs Marker.nameArgument with
  | true =>
    -- the path is this one word: it was read as far as words go, and no colons follow
    obtain ⟨hcolons, hword, rfl⟩ := hpath.mp hname
    obtain ⟨rfl, rfl⟩ := identText_eq_nameArgument hword
    rw [afterColons_eq_self hcolons] at hahead
    cases hwords with
    | nil hmore =>
      rw [hahead, ← hclose]
      refine (ends_argument hname hplace rfl hmore).mono (fun _ h => h) ?_
      rintro _ s₂ ⟨sp, p, text, r, value, hs, hs₂, hvalue, hne⟩
      exact ⟨q, sp, p, text, r, value, by rw [hahead, hs], by rw [hs₂, hs₁], hvalue, hne⟩
  | false =>
    have hother : Look.op "::" s.rest = true ∨ Token.identText raw name ≠ Marker.nameArgument ∨
        words ≠ [] := by
      by_contra hall
      simp only [not_or, Bool.not_eq_true, not_not] at hall
      rw [hpath.mpr hall] at hname
      cases hname
    refine .ite (fun h => ?_) fun _ => ?_
    · rw [hname] at h
      cases h
    · have hoffends : Offends s.close s.rest _ := .unknown hahead hwords hother
      rw [← hplace] at hoffends
      exact hoffends

theorem isGiven_nil : IsGiven [] := ⟨[], .nil, by simp⟩

theorem isGiven_last {q p r : Position} {sp : Spacing} {text : String} {name : List Char}
    (h : Literal.stringValue? text.toList = some name) (hname : name ≠ []) :
    IsGiven [.ident false Marker.nameArgument q, .punct '=' sp p, .literal text r] :=
  ⟨[name], .last h, by simpa using hname.symm⟩

theorem IsGiven.more {q p r p' : Position} {sp sp' : Spacing} {text : String} {name : List Char}
    (h : IsGiven ts) (hvalue : Literal.stringValue? text.toList = some name) (hname : name ≠ []) :
    IsGiven (.ident false Marker.nameArgument q :: .punct '=' sp p :: .literal text r
      :: .punct ',' sp' p' :: ts) := by
  obtain ⟨names, hnames, hempty⟩ := h
  exact ⟨name :: names, .more hvalue hnames, by simpa [hname.symm] using hempty⟩

/-- One argument and the comma behind it are read, or nothing is left to read, or what is wrong is
said. -/
theorem ends_argumentStep (found : List (Tree × Tree)) :
    Ends (do
        if ← looking atEnd then return (found, false)
        let x ← (do argument (← argumentPath))
        if ← looking (fun ts => !atEnd ts) then
          let c ← op ","
          return ((x, c) :: found, true)
        else return ((x, .absent) :: found, false)) s (Misgiven s.close s.rest)
      fun r s' => (r.2 = false ∧ IsGiven s.rest ∧ s' = { s with rest := [] }) ∨
        r.2 = true ∧ ∃ q sp p text r name sp' p', s.rest = .ident false Marker.nameArgument q
          :: .punct '=' sp p :: .literal text r :: .punct ',' sp' p' :: s'.rest ∧
          s' = { s with rest := s'.rest } ∧ Literal.stringValue? text.toList = some name ∧
          name ≠ [] := by
  refine .branch (fun hend => .pure (.inl ⟨rfl, ?_⟩)) fun hend => ?_
  · have hnil : s.rest = [] := List.isEmpty_iff.mp hend
    rw [hnil]
    exact ⟨isGiven_nil, by rw [← hnil]⟩
  · have hne : s.rest ≠ [] := fun hnil => by rw [hnil] at hend; cases hend
    refine ((ends_entry hne).mono (fun _ => .here) fun _ _ h => h).bind ?_
    rintro x s₁ ⟨q, sp, p, text, r, name, hs, hs₁, hvalue, hname⟩
    refine .branch (fun hmore => ?_) fun hmore => .pure (.inl ⟨rfl, ?_⟩)
    · refine (ends_mark (c := ',') rfl fun hcomma => ?_).bind ?_
      · cases hrest : s₁.rest with
        | nil =>
          rw [hrest] at hmore
          cases hmore
        | cons t rest =>
          rw [hs, hrest]
          exact .noComma hvalue hname (hrest ▸ hcomma)
      · rintro comma s₂ ⟨sp', p', hs', hs₂⟩
        exact .pure (.inr ⟨rfl, q, sp, p, text, r, name, sp', p', by rw [hs, hs'], by rw [hs₂, hs₁],
          hvalue, hname⟩)
    · have hnil : s₁.rest = [] := List.isEmpty_iff.mp (by simpa [atEnd] using hmore)
      rw [hs, hnil]
      exact ⟨isGiven_last hvalue hname, by rw [hs₁, hnil]⟩

/-- Arguments that can all be used are read to the end; else what is wrong with the first other one
is said. -/
theorem ends_arguments {n : Nat} (hn : s.rest.length < n) (found : List (Tree × Tree)) :
    Ends (iterateUpTo (fun found => do
        if ← looking atEnd then return (found, false)
        let x ← (do argument (← argumentPath))
        if ← looking (fun ts => !atEnd ts) then
          let c ← op ","
          return ((x, c) :: found, true)
        else return ((x, .absent) :: found, false)) n found) s (Misgiven s.close s.rest)
      fun _ s' => IsGiven s.rest ∧ s' = { s with rest := [] } := by
  induction n generalizing found s with
  | zero => omega
  | succ n ih =>
    refine (ends_argumentStep found).bind ?_
    rintro ⟨found', again⟩ s₁
      (⟨rfl, hgiven, hs₁⟩ | ⟨rfl, q, sp, p, text, r, name, sp', p', hs, hs₁, hvalue, hname⟩)
    · exact .pure ⟨hgiven, hs₁⟩
    · have hlength : s₁.rest.length < n := by
        rw [hs] at hn
        simp only [List.length_cons] at hn
        omega
      refine (ih hlength found').mono ?_ ?_
      · intro e hmisgiven
        have hclose : s₁.close = s.close := by rw [hs₁]
        rw [hs]
        exact .later hvalue hname (hclose ▸ hmisgiven)
      · rintro _ s₂ ⟨hgiven, hs₂⟩
        rw [hs]
        exact ⟨hgiven.more hvalue hname, by rw [hs₂, hs₁]⟩

theorem ends_nestedArguments : Ends (nestedArguments argument) s (Misgiven s.close s.rest)
    fun _ s' => IsGiven s.rest ∧ s' = { s with rest := [] } := by
  refine .branch (fun hend => ?_) fun _ => ?_
  · have hnil : s.rest = [] := List.isEmpty_iff.mp hend
    exact .pure ⟨hnil ▸ isGiven_nil, by rw [← hnil]⟩
  · refine Ends.bind (m := fun _ s' => IsGiven s.rest ∧ s' = { s with rest := [] }) ?_
      fun _ _ h => .pure h
    refine Ends.bind (m := fun _ s' => IsGiven s.rest ∧ s' = { s with rest := [] }) ?_
      fun _ _ h => .pure h
    exact ends_arguments (Nat.lt_succ_self _) []

/-- What is in the group of a marker can all be used, or it is said what is wrong with the first
argument that cannot. -/
theorem readArguments_cases (body : List Token) (close : Position) :
    (IsGiven body ∧ ∃ found, (readUpTo body close fun _ => nestedArguments argument) = .ok found) ∨
      ∃ e, Misgiven close body e ∧
        (readUpTo body close fun _ => nestedArguments argument) = .error e := by
  have hends := ends_nestedArguments (s := { rest := body, close, delimiter := .invisible })
  unfold Ends at hends
  unfold readUpTo
  cases hread : nestedArguments argument { rest := body, close, delimiter := .invisible } with
  | ok r =>
    rw [hread] at hends
    obtain ⟨hgiven, hs'⟩ := hends
    exact .inl ⟨hgiven, r.1, by simp [hread, hs', Input.settled]⟩
  | error e =>
    rw [hread] at hends
    exact .inr ⟨e, hends, by simp [hread]⟩

theorem MoreWords.eq_nil {words : List String} (h : MoreWords ts words rest)
    (hcolons : Look.op "::" ts = false) : words = [] ∧ rest = ts := by
  cases h with
  | nil => exact ⟨rfl, rfl⟩
  | cons =>
    rw [op_colons] at hcolons
    cases hcolons

theorem BreaksOff.op_eq_true (h : BreaksOff ts rest) : Look.op "::" ts = true := by
  cases h <;> exact op_colons

theorem MoreWords.unique {words words' : List String} {rest' : List Token}
    (h : MoreWords ts words rest) (h' : MoreWords ts words' rest') :
    words = words' ∧ rest = rest' := by
  induction h generalizing words' with
  | nil hcolons =>
    obtain ⟨rfl, rfl⟩ := h'.eq_nil hcolons
    exact ⟨rfl, rfl⟩
  | cons _ ih =>
    cases h' with
    | nil hcolons =>
      rw [op_colons] at hcolons
      cases hcolons
    | cons h' =>
      obtain ⟨rfl, rfl⟩ := ih h'
      exact ⟨rfl, rfl⟩

theorem BreaksOff.unique {rest' : List Token} (h : BreaksOff ts rest) (h' : BreaksOff ts rest') :
    rest = rest' := by
  induction h with
  | here hword =>
    cases h' with
    | here => rfl
    | later => cases hword
  | later _ ih =>
    cases h' with
    | here hword => cases hword
    | later h' => exact ih h'

theorem MoreWords.not_breaksOff {words : List String} {rest' : List Token}
    (h : MoreWords ts words rest) :    ¬ BreaksOff ts rest' := by
  induction h with
  | nil hcolons =>
    intro h'
    rw [h'.op_eq_true] at hcolons
    cases hcolons
  | cons _ ih =>
    rintro (hword | h')
    · cases hword
    · exact ih h'

/-- What can be wrong with an argument at the front that has the right name. -/
theorem Offends.named {q : Position}
    (h : Offends close (.ident false Marker.nameArgument q :: rest) e)
    (hcolons : Look.op "::" rest = false) :
    (Look.op "=" rest = false ∧
      e = { place := placeAhead close rest, complaint := .expected [.spelled "="] }) ∨
    ∃ sp p more, rest = .punct '=' sp p :: more ∧
      ((Look.string more = false ∧ e = refusedAt close more (.expected [.stringLiteral])) ∨
        ∃ text r more', more = .literal text r :: more' ∧
          Literal.stringValue? text.toList = some [] ∧
          e = { place := q, complaint := .custom "property_name cannot be empty" }) := by
  cases h with
  | noPath _ hword => cases hword
  | brokenPath hmore hbreaks =>
    cases hmore
    rw [hbreaks.op_eq_true] at hcolons
    cases hcolons
  | unknown hmore hwords hother =>
    cases hmore
    obtain ⟨rfl, -⟩ := hwords.eq_nil hcolons
    rcases hother with h | h | h
    · cases h
    · exact absurd rfl h
    · exact absurd rfl h
  | noEquals _ hequals => exact .inl ⟨hequals, rfl⟩
  | noString hstring => exact .inr ⟨_, _, _, rfl, .inl ⟨hstring, rfl⟩⟩
  | empty hempty => exact .inr ⟨_, _, _, rfl, .inr ⟨_, _, _, rfl, hempty, rfl⟩⟩

theorem form_eq_string {text : String} {name : List Char}
    (h : Literal.stringValue? text.toList = some name) :
    Literal.form text.toList = .string name := by
  unfold Literal.stringValue? at h
  split at h
  · rename_i hform
    rw [hform, Option.some.inj h]
  · cases h

theorem string_of_stringValue? {text : String} {r : Position} {name : List Char}
    (h : Literal.stringValue? text.toList = some name) :
    Look.string (.literal text r :: rest) = true := by
  simp [Look.string, Look.literalForm?, Look.literalText?, form_eq_string h]

/-- An argument at the front that gives a name offends only when the name is empty. -/
theorem Offends.eq_nil {q p r : Position} {sp : Spacing} {text : String} {name : List Char}
    (h : Offends close
      (.ident false Marker.nameArgument q :: .punct '=' sp p :: .literal text r :: rest) e)
    (hvalue : Literal.stringValue? text.toList = some name) : name = [] := by
  rcases h.named rfl with
    ⟨hequals, -⟩ | ⟨_, _, _, hmore, ⟨hstring, -⟩ | ⟨_, _, _, hliteral, hempty, -⟩⟩
  · cases hequals
  · cases hmore
    rw [string_of_stringValue? hvalue] at hstring
    cases hstring
  · cases hmore
    cases hliteral
    rw [hempty] at hvalue
    exact (Option.some.inj hvalue).symm

/-- What is wrong with an argument of the right name is determined. -/
theorem Offends.named_unique {q : Position} {e' : SyntaxError}
    (h : Offends close (.ident false Marker.nameArgument q :: rest) e)
    (h' : Offends close (.ident false Marker.nameArgument q :: rest) e')
    (hcolons : Look.op "::" rest = false) : e = e' := by
  have hmark {sp : Spacing} {p : Position} {more : List Token} :
      Look.op "=" (.punct '=' sp p :: more) = true := rfl
  rcases h.named hcolons with ⟨hequals, rfl⟩ | ⟨sp, p, more, rfl, hvalue⟩ <;>
    rcases h'.named hcolons with ⟨hequals', rfl⟩ | ⟨sp', p', more', hmore, hvalue'⟩
  · rfl
  · rw [hmore, hmark] at hequals
    cases hequals
  · rw [hmark] at hequals'
    cases hequals'
  · cases hmore
    rcases hvalue with ⟨hstring, rfl⟩ | ⟨text, r, rest, rfl, hempty, rfl⟩ <;>
      rcases hvalue' with ⟨hstring', rfl⟩ | ⟨text', r', rest', hrest, hempty', rfl⟩
    · rfl
    · rw [hrest, string_of_stringValue? hempty'] at hstring
      cases hstring
    · rw [string_of_stringValue? hempty] at hstring'
      cases hstring'
    · rfl

/-- What stands ahead of an argument that offends: no path, a broken path, the path of something
else, or the right name. -/
theorem Offends.ahead (h : Offends close ts e) :
    (Look.anyWord (afterColons ts) = false ∧
      e = refusedAt close (afterColons ts) (noPathComplaint (afterColons ts))) ∨
    ∃ raw name q more, afterColons ts = .ident raw name q :: more ∧
      ((∃ rest, BreaksOff more rest ∧ e = refusedAt close rest .noWord) ∨
        ∃ words rest, MoreWords more words rest ∧
          (((Look.op "::" ts = true ∨ Token.identText raw name ≠ Marker.nameArgument ∨ words ≠ []) ∧
              e = { place := q, complaint := .custom "unknown ReactiveProperty argument" }) ∨
            ts = .ident false Marker.nameArgument q :: more ∧ raw = false ∧
              name = Marker.nameArgument ∧ words = [] ∧ Look.op "::" more = false)) := by
  cases h with
  | noPath _ hword => exact .inl ⟨hword, rfl⟩
  | brokenPath hmore hbreaks => exact .inr ⟨_, _, _, _, hmore, .inl ⟨_, hbreaks, rfl⟩⟩
  | unknown hmore hwords hother =>
    exact .inr ⟨_, _, _, _, hmore, .inr ⟨_, _, hwords, .inl ⟨hother, rfl⟩⟩⟩
  | noEquals hcolons _ =>
    exact .inr ⟨_, _, _, _, rfl, .inr ⟨_, _, .nil hcolons, .inr ⟨rfl, rfl, rfl, rfl, hcolons⟩⟩⟩
  | noString _ =>
    exact .inr ⟨_, _, _, _, rfl, .inr ⟨_, _, .nil rfl, .inr ⟨rfl, rfl, rfl, rfl, rfl⟩⟩⟩
  | empty _ => exact .inr ⟨_, _, _, _, rfl, .inr ⟨_, _, .nil rfl, .inr ⟨rfl, rfl, rfl, rfl, rfl⟩⟩⟩

/-- What is wrong with an argument is determined. -/
theorem Offends.unique {e' : SyntaxError} (h : Offends close ts e) (h' : Offends close ts e') :
    e = e' := by
  rcases h.ahead with ⟨hword, rfl⟩ | ⟨raw, name, q, more, hmore, hpath⟩ <;>
    rcases h'.ahead with ⟨hword', rfl⟩ | ⟨raw', name', q', more', hmore', hpath'⟩
  · rfl
  · rw [hmore'] at hword
    cases hword
  · rw [hmore] at hword'
    cases hword'
  · rw [hmore] at hmore'
    cases hmore'
    rcases hpath with ⟨rest, hbreaks, rfl⟩ | ⟨words, rest, hwords, hpath⟩ <;>
      rcases hpath' with ⟨rest', hbreaks', rfl⟩ | ⟨words', rest', hwords', hpath'⟩
    · rw [hbreaks.unique hbreaks']
    · exact absurd hbreaks hwords'.not_breaksOff
    · exact absurd hbreaks' hwords.not_breaksOff
    · obtain ⟨rfl, rfl⟩ := hwords.unique hwords'
      rcases hpath with ⟨hother, rfl⟩ | ⟨rfl, rfl, rfl, rfl, hcolons⟩ <;>
        rcases hpath' with ⟨hother', rfl⟩ | ⟨hts, hraw, hname, hnil, hcolons'⟩
      · rfl
      · subst hts hraw hname hnil
        rcases hother with h | h | h
        · cases h
        · exact absurd rfl h
        · exact absurd rfl h
      · rcases hother' with h | h | h
        · cases h
        · exact absurd rfl h
        · exact absurd rfl h
      · exact h.named_unique h' hcolons

theorem Misgiven.unique {e' : SyntaxError} (h : Misgiven close ts e) (h' : Misgiven close ts e') :
    e = e' := by
  induction h with
  | here hoffends =>
    cases h' with
    | here hoffends' => exact hoffends.unique hoffends'
    | noComma hvalue hname _ => exact absurd (hoffends.eq_nil hvalue) hname
    | later hvalue hname _ => exact absurd (hoffends.eq_nil hvalue) hname
  | noComma hvalue hname hcomma =>
    cases h' with
    | here hoffends' => exact absurd (hoffends'.eq_nil hvalue) hname
    | noComma => rfl
    | later => cases hcomma
  | later hvalue hname _ ih =>
    cases h' with
    | here hoffends' => exact absurd (hoffends'.eq_nil hvalue) hname
    | noComma _ _ hcomma => cases hcomma
    | later _ _ h' => exact ih h'

/-- Arguments that can all be used have nothing wrong with them. -/
theorem Misgiven.not_isGiven (h : Misgiven close ts e) : ¬ IsGiven ts := by
  rintro ⟨names, hgives, hempty⟩
  induction h generalizing names with
  | here hoffends =>
    cases hgives with
    | nil => cases hoffends <;> simp_all [afterColons]
    | last hvalue =>
      rw [hoffends.eq_nil hvalue] at hempty
      exact hempty (List.mem_singleton_self _)
    | more hvalue _ =>
      rw [hoffends.eq_nil hvalue] at hempty
      exact hempty List.mem_cons_self
  | noComma _ _ hcomma =>
    cases hgives with
    | more => cases hcomma
  | later _ _ _ ih =>
    cases hgives with
    | more _ hrest => exact ih _ hrest (fun hmem => hempty (List.mem_cons_of_mem _ hmem))

end

end Observable.Derive
