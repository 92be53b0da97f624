import Observable.Proofs.Output.Reading
import Observable.Proofs.Token.Spelled
import Observable.Proofs.Token.Tame
/-! What is generated for an owner is read back from its text as it is. -/
namespace Observable

open Lexer (isMark)
open Grammar (startsType separated)

/-- A row that is read back from its text in front of any other such row. -/
def TameRow (row : List Token) : Prop := ∀ rest, Tame rest → Tame (row ++ rest)

namespace TameRow

variable {row before : List Token} {c a b : Char} {p q : Position}

theorem tame (h : TameRow row) : Tame row := by
  simpa using h [] .nil

theorem nil : TameRow [] := fun _ h => h

theorem append (hbefore : TameRow before) (h : TameRow row) : TameRow (before ++ row) := by
  intro rest hrest
  rw [List.append_assoc]
  exact hbefore _ (h _ hrest)

theorem ident {raw : Bool} {name : String} (h : Lexer.isWord raw name = true) (hrow : TameRow row) :
    TameRow (.ident raw name p :: row) := fun rest hrest => .word h (hrow rest hrest)

theorem group {d : Delimiter} {body : List Token} (hd : d ≠ .invisible) (hbody : Tame body) :
    TameRow [.group d body p q] := fun _ hrest => .group hd hbody hrest

theorem lifetime {name : String} (h : Lexer.isWord false name = true) :
    TameRow [.punct '\'' .joint p, .ident false name q] := fun _ hrest => .lifetime h hrest

theorem noPunctAhead_append (hne : row ≠ []) (h : noPunctAhead row = true) (rest : List Token) :
    noPunctAhead (row ++ rest) = true := by
  cases row with
  | nil => exact absurd rfl hne
  | cons => exact h

theorem typeOperatorAhead_append (h : typeOperatorAhead row = true) (rest : List Token) :
    typeOperatorAhead (row ++ rest) = true := by
  rcases row with _ | ⟨_ | ⟨c, _ | _, p⟩ | _ | _, _ | ⟨_ | ⟨d, _ | _, q⟩ | _ | _, row⟩⟩ <;>
    first | exact h | cases h

/-- A punctuation that a space may follow. -/
theorem soft (hmark : isMark c = true) (hpound : c ≠ '#') (hsoft : isSoft c = true)
    (h : TameRow row) : TameRow (.punct c .alone p :: row) :=
  fun rest hrest => .mark hmark hpound (.inl hsoft) (h rest hrest)

/-- A punctuation with what it stands in front of. -/
theorem mark (hmark : isMark c = true) (hpound : c ≠ '#') (hne : row ≠ [])
    (hnext : noPunctAhead row = true ∨ (c = ':' ∧ typeOperatorAhead row = true)) (h : TameRow row) :
    TameRow (.punct c .alone p :: row) := by
  intro rest hrest
  refine .mark hmark hpound (.inr ?_) (h rest hrest)
  exact hnext.imp (noPunctAhead_append hne · rest) (And.imp_right (typeOperatorAhead_append · rest))

/-- An operator of two characters with what it stands in front of. -/
theorem pair (hpair : isPair a b = true) (hnext : isSoft b = true ∨ row ≠ [] ∧
    noPunctAhead row = true)
    (h : TameRow row) : TameRow (.punct a .joint p :: .punct b .alone q :: row) := by
  intro rest hrest
  exact .pair hpair (hnext.imp_right fun hnext => noPunctAhead_append hnext.1 hnext.2 rest)
    (h rest hrest)

/-- An attribute with what it stands in front of. -/
theorem attr {body : List Token} (hbody : Tame body) (hne : row ≠ []) (h : TameRow row) :
    TameRow (Quote.attr body ++ row) := by
  intro rest hrest
  exact .attr hbody (h rest hrest) (by simp [hne])

end TameRow

namespace TameRow

variable {row : List Token}

/-- A colon with the type that it stands in front of. -/
theorem colon {p : Position} (hstarts : startsType row = true) (h : TameRow row) :
    TameRow (.punct ':' .alone p :: row) := by
  refine .mark (by decide) (by decide) (Grammar.startsType_ne_nil hstarts) ?_ h
  rcases row with _ | ⟨_ | ⟨c, s, q⟩ | _ | _, row⟩
  case cons.ident | cons.group => exact .inl rfl
  case cons.punct =>
    cases s with
    | alone => exact .inr ⟨rfl, hstarts⟩
    | joint => cases hstarts
  all_goals cases hstarts

/-- Rows with commas between them. -/
theorem commas (trailing : Bool) {rows : List (List Token)} (h : ∀ row ∈ rows, TameRow row) :
    TameRow (separated (Quote.op ",") trailing rows) := by
  have hcomma : TameRow (Quote.op ",") := .soft (by decide) (by decide) (by decide) .nil
  induction rows with
  | nil => exact .nil
  | cons row rows ih =>
    obtain ⟨hrow, hrows⟩ := List.forall_mem_cons.mp h
    cases rows with
    | nil =>
      cases trailing with
      | true => exact hrow.append hcomma
      | false => simpa [separated] using hrow
    | cons next rows => exact hrow.append (hcomma.append (ih hrows))

/-- Rows that begin with words, with two colons between them. -/
theorem colons {rows : List (List Token)}
    (h : ∀ row ∈ rows, TameRow row ∧ ∃ raw name p rest, row = .ident raw name p :: rest) :
    TameRow (separated (Quote.op "::") false rows) := by
  induction rows with
  | nil => exact .nil
  | cons row rows ih =>
    obtain ⟨⟨hrow, -⟩, hrows⟩ := List.forall_mem_cons.mp h
    cases rows with
    | nil => simpa [separated] using hrow
    | cons next rows =>
      obtain ⟨-, raw, name, p, rest, rfl⟩ := hrows next List.mem_cons_self
      have hfront : ∃ ts, separated (Quote.op "::") false ((.ident raw name p :: rest) :: rows)
          = .ident raw name p :: ts := by cases rows <;> exact ⟨_, rfl⟩
      obtain ⟨ts, hts⟩ := hfront
      have hnext := ih hrows
      refine hrow.append ?_
      show TameRow (Quote.op "::" ++ separated (Quote.op "::") false
        ((.ident raw name p :: rest) :: rows))
      rw [hts] at hnext ⊢
      exact .pair (by decide) (.inr ⟨List.cons_ne_nil _ _, rfl⟩) hnext

end TameRow

theorem PlainName.isWord (n : PlainName) : Lexer.isWord false n.text = true := by
  obtain ⟨p, hp⟩ := n.reads
  exact Property.isWord_of_identifier? hp

theorem PlainName.tameRow (n : PlainName) : TameRow [n.token] := .ident n.isWord .nil

mutual
/-- The tokens of a type are read back from their text. -/
theorem PlainType.tameRow (τ : PlainType) : TameRow τ.tokens := by
  cases τ with
  | path first rest =>
    rw [PlainType.tokens]
    exact .colons (List.forall_mem_cons.mpr ⟨first.tameRow, pathRows_tameRow rest⟩)
  | reference lifetime mutable target =>
    have htarget := target.tameRow
    have hmutable : TameRow (if mutable then [Quote.word "mut"] else []) := by
      cases mutable
      · exact .nil
      · exact .ident (by decide) .nil
    have hlifetime : TameRow (lifetime.elim [] LifetimeName.tokens) := by
      cases lifetime with
      | none => exact .nil
      | some l => exact .lifetime l.isWord
    rw [PlainType.tokens, List.append_assoc, List.append_assoc]
    exact .soft (by decide) (by decide) (by decide) (hlifetime.append (hmutable.append htarget))
  | pointer mutable target =>
    have hword : Lexer.isWord false (if mutable then "mut" else "const") = true := by
      cases mutable <;> decide
    rw [PlainType.tokens, List.append_assoc]
    exact .mark (by decide) (by decide) (List.cons_ne_nil _ _) (.inl rfl)
      (.ident hword target.tameRow)
  | tuple parts trailing =>
    rw [PlainType.tokens]
    exact .group (by decide) (TameRow.commas _ (typeRows_tameRow parts)).tame
  | slice element =>
    rw [PlainType.tokens]
    exact .group (by decide) element.tameRow.tame
  | array element length =>
    have hlength : Tame (Quote.op ";" ++ [.literal length.text Quote.nowhere]) :=
      .mark (by decide) (by decide) (.inr (.inl rfl)) (.literal (.inr length.isDecimal))
    rw [PlainType.tokens, List.append_assoc]
    exact .group (by decide) (element.tameRow _ hlength)

theorem PathPart.tameRow (part : PathPart) :
    TameRow part.tokens ∧ ∃ raw name p rest, part.tokens = .ident raw name p :: rest := by
  cases part with
  | bare name => exact ⟨name.tameRow, _, _, _, _, rfl⟩
  | generic name lifetimes types trailing =>
    have hrows : ∀ row ∈ lifetimes.map LifetimeName.tokens ++ typeRows types, TameRow row := by
      refine List.forall_mem_append.mpr ⟨fun row hrow => ?_, typeRows_tameRow types⟩
      obtain ⟨l, -, rfl⟩ := List.mem_map.mp hrow
      exact .lifetime l.isWord
    have hgreater : TameRow (Quote.op ">") := .soft (by decide) (by decide) (by decide) .nil
    refine ⟨?_, _, _, _, _, rfl⟩
    rw [PathPart.tokens, List.append_assoc, List.append_assoc]
    exact name.tameRow.append
      (.soft (by decide) (by decide) (by decide) ((TameRow.commas trailing hrows).append hgreater))

theorem pathRows_tameRow (parts : List PathPart) :
    ∀ row ∈ pathRows parts, TameRow row ∧ ∃ raw name p rest, row = .ident raw name p :: rest := by
  cases parts with
  | nil => simp [pathRows]
  | cons part parts => exact List.forall_mem_cons.mpr ⟨part.tameRow, pathRows_tameRow parts⟩

theorem typeRows_tameRow (types : List PlainType) : ∀ row ∈ typeRows types, TameRow row := by
  cases types with
  | nil => simp [typeRows]
  | cons type types => exact List.forall_mem_cons.mpr ⟨type.tameRow, typeRows_tameRow types⟩
end

namespace TameRow

variable {row : List Token} {name : String}

/-- A word of generated text, which is an identifier or a keyword. -/
theorem quoted (h : Lexer.isWord false name = true) : TameRow [Quote.word name] := .ident h .nil

/-- A line of documentation with what it stands in front of. -/
theorem documented (summary : String) (hne : row ≠ []) (h : TameRow row) :
    TameRow (Quote.doc summary ++ row) := by
  refine .attr ?_ hne h
  have hsummary : IsLiteral (String.ofList (Text.quoted summary.toList)) :=
    .inl ⟨summary.toList, String.toList_ofList⟩
  exact .word (by decide) (.mark (by decide) (by decide) (.inr (.inl rfl)) (.literal hsummary))

end TameRow

theorem eventType_tameRow : TameRow eventType :=
  .pair (by decide) (.inr ⟨List.cons_ne_nil _ _, rfl⟩) (.ident (by decide)
    (.pair (by decide) (.inr ⟨List.cons_ne_nil _ _, rfl⟩) (.quoted (by decide))))

theorem Slot.tameRow {s : Slot} (h : s.name.IsName) : TameRow s.tokens := by
  obtain ⟨raw, name, hs, -, hword⟩ := h
  have hcomma : TameRow (Quote.op ",") := .soft (by decide) (by decide) (by decide) .nil
  have hcolon : TameRow (Quote.op ":" ++ (eventType ++ Quote.op ",")) :=
    .mark (by decide) (by decide) (List.cons_ne_nil _ _) (.inr ⟨rfl, rfl⟩)
      (eventType_tameRow.append hcomma)
  have htokens : s.tokens = Quote.doc s.summary ++ (Quote.word "pub" :: .ident raw name .start
      :: (Quote.op ":" ++ (eventType ++ Quote.op ","))) := by
    rw [Slot.tokens, hs]
    simp only [List.append_assoc]
    rfl
  rw [htokens]
  exact .documented s.summary (List.cons_ne_nil _ _) (.ident (by decide) (.ident hword hcolon))

theorem TameRow.words {row : List Token} {names : List String}
    (h : ∀ name ∈ names, Lexer.isWord false name = true) (hrow : TameRow row) :
    TameRow (Quote.words names ++ row) := by
  induction names with
  | nil => exact hrow
  | cons name names ih =>
    obtain ⟨hname, hnames⟩ := List.forall_mem_cons.mp h
    exact .ident hname (ih hnames)

theorem isWord_publicWords (constant : Bool) :
    ∀ name ∈ publicWords constant, Lexer.isWord false name = true := by
  cases constant <;> decide

/-- A method whose parts are read back from their text. -/
theorem Method.tameRow {m : Method} (constant : Bool) (bodies : List (List Token))
    (hattributes : m.attributes = bodies.flatMap Quote.attr) (hbodies : ∀ body ∈ bodies, Tame body)
    (hqualifiers : m.qualifiers = publicWords constant) (hname : m.name.IsName)
    (hparameters : Tame m.parameters) (hresult : TameRow m.result) (hbody : Tame m.body) :
    TameRow m.tokens := by
  obtain ⟨raw, name, hm, -, hword⟩ := hname
  let row := Quote.words m.qualifiers
    ++ (.ident raw name .start :: Quote.parens m.parameters :: (m.result ++ [Quote.braces m.body]))
  have hne : row ≠ [] := by simp [row]
  have hrow : TameRow row := .words (hqualifiers ▸ isWord_publicWords constant) (.ident hword
    ((TameRow.group (by decide) hparameters).append (hresult.append (.group (by decide) hbody))))
  have hmarked : TameRow (bodies.flatMap Quote.attr ++ row) ∧
      bodies.flatMap Quote.attr ++ row ≠ [] := by
    clear hattributes
    induction bodies with
    | nil => exact ⟨hrow, hne⟩
    | cons body bodies ih =>
      obtain ⟨hbody, hbodies⟩ := List.forall_mem_cons.mp hbodies
      obtain ⟨htame, hne⟩ := ih hbodies
      rw [List.flatMap_cons, List.append_assoc]
      exact ⟨.attr hbody hne htame, List.cons_ne_nil _ _⟩
  have htokens : m.tokens = Quote.doc m.summary ++ (bodies.flatMap Quote.attr ++ row) := by
    rw [Method.tokens, hattributes, hm]
    simp [row]
  rw [htokens]
  exact .documented m.summary hmarked.2 hmarked.1

/-- A dot in front of a name. -/
theorem Token.IsName.dot {t : Token} (h : t.IsName) : TameRow (Quote.op "." ++ [t]) := by
  obtain ⟨raw, name, rfl, -, hword⟩ := h
  exact .mark (by decide) (by decide) (List.cons_ne_nil _ _) (.inl rfl) (.ident hword .nil)

namespace Descriptor

theorem part_tameRow {t : Token} (h : t.IsName) : TameRow (part t) := .ident (by decide) h.dot

theorem sharedSelf_tameRow : TameRow sharedSelf :=
  .soft (by decide) (by decide) (by decide) (.quoted (by decide))

theorem changingSelf_tameRow : TameRow changingSelf :=
  .soft (by decide) (by decide) (by decide) (.ident (by decide) (.quoted (by decide)))

namespace IsPlain

variable {d : Descriptor} {τ : PlainType} {events : Token} (h : d.IsPlain τ)
  (hevents : events.IsName)
include h hevents

theorem ownSlot_tameRow : TameRow (d.ownSlot events) := (part_tameRow hevents).append h.accessor.dot

theorem accessorMethod_tameRow : TameRow (d.accessorMethod events).tokens := by
  refine Method.tameRow true [] rfl (by simp) rfl h.accessor changingSelf_tameRow.tame ?_ ?_
  · exact .pair (by decide) (.inl rfl)
      (.soft (by decide) (by decide) (by decide) (.ident (by decide) eventType_tameRow))
  · exact (TameRow.soft (by decide) (by decide) (by decide)
      (.ident (by decide) (h.ownSlot_tameRow hevents))).tame

theorem change_tame : Tame (d.change events) := by
  have hend : Tame (Quote.op ";") := .mark (by decide) (by decide) (.inr (.inl rfl)) .nil
  have hpublish : TameRow (Quote.op "." ++ [Quote.word "publish", Quote.parens []]) :=
    .mark (by decide) (by decide) (List.cons_ne_nil _ _) (.inl rfl)
      (.ident (by decide) (.group (by decide) .nil))
  have hcall : Tame (d.ownSlot events
      ++ (Quote.op "." ++ [Quote.word "publish", Quote.parens []] ++ Quote.op ";")) :=
    h.ownSlot_tameRow hevents _ (hpublish _ hend)
  have hassigned : Tame (Quote.op "=" ++ ([Quote.word "value"] ++ (Quote.op ";"
      ++ (d.ownSlot events
        ++ (Quote.op "." ++ [Quote.word "publish", Quote.parens []] ++ Quote.op ";"))))) :=
    .mark (by decide) (by decide) (.inr (.inl rfl)) (.word (by decide)
      (.mark (by decide) (by decide) (.inr (.inl rfl)) hcall))
  have hall := part_tameRow h.field _ hassigned
  have hchange : d.change events = part d.field ++ (Quote.op "=" ++ ([Quote.word "value"]
      ++ (Quote.op ";" ++ (d.ownSlot events
        ++ (Quote.op "." ++ [Quote.word "publish", Quote.parens []] ++ Quote.op ";"))))) := by
    simp only [change, List.append_assoc]
  rwa [hchange]

theorem setterMethod_tameRow : TameRow (d.setterMethod events).tokens := by
  let allowed := [Quote.word "allow",
    Quote.parens ([Quote.word "clippy"] ++ Quote.op "::" ++ [Quote.word "float_cmp"])]
  have hallowed : Tame allowed := by
    refine .word (by decide) (.group (by decide) ?_ .nil)
    exact .word (by decide) (.pair (by decide) (.inr rfl) (.word (by decide) .nil))
  have hstarts : startsType d.type = true := h.type ▸ (τ.row (Nat.le_refl _)).starts
  have htype : TameRow d.type := h.type ▸ τ.tameRow
  refine Method.tameRow false [allowed] rfl (by simpa using hallowed) rfl h.setter ?_ .nil ?_
  · have hvalue : TameRow (Quote.op "," ++ ([Quote.word "value"] ++ (Quote.op ":" ++ d.type))) :=
      .soft (by decide) (by decide) (by decide) (.ident (by decide) (.colon hstarts htype))
    have hall := (changingSelf_tameRow.append hvalue).tame
    simpa [setterMethod] using hall
  · have hbraces : TameRow [Quote.braces (d.change events)] :=
      .group (by decide) (h.change_tame hevents)
    have hcompared : TameRow (Quote.op "!=" ++ ([Quote.word "value"]
        ++ [Quote.braces (d.change events)])) :=
      .pair (by decide) (.inr ⟨List.cons_ne_nil _ _, rfl⟩) (.ident (by decide) hbraces)
    have hall : Tame (Quote.word "if" :: (part d.field ++ _)) :=
      (TameRow.ident (by decide) ((part_tameRow h.field).append hcompared)).tame
    simpa [setterMethod] using hall

omit hevents in
theorem getterMethod_tameRow : TameRow d.getterMethod.tokens := by
  have hmarked : Tame [Quote.word "must_use"] := .word (by decide) .nil
  refine Method.tameRow true [[Quote.word "must_use"]] rfl (by simpa using hmarked) rfl h.getter
    sharedSelf_tameRow.tame ?_ ?_
  · have htype : TameRow d.type := h.type ▸ τ.tameRow
    exact .pair (by decide) (.inl rfl) (.soft (by decide) (by decide) (by decide) htype)
  · exact (TameRow.soft (by decide) (by decide) (by decide) (part_tameRow h.field)).tame

theorem methods_tameRow : ∀ m ∈ d.methods events, TameRow m.tokens := by
  simp only [methods, List.mem_cons, List.not_mem_nil, or_false, forall_eq_or_imp, forall_eq]
  exact ⟨h.accessorMethod_tameRow hevents, h.getterMethod_tameRow, h.setterMethod_tameRow hevents⟩

end IsPlain

end Descriptor

theorem TameRow.flatMap {α : Type} {f : α → List Token} {l : List α}
    (h : ∀ a ∈ l, TameRow (f a)) : TameRow (l.flatMap f) := by
  induction l with
  | nil => exact .nil
  | cons a l ih =>
    obtain ⟨ha, hl⟩ := List.forall_mem_cons.mp h
    exact ha.append (ih hl)

/-- What is generated for an owner is read back from its text. -/
theorem Augmentation.tame {owner : OwnerNames} {events : Token} {ds : List Descriptor}
    (hname : owner.events.IsName) (hpath : TameRow owner.path) (hevents : events.IsName)
    (hplain : ∀ d ∈ ds, ∃ τ, Descriptor.IsPlain d τ) :
    Tame (ofProperties owner events ds).tokens := by
  let a := ofProperties owner events ds
  obtain ⟨raw, name, howner, -, hword⟩ := hname
  have hslots : TameRow (a.slots.flatMap (·.tokens)) := by
    refine .flatMap fun s hs => ?_
    obtain ⟨d, hd, rfl⟩ := List.mem_map.mp hs
    obtain ⟨τ, hτ⟩ := hplain d hd
    exact Slot.tameRow hτ.accessor
  have hmethods : TameRow (a.methods.flatMap (·.tokens)) := by
    refine .flatMap fun m hm => ?_
    obtain ⟨d, hd, hm⟩ := List.mem_flatMap.mp hm
    obtain ⟨τ, hτ⟩ := hplain d hd
    exact hτ.methods_tameRow hevents m hm
  let derived := [Quote.word "derive",
    Quote.parens ([Quote.word "Debug"] ++ Quote.op "," ++ [Quote.word "Default"])]
  let implementation := Quote.word "impl"
    :: (owner.path ++ [Quote.braces (a.methods.flatMap (·.tokens))])
  let row := Quote.word "pub" :: Quote.word "struct" :: .ident raw name .start
    :: Quote.braces (a.slots.flatMap (·.tokens)) :: implementation
  have hderived : Tame derived := by
    refine .word (by decide) (.group (by decide) ?_ .nil)
    exact .word (by decide) (.mark (by decide) (by decide) (.inl rfl) (.word (by decide) .nil))
  have himplementation : TameRow implementation :=
    .ident (by decide) (hpath.append (.group (by decide) hmethods.tame))
  have hrow : TameRow row := .ident (by decide) (.ident (by decide) (.ident hword
    ((TameRow.group (by decide) hslots.tame).append himplementation)))
  have hmarked : TameRow (Quote.attr derived ++ row) := .attr hderived (List.cons_ne_nil _ _) hrow
  have hne : Quote.attr derived ++ row ≠ [] := List.cons_ne_nil _ _
  have hall := (TameRow.documented
    (" Change events for the reactive properties of `" ++ owner.name.spelling
      ++ "`.") hne hmarked).tame
  simpa [tokens, eventsStruct, ofProperties, howner, row, implementation, derived, a] using hall

end Observable
