import Observable.Output.Emission
import Observable.Proofs.Grammar.Items
/-! Reading what is generated for an owner. -/
namespace Observable

open Grammar

/-- An identifier that stands nowhere and that can be read and spelled. -/
def Token.IsName (t : Token) : Prop :=
  ∃ raw name, t = .ident raw name .start ∧ isIdentifier raw name = true ∧
    Lexer.isWord raw name = true

namespace Descriptor

/-- A descriptor of plain names, of a field with a plain type. -/
structure IsPlain (d : Descriptor) (τ : PlainType) : Prop where
  field : d.field.IsName
  getter : d.getter.IsName
  setter : d.setter.IsName
  accessor : d.accessor.IsName
  type : d.type = τ.tokens

end Descriptor

section

variable {n : Nat} {us vs : List Token}

theorem length_lt_semicolon (us vs : List Token) :
    vs.length < (us ++ (Quote.op ";" ++ vs)).length := by
  have hsemicolon : 0 < (Quote.op ";").length := by decide
  rw [List.length_append, List.length_append]
  omega

/-- The type of an event. -/
theorem reads_eventType {plus : Bool} (hvs : endsType vs = true) :
    Reads ((Rules.upTo (n + 1)).type plus) (eventType ++ vs) vs (·.unplaced = eventType) := by
  let rows := [[Quote.word "reactive_property"], [Quote.word "ChangeEvent"]]
  have hrow : ∀ name, isIdentifier false name = true →
      PathRow (Rules.upTo n) false [Quote.word name] := fun name hname =>
    ⟨⟨false, name, [], rfl⟩, fun vs hvs => reads_segment_bare hname hvs⟩
  have hrows : ∀ row ∈ rows, PathRow (Rules.upTo n) false row := by
    simp only [rows, List.mem_cons, List.not_mem_nil, or_false, forall_eq_or_imp, forall_eq]
    exact ⟨hrow _ (by decide), hrow _ (by decide)⟩
  have hpath := reads_path_rooted rows (by simp [rows]) hrows (endsPart_of_endsType hvs)
    (.and_left (endsType_noOp hvs rfl (by decide)))
  show Reads (typeTree (Rules.upTo n) plus) _ _ _
  exact reads_typeTree_path
    (.or_left (.or (.or (.ident rfl) (.anyOf rfl)) (.op rfl rfl))) rfl rfl rfl
    hpath hvs

end

/-- The words in front of the name of a method. -/
def publicWords (constant : Bool) : List String :=
  "pub" :: (if constant then ["const"] else []) ++ ["fn"]

/-- A method whose parts are read. -/
theorem reads_method {rules : Rules} {m : Method} (constant : Bool) (bodies : List (List Token))
    (hattributes : m.attributes = bodies.flatMap Quote.attr)
    (hqualifiers : m.qualifiers = publicWords constant)
    (hbodies : ∀ body ∈ bodies, IsMeta rules body) (hname : m.name.IsName)
    (hinputs : Reads (functionInputs rules) m.parameters [] (unplacedTrees · = m.parameters))
    (hresult : IsResult rules m.result) (hfront : spelledAhead ['#'] m.body = false)
    (hbody : Reads rules.statements m.body [] (unplacedTrees · = m.body)) (vs : List Token) :
    Reads (implMember rules) (m.tokens ++ vs) vs (·.unplaced = m.tokens) := by
  obtain ⟨raw, name, hm, hname, -⟩ := hname
  let all := ([Quote.word "doc"] ++ Quote.op "=" ++ [Quote.text m.summary]) :: bodies
  have hall : ∀ body ∈ all, IsMeta rules body :=
    List.forall_mem_cons.mpr ⟨isMeta_doc m.summary, hbodies⟩
  have htokens : m.tokens = all.flatMap Quote.attr
      ++ methodTokens constant (.ident raw name .start) m.parameters m.result m.body := by
    have hwords : Quote.words (publicWords constant)
        = Quote.word "pub" :: (mark "const" constant ++ [Quote.word "fn"]) := by
      cases constant <;> rfl
    rw [Method.tokens, hattributes, hqualifiers, hwords, hm, List.flatMap_cons]
    simp [Quote.doc, methodTokens, signatureTokens]
  rw [htokens]
  exact reads_implMember hname hinputs hresult hfront hbody hall

namespace Descriptor.IsPlain

variable {d : Descriptor} {τ : PlainType} {events : Token} {n : Nat}

/-- The statements of the accessor. -/
theorem reads_accessor_body (h : d.IsPlain τ) (hevents : events.IsName) :
    Reads ((Rules.upTo (n + 6)).statements) (d.accessorMethod events).body []
      (unplacedTrees · = (d.accessorMethod events).body) := by
  obtain ⟨eraw, ename, rfl, hename, -⟩ := hevents
  obtain ⟨araw, aname, hacc, haname, -⟩ := h.accessor
  have hnames : ∀ p ∈ [(eraw, ename), (araw, aname)], isIdentifier p.1 p.2 = true := by
    simp [hename, haname]
  have hbody : (d.accessorMethod (.ident eraw ename .start)).body
      = Quote.op "&" ++ ([Quote.word "mut"] ++ (placeTokens [(eraw, ename), (araw, aname)]
        ++ [])) := by
    show Quote.op "&" ++ [Quote.word "mut"] ++ ownSlot _ d = _
    rw [ownSlot, hacc]
    rfl
  have hmarks : [Quote.word "mut"] = if true then [Quote.word "mut"] else [] := rfl
  rw [hbody]
  show Reads (statements (Rules.upTo (n + 5))) _ _ _
  refine reads_statements_one ⟨_, .inr (.inr (.inl rfl))⟩ ?_
  show Reads (earlyExpression (Rules.upTo (n + 4))) _ _ _
  refine reads_earlyExpression ⟨_, .inr (.inr (.inl rfl))⟩ rfl
    (reads_unary_reference hmarks (by simp) hnames rfl rfl) fun e he => ?_
  show Reads (climb (Rules.upTo (n + 3)) true e .jump) _ _ _
  refine (reads_climb_operand rfl he).weaken fun e he => ?_
  simpa using he.unplaced

/-- The statements of the getter. -/
theorem reads_getter_body (h : d.IsPlain τ) :
    Reads ((Rules.upTo (n + 6)).statements) d.getterMethod.body []
      (unplacedTrees · = d.getterMethod.body) := by
  obtain ⟨raw, name, hfield, hname, -⟩ := h.field
  have hnames : ∀ p ∈ [(raw, name)], isIdentifier p.1 p.2 = true := by simp [hname]
  have hbody : d.getterMethod.body
      = Quote.op "&" ++ ([] ++ (placeTokens [(raw, name)] ++ [])) := by
    show Quote.op "&" ++ part d.field = _
    rw [hfield]
    rfl
  have hmarks : [] = if false then [Quote.word "mut"] else [] := rfl
  rw [hbody]
  show Reads (statements (Rules.upTo (n + 5))) _ _ _
  refine reads_statements_one ⟨_, .inr (.inl rfl)⟩ ?_
  show Reads (earlyExpression (Rules.upTo (n + 4))) _ _ _
  refine reads_earlyExpression ⟨_, .inr (.inl rfl)⟩ rfl
    (reads_unary_reference hmarks (by simp) hnames rfl rfl) fun e he => ?_
  show Reads (climb (Rules.upTo (n + 3)) true e .jump) _ _ _
  refine (reads_climb_operand rfl he).weaken fun e he => ?_
  simpa using he.unplaced

/-- The statements that run when the value of a property changes. -/
theorem reads_change (h : d.IsPlain τ) (hevents : events.IsName) :
    Reads ((Rules.upTo (n + 4)).statements) (d.change events) []
      (unplacedTrees · = d.change events) := by
  obtain ⟨eraw, ename, rfl, hename, -⟩ := hevents
  obtain ⟨araw, aname, hacc, haname, -⟩ := h.accessor
  obtain ⟨fraw, fname, hfield, hfname, -⟩ := h.field
  have hnames : ∀ p ∈ [(eraw, ename), (araw, aname)], isIdentifier p.1 p.2 = true := by
    simp [hename, haname]
  have hfields : ∀ p ∈ [(fraw, fname)], isIdentifier p.1 p.2 = true := by simp [hfname]
  let assignment := placeTokens [(fraw, fname)] ++ (Quote.op "=" ++ [Quote.word "value"])
  let call := placeTokens [(eraw, ename), (araw, aname)]
    ++ (Quote.op "." ++ [Quote.word "publish", Quote.parens []])
  have hchange : d.change (.ident eraw ename .start)
      = assignment ++ Quote.op ";" ++ (call ++ Quote.op ";") := by
    show part d.field ++ Quote.op "=" ++ [Quote.word "value"] ++ Quote.op ";"
      ++ ownSlot _ d ++ Quote.op "." ++ [Quote.word "publish", Quote.parens []] ++ Quote.op ";" = _
    rw [ownSlot, hacc, hfield]
    rfl
  let rest := call ++ (Quote.op ";" ++ [])
  have hassignment : Reads (Rules.upTo (n + 3)).early (assignment ++ (Quote.op ";" ++ rest))
      (Quote.op ";" ++ rest) (·.unplaced = assignment) := by
    show Reads (earlyExpression (Rules.upTo (n + 2))) (placeTokens [(fraw, fname)]
      ++ (Quote.op "=" ++ Quote.word "value" :: (Quote.op ";" ++ rest))) _ _
    refine reads_earlyExpression ⟨_, .inl rfl⟩ rfl
      (reads_unary_place (by simp) hfields rfl rfl) fun e he => ?_
    show Reads (climb (Rules.upTo (n + 1)) true e .jump) _ _ _
    refine reads_climb_assign rfl rfl (Nat.zero_le _) ?_ he
      (reads_unary_name (by decide) rfl rfl) rfl
    simp only [List.length_append, List.length_cons]
    omega
  have hcall : Reads (Rules.upTo (n + 3)).early rest (Quote.op ";" ++ []) (·.unplaced = call) := by
    show Reads (earlyExpression (Rules.upTo (n + 2))) (placeTokens [(eraw, ename), (araw, aname)]
      ++ (Quote.op "." ++ .ident false "publish" .start :: Quote.parens [] ::
        (Quote.op ";" ++ []))) _ _
    refine reads_earlyExpression ⟨_, .inl rfl⟩ rfl
      (reads_unary_call (by simp) hnames (by decide) rfl) fun e he => ?_
    show Reads (climb (Rules.upTo (n + 1)) true e .jump) _ _ _
    exact (reads_climb_operand rfl he).weaken fun e he => he.unplaced
  rw [hchange, show assignment ++ Quote.op ";" ++ (call ++ Quote.op ";")
    = assignment ++ (Quote.op ";" ++ rest) by simp [rest]]
  show Reads (statements (Rules.upTo (n + 3))) _ _ _
  have hstarts : startsStatement (assignment ++ (Quote.op ";" ++ rest)) := ⟨_, .inl rfl⟩
  have hstarts' : startsStatement rest := ⟨_, .inl rfl⟩
  refine (reads_statements_two hstarts hstarts' (length_lt_semicolon _ _) hassignment hcall).weaken
    fun parts hparts => hparts.trans ?_
  simp [rest]

/-- The statements of the setter. -/
theorem reads_setter_body (h : d.IsPlain τ) (hevents : events.IsName) :
    Reads ((Rules.upTo (n + 6)).statements) (d.setterMethod events).body []
      (unplacedTrees · = (d.setterMethod events).body) := by
  have hchange : Reads ((Rules.upTo (n + 4)).statements) (d.change events) []
      (unplacedTrees · = d.change events) := h.reads_change hevents
  obtain ⟨raw, name, hfield, hname, -⟩ := h.field
  have hnames : ∀ p ∈ [(raw, name)], isIdentifier p.1 p.2 = true := by simp [hname]
  let condition := placeTokens [(raw, name)] ++ (Quote.op "!=" ++ [Quote.word "value"])
  have hbody : (d.setterMethod events).body
      = Quote.word "if" :: (condition ++ [Quote.braces (d.change events)]) := by
    show [Quote.word "if"] ++ part d.field ++ Quote.op "!=" ++ [Quote.word "value"]
      ++ [Quote.braces (d.change events)] = _
    rw [hfield]
    rfl
  have hcondition : Reads ((Rules.upTo (n + 4)).expression false)
      (condition ++ [Quote.braces (d.change events)]) [Quote.braces (d.change events)]
      (·.unplaced = condition) :=
    reads_expression_compare (by simp) hnames (by decide) rfl rfl rfl
  rw [hbody]
  show Reads (statements (Rules.upTo (n + 5))) _ _ _
  refine reads_statements_one ⟨_, .inr (.inr (.inr rfl))⟩ ?_
  show Reads (earlyExpression (Rules.upTo (n + 4))) _ _ _
  exact reads_earlyExpression_if hcondition hchange

theorem reads_accessorMethod (h : d.IsPlain τ) (hevents : events.IsName) (vs : List Token) :
    Reads (implMember (Rules.upTo (n + 6))) ((d.accessorMethod events).tokens ++ vs) vs
      (·.unplaced = (d.accessorMethod events).tokens) := by
  refine reads_method true [] rfl rfl (by simp) h.accessor (reads_functionInputs_one true) ?_ rfl
    (h.reads_accessor_body hevents) vs
  exact isResult_type fun vs hvs =>
    reads_typeTree_reference true none true rfl rfl (reads_eventType hvs)

theorem reads_getterMethod (h : d.IsPlain τ) (hdepth : τ.depth ≤ n + 5) (vs : List Token) :
    Reads (implMember (Rules.upTo (n + 6))) (d.getterMethod.tokens ++ vs) vs
      (·.unplaced = d.getterMethod.tokens) := by
  have hmeta : ∀ body ∈ [[Quote.word "must_use"]], IsMeta (Rules.upTo (n + 6)) body := by
    simp only [List.mem_singleton, forall_eq]
    exact isMeta_word (by decide)
  have hresult : IsResult (Rules.upTo (n + 6)) d.getterMethod.result := by
    refine isResult_type fun vs hvs => ?_
    have hrow := τ.row hdepth
    have hstarts := startsType_append hrow.starts vs
    rw [h.type]
    exact reads_typeTree_reference true none false (startsType_word hstarts (by decide))
      (startsType_lifetime hstarts) (hrow.reads false vs hvs)
  exact reads_method true [[Quote.word "must_use"]] rfl rfl hmeta h.getter
    (reads_functionInputs_one false) hresult rfl h.reads_getter_body vs

theorem reads_setterMethod (h : d.IsPlain τ) (hevents : events.IsName) (hdepth : τ.depth ≤ n + 6)
    (vs : List Token) :
    Reads (implMember (Rules.upTo (n + 6))) ((d.setterMethod events).tokens ++ vs) vs
      (·.unplaced = (d.setterMethod events).tokens) := by
  let allowed := [Quote.word "allow",
    Quote.parens ([Quote.word "clippy"] ++ Quote.op "::" ++ [Quote.word "float_cmp"])]
  have hmeta : ∀ body ∈ [allowed], IsMeta (Rules.upTo (n + 6)) body := by
    simp only [List.mem_singleton, forall_eq]
    exact isMeta_list (by decide) rfl
  have hrow := τ.row hdepth
  have hcolons : spelledAhead "::".toList (Quote.op ":" ++ τ.tokens) = false :=
    startsType_spelledAhead hrow.starts (by decide)
  have hpattern : Reads (Rules.upTo (n + 6)).pattern
      (Quote.word "value" :: (Quote.op ":" ++ τ.tokens)) (Quote.op ":" ++ τ.tokens)
      (·.unplaced = [Quote.word "value"]) :=
    reads_pattern_name (by decide) hcolons rfl rfl rfl rfl rfl
  have hinputs : Reads (functionInputs (Rules.upTo (n + 6))) (d.setterMethod events).parameters []
      (unplacedTrees · = (d.setterMethod events).parameters) := by
    have hparameters : (d.setterMethod events).parameters = Quote.op "&" ++ (mark "mut" true
        ++ Quote.word "self" :: (Quote.op "," ++ Quote.word "value" ::
          (Quote.op ":" ++ τ.tokens))) := by
      rw [← h.type]
      rfl
    have htype : Reads ((Rules.upTo (n + 6)).type true) τ.tokens [] (·.unplaced = τ.tokens) := by
      simpa using hrow.reads true [] rfl
    rw [hparameters]
    exact reads_functionInputs_two true (List.cons_ne_nil _ _)
      (reads_argument_typed (by decide) hrow.starts hpattern htype)
  exact reads_method false [allowed] rfl rfl hmeta h.setter hinputs isResult_none rfl
    (h.reads_setter_body hevents) vs

/-- A method that is generated for a property. -/
theorem reads_member (h : d.IsPlain τ) (hevents : events.IsName) (hdepth : τ.depth ≤ n + 5)
    {m : Method} (hm : m ∈ d.methods events) (vs : List Token) :
    Reads (implMember (Rules.upTo (n + 6))) (m.tokens ++ vs) vs (·.unplaced = m.tokens) := by
  simp only [methods, List.mem_cons, List.not_mem_nil, or_false] at hm
  rcases hm with rfl | rfl | rfl
  · exact h.reads_accessorMethod hevents vs
  · exact h.reads_getterMethod hdepth vs
  · exact h.reads_setterMethod hevents (Nat.le_succ_of_le hdepth) vs

/-- The tokens of a slot without the comma after it. -/
def slotRow (d : Descriptor) : List Token :=
  Quote.doc d.slot.summary ++ Quote.word "pub" :: d.accessor :: (Quote.op ":" ++ eventType)

/-- A slot for the event of a property. -/
theorem reads_slot (h : d.IsPlain τ) {vs : List Token} (hvs : vs = [] ∨
    ∃ ws, vs = Quote.op "," ++ ws) :
    Reads (namedField (Rules.upTo (n + 6))) (slotRow d ++ vs) vs (·.unplaced = slotRow d) := by
  obtain ⟨raw, name, hacc, hname, -⟩ := h.accessor
  have hends : endsType vs = true := by
    rcases hvs with rfl | ⟨ws, rfl⟩ <;> rfl
  have hmeta : ∀ body ∈ [[Quote.word "doc"] ++ Quote.op "=" ++ [Quote.text d.slot.summary]],
      IsMeta (Rules.upTo (n + 6)) body := by
    simp only [List.mem_singleton, forall_eq]
    exact isMeta_doc _
  have htype : Reads ((Rules.upTo (n + 6)).type true) (eventType ++ vs) vs
      (·.unplaced = eventType) := reads_eventType hends
  have hread := reads_namedField hmeta hname htype
  simpa [slotRow, hacc, Quote.doc] using hread

end Descriptor.IsPlain

theorem separated_trailing (separator : List Token) (rows : List (List Token)) :
    separated separator true rows = rows.flatMap (· ++ separator) := by
  induction rows with
  | nil => rfl
  | cons row rows ih =>
    cases rows with
    | nil => simp [separated]
    | cons row' rows =>
      rw [separated, ih, ← List.append_assoc]
      rfl

namespace Augmentation

variable {owner : OwnerNames} {events : Token} {ds : List Descriptor} {n : Nat}

/-- The tokens of a path that names an owner. -/
structure IsOwnerPath (path : List Token) : Prop where
  front : ∃ first rest, path = Quote.word first :: rest ∧ first ≠ "const"
  reads : ∀ n vs, endsType vs = true →
    Reads ((Rules.upTo (n + 1)).type true) (path ++ vs) vs (·.unplaced = path)

theorem reads_eventsStruct (hname : owner.events.IsName)
    (hplain : ∀ d ∈ ds, ∃ τ, Descriptor.IsPlain d τ) (vs : List Token) :
    Reads (itemTree (Rules.upTo (n + 6))) ((ofProperties owner events ds).eventsStruct ++ vs) vs
      (·.unplaced = (ofProperties owner events ds).eventsStruct) := by
  obtain ⟨raw, name, hevents, hname, -⟩ := hname
  let summary := " Change events for the reactive properties of `" ++ owner.name.spelling ++ "`."
  let bodies := [[Quote.word "doc"] ++ Quote.op "=" ++ [Quote.text summary],
    [Quote.word "derive", Quote.parens ([Quote.word "Debug"] ++ Quote.op ","
      ++ [Quote.word "Default"])]]
  have hbodies : ∀ body ∈ bodies, IsMeta (Rules.upTo (n + 6)) body := by
    simp only [bodies, List.mem_cons, List.not_mem_nil, or_false, forall_eq_or_imp, forall_eq]
    exact ⟨isMeta_doc _, isMeta_list (by decide) rfl⟩
  have hrows : ∀ row ∈ ds.map Descriptor.IsPlain.slotRow, row ≠ [] ∧
      ∀ vs, (vs = [] ∨ ∃ ws, vs = Quote.op "," ++ ws) →
        Reads (namedField (Rules.upTo (n + 6))) (row ++ vs) vs (·.unplaced = row) := by
    intro row hrow
    obtain ⟨d, hd, rfl⟩ := List.mem_map.mp hrow
    obtain ⟨τ, hτ⟩ := hplain d hd
    exact ⟨List.cons_ne_nil _ _, fun vs hvs => hτ.reads_slot hvs⟩
  have hslots : (ds.map Descriptor.slot).flatMap Slot.tokens
      = separated (Quote.op ",") true (ds.map Descriptor.IsPlain.slotRow) := by
    rw [separated_trailing, List.flatMap_map, List.flatMap_map]
    rfl
  have htokens : (ofProperties owner events ds).eventsStruct = bodies.flatMap Quote.attr
      ++ Quote.word "pub" :: structTokens (.ident raw name .start)
        (ds.map Descriptor.IsPlain.slotRow) := by
    simp only [eventsStruct, ofProperties, hslots, hevents, structTokens, bodies,
      summary, Quote.doc,
      List.flatMap_cons, List.flatMap_nil]
    rfl
  rw [htokens, List.append_assoc]
  exact reads_itemTree_struct hbodies hname hrows

/-- What is generated for an owner is read as two items. -/
theorem reads_tokens (hname : owner.events.IsName) (hpath : IsOwnerPath owner.path)
    (hevents : events.IsName)
    (hplain : ∀ d ∈ ds, ∃ τ, Descriptor.IsPlain d τ ∧ τ.depth ≤ n + 5) :
    Reads (file (Rules.upTo (n + 7))) (ofProperties owner events ds).tokens []
      fun f => unplacedTokens f.tokens = (ofProperties owner events ds).tokens := by
  let a := ofProperties owner events ds
  let members := a.methods.map Method.tokens
  have hmembers : ∀ row ∈ members, row ≠ [] ∧ ∀ vs,
      Reads (implMember (Rules.upTo (n + 6))) (row ++ vs) vs (·.unplaced = row) := by
    intro row hrow
    obtain ⟨m, hm, rfl⟩ := List.mem_map.mp hrow
    obtain ⟨d, hd, hm⟩ := List.mem_flatMap.mp hm
    obtain ⟨τ, hτ, hdepth⟩ := hplain d hd
    exact ⟨List.cons_ne_nil _ _, hτ.reads_member hevents hdepth hm⟩
  have hfront : opensPlain members.flatten = true := by
    show opensPlain (a.methods.map Method.tokens).flatten = true
    cases a.methods <;> rfl
  let implementation := Quote.word "impl" :: (owner.path ++ [Quote.braces members.flatten])
  have htokens : a.tokens = [a.eventsStruct, implementation].flatten := by
    simp [tokens, implementation, members, a, List.flatMap_def]
    rfl
  have hitems : ∀ row ∈ [a.eventsStruct, implementation], row ≠ [] ∧ ∀ vs,
      Reads (itemTree (Rules.upTo (n + 6))) (row ++ vs) vs (·.unplaced = row) := by
    simp only [List.mem_cons, List.not_mem_nil, or_false, forall_eq_or_imp, forall_eq]
    refine ⟨⟨List.cons_ne_nil _ _, fun vs => ?_⟩, List.cons_ne_nil _ _, fun vs => ?_⟩
    · exact reads_eventsStruct hname (fun d hd => (hplain d hd).imp fun _ h => h.1) vs
    · have hread : Reads (itemTree (Rules.upTo (n + 6))) _ vs _ :=
        reads_itemTree_impl hpath.front (hpath.reads (n + 5)) hfront hmembers
      simpa [implementation] using hread
  show Reads (file (Rules.upTo (n + 7))) a.tokens [] fun f => unplacedTokens f.tokens = a.tokens
  rw [htokens]
  exact reads_file rfl hitems

end Augmentation

end Observable
