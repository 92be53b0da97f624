import Observable.Field.Declaration
import Observable.Proofs.Grammar.Frugal.Basic
/-! The shape of what is read: the attributes of the fields of a struct are a path, a path with a
group, or a path with a value. -/
namespace Observable.Grammar

/-- What a reader gives has a property, whatever it reads. -/
def Yields {α : Type} (p : Parser α) (P : α → Prop) : Prop := ∀ s a s', p s = .ok (a, s') → P a

namespace Yields

variable {α β : Type} {p p' : Parser α} {q : α → Parser β} {P : α → Prop} {Q : β → Prop}
  {look : List Token → Bool}

theorem pure {a : α} (h : P a) : Yields (Pure.pure a) P := by
  intro s a' s' hs
  cases hs
  exact h

theorem refuse (c : Complaint) : Yields (Grammar.refuse c) P := fun s a s' hs => by cases hs

theorem refuseAt (place : Position) (c : Complaint) : Yields (Grammar.refuseAt place c) P :=
  fun s a s' hs => by cases hs

theorem expecting (all : List Expectation) : Yields (Grammar.expecting all) P := refuse _

theorem bind (hp : Yields p P) (hq : ∀ a, P a → Yields (q a) Q) : Yields (p >>= q) Q := by
  intro s b s' hs
  obtain ⟨a, t, ha, hb⟩ := Frugal.bind_ok hs
  exact hq a (hp s a t ha) t b s' hb

theorem mono {P' : α → Prop} (h : Yields p P) (hP : ∀ a, P a → P' a) : Yields p P' :=
  fun s a s' hs => hP a (h s a s' hs)

theorem and {P' : α → Prop} (h : Yields p P) (h' : Yields p P') : Yields p fun a => P a ∧ P' a :=
  fun s a s' hs => ⟨h s a s' hs, h' s a s' hs⟩

/-- What a first reader gives does not matter. -/
theorem after (hq : ∀ a, Yields (q a) Q) : Yields (p >>= q) Q := by
  intro s b s' hs
  obtain ⟨a, t, -, hb⟩ := Frugal.bind_ok hs
  exact hq a t b s' hb

theorem ite {c : Prop} [Decidable c] (h : Yields p P) (h' : Yields p' P) :
    Yields (if c then p else p') P := by
  split
  · exact h
  · exact h'

/-- A test of what stands ahead decides between two readers. -/
theorem branch (h : Yields p P) (h' : Yields p' P) :
    Yields (Grammar.looking look >>= fun b => if b = true then p else p') P :=
  after fun _ => ite h h'

/-- Two readers of one thing, and what comes after either of them. -/
theorem joined {c : Prop} [Decidable c] (hq : ∀ a, Yields (q a) Q) :
    Yields (if c then p >>= q else p' >>= q) Q :=
  ite (after hq) (after hq)

theorem withSource (h : Yields p P) : Yields (Grammar.withSource p) fun r => P r.1 := by
  intro s r s' hs
  unfold Grammar.withSource at hs
  split at hs
  · rename_i a t ha
    cases hs
    exact h s a _ ha
  · cases hs

theorem iterateUpTo {step : α → Parser (α × Bool)}
    (hstep : ∀ a, P a → Yields (step a) fun r => P r.1) (n : Nat) {a : α} (h : P a) :
    Yields (Grammar.iterateUpTo step n a) P := by
  induction n generalizing a with
  | zero => exact pure h
  | succ n ih =>
    refine bind (hstep a h) fun r hr => ?_
    obtain ⟨a', again⟩ := r
    exact ite (ih hr) (pure hr)

theorem iterate {step : α → Parser (α × Bool)}
    (hstep : ∀ a, P a → Yields (step a) fun r => P r.1) {a : α} (h : P a) :
    Yields (Grammar.iterate step a) P :=
  fun s a' s' hs => iterateUpTo hstep _ h s a' s' hs

end Yields

/-- What is read of all of some tokens has what the reader gives at every depth. -/
theorem Yields.of_readAll {α : Type} {p : Rules → Parser α} {P : α → Prop}
    (hp : ∀ n, Yields (p (Rules.upTo n)) P) {tokens : List Token} {a : α}
    (h : readAll tokens p = .ok a) : P a := by
  unfold readAll readUpTo at h
  split at h
  · rename_i hread
    split at h
    · cases h
    · cases h
      exact hp _ _ _ _ hread
  · cases h

/-- A tree is a node of some kind. -/
def Tree.IsNode (kind : Kind) (t : Tree) : Prop := ∃ parts, t = .node kind parts

theorem yields_op (text : String) : Yields (op text) (Tree.IsNode .sequence) := by
  intro s t s' hs
  unfold op at hs
  split at hs
  · cases hs
    exact ⟨_, rfl⟩
  · cases hs

/-- Each item of a list has what the reader of one item gives. -/
theorem yields_listed {stop goesOn : List Token → Bool} {separator item : Parser Tree}
    {P : Tree → Prop} {Q : Tree → Prop} (habsent : Q .absent) (hseparator : Yields separator Q)
    (hitem : Yields item P) :
    Yields (listed stop goesOn separator item) fun pairs => ∀ x ∈ pairs, P x.1 ∧ Q x.2 := by
  refine .bind (.iterate (P := fun found => ∀ x ∈ found, P x.1 ∧ Q x.2) ?_ (by simp)) ?_
  · intro found hfound
    refine .branch (.pure hfound) (.bind hitem fun x hx => .branch ?_ ?_)
    · exact .bind hseparator fun c hc => .pure (List.forall_mem_cons.mpr ⟨⟨hx, hc⟩, hfound⟩)
    · exact .pure (List.forall_mem_cons.mpr ⟨⟨hx, habsent⟩, hfound⟩)
  · intro found hfound
    exact .pure (by simpa using hfound)

/-- Items with operators between them. -/
theorem yields_terminated {separator : String} {item : Parser Tree} {P : Tree → Prop}
    (hitem : Yields item P) :
    Yields (terminated separator item) fun found => ∀ t ∈ found, P t ∨ t.IsNode .sequence := by
  refine .bind (yields_listed ⟨[], rfl⟩ (yields_op separator) hitem) fun pairs hpairs => .pure ?_
  intro t ht
  obtain ⟨⟨x, c⟩, hx, ht⟩ := List.mem_flatMap.mp ht
  obtain ⟨hitem, hseparator⟩ := hpairs _ hx
  rcases List.mem_cons.mp ht with rfl | ht
  · exact .inl hitem
  · obtain rfl := List.mem_singleton.mp ht
    exact .inr hseparator

theorem yields_whileAhead {look : List Token → Bool} {item : Parser Tree} {P : Tree → Prop}
    (hitem : Yields item P) : Yields (whileAhead look item) fun found => ∀ t ∈ found, P t := by
  refine .bind (.iterate (P := fun found => ∀ t ∈ found, P t) ?_ (by simp)) ?_
  · intro found hfound
    refine .branch ?_ (.pure hfound)
    exact .bind hitem fun x hx => .pure (List.forall_mem_cons.mpr ⟨hx, hfound⟩)
  · intro found hfound
    exact .pure (by simpa using hfound)

theorem yields_allItems {item : Parser Tree} {P : Tree → Prop} (hitem : Yields item P) :
    Yields (allItems item) fun found => ∀ t ∈ found, P t := by
  refine .bind (.iterate (P := fun found => ∀ t ∈ found, P t) ?_ (by simp)) ?_
  · intro found hfound
    refine .branch (.pure hfound) ?_
    exact .bind hitem fun x hx => .pure (List.forall_mem_cons.mpr ⟨hx, hfound⟩)
  · intro found hfound
    exact .pure (by simpa using hfound)

theorem yields_inside {α : Type} {d : Delimiter} {p : Parser α} {P : α → Prop} (h : Yields p P) :
    Yields (inside d p) fun r => P r.1 ∧ ∃ place close, r.2 = .group d place close := by
  intro s r s' hs
  unfold inside at hs
  split at hs
  · split at hs
    · split at hs
      · rename_i found inner hread
        cases hs
        exact ⟨h _ _ _ hread, _, _, rfl⟩
      · cases hs
    · cases hs
  · cases hs

theorem yields_within {d : Delimiter} {p : Parser (List Tree)} {P : List Tree → Prop}
    (h : Yields p P) :
    Yields (within d p) fun t => ∃ place close parts, t = .group d place close parts ∧ P parts := by
  refine .bind (yields_inside h) fun r hr => ?_
  obtain ⟨parts, wrap⟩ := r
  obtain ⟨hparts, place, close, rfl⟩ := hr
  exact .pure ⟨place, close, parts, rfl, hparts⟩

/-- The contents of an attribute. -/
inductive Tree.IsMeta : Tree → Prop
  | path (path : Tree) : IsMeta (.node (.metaItem .path) [path])
  | list (path : Tree) (d : Delimiter) (body : List Token) (place close : Position) :
      IsMeta (.node (.metaItem .list) [path, .token (.group d body place close)])
  | value (path equals value : Tree) : IsMeta (.node (.metaItem .nameValue) [path, equals, value])

/-- An attribute in front of what it is about. -/
def Tree.IsAttribute (attr : Tree) : Prop :=
  ∃ mark place close content, content.IsMeta ∧
    attr = .node (.attr false) [.node .sequence mark, .group .bracket place close [content]]

theorem Tree.IsAttribute.exists_meta {attr : Tree} (h : attr.IsAttribute) :
    ∃ content, attr.attributeMeta? = some content ∧ content.IsMeta := by
  obtain ⟨mark, place, close, content, hcontent, rfl⟩ := h
  refine ⟨content, ?_, hcontent⟩
  cases hcontent <;> rfl

theorem yields_anyGroup :
    Yields anyGroup fun t => ∃ d body place close, t = .token (.group d body place close) := by
  intro s t s' hs
  unfold anyGroup at hs
  split at hs
  · split at hs
    · cases hs
    · cases hs
      exact ⟨_, _, _, _, rfl⟩
  · cases hs

theorem yields_metaRest (rules : Rules) (path : Tree) :
    Yields (metaRest rules path) Tree.IsMeta := by
  refine .branch ?_ (.branch ?_ (.pure (.path path)))
  · refine .bind yields_anyGroup ?_
    rintro _ ⟨d, body, place, close, rfl⟩
    exact .pure (.list path d body place close)
  · exact .after fun equals => .after fun value => .pure (.value path equals value)

theorem yields_outerAttribute (rules : Rules) :
    Yields (outerAttribute rules) Tree.IsAttribute := by
  refine .bind (yields_op "#") ?_
  rintro _ ⟨mark, rfl⟩
  have hcontent : Yields (do return [← metaItem rules] : Parser (List Tree))
      fun parts => ∃ content : Tree, content.IsMeta ∧ parts = [content] :=
    .bind (.after fun path => yields_metaRest rules path) fun content h =>
      .pure ⟨content, h, rfl⟩
  refine .bind (yields_within hcontent) ?_
  rintro _ ⟨place, close, _, rfl, content, hmeta, rfl⟩
  exact .pure ⟨mark, place, close, content, hmeta, rfl⟩

theorem yields_visibility : Yields visibility (Tree.IsNode .visibility) := by
  refine .branch (.after fun pub => .branch (.after fun group => ?_) ?_) ?_ <;>
    exact .pure ⟨_, rfl⟩

/-- A tree is a type. -/
def Tree.IsType (t : Tree) : Prop := ∃ form parts, t = .node (.type form) parts

theorem Tree.isType_plainType (parts : List Tree) : (plainType parts).IsType := ⟨_, _, rfl⟩

theorem yields_functionType (rules : Rules) : Yields (functionType rules) Tree.IsType :=
  .after fun _ => .after fun _ => .after fun _ => .after fun _ => .after fun _ => .after fun _ =>
    .pure (Tree.isType_plainType _)

theorem yields_lifetimeObject (rules : Rules) : Yields (lifetimeObject rules) Tree.IsType :=
  .after fun _ => .after fun _ => .pure (Tree.isType_plainType _)

theorem yields_typeInParentheses (rules : Rules) (plus : Bool) :
    Yields (typeInParentheses rules plus) Tree.IsType := by
  refine .after fun r => ?_
  obtain ⟨found, wrap⟩ := r
  cases found with
  | whole parts => exact .pure (Tree.isType_plainType _)
  | bound parts => exact .after fun more => .pure ⟨_, _, rfl⟩
  | single type =>
    dsimp only
    split
    · exact .branch (.after fun more => .pure (Tree.isType_plainType _))
        (.pure (Tree.isType_plainType _))
    · exact .pure (Tree.isType_plainType _)

theorem yields_typeWithPath (rules : Rules) (lifetimes : Tree) (plus : Bool) :
    Yields (typeWithPath rules lifetimes plus) Tree.IsType := by
  refine .after fun r => ?_
  obtain ⟨self, path⟩ := r
  refine .ite (.pure (Tree.isType_plainType _)) (.after fun call => ?_)
  cases call with
  | some parts => exact .pure (Tree.isType_plainType _)
  | none =>
    refine .after fun plusAhead => .ite (.after fun more => .pure ⟨_, _, rfl⟩) (.pure ⟨_, _, rfl⟩)

theorem yields_objectType (rules : Rules) (plus : Bool) :
    Yields (objectType rules plus) Tree.IsType := by
  refine .after fun r => ?_
  obtain ⟨⟨star, parts⟩, source⟩ := r
  refine .pure ?_
  split
  · exact Tree.isType_plainType _
  · exact Tree.isType_plainType _

theorem yields_implType (rules : Rules) (plus : Bool) : Yields (implType rules plus) Tree.IsType :=
  .after fun _ => .after fun _ => .after fun _ =>
    .ite (.pure (Tree.isType_plainType _)) (.refuseAt _ _)

theorem yields_pointerType (rules : Rules) : Yields (pointerType rules) Tree.IsType := by
  refine .after fun star => .branch ?_ (.after fun kind => ?_)
  · exact .after fun kind => .after fun type => .pure (Tree.isType_plainType _)
  · exact .after fun type => .pure (Tree.isType_plainType _)

theorem yields_typeAfterBinder (rules : Rules) (lifetimes : Tree) (plus : Bool) :
    Yields (typeAfterBinder rules lifetimes plus) Tree.IsType := by
  have hplain : ∀ parts, Tree.IsType (plainType parts) := Tree.isType_plainType
  refine .branch (yields_typeInParentheses rules plus) (.branch ?_ (.branch
    (yields_typeWithPath rules lifetimes plus) (.branch (yields_objectType rules plus) (.branch
      (.after fun _ => .pure (hplain _)) (.branch (yields_pointerType rules) (.branch ?_ (.branch
        (.after fun _ => .pure (hplain _)) (.branch (yields_implType rules plus) (.branch
          (.after fun _ => .pure (hplain _)) (.branch (yields_lifetimeObject rules)
            (.expecting _)))))))))))
  · refine .bind (yields_functionType rules) ?_
    rintro _ ⟨form, parts, rfl⟩
    exact .pure ⟨form, _, rfl⟩
  · exact .after fun _ => .after fun _ => .after fun _ => .after fun _ => .pure (hplain _)

theorem yields_typeTree (rules : Rules) (plus : Bool) : Yields (typeTree rules plus) Tree.IsType :=
  .branch (.after fun lifetimes => .branch (yields_typeAfterBinder rules lifetimes plus)
    (.expecting _)) (yields_typeAfterBinder rules .absent plus)

theorem yields_rules_type (n : Nat) (plus : Bool) :
    Yields ((Rules.upTo n).type plus) Tree.IsType := by
  cases n with
  | zero => exact .refuse _
  | succ n => exact yields_typeTree (Rules.upTo n) plus

/-- A tree has attributes of the right shape, if any. -/
def Tree.HasAttributes (t : Tree) : Prop := ∀ attr ∈ t.attributes, attr.IsAttribute

/-- Attributes in front of parts that are none. -/
theorem Tree.hasAttributes_node {kind : Kind} {attributes others : List Tree}
    (h : ∀ attr ∈ attributes, attr.IsAttribute)
    (hothers : ∀ t ∈ others, t.isOuterAttribute = false) :
    (Tree.node kind (attributes ++ others)).HasAttributes := by
  intro attr hattr
  obtain ⟨hmem, houter⟩ := List.mem_filter.mp hattr
  rcases List.mem_append.mp hmem with hmem | hmem
  · exact h attr hmem
  · rw [hothers attr hmem] at houter
    cases houter

theorem yields_outerAttributes (rules : Rules) :
    Yields (outerAttributes rules) fun attributes => ∀ attr ∈ attributes, attr.IsAttribute :=
  yields_whileAhead (yields_outerAttribute rules)

theorem yields_fieldType (n : Nat) (anonymous : Bool) :
    Yields (fieldType (Rules.upTo n) anonymous) Tree.IsType := by
  refine .branch (.after fun r => ?_) (yields_rules_type n true)
  obtain ⟨parts, source⟩ := r
  exact .pure (Tree.isType_plainType _)

theorem yields_namedField (n : Nat) : Yields (namedField (Rules.upTo n)) Tree.HasAttributes := by
  refine .bind (yields_outerAttributes _) fun attributes hattributes => ?_
  refine .bind yields_visibility ?_
  rintro _ ⟨vis, rfl⟩
  have hrest (anonymous : Bool) (name : Tree) : Yields (do
      let colon ← op ":"
      return .node .field (attributes ++ [.node .visibility vis, .node .name [name], colon,
        ← fieldType (Rules.upTo n) anonymous])) Tree.HasAttributes := by
    refine .bind (yields_op ":") ?_
    rintro _ ⟨colon, rfl⟩
    refine .bind (yields_fieldType n anonymous) ?_
    rintro _ ⟨form, parts, rfl⟩
    exact .pure (Tree.hasAttributes_node hattributes (by simp [Tree.isOuterAttribute]))
  exact .after fun anonymous => .ite (.after fun name => hrest anonymous name)
    (.after fun name => hrest anonymous name)

theorem yields_tupleField (n : Nat) : Yields (tupleField (Rules.upTo n)) Tree.HasAttributes := by
  refine .bind (yields_outerAttributes _) fun attributes hattributes => ?_
  refine .bind yields_visibility ?_
  rintro _ ⟨vis, rfl⟩
  refine .bind (yields_rules_type n true) ?_
  rintro _ ⟨form, parts, rfl⟩
  exact .pure (Tree.hasAttributes_node hattributes (by simp [Tree.isOuterAttribute]))

/-- The fields that a part of an item has have attributes of the right shape. -/
def Tree.HasFields (part : Tree) : Prop :=
  ∀ field ∈ (Tree.sequence [part]).fields, field.HasAttributes

/-- The fields of an item are those of its parts. -/
theorem Tree.forall_mem_fields {kind : Kind} {parts : List Tree}
    (h : ∀ part ∈ parts, part.HasFields) :
    ∀ field ∈ (Tree.node kind parts).fields, field.HasAttributes := by
  intro field hfield
  obtain ⟨part, hpart, hfield⟩ := List.mem_flatMap.mp hfield
  exact h part hpart field (by simpa [Tree.fields, Tree.sequence] using hfield)

theorem Tree.hasFields_token (t : Token) : (Tree.token t).HasFields := by
  simp [Tree.HasFields, Tree.fields, Tree.sequence]

theorem Tree.hasFields_group (d : Delimiter) (place close : Position) (parts : List Tree) :
    (Tree.group d place close parts).HasFields := by
  simp [Tree.HasFields, Tree.fields, Tree.sequence]

/-- Whether the parts of a node are fields. -/
def Kind.holdsFields : Kind → Bool
  | .namedFields | .tupleFields => true
  | _ => false

theorem Tree.hasFields_node {kind : Kind} (h : kind.holdsFields = false) (parts : List Tree) :
    (Tree.node kind parts).HasFields := by
  intro field hfield
  cases kind <;> simp_all [Tree.fields, Tree.sequence, Kind.holdsFields]

/-- What is between the fields of a list are no fields. -/
theorem yields_fieldList {field : Parser Tree} (h : Yields field Tree.HasAttributes) :
    Yields (terminated "," field) fun found =>
      ∀ t ∈ found, Tree.fields.isField t = true → t.HasAttributes := by
  refine (yields_terminated h).mono fun found hfound t ht hfield => ?_
  rcases hfound t ht with ht | ⟨parts, rfl⟩
  · exact ht
  · cases hfield

theorem yields_namedFields (n : Nat) : Yields (namedFields (Rules.upTo n)) Tree.HasFields := by
  refine .bind (yields_within (yields_fieldList (yields_namedField n))) ?_
  rintro _ ⟨place, close, found, rfl, hfound⟩
  refine .pure fun field hfield => ?_
  obtain ⟨hmem, hfield⟩ : field ∈ found ∧ Tree.fields.isField field = true := by
    simpa [Tree.fields, Tree.sequence] using hfield
  exact hfound field hmem hfield

theorem yields_tupleFields (n : Nat) : Yields (tupleFields (Rules.upTo n)) Tree.HasFields := by
  refine .bind (yields_within (yields_fieldList (yields_tupleField n))) ?_
  rintro _ ⟨place, close, found, rfl, hfound⟩
  refine .pure fun field hfield => ?_
  obtain ⟨hmem, hfield, -⟩ :
      field ∈ found ∧ Tree.fields.isField field = true ∧ field.name? = none := by
    simpa [Tree.fields, Tree.sequence] using hfield
  exact hfound field hmem hfield

theorem yields_op_hasFields (text : String) : Yields (op text) Tree.HasFields := by
  refine (yields_op text).mono ?_
  rintro _ ⟨parts, rfl⟩
  exact Tree.hasFields_node rfl parts

theorem yields_oneToken_hasFields (look : List Token → Bool) (c : Complaint) :
    Yields (oneToken look c) Tree.HasFields := by
  intro s t s' hs
  unfold oneToken at hs
  split at hs
  · split at hs
    · cases hs
      exact Tree.hasFields_token _
    · cases hs
  · cases hs

theorem yields_generics (rules : Rules) : Yields (generics rules) Tree.HasFields := by
  have hplain : ∀ parts, (Tree.node .generics parts).HasFields := Tree.hasFields_node rfl
  refine .branch (.after fun less => .after fun found => .after fun greater => ?_)
    (.pure (hplain _))
  exact .ite (.pure (hplain _)) (.pure (hplain _))

theorem yields_whereClause (rules : Rules) : Yields (whereClause rules) Tree.HasFields := by
  have habsent : Tree.absent.HasFields := Tree.hasFields_node rfl []
  refine .branch (.after fun where_ => .after fun found => ?_) (.pure habsent)
  exact .ite (.pure habsent) (.pure (Tree.hasFields_node rfl _))

theorem yields_structBody (n : Nat) :
    Yields (structBody (Rules.upTo n)) fun parts => ∀ part ∈ parts, part.HasFields := by
  have habsent : Tree.absent.HasFields := Tree.hasFields_node rfl []
  have hunit : (Tree.node .unitFields []).HasFields := Tree.hasFields_node rfl []
  refine .branch (.bind (yields_whereClause _) fun conditions hconditions => ?_) (.branch
    (.bind (yields_tupleFields n) fun fields hfields => ?_)
      (.branch ?_ (.branch ?_ (.expecting _))))
  · refine .branch (.bind (yields_namedFields n) fun fields hfields => .pure ?_)
      (.branch (.bind (yields_op_hasFields ";") fun semi hsemi => .pure ?_) (.expecting _))
    · simp [hconditions, hfields]
    · simp [hconditions, hunit, hsemi]
  · refine .branch (.bind (yields_whereClause _) fun conditions hconditions => .branch
      (.bind (yields_op_hasFields ";") fun semi hsemi => .pure ?_) (.expecting _)) (.branch
        (.bind (yields_op_hasFields ";") fun semi hsemi => .pure ?_) (.expecting _))
    · simp [hfields, hconditions, hsemi]
    · simp [hfields, habsent, hsemi]
  · exact .bind (yields_namedFields n) fun fields hfields => .pure (by simp [habsent, hfields])
  · exact .bind (yields_op_hasFields ";") fun semi hsemi => .pure (by simp [habsent, hunit, hsemi])

/-- The fields of an item that is read have attributes of the right shape. -/
def Tree.IsItem (item : Tree) : Prop :=
  ∃ kind parts, item = .node kind parts ∧ ∀ part ∈ parts, part.HasFields

theorem yields_structItem (n : Nat) {vis : Tree} (hvis : vis.HasFields) :
    Yields (structItem (Rules.upTo n) vis) Tree.IsItem := by
  refine .bind (yields_oneToken_hasFields _ _) fun keyword hkeyword => .after fun name =>
    .bind (yields_generics _) fun parameters hparameters => .bind (yields_structBody n)
      fun body hbody => .pure ⟨_, _, rfl, ?_⟩
  have hname : (Tree.node .name [name]).HasFields := Tree.hasFields_node rfl _
  simpa [or_imp, forall_and, hvis, hkeyword, hname, hparameters] using hbody

theorem yields_enumItem (rules : Rules) {vis : Tree} (hvis : vis.HasFields) :
    Yields (enumItem rules vis) Tree.IsItem := by
  refine .bind (yields_oneToken_hasFields _ _) fun keyword hkeyword => .after fun name =>
    .bind (yields_generics _) fun parameters hparameters => .bind (yields_whereClause _)
      fun conditions hconditions => ?_
  refine .bind (yields_within (P := fun _ => True) fun _ _ _ _ => trivial) ?_
  rintro _ ⟨place, close, variants, rfl, -⟩
  refine .pure ⟨_, _, rfl, ?_⟩
  have hname : (Tree.node .name [name]).HasFields := Tree.hasFields_node rfl _
  simp [hvis, hkeyword, hname, hparameters, hconditions, Tree.hasFields_group]

theorem yields_unionItem (n : Nat) {vis : Tree} (hvis : vis.HasFields) :
    Yields (unionItem (Rules.upTo n) vis) Tree.IsItem := by
  refine .bind (yields_oneToken_hasFields _ _) fun keyword hkeyword => .after fun name =>
    .bind (yields_generics _) fun parameters hparameters => .bind (yields_whereClause _)
      fun conditions hconditions => .bind (yields_namedFields n) fun fields hfields =>
        .pure ⟨_, _, rfl, ?_⟩
  have hname : (Tree.node .name [name]).HasFields := Tree.hasFields_node rfl _
  simp [hvis, hkeyword, hname, hparameters, hconditions, hfields]

theorem Tree.IsAttribute.hasFields {attr : Tree} (h : attr.IsAttribute) : attr.HasFields := by
  obtain ⟨mark, place, close, content, -, rfl⟩ := h
  exact Tree.hasFields_node rfl _

/-- An item that attributes can be derived for has fields whose attributes have the right shape. -/
theorem yields_deriveInput (n : Nat) : Yields (deriveInput (Rules.upTo n)) fun item =>
    ∀ field ∈ item.fields, field.HasAttributes := by
  refine .bind (yields_outerAttributes _) fun attributes hattributes => ?_
  refine .bind yields_visibility ?_
  rintro _ ⟨parts, rfl⟩
  have hvis : (Tree.node .visibility parts).HasFields := Tree.hasFields_node rfl parts
  have hrest (item : Tree) (h : item.IsItem) :
      ∀ field ∈ (item.withAttributes attributes).fields, field.HasAttributes := by
    obtain ⟨kind, parts, rfl, hparts⟩ := h
    refine Tree.forall_mem_fields fun part hpart => ?_
    rcases List.mem_append.mp hpart with hpart | hpart
    · exact (hattributes part hpart).hasFields
    · exact hparts part hpart
  have hread {p : Parser Tree} (h : Yields p Tree.IsItem) :
      Yields (do return (← p).withAttributes attributes) fun item =>
        ∀ field ∈ item.fields, field.HasAttributes :=
    .bind h fun item hitem => .pure (hrest item hitem)
  exact .after fun isStruct => .after fun isEnum => .after fun isUnion =>
    .ite (hread (yields_structItem n hvis)) (.ite (hread (yields_enumItem _ hvis))
      (.ite (hread (yields_unionItem n hvis)) (hread (.expecting _))))

/-- The attributes of the fields of a type that is read as a whole have the right shape. -/
theorem isAttribute_of_readAll {tokens : List Token} {item : Tree}
    (h : readAll tokens deriveInput = .ok item) :
    ∀ attr ∈ item.fields.flatMap Tree.attributes, attr.IsAttribute := by
  intro attr hattr
  obtain ⟨field, hfield, hattr⟩ := List.mem_flatMap.mp hattr
  exact Yields.of_readAll yields_deriveInput h field hfield attr hattr

end Observable.Grammar
