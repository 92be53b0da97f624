import Observable.Grammar.Type
import Observable.Proofs.Grammar.Frugal.Basic
/-! The readers of names, attributes, paths, generic parameters and types are frugal. -/
namespace Observable.Grammar

open Weighed

variable {w : Weight} {rules : Rules}

/-- The rules of the grammar give no more than they take, whatever is weighed. Those for items and
statements may declare types, which have to count nothing. -/
structure Rules.Frugal (rules : Rules) : Prop where
  type : ∀ {w} plus, Grammar.Frugal w 0 (rules.type plus)
  expression : ∀ {w} struct, Grammar.Frugal w 0 (rules.expression struct)
  unary : ∀ {w} struct, Grammar.Frugal w 0 (rules.unary struct)
  climb : ∀ {w} struct left base, Grammar.Frugal w (weigh w left) (rules.climb struct left base)
  early : ∀ {w}, Grammar.Frugal w 0 rules.early
  pattern : ∀ {w}, Grammar.Frugal w 0 rules.pattern
  statements : ∀ {w}, w.declared = 0 → Grammar.Frugal w 0 rules.statements
  item : ∀ {w}, w.declared = 0 → Grammar.Frugal w 0 rules.item
  bound : ∀ {w} capturing constant, Grammar.Frugal w 0 (rules.bound capturing constant)
  namedField : ∀ {w}, Grammar.Frugal w 0 rules.namedField
  useTree : ∀ {w} rooted, Grammar.Frugal w 0 (rules.useTree rooted)

namespace Frugal

theorem plainPath : Frugal w 0 Grammar.plainPath := by
  refine bind (op? _) fun leading => bindUsing (iterate (fun found => ?_) []) (fun found => ?_)
    (Nat.zero_le _)
  · refine branch (bind anyWord fun name => ?_) (pure (by simp))
    exact branch (bind (op _) fun _ => pure (by simp +arith)) (pure (by simp +arith))
  · split
    · exact bind ident fun _ => pure (by simp)
    · exact ite (refuse _) (pure (by simp +arith))

theorem restriction : Frugal w 0 Grammar.restriction :=
  branch (bind anyWord fun _ => branch (pure (by simp)) (refuse _))
    (bind (word _) fun _ => bind plainPath fun _ => pure (by simp))

theorem visibility : Frugal w 0 Grammar.visibility := by
  refine branch (bind (word _) fun pub => ?_) (pure (by simp))
  exact branch (bind (parens restriction) fun _ => pure (by simp)) (pure (by simp))

theorem index : Frugal w 0 Grammar.index := by
  intro s a s' hs
  rw [Grammar.index] at hs
  split at hs
  · cases hs
    refine ⟨List.drop_suffix _ _, ?_⟩
    have hrest := weigh_take_drop (w := w) 1 s.rest
    simp only [indexToken, Tree.weigh_token, weigh_literal]
    omega
  · cases hs

theorem member : Frugal w 0 Grammar.member :=
  branch ident (branch index (refuse _))

theorem label : Frugal w 0 Grammar.label :=
  branch (bind lifetime fun _ => bind (op _) fun _ => pure (by simp)) (pure (by simp))

theorem metaPath : Frugal w 0 Grammar.metaPath :=
  branch (bind (word _) fun _ => pure (by simp)) plainPath

theorem whileAhead {look : List Token → Bool} {item : Parser Tree} (h : Frugal w 0 item) :
    Frugal w 0 (Grammar.whileAhead look item) :=
  bind (iterate (fun _ => branch (bind h fun _ => pure (by simp +arith)) (pure (by simp))) [])
    fun _ => pure (by simp)

section

variable (h : rules.Frugal)

include h

theorem metaValue : Frugal w 0 (Grammar.metaValue rules) := by
  refine bind (attempt (bind literal fun value => branch (pure (by simp)) (refuse _))) fun lone =>
    ?_
  split
  · exact pure (by simp)
  · exact branch (refuse _) ((h.expression _).mono (Nat.zero_le _))

theorem metaRest (path : Tree) : Frugal w (weigh w path) (Grammar.metaRest rules path) := by
  refine branch (bind anyGroup fun _ => pure (by simp)) (branch ?_ (pure (by simp)))
  exact bind (op _) fun _ => bind (metaValue h) fun _ => pure (by simp +arith)

theorem metaItem : Frugal w 0 (Grammar.metaItem rules) :=
  bind metaPath fun path => (metaRest h path).mono (by simp)

theorem outerAttribute : Frugal w 0 (Grammar.outerAttribute rules) :=
  bind (op _) fun _ => bind (brackets (bind (metaItem h) fun _ => pure (by simp))) fun _ =>
    pure (by simp)

theorem innerAttribute : Frugal w 0 (Grammar.innerAttribute rules) :=
  bind (op _) fun _ => bind (op _) fun _ =>
    bind (brackets (bind (metaItem h) fun _ => pure (by simp))) fun _ => pure (by simp +arith)

theorem outerAttributes : Frugal w 0 (Grammar.outerAttributes rules) :=
  whileAhead (outerAttribute h)

theorem innerAttributes : Frugal w 0 (Grammar.innerAttributes rules) :=
  whileAhead (innerAttribute h)

theorem bodyWithAttributes : Frugal w 0 (Grammar.bodyWithAttributes rules) :=
  enclosed (braces (bind (innerAttributes h) fun _ => bind (h.statements rfl) fun _ =>
    pure (by simp)))

theorem block : Frugal w 0 (Grammar.block rules) :=
  enclosed (braces (h.statements rfl))

theorem constArgument : Frugal w 0 (Grammar.constArgument rules) := by
  refine branch (bind literal fun _ => pure (by simp))
    (branch (bind ident fun _ => pure (by simp)) ?_)
  exact branch (bind (bodyWithAttributes h) fun _ => pure (by simp)) (expecting _)

theorem boundsUpTo (stop : List Token → Bool) (constant : Bool) :
    Frugal w 0 (Grammar.boundsUpTo rules stop constant) :=
  bind (listed (op _) (h.bound _ _)) fun _ => pure (by simp)

end

theorem weigh_lonePathSegment? {type segment : Tree} (h : lonePathSegment? type = some segment) :
    weigh w segment ≤ weigh w type := by
  unfold lonePathSegment? at h
  split at h
  · split at h
    · cases h
    · cases h
      simp +arith
  · cases h

section

variable (h : rules.Frugal)

include h

theorem genericArgument : Frugal w 0 (Grammar.genericArgument rules) := by
  refine branch (bind lifetime fun _ => pure (by simp))
    (branch (bind (constArgument h) fun _ => pure (by simp)) ?_)
  refine bind (h.type _) fun type => ?_
  split
  · rename_i segment hsegment
    have hweight := weigh_lonePathSegment? (w := w) hsegment
    refine branch ?_ (branch ?_ ?_)
    · refine bind (op _) fun _ => branch ?_ ?_
      · exact bind (constArgument h) fun _ => pure (by simp; omega)
      · exact bind (h.type _) fun _ => pure (by simp; omega)
    · exact bind (op _) fun _ => bind (boundsUpTo h _ _) fun _ => pure (by simp; omega)
    · exact pure (by simp)
  · exact pure (by simp)

theorem angleArguments : Frugal w 0 (Grammar.angleArguments rules) :=
  bind (op? _) fun _ => bind (op _) fun _ => bind (upTo (genericArgument h)) fun _ =>
    bind (op _) fun _ => pure (by simp +arith)

theorem returnType (plus : Bool) : Frugal w 0 (Grammar.returnType rules plus) :=
  branch (bind (op _) fun _ => bind (h.type _) fun _ => pure (by simp)) (pure (by simp))

theorem parenthesizedArguments : Frugal w 0 (Grammar.parenthesizedArguments rules) :=
  bind (parens (terminated (h.type _))) fun _ => bind (returnType h _) fun _ => pure (by simp)

theorem segment (expression : Bool) : Frugal w 0 (Grammar.segment rules expression) := by
  refine branch (bind anyWord fun _ => pure (by simp)) ?_
  refine branch (bind anyWord fun name => ?_) (bind ident fun name => ?_)
  all_goals exact branch (bind (angleArguments h) fun _ => pure (by simp)) (pure (by simp))

theorem segments (expression : Bool) (goesOn : List Token → Bool) :
    Frugal w 0 (Grammar.segments rules expression goesOn) :=
  bind (listed (op _) (segment h _)) fun _ => pure (by simp)

theorem path (expression : Bool) : Frugal w 0 (Grammar.path rules expression) :=
  bind (op? _) fun _ => bind (segments h _ _) fun _ => pure (by simp)

theorem qualifiedPath (expression : Bool) :
    Frugal w 0 (Grammar.qualifiedPath rules expression) := by
  refine branch ?_ (bind (path h _) fun _ => pure (by simp))
  refine bind (op _) fun less => bind (h.type _) fun self =>
    clause (word _) (path h _) fun trait => ?_
  exact bind (op _) fun _ => bind (op _) fun _ => bind (segments h _ _) fun _ =>
    pure (by simp +arith)

end

/-- A path goes into the call of a macro, or it is left for what comes after. -/
theorem macroCall? {β : Type} [Weighed β] {k : Nat} {self : Option Tree} {path : Tree}
    {f : Option (List Tree) → Parser β}
    (hcall : ∀ bang body, Frugal w (k + weigh w bang + weigh w body) (f (some [path, bang, body])))
    (hnone : Frugal w k (f none)) : Frugal w k (Grammar.macroCall? self path >>= f) := by
  rw [Grammar.macroCall?, bind_assoc]
  refine looks fun b => ?_
  split
  · rw [bind_assoc]
    refine bind (op _) fun bang => ?_
    rw [bind_assoc]
    exact bind anyGroup fun body => hcall bang body
  · exact hnone

@[simp] theorem weigh_qualified (self : Option Tree) (path : Tree) :
    weigh w (qualified self path) = weigh w self + weigh w path := by
  cases self <;> simp [qualified]

theorem lifetimesUpTo (stop : List Token → Bool) : Frugal w 0 (Grammar.lifetimesUpTo stop) :=
  bind (listed (op _) lifetime) fun _ => pure (by simp)

theorem weigh_colonAndBounds (colon : Tree) (bounds : List Tree) :
    weigh w (colonAndBounds colon bounds) ≤ weigh w colon + weigh w bounds := by
  unfold colonAndBounds
  split <;> simp

section

variable (h : rules.Frugal)

include h

theorem lifetimeParameter : Frugal w 0 (Grammar.lifetimeParameter rules) := by
  refine bind (outerAttributes h) fun attributes => bind lifetime fun name =>
    branch ?_ (pure (by simp))
  refine bind (op _) fun colon => bind (lifetimesUpTo _) fun bounds => pure ?_
  have hbounds := weigh_colonAndBounds (w := w) colon bounds
  simp
  omega

theorem typeParameter (attributes : List Tree) :
    Frugal w (weigh w attributes) (Grammar.typeParameter rules attributes) := by
  refine bind ident fun name => bind (op? _) fun colon =>
    joined (boundsUpTo h _ _) (pure (by simp)) fun bounds =>
    clause (op _) (h.type _) fun default => pure ?_
  have hbounds := weigh_colonAndBounds (w := w) colon bounds
  simp
  omega

theorem constParameter (attributes : List Tree) :
    Frugal w (weigh w attributes) (Grammar.constParameter rules attributes) :=
  bind (word _) fun _ => bind ident fun _ => bind (op _) fun _ => bind (h.type _) fun _ =>
    clause (op _) (constArgument h) fun _ => pure (by simp +arith)

theorem lifetimeParameterAfter (attributes : List Tree) :
    Frugal w (weigh w attributes) (Grammar.lifetimeParameterAfter rules attributes) :=
  bind (lifetimeParameter h) fun _ => pure (Tree.weigh_withAttributes _ _)

theorem genericParameter : Frugal w 0 (Grammar.genericParameter rules) := by
  refine bind (outerAttributes h) fun attributes => ?_
  refine branch ((lifetimeParameterAfter h _).mono (by simp))
    (branch ((typeParameter h _).mono (by simp)) (branch ((constParameter h _).mono (by simp)) ?_))
  exact branch (bind anyWord fun _ => pure (by simp)) (expecting _)

theorem boundParameter : Frugal w 0 (Grammar.boundParameter rules) := by
  refine bind (outerAttributes h) fun attributes => ?_
  refine branch ((typeParameter h _).mono (by simp))
    (branch ((lifetimeParameterAfter h _).mono (by simp)) ?_)
  exact branch ((constParameter h _).mono (by simp)) (expecting _)

theorem generics : Frugal w 0 (Grammar.generics rules) := by
  refine branch (bind (op _) fun less => bind (upTo (genericParameter h)) fun found => ?_)
    (pure (by simp))
  exact bind (op _) fun greater => ite (pure (by simp)) (pure (by simp +arith))

theorem binder : Frugal w 0 (Grammar.binder rules) := by
  refine branch (bind (word _) fun _ => bind (op _) fun _ => ?_) (pure (by simp))
  exact bind (upTo (boundParameter h)) fun _ => bind (op _) fun _ => pure (by simp +arith)

end

theorem capture : Frugal w 0 Grammar.capture :=
  branch (bind lifetime fun _ => pure (by simp))
    (branch (bind anyWord fun _ => pure (by simp)) (expecting _))

theorem captureComma : Frugal w 0 Grammar.captureComma := branch (op _) (expecting _)

theorem captures : Frugal w 0 Grammar.captures :=
  bind (word _) fun _ => bind (op _) fun _ => bind (listed captureComma capture) fun _ =>
    bind (op _) fun _ => pure (by simp +arith)

theorem constMark (constant : Bool) : Frugal w 0 (Grammar.constMark constant) := by
  refine places fun place => branch ?_ (branch ?_ (pure (by simp)))
  · exact bind (brackets (bind (word _) fun _ => pure (by simp))) fun _ =>
      ite (pure (by simp)) (refuseAt _ _)
  · exact bind (word _) fun _ => ite (pure (by simp)) (refuseAt _ _)

theorem weigh_withParentheses (arguments path : Tree) :
    weigh w (withParentheses arguments path) ≤ weigh w arguments + weigh w path := by
  unfold withParentheses
  split
  · rename_i parts
    split
    · rename_i last name rest before hparts
      have hweight := weigh_reverse (w := w) parts
      rw [hparts] at hweight
      simp at hweight ⊢
      omega
    · simp
  · simp

section

variable (h : rules.Frugal)

include h

theorem traitPath : Frugal w 0 (Grammar.traitPath rules) := by
  refine bind (path h _) fun path => branch ?_ (pure (by simp))
  refine bind (op? _) fun _ => bind (parenthesizedArguments h) fun arguments => pure ?_
  have hpath := weigh_withParentheses (w := w) arguments path
  omega

theorem traitBound (constant : Bool) : Frugal w 0 (Grammar.traitBound rules constant) :=
  bind (binder h) fun _ => bind (constMark _) fun _ => places fun _ => bind (op? _) fun _ =>
    joined (binder h) (pure (by simp)) fun _ => bind (traitPath h) fun _ =>
    ite (refuseAt _ _) (pure (by simp +arith))

theorem bound (capturing constant : Bool) :
    Frugal w 0 (Grammar.bound rules capturing constant) := by
  refine branch (bind lifetime fun _ => pure (by simp))
    (branch ?_ (withSource ?_ fun found source n => ?_))
  · exact places fun _ => bind captures fun found => ite (pure (by simp)) (refuseAt _ _)
  · exact branch (inside (traitBound h _) fun _ _ _ => pure (by simp)) (traitBound h _)
  · intro hfound hsource
    refine pure ?_
    simp only [Tree.weigh_node]
    split
    · simpa using hsource
    · simpa using hfound

theorem bounds (plus capturing constant : Bool) :
    Frugal w 0 (Grammar.bounds rules plus capturing constant) := by
  refine bind (iterate (fun found => ?_) []) fun found => pure (by simp)
  refine bind (bound h _ _) fun b => branch ?_ (pure (by simp +arith))
  exact bind (op _) fun separator => looks fun _ => pure (by simp +arith)

theorem condition : Frugal w 0 (Grammar.condition rules) := by
  refine branch (bind lifetime fun _ => bind (op _) fun _ => bind (lifetimesUpTo _) fun _ =>
    pure (by simp +arith)) ?_
  exact bind (binder h) fun _ => bind (h.type _) fun _ => bind (op _) fun _ =>
    bind (boundsUpTo h _ _) fun _ => pure (by simp +arith)

theorem whereClause : Frugal w 0 (Grammar.whereClause rules) := by
  refine branch (bind (word _) fun _ => bind (listed (op _) (condition h)) fun found => ?_)
    (pure (by simp))
  exact ite (pure (by simp)) (pure (by simp))

end

@[simp] theorem weigh_plainType (parts : List Tree) :
    weigh w (plainType parts) = weigh w parts := by
  simp [plainType]

@[simp] theorem weigh_sourceType (source : List Token) :
    weigh w (sourceType source) = weigh w source := by
  simp [sourceType]

theorem convention : Frugal w 0 Grammar.convention :=
  branch (bind (word _) fun _ => bind (optionally string) fun _ => pure (by simp)) (pure (by simp))

theorem variadic : Frugal w 0 Grammar.variadic :=
  clause anyWord (op _) fun _ => bind (op _) fun _ => bind (op? _) fun _ => pure (by simp +arith)

theorem inputName (self : Bool) : Frugal w 0 (Grammar.inputName self) :=
  branch (bind anyWord fun _ => bind (op _) fun _ => pure (by simp)) (pure (by simp))

section

variable (h : rules.Frugal)

include h

theorem functionTypeInput (self : Bool) : Frugal w 0 (Grammar.functionTypeInput rules self) := by
  refine withSource (branch ?_ ?_) fun found source n hfound hsource => pure ?_
  · refine bind (word _) fun _ => bind (inputName _) fun name => ite ?_ ?_
    · exact bind (word _) fun _ => pure (by simp)
    · exact bind (h.type _) fun _ => pure (by simp)
  · refine bind (inputName _) fun name => branch ?_ ?_
    · exact bind (word _) fun _ => bind (word _) fun _ => pure (by simp)
    · exact bind (h.type _) fun _ => pure (by simp)
  · simp only [Tree.weigh_sequence]
    split
    · simpa using hfound
    · simpa using hsource

theorem functionTypeInputs : Frugal w 0 (Grammar.functionTypeInputs rules) := by
  refine bind (iterate (fun found => ?_) []) fun found => pure (by simp)
  refine branch (pure (by simp)) (bind (outerAttributes h) fun attributes => ?_)
  refine branch (bind variadic fun _ => pure (by simp +arith)) ?_
  refine bind (functionTypeInput h _) fun input =>
    branch (pure (by simp +arith)) (bind (op _) fun _ => pure (by simp +arith))

theorem functionType : Frugal w 0 (Grammar.functionType rules) :=
  bind (binder h) fun _ => bind (word? _) fun _ => bind convention fun _ => bind (word _) fun _ =>
    bind (parens (functionTypeInputs h)) fun _ => bind (returnType h _) fun _ =>
    pure (by simp +arith)

theorem moreBounds : Frugal w 0 (Grammar.moreBounds rules) := by
  refine bind (iterate (fun found => ?_) []) fun found => pure (by simp)
  exact branch (bind (op _) fun _ => bind (bound h _ _) fun _ => pure (by simp +arith))
    (pure (by simp))

theorem boundsAfterPath (plus : Bool) : Frugal w 0 (Grammar.boundsAfterPath rules plus) := by
  refine bind (iterate (fun found => ?_) []) fun found => pure (by simp)
  refine branch (bind (op _) fun plus => ?_) (pure (by simp))
  exact branch (bind (bound h _ _) fun _ => pure (by simp +arith)) (pure (by simp +arith))

theorem objectBounds (place : Position) (plus : Bool) :
    Frugal w 0 (Grammar.objectBounds rules place plus) :=
  bind (bounds h _ _ _) fun _ => ite (pure (by simp)) (refuseAt _ _)

theorem lifetimeObject : Frugal w 0 (Grammar.lifetimeObject rules) :=
  places fun _ => bind (objectBounds h _ _) fun _ => pure (by simp)

end

end Frugal

/-- The parts of what the parentheses of a type hold. -/
def Parenthesized.parts : Parenthesized → List Tree
  | .whole parts | .bound parts => parts
  | .single type => [type]

instance : Weighed Parenthesized := ⟨fun w found => weigh w found.parts⟩

namespace Frugal

@[simp] theorem weigh_whole (parts : List Tree) :
    weigh w (Parenthesized.whole parts) = weigh w parts := rfl

@[simp] theorem weigh_bound (parts : List Tree) :
    weigh w (Parenthesized.bound parts) = weigh w parts := rfl

@[simp] theorem weigh_single (type : Tree) :
    weigh w (Parenthesized.single type) = weigh w type := rfl

theorem weigh_asBound? {type : Tree} {parts : List Tree} (h : asBound? type = some parts) :
    weigh (w.inside .parenthesis) parts = weigh (w.inside .parenthesis) type := by
  unfold asBound? at h
  split at h
  all_goals cases h
  all_goals simp

section

variable (h : rules.Frugal)

include h

theorem parenthesizedType : Frugal w 0 (Grammar.parenthesizedType rules) := by
  refine branch (pure (by simp)) (branch (bind (lifetimeObject h) fun _ => pure (by simp))
    (branch ?_ ?_))
  · exact bind (traitBound h _) fun _ => pure (by simp)
  · refine bind (h.type _) fun first => branch (bind (op _) fun comma => ?_) (pure (by simp))
    exact bind (terminated (h.type _)) fun _ => pure (by simp +arith)

theorem typeInParentheses (plus : Bool) : Frugal w 0 (Grammar.typeInParentheses rules plus) := by
  refine inside (parenthesizedType h) fun found place close => ?_
  cases found with
  | whole parts => exact pure (by simp)
  | bound parts => exact bind (moreBounds h) fun _ => pure (by simp)
  | single type =>
    dsimp only
    split
    · rename_i parts hparts
      have hweight := weigh_asBound? (w := w) hparts
      exact branch (bind (moreBounds h) fun _ => pure (by simp; omega)) (pure (by simp))
    · exact pure (by simp)

theorem typeWithPath (lifetimes : Tree) (plus : Bool) :
    Frugal w (weigh w lifetimes) (Grammar.typeWithPath rules lifetimes plus) := by
  refine bind (qualifiedPath h _) fun found => ite (pure (by simp)) ?_
  refine macroCall? (fun bang body => pure (by simp +arith))
    (looks fun b => ite ?_ (pure (by simp +arith)))
  exact bind (boundsAfterPath h _) fun more => pure (by simp +arith)

theorem objectType (plus : Bool) : Frugal w 0 (Grammar.objectType rules plus) := by
  refine withSource (places fun place => bind (word _) fun dyn => bind (op? _) fun star =>
    bind (objectBounds h _ _) fun _ => pure (by simp +arith)) fun found source n hfound hsource =>
    pure ?_
  split
  · simpa using hsource
  · simp at hfound ⊢
    omega

theorem bracketedType : Frugal w 0 (Grammar.bracketedType rules) := by
  refine bind (brackets (bind (h.type _) fun element => branch ?_ (pure (by simp)))) fun _ =>
    pure (by simp)
  exact bind (op _) fun _ => bind (h.expression _) fun _ => pure (by simp +arith)

theorem pointerType : Frugal w 0 (Grammar.pointerType rules) :=
  bind (op _) fun _ => looks fun _ =>
    joined anyWord (expecting _) fun _ => bind (h.type _) fun _ => pure (by simp +arith)

theorem referenceType : Frugal w 0 (Grammar.referenceType rules) :=
  bind (op _) fun _ => bind (optionally lifetime) fun _ => bind (word? _) fun _ =>
    bind (h.type _) fun _ => pure (by simp +arith)

theorem implType (plus : Bool) : Frugal w 0 (Grammar.implType rules plus) :=
  places fun _ => bind (word _) fun _ => bind (bounds h _ _ _) fun _ =>
    ite (pure (by simp)) (refuseAt _ _)

theorem typeAfterBinder (lifetimes : Tree) (plus : Bool) :
    Frugal w (weigh w lifetimes) (Grammar.typeAfterBinder rules lifetimes plus) := by
  refine branch ((typeInParentheses h _).mono (Nat.zero_le _)) (branch ?_ (branch ?_ ?_))
  · refine bind (functionType h) fun type => pure ?_
    simpa using Tree.weigh_withAttributes (w := w) [lifetimes] type
  · exact typeWithPath h _ _
  · refine mono ?_ (Nat.zero_le _)
    refine branch (objectType h _) (branch (bracketedType h) (branch (pointerType h) ?_))
    refine branch (referenceType h) (branch (bind (op _) fun _ => pure (by simp)) ?_)
    refine branch (implType h _) (branch (bind (word _) fun _ => pure (by simp)) ?_)
    exact branch (lifetimeObject h) (expecting _)

theorem typeTree (plus : Bool) : Frugal w 0 (Grammar.typeTree rules plus) := by
  refine branch (bind (binder h) fun lifetimes => branch ?_ (expecting _)) ?_
  · exact (typeAfterBinder h _ _).mono (by simp)
  · exact typeAfterBinder h .absent _

end

end Frugal

end Observable.Grammar
