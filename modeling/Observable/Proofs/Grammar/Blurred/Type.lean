import Observable.Grammar.Type
import Observable.Proofs.Grammar.Blurred.Basic
/-! The readers of names, attributes, paths, generic parameters and types do not see places, nor the
spacing that no operator needs. -/
namespace Observable.Grammar

open Blurs

variable {b : Blur} {rules : Rules}

/-- The rules of the grammar follow themselves. -/
structure Rules.Follows (b : Blur) (rules : Rules) : Prop where
  type : ∀ plus, Grammar.Follows b (rules.type plus) (rules.type plus)
  expression : ∀ struct, Grammar.Follows b (rules.expression struct) (rules.expression struct)
  unary : ∀ struct, Grammar.Follows b (rules.unary struct) (rules.unary struct)
  climb : ∀ struct left base,
    Grammar.Follows b (rules.climb struct left base) (rules.climb struct (blur b left) base)
  early : Grammar.Follows b rules.early rules.early
  pattern : Grammar.Follows b rules.pattern rules.pattern
  statements : Grammar.Follows b rules.statements rules.statements
  item : Grammar.Follows b rules.item rules.item
  bound : ∀ capturing constant,
    Grammar.Follows b (rules.bound capturing constant) (rules.bound capturing constant)
  namedField : Grammar.Follows b rules.namedField rules.namedField
  useTree : ∀ rooted, Grammar.Follows b (rules.useTree rooted) (rules.useTree rooted)

namespace Follows

theorem plainPath : Follows b Grammar.plainPath Grammar.plainPath := by
  refine bind (op? rfl) fun leading => bind (iterate (fun found => ?_) rfl) fun found => ?_
  · refine branch (fun _ _ => by simp) (bind anyWord fun name => ?_) (pure (by simp))
    exact branch (fun _ hs => Look.op_blur hs rfl) (bind (op rfl) fun _ => pure (by simp))
      (pure (by simp))
  · cases found with
    | nil => exact bind ident fun _ => pure (by simp)
    | cons pair found =>
      simp only [blur_cons, blur_pair, Tree.isPresent_blur]
      exact ite (refuse _) (pure (by simp))

theorem restriction : Follows b Grammar.restriction Grammar.restriction :=
  branch (fun _ _ => Look.anyOf_blur _)
    (bind anyWord fun _ => branch (fun _ _ => Look.atEnd_blur) (pure (by simp)) (refuse _))
    (bind (word _) fun _ => bind plainPath fun _ => pure (by simp))

theorem restricts_blur (ts : List Token) : restricts (blur b ts) = restricts ts := by
  rcases ts with _ | ⟨_ | _ | _ | ⟨d, body, p, q⟩, ts⟩
  case cons.group => cases d <;> simp [restricts]
  all_goals rfl

theorem visibility : Follows b Grammar.visibility Grammar.visibility := by
  refine branch (fun _ _ => Look.word_blur _) (bind (word _) fun pub => ?_) (pure (by simp))
  exact branch (fun ts _ => restricts_blur ts) (bind (parens restriction) fun _ => pure (by simp))
    (pure (by simp))

theorem isInherited_blur (vis : Tree) : (blur b vis).isInherited = vis.isInherited := by
  rcases vis with _ | _ | ⟨kind, _ | ⟨part, parts⟩⟩
  all_goals try rfl
  all_goals cases kind <;> rfl

theorem index : Follows b Grammar.index Grammar.index := by
  intro s hs
  have hnegative : Look.op "-" (blur b s.rest) = Look.op "-" s.rest := Look.op_blur hs rfl
  simp only [Grammar.index, Input.blurred, hnegative, Look.literalForm?_blur]
  cases indexValue (Look.op "-" s.rest) (Look.literalForm? s.rest) with
  | error c => exact ⟨_, rfl⟩
  | ok value =>
    refine ⟨?_, hs.drop 1⟩
    have hplace := Input.place_blurred (b := b) s
    simp only [Input.blurred] at hplace
    simp only [hplace, indexToken, Tree.blur_token, blur_literal, blur_drop]

theorem member : Follows b Grammar.member Grammar.member :=
  branch (fun _ _ => Look.ident_blur) ident (branch (fun _ _ => Look.integer_blur) index (refuse _))

theorem isNamed_blur (t : Tree) : (blur b t).isNamed = t.isNamed := by
  rcases t with ⟨_ | _ | _ | _⟩ | _ | _ <;> rfl

theorem label : Follows b Grammar.label Grammar.label :=
  branch (fun _ hs => Look.lifetime_blur hs)
    (bind lifetime fun _ => bind (op rfl) fun _ => pure (by simp)) (pure rfl)

theorem metaPath : Follows b Grammar.metaPath Grammar.metaPath :=
  branch (fun _ _ => Look.word_blur _) (bind (word _) fun _ => pure (by simp)) plainPath

theorem whileAhead {look look' : List Token → Bool} {item item' : Parser Tree}
    (hlook : ∀ ts, b.Spares ts → look' (blur b ts) = look ts) (h : Follows b item item') :
    Follows b (Grammar.whileAhead look item) (Grammar.whileAhead look' item') := by
  refine bind (iterate (fun found => ?_) rfl) fun found => pure (by simp)
  exact branch hlook (bind h fun _ => pure (by simp)) (pure (by simp))

/-- A test of the second token sees no more than one of the first. -/
theorem second {ts : List Token} {look look' : List Token → Bool} (hs : b.Spares ts)
    (h : ∀ ts, b.Spares ts → look' (blur b ts) = look ts) :
    Look.second look' (blur b ts) = Look.second look ts :=
  Look.second_blur hs (h _ (Look.spares_skip hs))

theorem third {ts : List Token} {look look' : List Token → Bool} (hs : b.Spares ts)
    (h : ∀ ts, b.Spares ts → look' (blur b ts) = look ts) :
    Look.third look' (blur b ts) = Look.third look ts :=
  Look.third_blur hs (h _ (Look.spares_skip (Look.spares_skip hs)))

section

variable (h : rules.Follows b)

include h

theorem metaValue : Follows b (Grammar.metaValue rules) (Grammar.metaValue rules) := by
  refine bind (attempt (bind literal fun value => ?_)) fun lone => ?_
  · exact branch (fun _ _ => Look.atEnd_blur) (pure rfl) (refuse _)
  · cases lone with
    | some value => exact pure (by simp)
    | none =>
      refine branch (fun ts hs => ?_) (refuse _) (h.expression _)
      rw [Look.op_blur hs rfl, second hs fun _ _ => Look.bracket_blur]

theorem metaRest (path : Tree) :
    Follows b (Grammar.metaRest rules path) (Grammar.metaRest rules (blur b path)) := by
  refine branch (fun _ _ => by simp [anyDelimiter]) (bind anyGroup fun _ => pure (by simp)) ?_
  refine branch (fun _ hs => Look.op_blur hs rfl) (bind (op rfl) fun _ => ?_) (pure (by simp))
  exact bind (metaValue h) fun _ => pure (by simp)

theorem metaItem : Follows b (Grammar.metaItem rules) (Grammar.metaItem rules) :=
  bind metaPath fun path => metaRest h path

theorem outerAttribute : Follows b (Grammar.outerAttribute rules) (Grammar.outerAttribute rules) :=
  bind (op rfl) fun _ => bind (brackets (bind (metaItem h) fun _ => pure rfl)) fun _ =>
    pure (by simp)

theorem innerAttribute : Follows b (Grammar.innerAttribute rules) (Grammar.innerAttribute rules) :=
  bind (op rfl) fun _ => bind (op rfl) fun _ =>
    bind (brackets (bind (metaItem h) fun _ => pure rfl)) fun _ => pure (by simp)

theorem outerAttributes :
    Follows b (Grammar.outerAttributes rules) (Grammar.outerAttributes rules) :=
  whileAhead (fun _ hs => Look.op_blur hs rfl) (outerAttribute h)

theorem innerAttributes :
    Follows b (Grammar.innerAttributes rules) (Grammar.innerAttributes rules) := by
  refine whileAhead (fun ts hs => ?_) (innerAttribute h)
  rw [Look.op_blur hs rfl, second hs fun _ hs => Look.op_blur hs rfl]

theorem bodyWithAttributes :
    Follows b (Grammar.bodyWithAttributes rules) (Grammar.bodyWithAttributes rules) :=
  bind (braces (bind (innerAttributes h) fun _ => bind h.statements fun _ => pure (by simp)))
    fun _ => pure (by simp)

theorem block : Follows b (Grammar.block rules) (Grammar.block rules) :=
  bind (braces h.statements) fun _ => pure (by simp)

theorem constArgument : Follows b (Grammar.constArgument rules) (Grammar.constArgument rules) := by
  refine branch (fun _ _ => Look.literal_blur) (bind literal fun _ => pure (by simp)) ?_
  refine branch (fun _ _ => Look.ident_blur) (bind ident fun _ => pure (by simp)) ?_
  exact branch (fun _ _ => Look.brace_blur) (bind (bodyWithAttributes h) fun _ => pure (by simp))
    (expecting _)

theorem boundsUpTo {stop stop' : List Token → Bool}
    (hstop : ∀ ts, b.Spares ts → stop' (blur b ts) = stop ts) (constant : Bool) :
    Follows b (Grammar.boundsUpTo rules stop constant) (Grammar.boundsUpTo rules stop' constant) :=
  bind (listed hstop (fun _ hs => Look.op_blur hs rfl) (op rfl) (h.bound _ _)) fun _ =>
    pure (by simp)

end

theorem constAhead_blur (ts : List Token) : constAhead (blur b ts) = constAhead ts := by
  simp [constAhead]

theorem lonePathSegment?_blur (type : Tree) :
    lonePathSegment? (blur b type) = blur b (lonePathSegment? type) := by
  rcases type with _ | _ | ⟨kind, parts⟩
  · rfl
  · rfl
  cases kind with
  | type form =>
    cases form with
    | path =>
      rcases parts with _ | ⟨_ | _ | ⟨kind, parts⟩, _ | _⟩
      case cons.node.nil =>
        cases kind with
        | path =>
          rcases parts with _ | ⟨leading, _ | ⟨_ | _ | ⟨kind, inner⟩, _ | ⟨last, _ | _⟩⟩⟩
          case cons.cons.node.cons.nil =>
            cases kind with
            | segment =>
              rcases inner with _ | ⟨_, _ | ⟨_, _ | _⟩⟩
              case cons.cons.nil =>
                simp only [Tree.blur_node, blur_cons, blur_nil, lonePathSegment?,
                  Tree.isPresent_blur]
                split <;> simp
              all_goals simp [lonePathSegment?]
            | _ => simp [lonePathSegment?]
          all_goals simp [lonePathSegment?]
        | _ => simp [lonePathSegment?]
      all_goals simp [lonePathSegment?]
    | _ => simp [lonePathSegment?]
  | _ => simp [lonePathSegment?]

/-- An operator, and no longer one that begins with it. -/
theorem op_not_blur {ts : List Token} (hs : b.Spares ts) {text longer : String}
    (htext : isJoined text.toList = true) (hlonger : isJoined longer.toList = true) :
    (Look.op text (blur b ts) && !Look.op longer (blur b ts))
      = (Look.op text ts && !Look.op longer ts) := by
  rw [Look.op_blur hs htext, Look.op_blur hs hlonger]

theorem isLifetimeArgument_blur (t : Tree) :
    isLifetimeArgument (blur b t) = isLifetimeArgument t := by
  rcases t with _ | _ | ⟨kind, parts⟩
  · rfl
  · rfl
  · rw [Tree.blur_node]
    cases kind <;> rfl

theorem hasNoArguments_blur (t : Tree) : hasNoArguments (blur b t) = hasNoArguments t := by
  have hpresent := Tree.isPresent_blur (b := b) t
  unfold hasNoArguments
  split
  · rename_i colons less greater ht
    rcases t with _ | _ | ⟨kind, _ | ⟨x, _ | ⟨y, _ | ⟨z, _ | ⟨w, _ | _⟩⟩⟩⟩⟩
    case node.cons.cons.cons.cons.nil =>
      simp only [Tree.blur_node, blur_cons, blur_nil, Tree.node.injEq, List.cons.injEq] at ht
      obtain ⟨rfl, -, -, hz, -⟩ := ht
      rcases z with _ | _ | ⟨kind, _ | _⟩
      case node.nil =>
        simp only [Tree.blur_node, blur_nil, Tree.node.injEq] at hz
        obtain ⟨rfl, -⟩ := hz
        rfl
      all_goals simp at hz
    all_goals simp at ht
  · rename_i hnone
    split
    · simp at hnone
    · rw [hpresent]

theorem argumentsAhead_blur {ts : List Token} (hs : b.Spares ts) (expression : Bool) :
    argumentsAhead expression (blur b ts) = argumentsAhead expression ts := by
  rw [argumentsAhead, argumentsAhead, third hs fun _ hs => Look.op_blur hs rfl]
  simp (disch := decide) only [Look.op_blur hs]

section

variable (h : rules.Follows b)

include h

theorem genericArgument :
    Follows b (Grammar.genericArgument rules) (Grammar.genericArgument rules) := by
  refine branch (fun ts hs => ?_) (bind lifetime fun _ => pure (by simp)) ?_
  · rw [Look.lifetime_blur hs, second hs fun _ hs => Look.op_blur hs rfl]
  refine branch (fun ts _ => constAhead_blur ts) (bind (constArgument h) fun _ => pure (by simp)) ?_
  refine bind (h.type _) fun type => ?_
  rw [lonePathSegment?_blur]
  cases lonePathSegment? type with
  | none => exact pure (by simp)
  | some segment =>
    refine branch (fun _ hs => Look.op_blur hs rfl) (bind (op rfl) fun equals => ?_) ?_
    · exact branch (fun ts _ => constAhead_blur ts) (bind (constArgument h) fun _ => pure (by simp))
        (bind (h.type _) fun _ => pure (by simp))
    refine branch (fun _ hs => Look.op_blur hs rfl) (bind (op rfl) fun colon => ?_) (pure (by simp))
    refine bind (boundsUpTo h (fun ts hs => ?_) _) fun _ => pure (by simp)
    rw [Look.op_blur hs rfl, Look.op_blur hs rfl]

theorem angleArguments :
    Follows b (Grammar.angleArguments rules) (Grammar.angleArguments rules) := by
  refine bind (op? rfl) fun _ => bind (op rfl) fun _ => ?_
  refine bind (upTo (fun _ hs => Look.op_blur hs rfl) rfl (genericArgument h)) fun found => ?_
  exact bind (op rfl) fun _ => pure (by simp [blur_inFront isLifetimeArgument_blur])

theorem returnType (plus : Bool) :
    Follows b (Grammar.returnType rules plus) (Grammar.returnType rules plus) :=
  branch (fun _ hs => Look.op_blur hs rfl)
    (bind (op rfl) fun _ => bind (h.type _) fun _ => pure (by simp)) (pure rfl)

theorem parenthesizedArguments :
    Follows b (Grammar.parenthesizedArguments rules) (Grammar.parenthesizedArguments rules) :=
  bind (parens (terminated rfl (h.type _))) fun _ => bind (returnType h _) fun _ => pure (by simp)

theorem segment (expression : Bool) :
    Follows b (Grammar.segment rules expression) (Grammar.segment rules expression) := by
  refine branch (fun _ _ => Look.anyOf_blur _) (bind anyWord fun _ => pure (by simp)) ?_
  refine choice (fun _ _ => Look.word_blur _) anyWord ident fun name => ?_
  exact branch (fun _ hs => argumentsAhead_blur hs _)
    (bind (angleArguments h) fun _ => pure (by simp)) (pure (by simp))

theorem segments (expression : Bool) {goesOn goesOn' : List Token → Bool}
    (hgoesOn : ∀ ts, b.Spares ts → goesOn' (blur b ts) = goesOn ts) :
    Follows b (Grammar.segments rules expression goesOn)
      (Grammar.segments rules expression goesOn') :=
  bind (listed (fun _ _ => rfl) hgoesOn (op rfl) (segment h _)) fun _ => pure (by simp)

theorem path (expression : Bool) :
    Follows b (Grammar.path rules expression) (Grammar.path rules expression) := by
  refine bind (op? rfl) fun _ => bind (segments h _ fun ts hs => ?_) fun _ => pure (by simp)
  rw [Look.op_blur hs rfl, third hs fun _ _ => Look.paren_blur]

theorem qualifiedPath (expression : Bool) :
    Follows b (Grammar.qualifiedPath rules expression)
      (Grammar.qualifiedPath rules expression) := by
  refine branch (fun _ hs => Look.op_blur hs rfl) ?_ (bind (path h _) fun _ => pure (by simp))
  refine bind (op rfl) fun less => bind (h.type _) fun self => ?_
  refine clause (fun _ _ => Look.word_blur _) (word _) (path h _) fun trait => ?_
  exact bind (op rfl) fun _ => bind (op rfl) fun _ =>
    bind (segments h _ fun _ hs => Look.op_blur hs rfl) fun _ => pure (by simp)

end

theorem all_blur {test : Tree → Bool} (htest : ∀ t, test (blur b t) = test t) (parts : List Tree) :
    (blur b parts).all test = parts.all test := by
  induction parts with
  | nil => rfl
  | cons t parts ih => rw [blur_cons, List.all_cons, List.all_cons, htest, ih]

theorem any_blur {test : Tree → Bool} (htest : ∀ t, test (blur b t) = test t) (parts : List Tree) :
    (blur b parts).any test = parts.any test := by
  induction parts with
  | nil => rfl
  | cons t parts ih => rw [blur_cons, List.any_cons, List.any_cons, htest, ih]

theorem pathIsPlain_blur (path : Tree) : (blur b path).pathIsPlain = path.pathIsPlain := by
  rcases path with _ | _ | ⟨kind, parts⟩
  · rfl
  · rfl
  rw [Tree.blur_node]
  cases kind with
  | path =>
    refine all_blur (fun t => ?_) parts
    rcases t with _ | _ | ⟨kind, _ | ⟨name, _ | ⟨args, _ | _⟩⟩⟩
    all_goals try rfl
    all_goals cases kind <;> simp
  | _ => rfl

@[simp] theorem blur_qualified (self : Option Tree) (path : Tree) :
    blur b (qualified self path) = qualified (blur b self) (blur b path) := by
  cases self <;> simp [qualified]

theorem macroCall? (self : Option Tree) (path : Tree) :
    Follows b (Grammar.macroCall? self path) (Grammar.macroCall? (blur b self) (blur b path)) := by
  refine branch (fun ts hs => ?_) ?_ (pure rfl)
  · rw [isNone_blur, Look.op_blur hs rfl, Look.op_blur hs rfl, pathIsPlain_blur]
  · exact bind (op rfl) fun bang => bind anyGroup fun body => pure (by simp)

theorem parametersAhead_blur {ts : List Token} (hs : b.Spares ts) :
    parametersAhead (blur b ts) = parametersAhead ts := by
  have hskip := Look.spares_skip hs
  have hskip' := Look.spares_skip hskip
  simp (disch := decide) only [parametersAhead, Look.second, Look.third, isEmpty_blur,
    Look.skip_blur hs, Look.skip_blur hskip, Look.op_blur hs, Look.op_blur hskip,
    Look.op_blur hskip', Look.lifetime_blur hskip, Look.ident_blur, Look.word_blur]

theorem lifetimesUpTo {stop stop' : List Token → Bool}
    (hstop : ∀ ts, b.Spares ts → stop' (blur b ts) = stop ts) :
    Follows b (Grammar.lifetimesUpTo stop) (Grammar.lifetimesUpTo stop') :=
  bind (listed hstop (fun _ hs => Look.op_blur hs rfl) (op rfl) lifetime) fun _ => pure (by simp)

@[simp] theorem blur_colonAndBounds (colon : Tree) (bounds : List Tree) :
    blur b (colonAndBounds colon bounds) = colonAndBounds (blur b colon) (blur b bounds) := by
  cases bounds <;> simp [colonAndBounds]

theorem isLifetimeParameter_blur (t : Tree) :
    isLifetimeParameter (blur b t) = isLifetimeParameter t := by
  rcases t with _ | _ | ⟨kind, parts⟩
  · rfl
  · rfl
  · rw [Tree.blur_node]
    cases kind <;> rfl

section

variable (h : rules.Follows b)

include h

theorem lifetimeParameter :
    Follows b (Grammar.lifetimeParameter rules) (Grammar.lifetimeParameter rules) := by
  refine bind (outerAttributes h) fun _ => bind lifetime fun _ => ?_
  refine branch (fun _ hs => Look.op_blur hs rfl) (bind (op rfl) fun _ => ?_) (pure (by simp))
  refine bind (lifetimesUpTo fun ts hs => ?_) fun _ => pure (by simp)
  rw [Look.op_blur hs rfl, Look.op_blur hs rfl]

theorem typeParameter (attributes : List Tree) :
    Follows b (Grammar.typeParameter rules attributes)
      (Grammar.typeParameter rules (blur b attributes)) := by
  refine bind ident fun name => bind (op? rfl) fun colon => ?_
  rw [Tree.isPresent_blur]
  refine joined (boundsUpTo h (fun ts hs => ?_) _) (pure rfl) fun bounds => ?_
  · simp (disch := decide) only [Look.op_blur hs]
  · exact clause (fun _ hs => Look.op_blur hs rfl) (op rfl) (h.type _) fun _ => pure (by simp)

theorem constParameter (attributes : List Tree) :
    Follows b (Grammar.constParameter rules attributes)
      (Grammar.constParameter rules (blur b attributes)) := by
  refine bind (word _) fun const => bind ident fun name => bind (op rfl) fun colon => ?_
  refine bind (h.type _) fun type => ?_
  exact clause (fun _ hs => Look.op_blur hs rfl) (op rfl) (constArgument h) fun _ =>
    pure (by simp)

theorem lifetimeParameterAfter (attributes : List Tree) :
    Follows b (Grammar.lifetimeParameterAfter rules attributes)
      (Grammar.lifetimeParameterAfter rules (blur b attributes)) :=
  bind (lifetimeParameter h) fun _ => pure (by simp)

theorem genericParameter :
    Follows b (Grammar.genericParameter rules) (Grammar.genericParameter rules) := by
  refine bind (outerAttributes h) fun attributes => ?_
  refine branch (fun _ hs => Look.lifetime_blur hs) (lifetimeParameterAfter h _) ?_
  refine branch (fun _ _ => Look.ident_blur) (typeParameter h _) ?_
  refine branch (fun _ _ => Look.word_blur _) (constParameter h _) ?_
  exact branch (fun _ _ => Look.word_blur _) (bind anyWord fun _ => pure (by simp)) (expecting _)

theorem boundParameter :
    Follows b (Grammar.boundParameter rules) (Grammar.boundParameter rules) := by
  refine bind (outerAttributes h) fun attributes => ?_
  refine branch (fun _ _ => Look.ident_blur) (typeParameter h _) ?_
  refine branch (fun _ hs => Look.lifetime_blur hs) (lifetimeParameterAfter h _) ?_
  exact branch (fun _ _ => Look.word_blur _) (constParameter h _) (expecting _)

theorem generics : Follows b (Grammar.generics rules) (Grammar.generics rules) := by
  refine branch (fun _ hs => Look.op_blur hs rfl) (bind (op rfl) fun less => ?_) (pure (by simp))
  refine bind (upTo (fun _ hs => Look.op_blur hs rfl) rfl (genericParameter h)) fun found => ?_
  refine bind (op rfl) fun greater => ?_
  rw [isEmpty_blur]
  exact ite (pure (by simp)) (pure (by simp [blur_inFront isLifetimeParameter_blur]))

theorem binder : Follows b (Grammar.binder rules) (Grammar.binder rules) := by
  refine branch (fun _ _ => Look.word_blur _) (bind (word _) fun for_ => ?_) (pure rfl)
  refine bind (op rfl) fun less => ?_
  refine bind (upTo (fun _ hs => Look.op_blur hs rfl) rfl (boundParameter h)) fun found => ?_
  exact bind (op rfl) fun greater => pure (by simp)

end

theorem capture : Follows b Grammar.capture Grammar.capture := by
  refine branch (fun _ hs => Look.lifetime_blur hs) (bind lifetime fun _ => pure (by simp)) ?_
  refine branch (fun ts hs => ?_) (bind anyWord fun _ => pure (by simp)) (expecting _)
  rw [captureAhead, Look.lifetime_blur hs, Look.ident_blur, Look.word_blur, captureAhead]

theorem captureComma : Follows b Grammar.captureComma Grammar.captureComma :=
  branch (fun _ hs => Look.op_blur hs rfl) (op rfl) (expecting _)

theorem captures : Follows b Grammar.captures Grammar.captures := by
  refine bind (word _) fun use => bind (op rfl) fun less => ?_
  refine bind (listed (fun _ hs => Look.op_blur hs rfl) (fun ts hs => ?_) captureComma capture)
    fun found => ?_
  · rw [Look.op_blur hs rfl]
  · exact bind (op rfl) fun _ => pure (by simp [blur_inFront isLifetimeArgument_blur])

theorem constMark (constant : Bool) :
    Follows b (Grammar.constMark constant) (Grammar.constMark constant) := by
  refine bind nextPlace fun place => ?_
  refine branch (fun _ _ => Look.bracket_blur) ?_ ?_
  · refine bind (brackets (bind (word _) fun _ => pure rfl)) fun _ => ?_
    exact ite (pure rfl) (refuseAt _ _ _)
  refine branch (fun _ _ => Look.word_blur _) (bind (word _) fun _ => ?_) (pure rfl)
  exact ite (pure rfl) (refuseAt _ _ _)

theorem blur_withParentheses (arguments path : Tree) :
    blur b (withParentheses arguments path) = withParentheses (blur b arguments) (blur b path) := by
  rcases path with _ | _ | ⟨kind, parts⟩
  · rfl
  · simp [withParentheses]
  rw [Tree.blur_node]
  cases kind with
  | path =>
    obtain ⟨parts, rfl⟩ : ∃ row, parts = row.reverse := ⟨parts.reverse, by simp⟩
    simp only [withParentheses, blur_reverse, List.reverse_reverse]
    rcases parts with _ | ⟨last, _ | ⟨_ | _ | ⟨kind, inner⟩, before⟩⟩
    case cons.cons.node =>
      cases kind with
      | segment => cases inner <;> simp
      | _ => simp
    all_goals simp
  | _ => simp [withParentheses]

theorem pathSegments_blur (path : Tree) :
    (blur b path).pathSegments = blur b path.pathSegments := by
  rcases path with _ | _ | ⟨kind, parts⟩
  · rfl
  · rfl
  rw [Tree.blur_node]
  cases kind with
  | path =>
    simp only [Tree.pathSegments]
    induction parts with
    | nil => rfl
    | cons t parts ih =>
      rw [blur_cons, List.filter_cons, List.filter_cons, ih]
      rcases t with _ | _ | ⟨kind, inner⟩
      · rfl
      · rfl
      · rw [Tree.blur_node]
        cases kind <;> simp
  | _ => rfl

theorem lastHasNoArguments_blur (path : Tree) :
    lastHasNoArguments (blur b path) = lastHasNoArguments path := by
  rw [lastHasNoArguments, pathSegments_blur, getLast?_blur, lastHasNoArguments]
  rcases path.pathSegments.getLast? with _ | _ | _ | ⟨kind, parts⟩
  · rfl
  · rfl
  · rfl
  rw [Option.map_some, Tree.blur_node]
  cases kind with
  | segment =>
    rcases parts with _ | ⟨name, _ | ⟨arguments, _ | _⟩⟩
    case cons.cons.nil => exact hasNoArguments_blur arguments
    all_goals rfl
  | _ => rfl

theorem boundAhead_blur {ts : List Token} (hs : b.Spares ts) (constant : Bool) :
    boundAhead constant (blur b ts) = boundAhead constant ts := by
  simp (disch := decide) only [boundAhead, Look.anyWord_blur, Look.op_blur hs,
    Look.lifetime_blur hs, Look.paren_blur, Look.bracket_blur, Look.word_blur]

section

variable (h : rules.Follows b)

include h

theorem traitPath : Follows b (Grammar.traitPath rules) (Grammar.traitPath rules) := by
  refine bind (path h _) fun path => branch (fun ts hs => ?_) ?_ (pure rfl)
  · rw [lastHasNoArguments_blur, parenthesesAhead, Look.paren_blur, Look.op_blur hs rfl,
      third hs fun _ _ => Look.paren_blur, parenthesesAhead]
  · exact bind (op? rfl) fun _ => bind (parenthesizedArguments h) fun _ =>
      pure (by simp [blur_withParentheses])

theorem traitBound (constant : Bool) :
    Follows b (Grammar.traitBound rules constant) (Grammar.traitBound rules constant) := by
  refine bind (binder h) fun lifetimes => bind (constMark _) fun marked => ?_
  refine bind nextPlace fun place => bind (op? rfl) fun modifier => ?_
  simp only [Tree.isPresent_blur]
  refine joined (binder h) (pure rfl) fun inner => bind (traitPath h) fun path => ?_
  rw [Tree.isPresent_blur]
  exact ite (refuseAt _ _ _) (pure (by simp))

theorem bound (capturing constant : Bool) :
    Follows b (Grammar.bound rules capturing constant)
      (Grammar.bound rules capturing constant) := by
  refine branch (fun _ hs => Look.lifetime_blur hs) (bind lifetime fun _ => pure (by simp)) ?_
  refine branch (fun _ _ => Look.word_blur _) ?_ ?_
  · exact bind nextPlace fun _ => bind captures fun _ => ite (pure rfl) (refuseAt _ _ _)
  · refine bind (withSource (branch (fun _ _ => Look.paren_blur) ?_ (traitBound h _)))
      fun found => ?_
    · exact inside (traitBound h _) fun _ _ _ => pure (by simp)
    · refine pure ?_
      simp only [blur_bool]
      split <;> simp

theorem bounds (plus capturing constant : Bool) :
    Follows b (Grammar.bounds rules plus capturing constant)
      (Grammar.bounds rules plus capturing constant) := by
  refine bind (iterate (fun found => ?_) rfl) fun found => pure (by simp)
  refine bind (bound h _ _) fun x => branch (fun ts hs => ?_) ?_ (pure (by simp))
  · rw [Look.op_blur hs rfl]
  · refine bind (op rfl) fun separator => bind (looking fun ts hs => ?_) fun _ => pure (by simp)
    rw [boundAhead_blur hs]

end

theorem hasTrait_blur (found : List Tree) : hasTrait (blur b found) = hasTrait found := by
  refine any_blur (fun t => ?_) found
  rcases t with _ | _ | ⟨kind, parts⟩
  · rfl
  · rfl
  · rw [Tree.blur_node]
    cases kind <;> rfl

section

variable (h : rules.Follows b)

include h

theorem condition : Follows b (Grammar.condition rules) (Grammar.condition rules) := by
  refine branch (fun ts hs => ?_) ?_ ?_
  · rw [Look.lifetime_blur hs, second hs fun _ hs => Look.op_blur hs rfl]
  · refine bind lifetime fun name => bind (op rfl) fun colon => ?_
    refine bind (lifetimesUpTo fun ts hs => ?_) fun _ => pure (by simp)
    simp (disch := decide) only [lifetimeBoundsEnd, Look.atEnd_blur, Look.brace_blur,
      Look.op_blur hs]
  · refine bind (binder h) fun _ => bind (h.type _) fun _ => bind (op rfl) fun _ => ?_
    refine bind (boundsUpTo h (fun ts hs => ?_) _) fun _ => pure (by simp)
    simp (disch := decide) only [conditionsEnd, Look.atEnd_blur, Look.brace_blur, Look.op_blur hs]

theorem whereClause : Follows b (Grammar.whereClause rules) (Grammar.whereClause rules) := by
  refine branch (fun _ _ => Look.word_blur _) (bind (word _) fun where_ => ?_) (pure rfl)
  refine bind (listed (fun ts hs => ?_) (fun _ hs => Look.op_blur hs rfl) (op rfl) (condition h))
    fun found => ?_
  · simp (disch := decide) only [conditionsEnd, Look.atEnd_blur, Look.brace_blur, Look.op_blur hs]
  · rw [isEmpty_blur]
    exact ite (pure rfl) (pure (by simp))

end

theorem convention : Follows b Grammar.convention Grammar.convention :=
  branch (fun _ _ => Look.word_blur _)
    (bind (word _) fun _ => bind (optionally (fun _ _ => Look.string_blur) string) fun _ =>
      pure (by simp)) (pure rfl)

theorem nameAhead_blur (ts : List Token) : nameAhead (blur b ts) = nameAhead ts := by
  simp [nameAhead]

theorem variadic : Follows b Grammar.variadic Grammar.variadic := by
  refine branch (fun ts _ => nameAhead_blur ts) ?_ (given ?_)
  · exact bind anyWord fun _ => bind (op rfl) fun _ =>
      given (bind (op rfl) fun _ => bind (op? rfl) fun _ => pure (by simp))
  · exact bind (op rfl) fun _ => bind (op? rfl) fun _ => pure (by simp)

theorem inputName (self : Bool) : Follows b (Grammar.inputName self) (Grammar.inputName self) := by
  refine branch (fun ts hs => ?_)
    (bind anyWord fun _ => bind (op rfl) fun _ => pure (by simp)) (pure rfl)
  dsimp only
  rw [nameAhead_blur, Look.word_blur, second hs fun _ hs => Look.op_blur hs rfl,
    second hs fun _ hs => Look.op_blur hs rfl]

theorem isSelf_blur (t : Tree) :
    functionTypeInput.isSelf (blur b t) = functionTypeInput.isSelf t := by
  rcases t with ⟨⟨_ | _, name, _⟩ | _ | _ | _⟩ | _ | _
  case token.ident.false => by_cases hname : name = "self" <;>
    simp [functionTypeInput.isSelf, hname]
  all_goals rfl

section

variable (h : rules.Follows b)

include h

theorem functionTypeInput (self : Bool) :
    Follows b (Grammar.functionTypeInput rules self) (Grammar.functionTypeInput rules self) := by
  refine bind (withSource (branch (fun ts hs => ?_) ?_ ?_)) fun found => pure ?_
  · rw [Look.word_blur, second hs fun _ _ => Look.word_blur _]
  · refine bind (word _) fun _ => bind (inputName _) fun name => ?_
    rw [isEmpty_blur]
    exact ite (bind (word _) fun _ => pure rfl) (bind (h.type _) fun _ => pure rfl)
  · refine bind (inputName _) fun name => branch (fun ts hs => ?_) ?_ ?_
    · dsimp only
      rw [isEmpty_blur, any_blur isSelf_blur, Look.word_blur, second hs fun _ _ => Look.word_blur _]
    · exact bind (word _) fun _ => bind (word _) fun _ => pure rfl
    · exact bind (h.type _) fun _ => pure (by simp)
  · simp only [blur_bool]
    split <;> simp

theorem functionTypeInputs :
    Follows b (Grammar.functionTypeInputs rules) (Grammar.functionTypeInputs rules) := by
  refine bind (iterate (fun found => ?_) rfl) fun found => pure (by simp)
  refine branch (fun _ _ => Look.atEnd_blur) (pure (by simp)) ?_
  refine bind (outerAttributes h) fun attributes => branch (fun ts hs => ?_) ?_ ?_
  · have hskip := Look.spares_skip hs
    have hskip' := Look.spares_skip hskip
    simp (disch := decide) only [variadicAhead, nameAhead_blur, Look.second, Look.third,
      isEmpty_blur, Look.skip_blur hs, Look.skip_blur hskip, Look.op_blur hs, Look.op_blur hskip,
      Look.op_blur hskip']
  · exact bind variadic fun _ => pure (by simp)
  · rw [isEmpty_blur]
    refine bind (functionTypeInput h _) fun input => ?_
    exact branch (fun _ _ => Look.atEnd_blur) (pure (by simp)) (bind (op rfl) fun _ =>
      pure (by simp))

theorem functionType : Follows b (Grammar.functionType rules) (Grammar.functionType rules) :=
  bind (binder h) fun _ => bind (word? _) fun _ => bind convention fun _ => bind (word _) fun _ =>
    bind (parens (functionTypeInputs h)) fun _ => bind (returnType h _) fun _ =>
      pure (by simp [plainType])

theorem moreBounds : Follows b (Grammar.moreBounds rules) (Grammar.moreBounds rules) := by
  refine bind (iterate (fun found => ?_) rfl) fun found => pure (by simp)
  refine branch (fun _ hs => Look.op_blur hs rfl) ?_ (pure (by simp))
  exact bind (op rfl) fun _ => bind (bound h _ _) fun _ => pure (by simp)

theorem boundsAfterPath (plus : Bool) :
    Follows b (Grammar.boundsAfterPath rules plus) (Grammar.boundsAfterPath rules plus) := by
  refine bind (iterate (fun found => ?_) rfl) fun found => pure (by simp)
  refine branch (fun ts hs => ?_) ?_ (pure (by simp))
  · rw [Look.op_blur hs rfl]
  · refine bind (op rfl) fun _ => branch (fun _ hs => boundAhead_blur hs _) ?_ (pure (by simp))
    exact bind (bound h _ _) fun _ => pure (by simp)

theorem objectBounds (place place' : Position) (plus : Bool) :
    Follows b (Grammar.objectBounds rules place plus) (Grammar.objectBounds rules place' plus) := by
  refine bind (bounds h _ _ _) fun found => ?_
  rw [hasTrait_blur]
  exact ite (pure rfl) (refuseAt _ _ _)

theorem lifetimeObject : Follows b (Grammar.lifetimeObject rules) (Grammar.lifetimeObject rules) :=
  bind nextPlace fun _ => bind (objectBounds h _ _ _) fun _ => pure (by simp [plainType])

end

end Follows

instance : Blurs Parenthesized where
  blur b
    | .whole parts => .whole (blur b parts)
    | .bound parts => .bound (blur b parts)
    | .single type => .single (blur b type)

@[simp] theorem blur_whole (parts : List Tree) :
    blur b (Parenthesized.whole parts) = .whole (blur b parts) := rfl

@[simp] theorem blur_bound (parts : List Tree) :
    blur b (Parenthesized.bound parts) = .bound (blur b parts) := rfl

@[simp] theorem blur_single (type : Tree) :
    blur b (Parenthesized.single type) = .single (blur b type) := rfl

namespace Follows

section

variable (h : rules.Follows b)

include h

theorem parenthesizedType :
    Follows b (Grammar.parenthesizedType rules) (Grammar.parenthesizedType rules) := by
  refine branch (fun _ _ => Look.atEnd_blur) (pure rfl) ?_
  refine branch (fun _ hs => Look.lifetime_blur hs) (bind (lifetimeObject h) fun _ => pure rfl) ?_
  refine branch (fun _ hs => Look.op_blur hs rfl) (bind (traitBound h _) fun _ => pure rfl) ?_
  refine bind (h.type _) fun first => branch (fun _ hs => Look.op_blur hs rfl) ?_ (pure rfl)
  exact bind (op rfl) fun comma => bind (terminated rfl (h.type _)) fun _ => pure (by simp)

end

theorem asBound?_blur (type : Tree) : asBound? (blur b type) = blur b (asBound? type) := by
  rcases type with _ | _ | ⟨kind, parts⟩
  · rfl
  · rfl
  rw [Tree.blur_node]
  cases kind with
  | type form =>
    cases form with
    | bareBound =>
      rcases parts with _ | ⟨_ | ⟨d, p, q, inner⟩ | _, _ | _⟩
      case cons.group.nil => cases d <;> simp [asBound?]
      all_goals simp [asBound?]
    | _ => simp [asBound?]
  | _ => simp [asBound?]

section

variable (h : rules.Follows b)

include h

theorem typeInParentheses (plus : Bool) :
    Follows b (Grammar.typeInParentheses rules plus) (Grammar.typeInParentheses rules plus) := by
  refine inside (parenthesizedType h) fun found place close => ?_
  cases found with
  | whole parts => exact pure (by simp [plainType])
  | bound parts =>
    refine bind (moreBounds h) fun more => pure ?_
    rw [isEmpty_blur]
    simp
  | single type =>
    simp only [blur_single, asBound?_blur]
    cases asBound? type with
    | none => exact pure (by simp [plainType])
    | some parts =>
      refine branch (fun ts hs => ?_) (bind (moreBounds h) fun _ => ?_) (pure (by simp [plainType]))
      · rw [Look.op_blur hs rfl]
      · exact pure (by simp [plainType])

theorem typeWithPath (lifetimes : Tree) (plus : Bool) :
    Follows b (Grammar.typeWithPath rules lifetimes plus)
      (Grammar.typeWithPath rules (blur b lifetimes) plus) := by
  refine bind (qualifiedPath h _) fun found => ?_
  obtain ⟨self, path⟩ := found
  simp only [blur_pair, isSome_blur]
  refine ite (pure (by simp [plainType])) (bind (macroCall? self path) fun call => ?_)
  cases call with
  | some parts => exact pure (by simp [plainType])
  | none =>
    refine bind (looking fun ts hs => ?_) fun _ => ?_
    · rw [Look.op_blur hs rfl]
    rw [Tree.isPresent_blur]
    refine ite (bind (boundsAfterPath h _) fun more => pure ?_) (pure (by simp))
    rw [isEmpty_blur]
    simp

theorem objectType (plus : Bool) :
    Follows b (Grammar.objectType rules plus) (Grammar.objectType rules plus) := by
  refine bind (withSource ?_) fun found => pure ?_
  · exact bind nextPlace fun _ => bind (word _) fun _ => bind (op? rfl) fun _ =>
      bind (objectBounds h _ _ _) fun _ => pure (by simp)
  · simp only [Tree.isPresent_blur]
    split <;> simp [sourceType, plainType]

theorem bracketedType : Follows b (Grammar.bracketedType rules) (Grammar.bracketedType rules) := by
  refine bind (brackets (bind (h.type _) fun element => ?_)) fun _ => pure (by simp [plainType])
  refine branch (fun _ hs => Look.op_blur hs rfl) (bind (op rfl) fun _ => ?_) (pure (by simp))
  exact bind (h.expression _) fun _ => pure (by simp)

theorem pointerType : Follows b (Grammar.pointerType rules) (Grammar.pointerType rules) := by
  refine bind (op rfl) fun star => choice (fun _ _ => Look.anyOf_blur _) anyWord (expecting _) ?_
  exact fun kind => bind (h.type _) fun _ => pure (by simp [plainType])

theorem referenceType : Follows b (Grammar.referenceType rules) (Grammar.referenceType rules) :=
  bind (op rfl) fun _ => bind (optionally (fun _ hs => Look.lifetime_blur hs) lifetime) fun _ =>
    bind (word? _) fun _ => bind (h.type _) fun _ => pure (by simp [plainType])

theorem implType (plus : Bool) :
    Follows b (Grammar.implType rules plus) (Grammar.implType rules plus) := by
  refine bind nextPlace fun _ => bind (word _) fun _ => bind (bounds h _ _ _) fun found => ?_
  rw [hasTrait_blur]
  exact ite (pure (by simp [plainType])) (refuseAt _ _ _)

omit h in
theorem pathAhead_blur {ts : List Token} (hs : b.Spares ts) :
    pathAhead (blur b ts) = pathAhead ts := by
  simp (disch := decide) only [pathAhead, Look.ident_blur, Look.anyOf_blur, Look.op_blur hs]

theorem typeAfterBinder (lifetimes : Tree) (plus : Bool) :
    Follows b (Grammar.typeAfterBinder rules lifetimes plus)
      (Grammar.typeAfterBinder rules (blur b lifetimes) plus) := by
  refine branch (fun _ _ => Look.paren_blur) (typeInParentheses h _) ?_
  refine branch (fun _ _ => Look.anyOf_blur _) (bind (functionType h) fun _ => pure (by simp)) ?_
  refine branch (fun _ hs => pathAhead_blur hs) (typeWithPath h _ _) ?_
  refine branch (fun _ _ => Look.word_blur _) (objectType h _) ?_
  refine branch (fun _ _ => Look.bracket_blur) (bracketedType h) ?_
  refine branch (fun _ hs => Look.op_blur hs rfl) (pointerType h) ?_
  refine branch (fun _ hs => Look.op_blur hs rfl) (referenceType h) ?_
  refine branch (fun _ hs => Look.op_blur hs rfl)
    (bind (op rfl) fun _ => pure (by simp [plainType])) ?_
  refine branch (fun _ _ => Look.word_blur _) (implType h _) ?_
  refine branch (fun _ _ => Look.word_blur _)
    (bind (word _) fun _ => pure (by simp [plainType])) ?_
  exact branch (fun _ hs => Look.lifetime_blur hs) (lifetimeObject h) (expecting _)

theorem typeTree (plus : Bool) :
    Follows b (Grammar.typeTree rules plus) (Grammar.typeTree rules plus) := by
  refine branch (fun _ _ => Look.word_blur _) (bind (binder h) fun lifetimes => ?_)
    (typeAfterBinder h .absent _)
  refine branch (fun ts _ => ?_) (typeAfterBinder h _ _) (expecting _)
  rw [Look.ident_blur, Look.anyOf_blur]

end

end Follows
end Observable.Grammar
