import Observable.Grammar.Statement
import Observable.Proofs.Grammar.Blurred.Type
/-! The readers of patterns, expressions and statements do not see places, nor the spacing that no
operator needs. -/
namespace Observable.Grammar

open Blurs

variable {b : Blur} {rules : Rules}

namespace Follows

@[simp] theorem blur_plainPattern (parts : List Tree) :
    blur b (plainPattern parts) = plainPattern (blur b parts) :=
  Tree.blur_node _ _

theorem rangeOperator : Follows b Grammar.rangeOperator Grammar.rangeOperator := by
  refine branch (fun _ hs => Look.op_blur hs rfl) (bind (op rfl) fun _ => pure (by simp)) ?_
  refine branch (fun _ hs => Look.op_blur hs rfl) (expecting _) ?_
  exact branch (fun _ hs => Look.op_blur hs rfl) (bind (op rfl) fun _ => pure (by simp))
    (expecting _)

theorem blur_operator {place : Position} (h : b.loose place = false) (cs : List Char) :
    blur b (Token.operator cs place) = Token.operator cs (blur b place) := by
  induction cs with
  | nil => rfl
  | cons c cs ih =>
    cases cs with
    | nil => simp [Token.operator]
    | cons d cs => simp only [Token.operator, blur_cons, ih, blur_punct, h, Bool.false_eq_true,
        if_false]

/-- The spacing of the first point of `...` is seen. -/
theorem kept_dots {s : Input} (hs : b.Spares s.rest) (h : Look.op "..." s.rest = true) :
    b.loose s.place = false := by
  obtain ⟨rest, close, d, leftover⟩ := s
  rcases rest with _ | ⟨_ | ⟨c, s, p⟩ | _ | _, rest⟩
  case cons.punct =>
    rcases rest with _ | ⟨_ | ⟨c', s', p'⟩ | _ | _, rest⟩
    case cons.punct =>
      change Look.spells ['.', '.', '.'] (.punct c s p :: .punct c' s' p' :: rest) = true at h
      simp only [Look.spells, Bool.and_eq_true, decide_eq_true_eq] at h
      obtain ⟨⟨rfl, -⟩, ⟨rfl, -⟩, -⟩ := h
      exact hs.kept (.inr (show joins '.' '.' = true by decide))
    all_goals simp [Look.op, Look.spells] at h
  all_goals simp [Look.op, Look.spells] at h

theorem rangePatternOperator :
    Follows b Grammar.rangePatternOperator Grammar.rangePatternOperator := by
  refine branch (fun _ hs => op_not_blur hs rfl rfl) (fun s hs => ?_) rangeOperator
  by_cases hdots : Look.op "..." s.rest = true
  · have hread : Follows b
        (Grammar.op "..." >>= fun _ =>
          Pure.pure (Tree.ofTokens (Token.operator "..=".toList s.place), true))
        (Grammar.op "..." >>= fun _ =>
          Pure.pure (Tree.ofTokens (Token.operator "..=".toList (blur b s.place)), true)) :=
      bind (op rfl) fun _ => pure (by simp [blur_operator (kept_dots hs hdots)])
    rw [← Input.place_blurred] at hread
    exact hread s hs
  · obtain ⟨e, he⟩ : ∃ e, Grammar.op "..." s = .error e :=
      ⟨_, by rw [Grammar.op, if_neg hdots]⟩
    have hop := op (b := b) (show isJoined "...".toList = true from rfl) s hs
    rw [he] at hop
    obtain ⟨e', he'⟩ := hop
    simp only [Bind.bind, StateT.bind, Grammar.nextPlace, Except.bind, he, he']
    exact ⟨e', rfl⟩

section

variable (h : rules.Follows b)

include h

theorem constBlock : Follows b (Grammar.constBlock rules) (Grammar.constBlock rules) :=
  bind (word _) fun _ => bind (bodyWithAttributes h) fun _ => pure (by simp)

theorem pathExpression : Follows b (Grammar.pathExpression rules) (Grammar.pathExpression rules) :=
  bind (qualifiedPath h _) fun _ => pure (by simp)

theorem rangeBound : Follows b (Grammar.rangeBound rules) (Grammar.rangeBound rules) := by
  refine branch (fun _ _ => Look.literal_blur) (bind literal fun _ => pure (by simp)) ?_
  refine branch (fun _ hs => pathAhead_blur hs) (pathExpression h) ?_
  exact branch (fun _ _ => Look.word_blur _) (constBlock h) (expecting _)

theorem rangePatternEnd :
    Follows b (Grammar.rangePatternEnd rules) (Grammar.rangePatternEnd rules) := by
  refine branch (fun ts hs => ?_) (pure rfl) (rangeBound h)
  simp (disch := decide) only [rangePatternEnds, Look.atEnd_blur, Look.op_blur hs, Look.word_blur]

theorem rangePattern (start : Tree) :
    Follows b (Grammar.rangePattern rules start) (Grammar.rangePattern rules (blur b start)) := by
  refine bind rangePatternOperator fun limits => bind (rangePatternEnd h) fun stop => ?_
  rw [Tree.isPresent_blur, blur_bool]
  exact ite (pure (by simp)) (ite (refuse _) (pure (by simp)))

theorem rangePatternWithoutStart :
    Follows b (Grammar.rangePatternWithoutStart rules)
      (Grammar.rangePatternWithoutStart rules) := by
  refine bind rangeOperator fun limits => bind (rangePatternEnd h) fun stop => ?_
  rw [Tree.isPresent_blur, blur_bool]
  exact ite (pure (by simp)) (ite (refuse _) (pure (by simp)))

theorem literalPattern : Follows b (Grammar.literalPattern rules) (Grammar.literalPattern rules) :=
  bind (rangeBound h) fun _ =>
    branch (fun _ hs => Look.op_blur hs rfl) (rangePattern h _) (pure (by simp))

theorem alternatives : Follows b (Grammar.alternatives rules) (Grammar.alternatives rules) := by
  refine bind (op? rfl) fun leading => ?_
  refine bind (listed (fun _ _ => rfl) (fun ts hs => ?_) (op rfl) h.pattern) fun found => ?_
  · simp (disch := decide) only [alternativeAhead, Look.op_blur hs]
  · rcases found with _ | ⟨⟨lone, comma⟩, _ | ⟨next, found⟩⟩
    · exact pure (by simp)
    · simp only [blur_cons, blur_pair, blur_nil, Tree.isPresent_blur]
      exact ite (pure (by simp)) (pure rfl)
    · exact pure (by rw [blur_plainPattern, blur_cons, blur_flat]; rfl)

theorem patterns : Follows b (Grammar.patterns rules) (Grammar.patterns rules) :=
  terminated rfl (alternatives h)

theorem fieldPattern : Follows b (Grammar.fieldPattern rules) (Grammar.fieldPattern rules) := by
  refine bind (withSource (bind (word? _) fun boxed => bind (word? _) fun ref =>
    bind (word? _) fun mut_ => ?_)) fun found => pure ?_
  · simp only [Tree.isPresent_blur]
    refine joined member ident fun name => branch (fun ts hs => ?_) ?_ (pure (by simp))
    · rw [Look.op_blur hs rfl, isNamed_blur]
    · exact bind (op rfl) fun _ => bind (alternatives h) fun _ => pure (by simp)
  · simp only [Tree.isPresent_blur]
    split <;> simp

theorem fieldPatterns : Follows b (Grammar.fieldPatterns rules) (Grammar.fieldPatterns rules) := by
  refine bind (iterate (fun found => ?_) rfl) fun found => pure (by simp)
  refine branch (fun _ _ => Look.atEnd_blur) (pure (by simp)) ?_
  refine bind (outerAttributes h) fun attributes => ?_
  refine branch (fun _ hs => Look.op_blur hs rfl) (bind (op rfl) fun _ => pure (by simp)) ?_
  refine bind (fieldPattern h) fun field => ?_
  exact branch (fun _ _ => Look.atEnd_blur) (pure (by simp)) (bind (op rfl) fun _ => pure (by simp))

theorem patternWithPath :
    Follows b (Grammar.patternWithPath rules) (Grammar.patternWithPath rules) := by
  refine bind (qualifiedPath h _) fun found => bind (macroCall? found.1 found.2) fun call => ?_
  cases call with
  | some parts => exact pure (by simp)
  | none =>
    refine branch (fun _ _ => Look.brace_blur)
      (bind (braces (fieldPatterns h)) fun _ => pure (by simp)) ?_
    refine branch (fun _ _ => Look.paren_blur)
      (bind (parens (patterns h)) fun _ => pure (by simp)) ?_
    refine branch (fun _ hs => Look.op_blur hs rfl) ?_ (pure (by simp))
    simpa using rangePattern h (.node (.expression .path) (qualified found.1 found.2))

theorem namePattern : Follows b (Grammar.namePattern rules) (Grammar.namePattern rules) :=
  bind (word? _) fun _ => bind (word? _) fun _ =>
    choice (fun _ _ => Look.word_blur _) anyWord ident fun _ =>
    clause (fun _ hs => Look.op_blur hs rfl) (op rfl) h.pattern fun _ => pure (by simp)

omit h in
theorem openRangePlace?_blur (found : Tree) :
    openRangePlace? (blur b found) = blur b (openRangePlace? found) := by
  rcases found with _ | _ | ⟨kind, parts⟩
  · rfl
  · rfl
  rw [Tree.blur_node]
  cases kind with
  | pattern form =>
    cases form with
    | openRange =>
      rcases parts with _ | ⟨_, _ | ⟨limits, _ | ⟨_, _ | _⟩⟩⟩
      case cons.cons.cons.nil =>
        simp only [blur_cons, blur_nil, openRangePlace?, Tree.tokens_blur, head?_blur]
        cases limits.tokens.head? <;> simp
      all_goals rfl
    | _ => rfl
  | _ => rfl

theorem slicePattern : Follows b (Grammar.slicePattern rules) (Grammar.slicePattern rules) := by
  refine bind (alternatives h) fun found => ?_
  rw [openRangePlace?_blur]
  cases openRangePlace? found with
  | some place => exact refuseAt _ _ _
  | none => exact pure rfl

omit h in
theorem pathPatternAhead_blur {ts : List Token} (hs : b.Spares ts) :
    pathPatternAhead (blur b ts) = pathPatternAhead ts := by
  have hskip := Look.spares_skip hs
  simp (disch := decide) only [pathPatternAhead, Look.second, isEmpty_blur, Look.skip_blur hs,
    Look.op_blur hs, Look.op_blur hskip, Look.brace_blur, Look.paren_blur, Look.ident_blur,
    Look.word_blur, Look.anyOf_blur]

theorem patternTree : Follows b (Grammar.patternTree rules) (Grammar.patternTree rules) := by
  refine branch (fun _ hs => pathPatternAhead_blur hs) (patternWithPath h) ?_
  refine branch (fun _ _ => Look.word_blur _) (bind anyWord fun _ => pure (by simp)) ?_
  refine branch (fun _ _ => Look.word_blur _) ?_ ?_
  · exact bind (withSource (bind (word _) fun _ => h.pattern)) fun _ => pure (by simp)
  refine branch (fun ts hs => ?_) (literalPattern h) ?_
  · rw [Look.op_blur hs rfl, Look.literal_blur, Look.word_blur]
  refine branch (fun ts _ => ?_) (namePattern h) ?_
  · rw [Look.anyOf_blur, Look.ident_blur]
  refine branch (fun _ hs => Look.op_blur hs rfl) ?_ ?_
  · exact bind (op rfl) fun _ => bind (word? _) fun _ => bind h.pattern fun _ => pure (by simp)
  refine branch (fun _ _ => Look.paren_blur) (bind (parens (patterns h)) fun _ => pure (by simp)) ?_
  refine branch (fun _ _ => Look.bracket_blur) ?_ ?_
  · exact bind (brackets (terminated rfl (slicePattern h))) fun _ => pure (by simp)
  refine branch (fun _ hs => op_not_blur hs rfl rfl) (rangePatternWithoutStart h) ?_
  exact branch (fun _ hs => Look.op_blur hs rfl) (expecting _) (expecting _)

end

@[simp] theorem blur_expressionOf (form : ExprForm) (parts : List Tree) :
    blur b (expressionOf form parts) = expressionOf form (blur b parts) :=
  Tree.blur_node _ _

@[simp] theorem blur_indexToken (value : Nat) (place : Position) :
    blur b (indexToken value place) = indexToken value (blur b place) := rfl

/-- What is split off a number follows the place of the number. -/
theorem indexChain_blur (place : Position) (base dot : Tree) (parts : List (List Char)) :
    indexChain (blur b place) (blur b base) (blur b dot) parts
      = (indexChain place base dot parts).map (blur b) := by
  induction parts generalizing base dot with
  | nil => rfl
  | cons part parts ih =>
    simp only [indexChain]
    split
    · rfl
    · split
      · rw [← ih]
        simp [Token.operator]
      · rfl

/-- A fold that does not look at what is not seen. -/
theorem foldr_blur {α : Type} {f : Token → α → α} (hf : ∀ t a, f (blur b t) a = f t a) (a : α)
    (ts : List Token) : (blur b ts).foldr f a = ts.foldr f a := by
  induction ts with
  | nil => rfl
  | cons t ts ih => rw [blur_cons, List.foldr_cons, List.foldr_cons, ih, hf]

theorem indices (base dot : Tree) :
    Follows b (Grammar.indices base dot) (Grammar.indices (blur b base) (blur b dot)) := by
  refine bind nextPlace fun place => bind literal fun number => ?_
  simp only [Tree.tokens_blur]
  rw [foldr_blur, indexChain_blur]
  · cases indexChain place base dot _ with
    | ok found => exact pure rfl
    | error c => exact refuseAt _ _ _
  · intro t text
    cases t <;> simp [blur_punct]

theorem decimalAhead_blur (ts : List Token) : decimalAhead (blur b ts) = decimalAhead ts := by
  rw [decimalAhead, Look.literalForm?_blur, decimalAhead]

@[simp] theorem isRange_blur (e : Tree) : (blur b e).isRange = e.isRange := by
  rw [Tree.isRange, Tree.exprForm_blur, Tree.isRange]

theorem any_op_blur {ts : List Token} (hs : b.Spares ts) {texts : List String}
    (htexts : ∀ text ∈ texts, isJoined text.toList = true) :
    texts.any (Look.op · (blur b ts)) = texts.any (Look.op · ts) := by
  induction texts with
  | nil => rfl
  | cons text texts ih =>
    rw [List.any_cons, List.any_cons, ih fun t ht => htexts t (List.mem_cons_of_mem _ ht),
      Look.op_blur hs (htexts _ List.mem_cons_self)]

theorem isJoined_binaryOperators : ∀ p ∈ binaryOperators, isJoined p.1.toList = true := by decide

theorem binaryOperator?_blur {ts : List Token} (hs : b.Spares ts) :
    binaryOperator? (blur b ts) = binaryOperator? ts := by
  have hall := isJoined_binaryOperators
  simp only [binaryOperator?]
  generalize binaryOperators = operators at hall
  induction operators with
  | nil => rfl
  | cons o os ih =>
    simp only [List.find?_cons, Look.op_blur hs (hall o List.mem_cons_self),
      ih fun p hp => hall p (List.mem_cons_of_mem _ hp)]

theorem assignmentAhead_blur {ts : List Token} (hs : b.Spares ts) :
    assignmentAhead (blur b ts) = assignmentAhead ts :=
  op_not_blur hs rfl rfl

theorem precedenceAhead_blur {ts : List Token} (hs : b.Spares ts) :
    precedenceAhead (blur b ts) = precedenceAhead ts := by
  simp (disch := decide) only [precedenceAhead, binaryOperator?_blur hs, assignmentAhead_blur hs,
    Look.op_blur hs, Look.word_blur]

theorem afterCast?_blur {ts : List Token} (hs : b.Spares ts) :
    afterCast? (blur b ts) = afterCast? ts := by
  have hskip := Look.spares_skip hs
  have hskip' := Look.spares_skip hskip
  simp (disch := decide) only [afterCast?, Look.second, Look.third, isEmpty_blur,
    Look.skip_blur hs, Look.skip_blur hskip, Look.op_blur hs, Look.op_blur hskip', Look.word_blur,
    Look.ident_blur, Look.paren_blur, Look.bracket_blur]
  rfl

theorem rangeEndsAhead_blur {ts : List Token} (hs : b.Spares ts) (struct : Bool) :
    rangeEndsAhead struct (blur b ts) = rangeEndsAhead struct ts := by
  rw [rangeEndsAhead, any_op_blur hs (by decide)]
  simp (disch := decide) only [rangeEndsAhead, Look.atEnd_blur, Look.op_blur hs, Look.brace_blur,
    Look.word_blur]

theorem expressionAhead_blur {ts : List Token} (hs : b.Spares ts) :
    expressionAhead (blur b ts) = expressionAhead ts := by
  simp (disch := decide) only [expressionAhead, Look.op_blur hs, Look.anyWord_blur, Look.word_blur,
    Look.paren_blur, Look.bracket_blur, Look.brace_blur, Look.literal_blur, Look.lifetime_blur hs]

theorem closureBinderAhead_blur {ts : List Token} (hs : b.Spares ts) :
    closureBinderAhead (blur b ts) = closureBinderAhead ts := by
  rw [closureBinderAhead, Look.word_blur, second hs fun _ hs => parametersAhead_blur hs,
    closureBinderAhead]

theorem closureAhead_blur {ts : List Token} (hs : b.Spares ts) :
    closureAhead (blur b ts) = closureAhead ts := by
  have hskip := Look.spares_skip hs
  simp (disch := decide) only [closureAhead, closureBinderAhead_blur hs, Look.second, isEmpty_blur,
    Look.skip_blur hs, Look.op_blur hs, Look.op_blur hskip, Look.word_blur, Look.brace_blur]

theorem asyncBlockAhead_blur {ts : List Token} (hs : b.Spares ts) :
    asyncBlockAhead (blur b ts) = asyncBlockAhead ts := by
  have hskip := Look.spares_skip hs
  simp only [asyncBlockAhead, Look.second, Look.third, isEmpty_blur, Look.skip_blur hs,
    Look.skip_blur hskip, Look.word_blur, Look.brace_blur]

theorem tryBlockAhead_blur {ts : List Token} (hs : b.Spares ts) :
    tryBlockAhead (blur b ts) = tryBlockAhead ts := by
  rw [tryBlockAhead, Look.word_blur, second hs fun _ _ => Look.brace_blur, tryBlockAhead]

theorem pathExpressionAhead_blur {ts : List Token} (hs : b.Spares ts) :
    pathExpressionAhead (blur b ts) = pathExpressionAhead ts := by
  have hskip := Look.spares_skip hs
  simp (disch := decide) only [pathExpressionAhead, pathAhead_blur hs, Look.second, isEmpty_blur,
    Look.skip_blur hs, Look.op_blur hskip, Look.word_blur]

theorem checkCast : Follows b Grammar.checkCast Grammar.checkCast := by
  intro s hs
  have hafter := afterCast?_blur hs
  simp only [Grammar.checkCast, Input.blurred, hafter]
  cases afterCast? s.rest with
  | none => exact ⟨rfl, hs⟩
  | some what => exact ⟨_, rfl⟩

/-- What is seen of a row is known to the readers after it. -/
theorem seen {α β : Type} [Blurs α] [Blurs β] {a a' : List Token → α} {f g : α → Parser β}
    (h : ∀ ts, b.Spares ts → a' (blur b ts) = blur b (a ts))
    (hf : ∀ ts, Follows b (f (a ts)) (g (blur b (a ts)))) :
    Follows b ((fun s => .ok (a s.rest, s) : Parser α) >>= f)
      ((fun s => .ok (a' s.rest, s) : Parser α) >>= g) := by
  intro s hs
  have hnext := hf s.rest s hs
  rw [← h s.rest hs] at hnext
  exact hnext

section

variable (h : rules.Follows b)

include h

theorem arguments : Follows b (Grammar.arguments rules) (Grammar.arguments rules) :=
  parens (terminated rfl (h.expression _))

theorem afterPoint (base dot : Tree) :
    Follows b (Grammar.afterPoint rules base dot)
      (Grammar.afterPoint rules (blur b base) (blur b dot)) := by
  refine branch (fun _ _ => Look.word_blur _) (bind anyWord fun _ => pure (by simp)) ?_
  refine bind member fun name => choice (fun ts hs => ?_) (angleArguments h) (pure rfl) ?_
  · rw [isNamed_blur, Look.op_blur hs rfl]
  · intro turbofish
    refine bind (looking fun ts hs => ?_) fun _ => ?_
    · rw [isNamed_blur, Look.paren_blur]
    · rw [Tree.isPresent_blur]
      exact ite (bind (arguments h) fun _ => pure (by simp)) (pure (by simp))

theorem trailer (e : Tree) :
    Follows b (Grammar.trailer rules e) (Grammar.trailer rules (blur b e)) := by
  refine branch (fun _ _ => Look.paren_blur) (bind (arguments h) fun _ => pure (by simp)) ?_
  refine branch (fun ts hs => ?_) ?_ ?_
  · rw [op_not_blur hs rfl rfl, isRange_blur]
  · refine bind (op rfl) fun dot => branch (fun ts _ => decimalAhead_blur ts) ?_ ?_
    · refine bind (indices e dot) fun found => ?_
      exact ite (pure (by simp)) (bind (afterPoint h _ _) fun _ => pure (by simp))
    · exact bind (afterPoint h _ _) fun _ => pure (by simp)
  refine branch (fun _ _ => Look.bracket_blur) ?_ ?_
  · exact bind (brackets (bind (h.expression _) fun _ => pure (by simp))) fun _ => pure (by simp)
  refine branch (fun ts hs => ?_) (bind (op rfl) fun _ => pure (by simp)) (pure (by simp))
  rw [Look.op_blur hs rfl, isRange_blur]

theorem trailers (e : Tree) :
    Follows b (Grammar.trailers rules e) (Grammar.trailers rules (blur b e)) :=
  iterate (trailer h) rfl

theorem rightSide (struct : Bool) (precedence : Precedence) :
    Follows b (Grammar.rightSide rules struct precedence)
      (Grammar.rightSide rules struct precedence) := by
  refine bind (h.unary _) fun first => iterate (fun e => ?_) rfl
  refine bind (sees fun ts hs => precedenceAhead_blur hs) fun next => ite ?_ (pure (by simp))
  refine bind (sees fun ts _ => length_blur ts) fun before => bind (h.climb _ e _) fun longer => ?_
  exact bind (looking fun ts _ => by rw [length_blur]; rfl) fun _ => pure (by simp)

theorem rangeEnd (struct closed : Bool) :
    Follows b (Grammar.rangeEnd rules struct closed) (Grammar.rangeEnd rules struct closed) :=
  branch (fun ts hs => by rw [rangeEndsAhead_blur hs]) (pure rfl) (rightSide h _ _)

theorem operation (struct : Bool) (base : Precedence) (left : Tree) :
    Follows b (Grammar.operation rules struct base left)
      (Grammar.operation rules struct base (blur b left)) := by
  simp only [Grammar.operation, isRange_blur, Tree.exprForm_blur]
  refine ite (pure (by simp)) (seen (fun ts hs => ?_) fun ts => ?_)
  · rw [binaryOperator?_blur hs]
    cases binaryOperator? ts <;> rfl
  · cases hoperator : binaryOperator? ts with
    | some o =>
      have htext := isJoined_binaryOperators o (List.mem_of_find?_eq_some hoperator)
      refine ite (pure (by simp)) (ite (refuse _) ?_)
      exact bind (op htext) fun _ => bind (rightSide h _ _) fun _ => pure (by simp)
    | none =>
      refine branch (fun ts hs => by rw [assignmentAhead_blur hs]) ?_ ?_
      · exact bind (op rfl) fun _ => bind (rightSide h _ _) fun _ => pure (by simp)
      refine branch (fun ts hs => by rw [Look.op_blur hs rfl]) ?_ ?_
      · exact bind rangeOperator fun _ => bind (rangeEnd h _ _) fun _ => pure (by simp)
      refine branch (fun _ _ => Look.word_blur _) ?_ (pure (by simp))
      exact bind (word _) fun _ => bind (h.type _) fun _ => bind checkCast fun _ => pure (by simp)

theorem climb (struct : Bool) (left : Tree) (base : Precedence) :
    Follows b (Grammar.climb rules struct left base)
      (Grammar.climb rules struct (blur b left) base) :=
  iterate (operation h struct base) rfl

theorem expressionTree (struct : Bool) :
    Follows b (Grammar.expressionTree rules struct) (Grammar.expressionTree rules struct) :=
  bind (h.unary _) fun left => h.climb _ left _

theorem fieldValue : Follows b (Grammar.fieldValue rules) (Grammar.fieldValue rules) := by
  refine bind (outerAttributes h) fun attributes => bind member fun name => ?_
  refine branch (fun ts hs => ?_) ?_ (pure (by simp))
  · rw [Look.op_blur hs rfl, isNamed_blur]
  · exact bind (op rfl) fun _ => bind (h.expression _) fun _ => pure (by simp)

theorem fieldValues : Follows b (Grammar.fieldValues rules) (Grammar.fieldValues rules) := by
  refine bind (iterate (fun found => ?_) rfl) fun found => pure (by simp)
  refine branch (fun _ _ => Look.atEnd_blur) (pure (by simp)) ?_
  refine branch (fun _ hs => Look.op_blur hs rfl) (bind (op rfl) fun dots => ?_) ?_
  · exact branch (fun _ _ => Look.atEnd_blur) (pure (by simp))
      (bind (h.expression _) fun _ => pure (by simp))
  · refine bind (fieldValue h) fun field => ?_
    exact branch (fun _ _ => Look.atEnd_blur) (pure (by simp))
      (bind (op rfl) fun _ => pure (by simp))

omit h in
@[simp] theorem endsInBraces_blur (e : Tree) : (blur b e).endsInBraces = e.endsInBraces := by
  rw [Tree.endsInBraces, Tree.tokens_blur, getLast?_blur, Tree.endsInBraces]
  rcases e.tokens.getLast? with _ | _ | _ | _ | ⟨d, _, _, _⟩
  case some.group => cases d <;> simp
  all_goals rfl

omit h in
@[simp] theorem endsItself_blur (e : Tree) : (blur b e).endsItself = e.endsItself := by
  rw [Tree.endsItself, Tree.exprForm_blur, Tree.endsItself]

omit h in
@[simp] theorem isStatement_blur (e : Tree) : (blur b e).isStatement = e.isStatement := by
  rw [Tree.isStatement, Tree.exprForm_blur, endsItself_blur, Tree.isStatement]

theorem expressionWithPath (struct : Bool) :
    Follows b (Grammar.expressionWithPath rules struct)
      (Grammar.expressionWithPath rules struct) := by
  refine bind (qualifiedPath h _) fun found => bind (macroCall? found.1 found.2) fun call => ?_
  cases call with
  | some parts =>
    refine pure ?_
    rw [blur_expressionOf, ← Tree.blur_sequence, endsInBraces_blur]
  | none =>
    refine branch (fun ts _ => by rw [Look.brace_blur]) ?_ (pure (by simp))
    exact bind (braces (fieldValues h)) fun _ => pure (by simp)

theorem parenthesizedExpression :
    Follows b (Grammar.parenthesizedExpression rules) (Grammar.parenthesizedExpression rules) := by
  refine branch (fun _ _ => Look.atEnd_blur) (pure rfl) (bind (h.expression _) fun first => ?_)
  refine branch (fun _ _ => Look.atEnd_blur) (pure rfl) ?_
  exact bind (op rfl) fun _ => bind (terminated rfl (h.expression _)) fun _ => pure (by simp)

theorem bracketedExpression :
    Follows b (Grammar.bracketedExpression rules) (Grammar.bracketedExpression rules) := by
  refine branch (fun _ _ => Look.atEnd_blur) (pure rfl) (bind (h.expression _) fun first => ?_)
  refine branch (fun _ _ => Look.atEnd_blur) (pure rfl) ?_
  refine branch (fun _ hs => Look.op_blur hs rfl) ?_ ?_
  · exact bind (op rfl) fun _ => bind (terminated rfl (h.expression _)) fun _ => pure (by simp)
  refine branch (fun _ hs => Look.op_blur hs rfl) ?_ (refuse _)
  exact bind (op rfl) fun _ => bind (h.expression _) fun _ => pure (by simp)

theorem closureInput : Follows b (Grammar.closureInput rules) (Grammar.closureInput rules) := by
  refine bind (outerAttributes h) fun attributes => bind h.pattern fun pattern => ?_
  refine branch (fun _ hs => Look.op_blur hs rfl) ?_ ?_
  · exact bind (op rfl) fun _ => bind (h.type _) fun _ => pure (by simp)
  · rcases pattern with _ | _ | ⟨kind, parts⟩
    · exact pure (by simp)
    · exact pure (by simp)
    · rw [Tree.blur_node]
      cases kind with
      | pattern form => cases form <;> exact pure (by simp)
      | _ => exact pure (by simp)

theorem closure (struct : Bool) :
    Follows b (Grammar.closure rules struct) (Grammar.closure rules struct) := by
  refine bind (binder h) fun _ => bind (word? _) fun _ => bind (word? _) fun _ =>
    bind (word? _) fun _ => bind (word? _) fun _ => bind (op rfl) fun _ => ?_
  refine bind (upTo (fun _ hs => Look.op_blur hs rfl) rfl (closureInput h)) fun inputs => ?_
  refine bind (op rfl) fun _ => branch (fun _ hs => Look.op_blur hs rfl) ?_ ?_
  · exact bind (op rfl) fun _ => bind (h.type _) fun _ => bind (block h) fun _ => pure (by simp)
  · exact bind (h.expression _) fun _ => pure (by simp)

theorem jumpValue (struct : Bool) :
    Follows b (Grammar.jumpValue rules struct) (Grammar.jumpValue rules struct) :=
  branch (fun ts hs => by rw [expressionAhead_blur hs, Look.brace_blur]) (h.expression _) (pure rfl)

theorem breakExpression (struct : Bool) :
    Follows b (Grammar.breakExpression rules struct) (Grammar.breakExpression rules struct) := by
  refine bind (word _) fun _ => bind nextPlace fun _ => branch (fun ts hs => ?_) ?_ ?_
  · rw [Look.lifetime_blur hs, second hs fun _ hs => Look.op_blur hs rfl]
  · exact bind (h.expression _) fun _ => refuseAt _ _ _
  · exact bind (optionally (fun _ hs => Look.lifetime_blur hs) lifetime) fun _ =>
      bind (jumpValue h _) fun _ => pure (by simp)

theorem ifClause : Follows b (Grammar.ifClause rules) (Grammar.ifClause rules) :=
  bind (word _) fun _ => bind (h.expression _) fun _ => bind (block h) fun _ =>
    bind (word? _) fun _ => pure (by simp)

theorem ifExpression : Follows b (Grammar.ifExpression rules) (Grammar.ifExpression rules) := by
  refine bind (iterate (fun found => ?_) rfl) fun parts => pure (by simp)
  refine bind (ifClause h) fun clause => ?_
  have hpresent : ((blur b clause).getLast?.any Tree.isPresent)
      = (clause.getLast?.any Tree.isPresent) := by
    rw [getLast?_blur]
    cases clause.getLast? <;> simp
  rw [hpresent]
  refine ite (branch (fun _ _ => Look.word_blur _) (pure (by simp)) ?_) (pure (by simp))
  refine branch (fun _ _ => Look.brace_blur) ?_ (expecting _)
  exact bind (block h) fun _ => pure (by simp)

theorem whileLoop (name : Tree) :
    Follows b (Grammar.whileLoop rules name) (Grammar.whileLoop rules (blur b name)) :=
  bind (word _) fun _ => bind (h.expression _) fun _ => bind (bodyWithAttributes h) fun _ =>
    pure (by simp)

theorem forLoop (name : Tree) :
    Follows b (Grammar.forLoop rules name) (Grammar.forLoop rules (blur b name)) :=
  bind (word _) fun _ => bind (alternatives h) fun _ => bind (word _) fun _ =>
    bind (h.expression _) fun _ => bind (bodyWithAttributes h) fun _ => pure (by simp)

theorem endlessLoop (name : Tree) :
    Follows b (Grammar.endlessLoop rules name) (Grammar.endlessLoop rules (blur b name)) :=
  bind (word _) fun _ => bind (bodyWithAttributes h) fun _ => pure (by simp)

theorem labeled : Follows b (Grammar.labeled rules) (Grammar.labeled rules) := by
  refine bind label fun name => branch (fun _ _ => Look.word_blur _) (whileLoop h _) ?_
  refine branch (fun _ _ => Look.word_blur _) (forLoop h _) ?_
  refine branch (fun _ _ => Look.word_blur _) (endlessLoop h _) ?_
  refine branch (fun _ _ => Look.brace_blur) ?_ (refuse _)
  exact bind (bodyWithAttributes h) fun _ => pure (by simp)

theorem arm : Follows b (Grammar.arm rules) (Grammar.arm rules) := by
  refine bind (outerAttributes h) fun attributes => bind (alternatives h) fun pattern => ?_
  refine clause (fun _ _ => Look.word_blur _) (word _) (h.expression _) fun guard => ?_
  refine bind (op rfl) fun arrow => bind h.early fun body => ?_
  refine choice (fun ts _ => ?_) (op rfl) (op? rfl) fun comma => pure (by simp)
  rw [endsItself_blur, Look.atEnd_blur]

theorem matchExpression :
    Follows b (Grammar.matchExpression rules) (Grammar.matchExpression rules) :=
  bind (word _) fun _ => bind (h.expression _) fun _ =>
    bind (braces (bind (innerAttributes h) fun _ => bind (allItems (arm h)) fun _ =>
      pure (by simp))) fun _ => pure (by simp)

theorem jump (name : String) (form : ExprForm) :
    Follows b (Grammar.jump rules name form) (Grammar.jump rules name form) :=
  bind (word _) fun _ => bind (jumpValue h _) fun _ => pure (by simp)

end

theorem sourceExpression {α : Type} [Blurs α] {p q : Parser α} (h : Follows b p q) :
    Follows b (Grammar.sourceExpression p) (Grammar.sourceExpression q) :=
  bind (withSource h) fun _ => pure (by simp)

theorem builtin : Follows b Grammar.builtin Grammar.builtin :=
  bind (word _) fun _ => bind (op rfl) fun _ => bind ident fun _ =>
    bind (parens everything) fun _ =>
    pure rfl

section

variable (h : rules.Follows b)

include h

theorem keywordOperand (struct : Bool) :
    Follows b (Grammar.keywordOperand rules struct) (Grammar.keywordOperand rules struct) := by
  refine branch (fun _ _ => Look.word_blur _) (breakExpression h _) ?_
  refine branch (fun _ _ => Look.word_blur _) ?_ ?_
  · exact bind (word _) fun _ => bind (optionally (fun _ hs => Look.lifetime_blur hs) lifetime)
      fun _ => pure (by simp)
  refine branch (fun _ _ => Look.word_blur _) (jump h _ _) ?_
  refine branch (fun _ _ => Look.word_blur _) ?_ ?_
  · exact sourceExpression (bind (word _) fun _ => h.expression _)
  refine branch (fun _ _ => Look.bracket_blur) ?_ ?_
  · exact inside (bracketedExpression h) fun _ _ _ => pure (by simp)
  refine branch (fun _ _ => Look.word_blur _) ?_ ?_
  · exact bind (word _) fun _ => bind (alternatives h) fun _ => bind (op rfl) fun _ =>
      bind (h.unary _) fun left => bind (h.climb _ left _) fun _ => pure (by simp)
  refine branch (fun _ _ => Look.word_blur _) (ifExpression h) ?_
  refine branch (fun _ _ => Look.word_blur _) (whileLoop h .absent) ?_
  refine branch (fun _ _ => Look.word_blur _) (forLoop h .absent) ?_
  refine branch (fun _ _ => Look.word_blur _) (endlessLoop h .absent) ?_
  refine branch (fun _ _ => Look.word_blur _) (matchExpression h) ?_
  refine branch (fun _ _ => Look.word_blur _) (jump h _ _) ?_
  refine branch (fun _ _ => Look.word_blur _) ?_ ?_
  · exact bind (word _) fun _ => bind (bodyWithAttributes h) fun _ => pure (by simp)
  refine branch (fun _ _ => Look.word_blur _) (constBlock h) ?_
  refine branch (fun _ _ => Look.brace_blur) ?_ ?_
  · exact bind (bodyWithAttributes h) fun _ => pure (by simp)
  refine branch (fun _ hs => Look.op_blur hs rfl) ?_ ?_
  · exact bind rangeOperator fun _ => bind (rangeEnd h _ _) fun _ => pure (by simp)
  refine branch (fun _ _ => Look.word_blur _) (bind anyWord fun _ => pure (by simp)) ?_
  exact branch (fun _ hs => Look.lifetime_blur hs) (labeled h) (refuse _)

theorem operand (struct : Bool) :
    Follows b (Grammar.operand rules struct) (Grammar.operand rules struct) := by
  refine branch (fun _ _ => Look.literal_blur) (bind literal fun _ => pure (by simp)) ?_
  refine branch (fun _ hs => asyncBlockAhead_blur hs) ?_ ?_
  · exact bind (word _) fun _ => bind (word? _) fun _ => bind (block h) fun _ => pure (by simp)
  refine branch (fun _ hs => tryBlockAhead_blur hs) ?_ ?_
  · exact bind (word _) fun _ => bind (block h) fun _ => pure (by simp)
  refine branch (fun _ hs => closureAhead_blur hs) (closure h _) ?_
  refine branch (fun ts hs => ?_) (sourceExpression builtin) ?_
  · rw [Look.word_blur, second hs fun _ hs => Look.op_blur hs rfl]
  refine branch (fun _ hs => pathExpressionAhead_blur hs) (expressionWithPath h _) ?_
  refine branch (fun _ _ => Look.paren_blur) ?_ (keywordOperand h _)
  exact inside (parenthesizedExpression h) fun _ _ _ => pure (by simp)

omit h in
theorem rangePlace?_blur (e : Tree) : rangePlace? (blur b e) = blur b (rangePlace? e) := by
  rcases e with _ | _ | ⟨kind, parts⟩
  · rfl
  · rfl
  rw [Tree.blur_node]
  cases kind with
  | expression form =>
    cases form with
    | range =>
      rcases parts with _ | ⟨_, _ | ⟨limits, _ | ⟨_, _ | _⟩⟩⟩
      case cons.cons.cons.nil =>
        simp only [blur_cons, blur_nil, rangePlace?, Tree.tokens_blur, head?_blur]
        cases limits.tokens.head? <;> simp
      all_goals rfl
    | _ => rfl
  | _ => rfl

theorem operandWithTrailers (struct : Bool) (attributes : List Tree) (before : List Token) :
    Follows b (Grammar.operandWithTrailers rules struct attributes before)
      (Grammar.operandWithTrailers rules struct (blur b attributes) (blur b before)) := by
  refine bind (withSource (bind (operand h _) fun e => trailers h e)) fun found => ?_
  obtain ⟨e, source⟩ := found
  simp only [blur_pair, Tree.exprForm_blur, isEmpty_blur, rangePlace?_blur]
  refine ite (pure (by simp)) ?_
  have hplace : (if attributes.isEmpty = true then none else blur b (rangePlace? e))
      = blur b (if attributes.isEmpty = true then none else rangePlace? e) := by
    split <;> rfl
  rw [hplace]
  cases (if attributes.isEmpty = true then none else rangePlace? e) with
  | some place => exact refuseAt _ _ _
  | none => exact pure (by simp)

end

theorem referenceMarks : Follows b Grammar.referenceMarks Grammar.referenceMarks := by
  refine branch (fun ts hs => ?_) ?_ ?_
  · rw [Look.word_blur, second hs fun _ _ => Look.anyOf_blur _]
  · exact bind anyWord fun _ => bind anyWord fun _ => pure (by simp)
  · exact bind (word? _) fun _ => pure (by simp)

theorem firstOf {texts : List String} (htexts : ∀ text ∈ texts, isJoined text.toList = true) :
    Follows b (Grammar.firstOf texts) (Grammar.firstOf texts) := by
  induction texts with
  | nil => exact expecting _
  | cons text texts ih =>
    have htext := htexts text List.mem_cons_self
    exact branch (fun _ hs => Look.op_blur hs htext) (op htext)
      (ih fun t ht => htexts t (List.mem_cons_of_mem _ ht))

section

variable (h : rules.Follows b)

include h

theorem unaryTree (struct : Bool) :
    Follows b (Grammar.unaryTree rules struct) (Grammar.unaryTree rules struct) := by
  refine bind (withSource (outerAttributes h)) fun found => ?_
  refine branch (fun _ hs => Look.op_blur hs rfl) ?_ ?_
  · refine bind (op rfl) fun _ => bind referenceMarks fun marks => bind (h.unary _) fun _ => ?_
    exact pure (by simp)
  refine branch (fun _ hs => any_op_blur hs (by decide)) ?_ (operandWithTrailers h _ _ _)
  exact bind (firstOf (by decide)) fun _ => bind (h.unary _) fun _ => pure (by simp)

/-- An expression like a block may go on. -/
theorem blockLike {attach attach' : Tree → Tree} {p q : Parser Tree}
    (hattach : ∀ e, attach' (blur b e) = blur b (attach e)) (hp : Follows b p q) :
    Follows b
      (do
        let e ← p
        if ← Grammar.looking
            (fun ts => (Look.op "." ts && !Look.op ".." ts) || Look.op "?" ts) then
          rules.climb true (attach (← Grammar.trailers rules e)) .jump
        else return attach e)
      (do
        let e ← q
        if ← Grammar.looking
            (fun ts => (Look.op "." ts && !Look.op ".." ts) || Look.op "?" ts) then
          rules.climb true (attach' (← Grammar.trailers rules e)) .jump
        else return attach' e) := by
  refine bind hp fun e => branch (fun ts hs => ?_) ?_ (pure (hattach e))
  · simp (disch := decide) only [Look.op_blur hs]
  · refine bind (trailers h e) fun e => ?_
    rw [hattach]
    exact h.climb _ _ _

theorem earlyExpression :
    Follows b (Grammar.earlyExpression rules) (Grammar.earlyExpression rules) := by
  refine bind (outerAttributes h) fun attributes => ?_
  have hattach (e : Tree) :
      (if (blur b e).exprForm = .verbatim then blur b e
        else (blur b e).withAttributes (blur b attributes))
      = blur b (if e.exprForm = .verbatim then e else e.withAttributes attributes) := by
    rw [Tree.exprForm_blur]
    split <;> simp
  refine branch (fun _ _ => Look.word_blur _) (blockLike h hattach (ifExpression h)) ?_
  refine branch (fun _ _ => Look.word_blur _) (blockLike h hattach (whileLoop h .absent)) ?_
  refine branch (fun ts hs => ?_) (blockLike h hattach (forLoop h .absent)) ?_
  · rw [Look.word_blur, closureBinderAhead_blur hs]
  refine branch (fun _ _ => Look.word_blur _) (blockLike h hattach (endlessLoop h .absent)) ?_
  refine branch (fun _ _ => Look.word_blur _) (blockLike h hattach (matchExpression h)) ?_
  refine branch (fun _ hs => tryBlockAhead_blur hs) (blockLike h hattach ?_) ?_
  · exact bind (word _) fun _ => bind (block h) fun _ => pure (by simp)
  refine branch (fun _ _ => Look.word_blur _) (blockLike h hattach ?_) ?_
  · exact bind (word _) fun _ => bind (bodyWithAttributes h) fun _ => pure (by simp)
  refine branch (fun ts hs => ?_) (blockLike h hattach (constBlock h)) ?_
  · rw [Look.word_blur, second hs fun _ _ => Look.brace_blur]
  refine branch (fun _ _ => Look.brace_blur) (blockLike h hattach ?_) ?_
  · exact bind (bodyWithAttributes h) fun _ => pure (by simp)
  refine branch (fun _ hs => Look.lifetime_blur hs) (blockLike h hattach (labeled h)) ?_
  refine bind (h.unary _) fun e => ?_
  simpa only [hattach] using h.climb true
    (if e.exprForm = .verbatim then e else e.withAttributes attributes) .jump

end

@[simp] theorem blur_statementOf (parts : List Tree) :
    blur b (statementOf parts) = statementOf (blur b parts) :=
  Tree.blur_node _ _

theorem itemAhead_blur {ts : List Token} (hs : b.Spares ts) :
    itemAhead (blur b ts) = itemAhead ts := by
  have hskip := Look.spares_skip hs
  have hskip' := Look.spares_skip hskip
  simp (disch := decide) only [itemAhead, Look.second, Look.third, isEmpty_blur,
    Look.skip_blur hs, Look.skip_blur hskip, Look.op_blur hskip, Look.op_blur hskip',
    Look.word_blur, Look.anyOf_blur, Look.ident_blur, Look.brace_blur]

theorem startAfterPath_blur {ts : List Token} (hs : b.Spares ts) :
    startAfterPath (blur b ts) = startAfterPath ts := by
  have hskip := Look.spares_skip hs
  have hskip' := Look.spares_skip hskip
  simp (disch := decide) only [startAfterPath, operandGoesOn, Look.second, Look.third,
    isEmpty_blur, Look.skip_blur hs, Look.skip_blur hskip, Look.op_blur hs, Look.op_blur hskip',
    Look.word_blur, Look.ident_blur, Look.brace_blur]
  rfl

end Follows

instance : Blurs StatementStart := ⟨fun _ start => start⟩

@[simp] theorem blur_statementStart (start : StatementStart) : blur b start = start := rfl

mutual
theorem beginsVerbatim_blur (t : Tree) : (blur b t).beginsVerbatim = t.beginsVerbatim := by
  rcases t with _ | _ | ⟨kind, parts⟩
  · rfl
  · rfl
  rw [Tree.blur_node]
  cases kind with
  | expression form =>
    cases form <;> simp [Tree.beginsVerbatim, firstBeginsVerbatim_blur parts]
  | _ => rfl

theorem firstBeginsVerbatim_blur (parts : List Tree) :
    firstBeginsVerbatim (blur b parts) = firstBeginsVerbatim parts := by
  cases parts with
  | nil => rfl
  | cons t parts => simp [firstBeginsVerbatim, beginsVerbatim_blur t]
end

namespace Follows

/-- What is read of a path only to see what stands after it. -/
theorem afterPath : Follows b
    (fun s => match Grammar.plainPath s with
      | .ok (_, after) => .ok (startAfterPath after.rest, s)
      | .error _ => .ok (none, s))
    (fun s => match Grammar.plainPath s with
      | .ok (_, after) => .ok (startAfterPath after.rest, s)
      | .error _ => .ok (none, s)) := by
  intro s hs
  have hpath := plainPath (b := b) s hs
  dsimp only
  cases hread : Grammar.plainPath s with
  | error e =>
    rw [hread] at hpath
    obtain ⟨e', he'⟩ := hpath
    exact ⟨by rw [he']; rfl, hs⟩
  | ok found =>
    rw [hread] at hpath
    refine ⟨?_, hs⟩
    rw [hpath.1]
    have hstart := startAfterPath_blur hpath.2
    simp only [Input.blurred, hstart]
    cases startAfterPath found.2.rest <;> rfl

section

variable (h : rules.Follows b)

include h

theorem statementStart :
    Follows b (Grammar.statementStart rules) (Grammar.statementStart rules) := by
  refine ahead (bind (outerAttributes h) fun _ => bind afterPath fun start => ?_)
  refine branch (fun _ _ => Look.word_blur _) (pure rfl) ?_
  refine branch (fun _ hs => itemAhead_blur hs) (pure rfl) (pure ?_)
  cases start <;> rfl

omit h in
theorem macroStatement (attributes : List Tree) :
    Follows b (Grammar.macroStatement attributes) (Grammar.macroStatement (blur b attributes)) :=
  bind plainPath fun _ => bind (op rfl) fun _ => bind anyGroup fun _ => bind (op? rfl) fun _ =>
    pure (by simp)

theorem initializer : Follows b (Grammar.initializer rules) (Grammar.initializer rules) := by
  refine branch (fun _ hs => Look.op_blur hs rfl) (bind (op rfl) fun equals => ?_) (pure rfl)
  refine bind (h.expression _) fun value => branch (fun ts _ => ?_) ?_ (pure (by simp))
  · rw [Look.word_blur, endsInBraces_blur]
  · exact bind (word _) fun _ => bind (block h) fun _ => pure (by simp)

theorem variableStatement (attributes : List Tree) :
    Follows b (Grammar.variableStatement rules attributes)
      (Grammar.variableStatement rules (blur b attributes)) :=
  bind (word _) fun _ => bind h.pattern fun _ =>
    clause (fun _ hs => Look.op_blur hs rfl) (op rfl) (h.type _) fun _ =>
    bind (initializer h) fun _ => bind (op rfl) fun _ => pure (by simp)

theorem expressionStatement (attributes : List Tree) :
    Follows b (Grammar.expressionStatement rules attributes)
      (Grammar.expressionStatement rules (blur b attributes)) := by
  refine bind h.early fun e => bind (op? rfl) fun semicolon => pure ?_
  simp only [beginsVerbatim_blur, Tree.isPresent_blur, isStatement_blur]
  split <;> simp

theorem statement : Follows b (Grammar.statement rules) (Grammar.statement rules) := by
  refine bind (statementStart h) fun start => ?_
  cases start with
  | item => exact bind h.item fun _ => pure (by simp)
  | macroCall =>
    exact bind (outerAttributes h) fun attributes => bind (macroStatement attributes) fun _ =>
      pure (by simp)
  | «variable» =>
    exact bind (outerAttributes h) fun attributes => bind (variableStatement h attributes) fun _ =>
      pure (by simp)
  | expression => exact bind (outerAttributes h) fun attributes => expressionStatement h attributes

theorem statements : Follows b (Grammar.statements rules) (Grammar.statements rules) := by
  refine bind (iterate (fun found => ?_) rfl) fun found => pure (by simp)
  refine branch (fun _ hs => Look.op_blur hs rfl) (bind (op rfl) fun _ => pure (by simp)) ?_
  refine branch (fun _ _ => Look.atEnd_blur) (pure (by simp)) (bind (statement h) fun next => ?_)
  refine branch (fun _ _ => Look.atEnd_blur) (pure (by simp)) ?_
  exact ite (refuse _) (pure (by simp))

end

end Follows

end Observable.Grammar
