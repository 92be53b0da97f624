import Observable.Grammar.Statement
import Observable.Proofs.Grammar.Frugal.Type
/-! The readers of patterns, expressions and statements are frugal. -/
namespace Observable.Grammar

open Weighed

variable {w : Weight} {rules : Rules}

namespace Frugal

@[simp] theorem weigh_plainPattern (parts : List Tree) :
    weigh w (plainPattern parts) = weigh w parts := by
  simp [plainPattern]

theorem rangeOperator : Frugal w 0 Grammar.rangeOperator :=
  branch (bind (op _) fun _ => pure (by simp)) (branch (expecting _)
    (branch (bind (op _) fun _ => pure (by simp)) (expecting _)))

theorem rangePatternOperator : Frugal w 0 Grammar.rangePatternOperator := by
  refine branch (places fun place => bind (op _) fun _ => pure ?_) rangeOperator
  simp [weigh_operator]

section

variable (h : rules.Frugal)

include h

theorem constBlock : Frugal w 0 (Grammar.constBlock rules) :=
  bind (word _) fun _ => bind (bodyWithAttributes h) fun _ => pure (by simp)

theorem pathExpression : Frugal w 0 (Grammar.pathExpression rules) :=
  bind (qualifiedPath h _) fun _ => pure (by simp)

theorem rangeBound : Frugal w 0 (Grammar.rangeBound rules) :=
  branch (bind literal fun _ => pure (by simp)) (branch (pathExpression h)
    (branch (constBlock h) (expecting _)))

theorem rangePatternEnd : Frugal w 0 (Grammar.rangePatternEnd rules) :=
  branch (pure (by simp)) (rangeBound h)

theorem rangePattern (start : Tree) :
    Frugal w (weigh w start) (Grammar.rangePattern rules start) :=
  bind rangePatternOperator fun _ => bind (rangePatternEnd h) fun _ =>
    ite (pure (by simp +arith)) (ite (refuse _) (pure (by simp)))

theorem rangePatternWithoutStart : Frugal w 0 (Grammar.rangePatternWithoutStart rules) :=
  bind rangeOperator fun _ => bind (rangePatternEnd h) fun _ =>
    ite (pure (by simp)) (ite (refuse _) (pure (by simp)))

theorem literalPattern : Frugal w 0 (Grammar.literalPattern rules) :=
  bind (rangeBound h) fun _ => branch ((rangePattern h _).mono (by simp)) (pure (by simp))

theorem alternatives : Frugal w 0 (Grammar.alternatives rules) := by
  refine bind (op? _) fun leading => bind (listed (op _) h.pattern) fun found => ?_
  split
  · exact ite (pure (by simp)) (pure (by simp +arith))
  · exact pure (by simp)

theorem patterns : Frugal w 0 (Grammar.patterns rules) := terminated (alternatives h)

theorem fieldPattern : Frugal w 0 (Grammar.fieldPattern rules) := by
  refine withSource (bind (word? _) fun boxed => bind (word? _) fun ref =>
    bind (word? _) fun mut_ =>
    joined member ident fun name => ?_) fun found source n hfound hsource => pure ?_
  · exact branch (bind (op _) fun _ => bind (alternatives h) fun _ => pure (by simp +arith))
      (pure (by simp +arith))
  · simp only [Tree.weigh_sequence]
    split
    · simpa using hsource
    · simp at hfound ⊢
      omega

theorem fieldPatterns : Frugal w 0 (Grammar.fieldPatterns rules) := by
  refine bind (iterate (fun found => ?_) []) fun found => pure (by simp)
  refine branch (pure (by simp)) (bind (outerAttributes h) fun attributes => ?_)
  refine branch (bind (op _) fun _ => pure (by simp +arith)) (bind (fieldPattern h) fun field => ?_)
  exact branch (pure (by simp +arith)) (bind (op _) fun _ => pure (by simp +arith))

theorem patternWithPath : Frugal w 0 (Grammar.patternWithPath rules) := by
  refine bind (qualifiedPath h _) fun found => macroCall? (fun _ _ => pure (by simp +arith)) ?_
  refine branch (bind (braces (fieldPatterns h)) fun _ => pure (by simp))
    (branch (bind (parens (patterns h)) fun _ => pure (by simp)) ?_)
  exact branch ((rangePattern h _).mono (by simp)) (pure (by simp))

theorem namePattern : Frugal w 0 (Grammar.namePattern rules) :=
  bind (word? _) fun _ => bind (word? _) fun _ => looks fun _ => joined anyWord ident fun _ =>
    clause (op _) h.pattern fun _ => pure (by simp +arith)

theorem slicePattern : Frugal w 0 (Grammar.slicePattern rules) := by
  refine bind (alternatives h) fun found => ?_
  split
  · exact refuseAt _ _
  · exact pure (by simp)

theorem patternTree : Frugal w 0 (Grammar.patternTree rules) := by
  refine branch (patternWithPath h) (branch (bind anyWord fun _ => pure (by simp)) (branch ?_ ?_))
  · refine withSource (bind (word _) fun _ => h.pattern.mono (Nat.zero_le _)) fun _ source n _
      hsource => ?_
    exact pure (by simpa using hsource)
  refine branch (literalPattern h) (branch (namePattern h) (branch ?_ ?_))
  · exact bind (op _) fun _ => bind (word? _) fun _ => bind h.pattern fun _ => pure (by simp +arith)
  refine branch (bind (parens (patterns h)) fun _ => pure (by simp)) (branch ?_ ?_)
  · exact bind (brackets (terminated (slicePattern h))) fun _ => pure (by simp)
  · exact branch (rangePatternWithoutStart h) (branch (expecting _) (expecting _))

end

@[simp] theorem weigh_expressionOf (form : ExprForm) (parts : List Tree) :
    weigh w (expressionOf form parts) = weigh w parts := by
  simp [expressionOf]

theorem weigh_indexChain {place : Position} {base dot field point : Tree} {last : Bool}
    {parts : List (List Char)} (h : indexChain place base dot parts = .ok (field, point, last)) :
    weigh w field + weigh w point ≤ weigh w base + weigh w dot := by
  induction parts generalizing base dot with
  | nil =>
    cases h
    exact Nat.le_refl _
  | cons part parts ih =>
    rw [indexChain] at h
    split at h
    · cases h
      exact Nat.le_refl _
    · split at h
      · have hnext := ih h
        simp [indexToken, weigh_operator] at hnext
        omega
      · cases h

theorem indices (base dot : Tree) :
    Frugal w (weigh w base + weigh w dot) (Grammar.indices base dot) := by
  refine places fun place => bind literal fun number => ?_
  dsimp only
  split
  · rename_i found hfound
    obtain ⟨field, point, last⟩ := found
    have hweight := weigh_indexChain (w := w) hfound
    exact pure (by simp; omega)
  · exact refuseAt _ _

section

variable (h : rules.Frugal)

include h

theorem arguments : Frugal w 0 (Grammar.arguments rules) := parens (terminated (h.expression _))

theorem afterPoint (base dot : Tree) :
    Frugal w (weigh w base + weigh w dot) (Grammar.afterPoint rules base dot) := by
  refine branch (bind anyWord fun _ => pure (by simp +arith))
    (bind member fun name => looks fun _ => ?_)
  refine joined (angleArguments h) (pure (by simp)) fun turbofish => looks fun _ =>
    ite ?_ (pure (by simp +arith))
  exact bind (arguments h) fun _ => pure (by simp +arith)

theorem trailer (e : Tree) : Frugal w (weigh w e) (Grammar.trailer rules e) := by
  refine branch (bind (arguments h) fun _ => pure (by simp))
    (branch ?_ (branch ?_ (branch ?_ (pure (by simp)))))
  · refine bind (op _) fun dot => branch ?_ ?_
    · refine bindUsing (indices e dot) (fun found => ite (pure (by simp)) ?_) (Nat.le_refl _)
      refine bindUsing (afterPoint h found.1 found.2.1) (fun _ => pure ?_) (by simp +arith)
      simp +arith
    · exact bindUsing (afterPoint h e dot) (fun _ => pure (by simp)) (Nat.le_refl _)
  · refine bind (brackets (bind (h.expression _) fun _ => pure (by simp))) fun _ => pure (by simp)
  · exact bind (op _) fun _ => pure (by simp)

theorem trailers (e : Tree) : Frugal w (weigh w e) (Grammar.trailers rules e) :=
  iterate (trailer h) e

theorem rightSide (struct : Bool) (precedence : Precedence) :
    Frugal w 0 (Grammar.rightSide rules struct precedence) := by
  refine bind (h.unary _) fun first => (iterate (fun e => ?_) first).mono (by simp)
  refine sees fun next => ite (sees fun before => ?_) (pure (by simp))
  exact bindUsing (h.climb _ e next) (fun longer => looks fun _ => pure (by simp)) (Nat.le_refl _)

theorem rangeEnd (struct closed : Bool) : Frugal w 0 (Grammar.rangeEnd rules struct closed) :=
  branch (pure (by simp)) (rightSide h _ _)

end

theorem checkCast {k : Nat} : Frugal w k Grammar.checkCast := by
  intro s a s' hs
  rw [Grammar.checkCast] at hs
  split at hs
  · exact refuse _ s a s' hs
  · cases hs
    exact ⟨List.suffix_refl _, by simp⟩

section

variable (h : rules.Frugal)

include h

theorem operation (struct : Bool) (base : Precedence) (left : Tree) :
    Frugal w (weigh w left) (Grammar.operation rules struct base left) := by
  refine ite (pure (by simp)) (sees fun operator => ?_)
  split
  · refine ite (pure (by simp)) (ite (refuse _) ?_)
    exact bind (op _) fun _ => bind (rightSide h _ _) fun _ => pure (by simp +arith)
  · refine branch (bind (op _) fun _ => bind (rightSide h _ _) fun _ => pure (by simp +arith))
      (branch ?_ ?_)
    · exact bind rangeOperator fun _ => bind (rangeEnd h _ _) fun _ => pure (by simp +arith)
    · refine branch (bind (word _) fun _ => bind (h.type _) fun _ => ?_) (pure (by simp))
      exact bind checkCast fun _ => pure (by simp +arith)

theorem climb (struct : Bool) (left : Tree) (base : Precedence) :
    Frugal w (weigh w left) (Grammar.climb rules struct left base) :=
  iterate (operation h struct base) left

theorem expressionTree (struct : Bool) : Frugal w 0 (Grammar.expressionTree rules struct) :=
  bind (h.unary _) fun left => (h.climb _ left _).mono (by simp)

theorem fieldValue : Frugal w 0 (Grammar.fieldValue rules) := by
  refine bind (outerAttributes h) fun _ => bind member fun _ => branch ?_ (pure (by simp))
  exact bind (op _) fun _ => bind (h.expression _) fun _ => pure (by simp +arith)

theorem fieldValues : Frugal w 0 (Grammar.fieldValues rules) := by
  refine bind (iterate (fun found => ?_) []) fun found => pure (by simp)
  refine branch (pure (by simp)) (branch (bind (op _) fun _ => branch (pure (by simp +arith)) ?_)
    (bind (fieldValue h) fun _ => ?_))
  · exact bind (h.expression _) fun _ => pure (by simp +arith)
  · exact branch (pure (by simp +arith)) (bind (op _) fun _ => pure (by simp +arith))

theorem expressionWithPath (struct : Bool) :
    Frugal w 0 (Grammar.expressionWithPath rules struct) := by
  refine bind (qualifiedPath h _) fun found =>
    macroCall? (fun _ _ => pure (by simp +arith)) (branch ?_ (pure (by simp)))
  exact bind (braces (fieldValues h)) fun _ => pure (by simp)

theorem parenthesizedExpression : Frugal w 0 (Grammar.parenthesizedExpression rules) := by
  refine branch (pure (by simp)) (bind (h.expression _) fun first => branch (pure (by simp)) ?_)
  exact bind (op _) fun _ => bind (terminated (h.expression _)) fun _ => pure (by simp +arith)

theorem bracketedExpression : Frugal w 0 (Grammar.bracketedExpression rules) := by
  refine branch (pure (by simp)) (bind (h.expression _) fun first =>
    branch (pure (by simp)) (branch ?_ (branch ?_ ?_)))
  · exact bind (op _) fun _ => bind (terminated (h.expression _)) fun _ => pure (by simp +arith)
  · exact bind (op _) fun _ => bind (h.expression _) fun _ => pure (by simp +arith)
  · exact refuse _

theorem closureInput : Frugal w 0 (Grammar.closureInput rules) := by
  refine bind (outerAttributes h) fun attributes => bind h.pattern fun pattern => branch ?_ ?_
  · exact bind (op _) fun _ => bind (h.type _) fun _ => pure (by simp +arith)
  · split <;> exact pure (by simp)

theorem closure (struct : Bool) : Frugal w 0 (Grammar.closure rules struct) := by
  refine bind (binder h) fun _ => bind (word? _) fun _ => bind (word? _) fun _ =>
    bind (word? _) fun _ => bind (word? _) fun _ => bind (op _) fun _ =>
    bind (upTo (closureInput h)) fun _ => bind (op _) fun _ => branch ?_ ?_
  · exact bind (op _) fun _ => bind (h.type _) fun _ => bind (block h) fun _ =>
      pure (by simp +arith)
  · exact bind (h.expression _) fun _ => pure (by simp +arith)

theorem jumpValue (struct : Bool) : Frugal w 0 (Grammar.jumpValue rules struct) :=
  branch (h.expression _) (pure (by simp))

theorem breakExpression (struct : Bool) : Frugal w 0 (Grammar.breakExpression rules struct) := by
  refine bind (word _) fun _ => places fun _ => branch ?_ ?_
  · exact bind (h.expression _) fun _ => refuseAt _ _
  · exact bind (optionally lifetime) fun _ => bind (jumpValue h _) fun _ => pure (by simp +arith)

theorem ifClause : Frugal w 0 (Grammar.ifClause rules) :=
  bind (word _) fun _ => bind (h.expression _) fun _ => bind (block h) fun _ =>
    bind (word? _) fun _ => pure (by simp +arith)

theorem ifExpression : Frugal w 0 (Grammar.ifExpression rules) := by
  refine bind (iterate (fun found => ?_) []) fun parts => pure (by simp)
  refine bind (ifClause h) fun clause => ite (branch (pure (by simp)) (branch ?_ (expecting _)))
    (pure (by simp))
  exact bind (block h) fun _ => pure (by simp +arith)

theorem whileLoop (name : Tree) : Frugal w (weigh w name) (Grammar.whileLoop rules name) :=
  bind (word _) fun _ => bind (h.expression _) fun _ => bind (bodyWithAttributes h) fun _ =>
    pure (by simp +arith)

theorem forLoop (name : Tree) : Frugal w (weigh w name) (Grammar.forLoop rules name) :=
  bind (word _) fun _ => bind (alternatives h) fun _ => bind (word _) fun _ =>
    bind (h.expression _) fun _ => bind (bodyWithAttributes h) fun _ => pure (by simp +arith)

theorem endlessLoop (name : Tree) : Frugal w (weigh w name) (Grammar.endlessLoop rules name) :=
  bind (word _) fun _ => bind (bodyWithAttributes h) fun _ => pure (by simp +arith)

theorem labeled : Frugal w 0 (Grammar.labeled rules) := by
  refine bind label fun name => branch ((whileLoop h _).mono (by simp))
    (branch ((forLoop h _).mono (by simp)) (branch ((endlessLoop h _).mono (by simp)) ?_))
  exact branch (bind (bodyWithAttributes h) fun _ => pure (by simp)) (refuse _)

theorem arm : Frugal w 0 (Grammar.arm rules) :=
  bind (outerAttributes h) fun _ => bind (alternatives h) fun _ =>
    clause (word _) (h.expression _) fun _ => bind (op _) fun _ => bind h.early fun _ =>
    looks fun _ => joined (op _) (op? _) fun _ => pure (by simp +arith)

theorem matchExpression : Frugal w 0 (Grammar.matchExpression rules) :=
  bind (word _) fun _ => bind (h.expression _) fun _ =>
    bind (braces (bind (innerAttributes h) fun _ => bind (allItems (arm h)) fun _ =>
    pure (by simp))) fun _ =>
    (pure (by simp +arith))

theorem jump (name : String) (form : ExprForm) : Frugal w 0 (Grammar.jump rules name form) :=
  bind (word _) fun _ => bind (jumpValue h _) fun _ => pure (by simp)

end

theorem sourceExpression {α : Type} [Weighed α] {p : Parser α} (h : Frugal w 0 p) :
    Frugal w 0 (Grammar.sourceExpression p) :=
  withSource h fun _ _ _ _ hsource => pure (by simpa using hsource)

theorem builtin : Frugal w 0 Grammar.builtin :=
  bind (word _) fun _ => bind (op _) fun _ => bind ident fun _ => bind (parens everything) fun _ =>
    (pure (by simp))

section

variable (h : rules.Frugal)

include h

theorem keywordOperand (struct : Bool) : Frugal w 0 (Grammar.keywordOperand rules struct) := by
  refine branch (breakExpression h _) (branch ?_ (branch (jump h _ _) (branch ?_ (branch ?_ ?_))))
  · exact bind (word _) fun _ => bind (optionally lifetime) fun _ => pure (by simp)
  · exact sourceExpression (bind (word _) fun _ => (h.expression _).mono (Nat.zero_le _))
  · exact inside (bracketedExpression h) fun _ _ _ => pure (by simp)
  refine branch ?_ (branch (ifExpression h) (branch (whileLoop h _) (branch (forLoop h _) ?_)))
  · refine bind (word _) fun _ => bind (alternatives h) fun _ => bind (op _) fun _ =>
      bind (h.unary _) fun left => ?_
    exact bindUsing (h.climb _ left _) (fun _ => pure (by simp +arith)) (by simp +arith)
  refine branch (endlessLoop h _) (branch (matchExpression h) (branch (jump h _ _) ?_))
  refine branch (bind (word _) fun _ => bind (bodyWithAttributes h) fun _ => pure (by simp)) ?_
  refine branch (constBlock h) (branch (bind (bodyWithAttributes h) fun _ => pure (by simp))
    (branch ?_ ?_))
  · exact bind rangeOperator fun _ => bind (rangeEnd h _ _) fun _ => pure (by simp)
  · exact branch (bind anyWord fun _ => pure (by simp)) (branch (labeled h) (refuse _))

theorem operand (struct : Bool) : Frugal w 0 (Grammar.operand rules struct) := by
  refine branch (bind literal fun _ => pure (by simp))
    (branch ?_ (branch ?_ (branch (closure h _) ?_)))
  · exact bind (word _) fun _ => bind (word? _) fun _ => bind (block h) fun _ =>
      pure (by simp +arith)
  · exact bind (word _) fun _ => bind (block h) fun _ => pure (by simp)
  refine branch (sourceExpression builtin) (branch (expressionWithPath h _) (branch ?_ ?_))
  · exact inside (parenthesizedExpression h) fun _ _ _ => pure (by simp)
  · exact keywordOperand h _

/-- An operand takes its attributes with it, as trees or as their source. -/
theorem operandWithTrailers (struct : Bool) {attributes : List Tree} {before : List Token}
    {n : Nat} (hattributes : weigh w attributes ≤ n) (hbefore : weigh w before ≤ n) :
    Frugal w n (Grammar.operandWithTrailers rules struct attributes before) := by
  refine withSource (bind (operand h _) fun e => (trailers h e).mono (by simp))
    fun e source m he hsource => ite (pure (by simp; omega)) ?_
  split
  · exact refuseAt _ _
  · have hweight := Tree.weigh_withAttributes (w := w) attributes e
    exact pure (by omega)

end

theorem referenceMarks : Frugal w 0 Grammar.referenceMarks :=
  branch (bind anyWord fun _ => bind anyWord fun _ => pure (by simp))
    (bind (word? _) fun _ => pure (by simp))

section

variable (h : rules.Frugal)

include h

theorem unaryTree (struct : Bool) : Frugal w 0 (Grammar.unaryTree rules struct) := by
  refine withSource (outerAttributes h) fun attributes before n hattributes hbefore => ?_
  refine branch ?_ (branch ?_ ?_)
  · exact bind (op _) fun _ => bind referenceMarks fun _ => bind (h.unary _) fun _ =>
      pure (by simp; omega)
  · exact bind (firstOf _) fun _ => bind (h.unary _) fun _ => pure (by simp; omega)
  · exact (operandWithTrailers h _ hattributes hbefore).mono (by simp)

/-- An expression like a block may go on, and takes its attributes with it. -/
theorem blockLike {look : List Token → Bool} {attach : Tree → Tree} {n : Nat} {p : Parser Tree}
    (hattach : ∀ e, weigh w (attach e) ≤ n + weigh w e) (hp : Frugal w 0 p) :
    Frugal w n (do
      let e ← p
      if ← Grammar.looking look then rules.climb true (attach (← Grammar.trailers rules e)) .jump
      else return attach e) := by
  refine bind hp fun e => branch ?_ (pure (hattach e))
  refine bindUsing (trailers h e) (fun e => (h.climb _ (attach e) _).mono ?_) (by simp)
  have hweight := hattach e
  omega

theorem earlyExpression : Frugal w 0 (Grammar.earlyExpression rules) := by
  refine bind (outerAttributes h) fun attributes => ?_
  have hattach (e : Tree) : weigh w
    (if e.exprForm = .verbatim then e else e.withAttributes attributes)
      ≤ 0 + weigh w attributes + weigh w e := by
    have hweight := Tree.weigh_withAttributes (w := w) attributes e
    split <;> omega
  refine branch (blockLike h hattach (ifExpression h))
    (branch (blockLike h hattach (whileLoop h _)) ?_)
  refine branch (blockLike h hattach (forLoop h _))
    (branch (blockLike h hattach (endlessLoop h _)) ?_)
  refine branch (blockLike h hattach (matchExpression h)) (branch (blockLike h hattach ?_) ?_)
  · exact bind (word _) fun _ => bind (block h) fun _ => pure (by simp)
  refine branch (blockLike h hattach ?_) (branch (blockLike h hattach (constBlock h)) ?_)
  · exact bind (word _) fun _ => bind (bodyWithAttributes h) fun _ => pure (by simp)
  refine branch (blockLike h hattach ?_) (branch (blockLike h hattach (labeled h)) ?_)
  · exact bind (bodyWithAttributes h) fun _ => pure (by simp)
  · exact bind (h.unary _) fun e => (h.climb _ _ _).mono (hattach e)

end

@[simp] theorem weigh_statementOf (parts : List Tree) :
    weigh w (statementOf parts) = weigh w parts := by
  simp [statementOf]

theorem macroStatement (attributes : List Tree) :
    Frugal w (weigh w attributes) (Grammar.macroStatement attributes) :=
  bind plainPath fun _ => bind (op _) fun _ => bind anyGroup fun _ => bind (op? _) fun _ =>
    pure (by simp +arith)

section

variable (h : rules.Frugal)

include h

theorem initializer : Frugal w 0 (Grammar.initializer rules) := by
  refine branch (bind (op _) fun _ => bind (h.expression _) fun _ => branch ?_ (pure (by simp)))
    (pure (by simp))
  exact bind (word _) fun _ => bind (block h) fun _ => pure (by simp +arith)

theorem variableStatement (attributes : List Tree) :
    Frugal w (weigh w attributes) (Grammar.variableStatement rules attributes) :=
  bind (word _) fun _ => bind h.pattern fun _ => clause (op _) (h.type _) fun _ =>
    bind (initializer h) fun _ => bind (op _) fun _ => pure (by simp +arith)

theorem expressionStatement (attributes : List Tree) :
    Frugal w (weigh w attributes) (Grammar.expressionStatement rules attributes) := by
  refine bind h.early fun e => bind (op? _) fun semicolon => pure ?_
  split <;> simp +arith

theorem statement (hw : w.declared = 0) : Frugal w 0 (Grammar.statement rules) := by
  refine ahead fun start => ?_
  split
  · exact bind (h.item hw) fun _ => pure (by simp)
  · exact bind (outerAttributes h) fun attributes =>
      bindUsing (macroStatement attributes) (fun _ => pure (by simp)) (by simp)
  · exact bind (outerAttributes h) fun attributes =>
      bindUsing (variableStatement h attributes) (fun _ => pure (by simp)) (by simp)
  · exact bind (outerAttributes h) fun attributes => (expressionStatement h _).mono (by simp)

theorem statements (hw : w.declared = 0) : Frugal w 0 (Grammar.statements rules) := by
  refine bind (iterate (fun found => ?_) []) fun found => pure (by simp)
  refine branch (bind (op _) fun _ => pure (by simp +arith))
    (branch (pure (by simp)) (bind (statement h hw) fun next => ?_))
  exact branch (pure (by simp +arith)) (ite (refuse _) (pure (by simp +arith)))

end

end Frugal

end Observable.Grammar
