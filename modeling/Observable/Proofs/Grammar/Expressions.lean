import Observable.Grammar.Source
import Observable.Proofs.Grammar.Operands
/-! Reading expressions with the rules of the grammar: fields of `self`, comparisons and
assignments. -/
namespace Observable.Grammar

variable {rules : Rules} {struct : Bool} {us vs ts : List Token} {e : Tree} {n : Nat}

/-- What ends an expression. -/
def endsExpression : List Token → Bool
  | [] => true
  | .punct c _ _ :: _ => c = ';' || c = ','
  | .group .brace _ _ _ :: _ => true
  | _ => false

/-- The first of the binary operators whose characters stand ahead, whatever their spacing. -/
def operatorAhead? (us : List Token) : Option (String × Precedence) :=
  binaryOperators.find? fun (text, _) => spelledAhead text.toList us

theorem binaryOperator?_none (h : operatorAhead? us = none) {ts : List Token}
    (hts : easedTokens ts = us) : binaryOperator? ts = none := by
  unfold binaryOperator?
  unfold operatorAhead? at h
  rw [List.find?_eq_none] at h ⊢
  intro o ho hop
  have hahead := spelledAhead_of_spells hop
  rw [← spelledAhead_easedTokens, hts] at hahead
  exact h o ho hahead

theorem binaryOperator?_some {text : String} {p : Precedence}
    (h : operatorAhead? us = some (text, p))
    (htext : isHard text.toList = true) (hop : Look.op text us = true) {ts : List Token}
    (hts : easedTokens ts = us) : binaryOperator? ts = some (text, p) := by
  unfold binaryOperator?
  unfold operatorAhead? at h
  rw [List.find?_eq_some_iff_append] at h ⊢
  obtain ⟨-, before, after, hall, hbefore⟩ := h
  refine ⟨Sees.op htext hop ts hts, before, after, hall, fun o ho => ?_⟩
  have hnone := hbefore o ho
  simp only [Bool.not_eq_true'] at hnone ⊢
  exact Sees.noOp hnone ts hts

theorem operatorAhead?_of_endsExpression (h : endsExpression vs = true) :
    operatorAhead? vs = none := by
  rcases vs with _ | ⟨_ | ⟨c, s, p⟩ | _ | ⟨_ | _ | _ | _⟩, vs⟩
  case cons.punct =>
    obtain rfl | rfl : c = ';' ∨ c = ',' := by simpa [endsExpression] using h
    all_goals rfl
  all_goals rfl

theorem endsExpression_noOp (h : endsExpression vs = true) {text : String} {c : Char}
    {cs : List Char} (htext : text.toList = c :: cs) (hc : (c ≠ ';' && c ≠ ',') = true) :
    Sees (Look.op text) vs false := by
  refine .noOp ?_
  rw [htext]
  rcases vs with _ | ⟨_ | ⟨d, s, p⟩ | _ | _, vs⟩ <;> simp_all [endsExpression, spelledAhead]
  rintro rfl
  rcases h with rfl | rfl <;> simp_all

theorem endsExpression_noWord (h : endsExpression vs = true) (name : String) :
    Sees (Look.word name) vs false := by
  refine .word ?_
  rcases vs with _ | ⟨_ | _ | _ | _, vs⟩ <;> first | rfl | cases h

theorem precedenceAhead_of_endsExpression (h : endsExpression vs = true) {ts : List Token}
    (hts : easedTokens ts = vs) : precedenceAhead ts = .jump := by
  have hoperator := binaryOperator?_none (operatorAhead?_of_endsExpression h) hts
  have hequals := endsExpression_noOp h (show "=".toList = ['='] from rfl) (by decide) ts hts
  have hdots := endsExpression_noOp h (show "..".toList = ['.', '.'] from rfl) (by decide) ts hts
  have has := endsExpression_noWord h "as" ts hts
  simp [precedenceAhead, hoperator, assignmentAhead, hequals, hdots, has]

/-- Where an expression ends no operator is read. -/
theorem reads_operation_none (h : endsExpression vs = true) (he : e.isRange = false)
    (base : Precedence) :
    Reads (operation rules struct base e) vs vs fun r => r.2 = false ∧ r.1 = e := by
  unfold operation
  simp only [he, Bool.false_eq_true, if_false]
  refine .bind (.asking fun ts hts =>
    binaryOperator?_none (operatorAhead?_of_endsExpression h) hts) ?_
  rintro _ rfl
  refine .skip (.and_right (.and_left (endsExpression_noOp h rfl (by decide)))) ?_
  refine .skip (.and_right (endsExpression_noOp h rfl (by decide))) ?_
  exact .skip (endsExpression_noWord h "as") (.pure ⟨rfl, rfl⟩)

theorem runs_operation_none {good : Tree → Prop} (h : endsExpression vs = true)
    (he : e.isRange = false) (hgood : good e) (base : Precedence) :
    Runs (operation rules struct base) good e vs vs :=
  .stop ((reads_operation_none h he base).weaken fun _ ⟨hagain, hsame⟩ => ⟨hagain, hsame ▸ hgood⟩)

/-- The right side of an operator, where the expression ends. -/
theorem reads_rightSide (h : endsExpression vs = true)
    (hread : Reads (rules.unary struct) us vs (Operand ts))
    {precedence : Precedence} (hp : precedence ≠ .jump) :
    Reads (rightSide rules struct precedence) us vs (Operand ts) := by
  unfold rightSide
  refine hread.bind fun e he => Runs.reads (.stop ?_)
  refine .bind (.asking fun ts hts => precedenceAhead_of_endsExpression h hts) ?_
  rintro _ rfl
  have hlower : (decide (precedence.rank < Precedence.jump.rank)
      || (decide (Precedence.jump = precedence) && decide (precedence = .assign))) = false := by
    have hrank : ¬ precedence.rank < Precedence.jump.rank := Nat.not_lt_zero _
    simp [hrank, Ne.symm hp]
  simp only [hlower, Bool.false_eq_true, if_false]
  exact .pure ⟨rfl, he⟩

/-- A binary operator and its right side, where the expression ends. -/
theorem reads_climb_binary {text : String} {p base : Precedence} {us' ts' : List Token}
    (hahead : operatorAhead? us = some (text, p)) (htext : isHard text.toList = true)
    (hus : us = Token.operator text.toList .start ++ us') (hop : Look.op text us = true)
    (hbase : base.rank ≤ p.rank) (hp : p ≠ .jump) (hlength : vs.length < us.length)
    (he : Operand ts e) (hread : Reads (rules.unary struct) us' vs (Operand ts'))
    (h : endsExpression vs = true) :
    Reads (climb rules struct e base) us vs
      (·.unplaced = ts ++ (Token.operator text.toList .start ++ ts')) := by
  have hform : (decide (p = .compare) && decide (e.exprForm = .binary .compare)) = false := by
    have hplain := he.form
    cases hf : e.exprForm <;> simp_all [ExprForm.isPlain]
  unfold climb
  refine Runs.reads
    (.next (fun e' => e'.unplaced = ts ++ (Token.operator text.toList .start ++ ts') ∧
    e'.isRange = false) ?_ hlength fun e' he' => runs_operation_none h he'.2 he'.1 base)
  unfold operation
  simp only [he.isRange, Bool.false_eq_true, if_false]
  refine .bind (.asking fun ts hts => binaryOperator?_some hahead htext hop hts) ?_
  rintro _ rfl
  simp only [if_neg (Nat.not_lt.mpr hbase), hform, Bool.false_eq_true, if_false]
  refine .bind (.op hus htext) fun operator hoperator => ?_
  refine .bind (reads_rightSide h hread hp) fun right hright => .pure ⟨rfl, ?_, rfl⟩
  simp [expressionOf, he.unplaced, hoperator, hright.unplaced]

/-- An assignment, where the expression ends. -/
theorem reads_climb_assign {base : Precedence} {us' ts' : List Token}
    (hus : us = Quote.op "=" ++ us') (hfront : noPunctAhead us' = true)
    (hbase : base.rank ≤ Precedence.assign.rank) (hlength : vs.length < us.length)
    (he : Operand ts e) (hread : Reads (rules.unary struct) us' vs (Operand ts'))
    (h : endsExpression vs = true) :
    Reads (climb rules struct e base) us vs (·.unplaced = ts ++ (Quote.op "=" ++ ts')) := by
  have hnone : operatorAhead? us = none := by
    subst hus
    rcases us' with _ | ⟨_ | _ | _ | _, us'⟩ <;> first | rfl | cases hfront
  have harrow : Sees (Look.op "=>") us false := by
    subst hus
    refine .noOp ?_
    rcases us' with _ | ⟨_ | _ | _ | _, us'⟩ <;> first | rfl | cases hfront
  have hequals : Sees (Look.op "=") us true := by
    subst hus
    exact .op rfl rfl
  unfold climb
  refine Runs.reads (.next (fun e' => e'.unplaced = ts ++ (Quote.op "=" ++ ts') ∧
    e'.isRange = false)
    ?_ hlength fun e' he' => runs_operation_none h he'.2 he'.1 base)
  unfold operation
  simp only [he.isRange, Bool.false_eq_true, if_false]
  refine .bind (.asking fun ts hts => binaryOperator?_none hnone hts) ?_
  rintro _ rfl
  refine .take (.and (fun _ _ => decide_eq_true hbase) (.and hequals (.not harrow))) ?_
  refine .bind (.op hus rfl) fun equals heq => ?_
  refine .bind (reads_rightSide h hread (by decide)) fun right hright => .pure ⟨rfl, ?_, rfl⟩
  simp [expressionOf, he.unplaced, heq, hright.unplaced, Quote.op, Quote.nowhere]

/-- An expression that is an operand, where the expression ends. -/
theorem reads_climb_operand {base : Precedence} (h : endsExpression vs = true) (he : Operand ts e) :
    Reads (climb rules struct e base) vs vs (Operand ts) := by
  unfold climb
  exact (runs_operation_none h he.isRange he base).reads

section

variable {names : List (Bool × String)} {raw : Bool} {name : String}

/-- The tokens of a field of `self`, possibly one of a field of a field. -/
def placeTokens (names : List (Bool × String)) : List Token :=
  Quote.word "self" :: fieldTokens names

theorem reads_self (hne : names ≠ []) :
    Reads (operand rules struct) (placeTokens names ++ us) (fieldTokens names ++ us)
      (Operand [Quote.word "self"]) := by
  obtain ⟨n, rest, rfl⟩ := List.exists_cons_of_ne_nil hne
  exact reads_name rfl rfl

/-- A field of `self`. -/
theorem reads_unary_place (hne : names ≠ []) (hnames : ∀ n ∈ names, isIdentifier n.1 n.2 = true)
    (hfield : endsField vs = true) (hend : endsTrailers vs = true) :
    Reads ((Rules.upTo (n + 1)).unary struct) (placeTokens names ++ vs) vs
      (Operand (placeTokens names)) := by
  refine reads_unaryTree rfl fun before => reads_operandWithTrailers (reads_self hne) ?_ before
  exact fun e he => runs_fields hnames hfield (fun e he => runs_none hend he) he

/-- A call of a method of a field of `self`. -/
theorem reads_unary_call (hne : names ≠ []) (hnames : ∀ n ∈ names, isIdentifier n.1 n.2 = true)
    (hname : isIdentifier raw name = true) (hend : endsTrailers vs = true) :
    Reads ((Rules.upTo (n + 1)).unary struct)
      (placeTokens names ++ (Quote.op "." ++ .ident raw name .start :: Quote.parens [] :: vs)) vs
      (Operand (placeTokens names
        ++ (Quote.op "." ++ [.ident raw name .start, Quote.parens []]))) := by
  refine reads_unaryTree rfl fun before => reads_operandWithTrailers (reads_self hne) ?_ before
  exact fun e he => runs_fields hnames rfl (fun e he => runs_call hname hend he) he

/-- The address of a field of `self`. -/
theorem reads_unary_reference {mutable : Bool} {marks : List Token}
    (hmarks : marks = if mutable then [Quote.word "mut"] else []) (hne : names ≠ [])
    (hnames : ∀ n ∈ names, isIdentifier n.1 n.2 = true) (hfield : endsField vs = true)
    (hend : endsTrailers vs = true) :
    Reads ((Rules.upTo (n + 2)).unary struct)
      (Quote.op "&" ++ (marks ++ (placeTokens names ++ vs))) vs
      (Operand (Quote.op "&" ++ (marks ++ placeTokens names))) :=
  reads_reference hmarks rfl (reads_unary_place hne hnames hfield hend)

/-- A name that is no keyword. -/
theorem reads_unary_name (h : startsOperand name = true) (hname : endsName struct vs = true)
    (hend : endsTrailers vs = true) :
    Reads ((Rules.upTo (n + 1)).unary struct) (Quote.word name :: vs) vs
      (Operand [Quote.word name]) := by
  refine reads_unaryTree rfl fun before => reads_operandWithTrailers (reads_name h hname) ?_ before
  exact fun e he => runs_none hend he

/-- A literal on its own, or in front of what ends an expression. -/
theorem reads_expression_literal {text : String} (hend : endsTrailers vs = true)
    (h : endsExpression vs = true) :
    Reads ((Rules.upTo (n + 2)).expression struct) (.literal text .start :: vs) vs
      fun e => ∃ q, e = expressionOf .literal [.token (.literal text q)] := by
  have hread : Reads (operand (Rules.upTo n) struct) (.literal text .start :: vs) vs
      fun e => ∃ q, e = expressionOf .literal [.token (.literal text q)] := by
    unfold operand
    refine .take (.literal rfl) (.bind .literalToken ?_)
    rintro _ ⟨q, rfl⟩
    exact .pure ⟨q, rfl⟩
  have hunary : Reads ((Rules.upTo (n + 1)).unary struct) (.literal text .start :: vs) vs
      fun e => ∃ q, e = expressionOf .literal [.token (.literal text q)] := by
    refine reads_unaryTree rfl fun before => ?_
    unfold operandWithTrailers
    have hall : Reads (do trailers (Rules.upTo n) (← operand (Rules.upTo n) struct))
        (.literal text .start :: vs) vs
        fun e => ∃ q, e = expressionOf .literal [.token (.literal text q)] :=
      hread.bind fun e he => Runs.reads (.stop ((reads_trailer_none hend e).weaken
        fun _ ⟨hagain, hsame⟩ => ⟨hagain, hsame ▸ he⟩))
    refine hall.withSource.bind ?_
    rintro ⟨_, source⟩ ⟨q, rfl⟩
    exact .pure ⟨q, rfl⟩
  show Reads (expressionTree (Rules.upTo (n + 1)) struct) _ _ _
  unfold expressionTree
  refine .bind hunary ?_
  rintro _ ⟨q, rfl⟩
  show Reads (climb (Rules.upTo n) struct _ .jump) _ _ _
  unfold climb
  exact (runs_operation_none h rfl ⟨q, rfl⟩ .jump).reads

/-- A number on its own. -/
theorem reads_expression_number {text : String} :
    Reads ((Rules.upTo (n + 2)).expression struct) [.literal text .start] []
      (·.unplaced = [.literal text .start]) :=
  (reads_expression_literal rfl rfl).weaken fun _ ⟨_, he⟩ => by rw [he]; rfl

/-- The comparison of a field of `self` with a value, where a block follows. -/
theorem reads_expression_compare (hne : names ≠ [])
    (hnames : ∀ n ∈ names, isIdentifier n.1 n.2 = true)
    (h : startsOperand name = true) (hname : endsName false vs = true)
    (hend : endsTrailers vs = true) (hvs : endsExpression vs = true) :
    Reads ((Rules.upTo (n + 3)).expression false)
      (placeTokens names ++ (Quote.op "!=" ++ (Quote.word name :: vs))) vs
      (·.unplaced = placeTokens names ++ (Quote.op "!=" ++ [Quote.word name])) := by
  show Reads (expressionTree (Rules.upTo (n + 2)) false) _ _ _
  unfold expressionTree
  refine .bind (reads_unary_place hne hnames rfl rfl) fun e he => ?_
  show Reads (climb (Rules.upTo (n + 1)) false e .jump) _ _ _
  refine reads_climb_binary rfl rfl rfl rfl (Nat.zero_le _) (by decide) ?_ he
    (reads_unary_name h hname hend) hvs
  simp only [List.length_append, List.length_cons]
  omega

end

end Observable.Grammar
