import Observable.Proofs.Grammar.Expressions
/-! Reading the statements of generated methods. -/
namespace Observable.Grammar

variable {rules : Rules} {raw : Bool} {name : String} {us vs ts : List Token} {n : Nat}

/-- A path of one word, after which no `::` follows. -/
theorem reads_plainPath
    (hword : (Look.ident (.ident raw name .start :: vs)
      || Look.anyOf pathKeywords (.ident raw name .start :: vs)) = true)
    (hvs : Sees (Look.op "::") vs false) :
    Reads plainPath (.ident raw name .start :: vs) vs (·.unplaced = [.ident raw name .start]) := by
  unfold plainPath
  refine .bind (.op_absent (.noOp rfl)) ?_
  rintro _ rfl
  refine .bind (Runs.reads (.stop ?_) : Reads _ _ vs fun found : List (Tree × Tree) =>
    ∃ segment : Tree, found = [(segment, .absent)] ∧ segment.unplaced = [.ident raw name .start]) ?_
  · refine .take ((Steady.ident.or (Steady.anyOf _)).sees hword)
      (.bind .anyWord fun word hword => ?_)
    refine .skip hvs (.pure ⟨rfl, _, rfl, ?_⟩)
    simp [hword]
  · rintro _ ⟨segment, rfl, hsegment⟩
    refine .pure ?_
    simp [flat, hsegment]

/-- What a statement of a generated method begins with. -/
def startsStatement (us : List Token) : Prop :=
  ∃ tail, us = Quote.word "self" :: .punct '.' .alone .start :: tail ∨
    us = .punct '&' .alone .start :: Quote.word "self" :: tail ∨
    us = .punct '&' .alone .start :: Quote.word "mut" :: tail ∨
    us = Quote.word "if" :: Quote.word "self" :: tail

theorem Steady.itemAhead : Steady itemAhead := by
  intro ts
  simp only [Grammar.itemAhead, (Steady.anyOf _) ts, (Steady.word _) ts, (Steady.anyOf _).second ts,
    (Steady.anyOf _).third ts, Steady.ident.second ts, (Steady.group _).second ts,
    (Steady.op (show isHard "::".toList = true by decide)).second ts,
    (Steady.op (show isHard "|".toList = true by decide)).second ts,
    (Steady.op (show isHard "|".toList = true by decide)).third ts, Look.brace]

/-- The path of a macro does not begin such a statement. -/
theorem reads_startAfterPath (h : startsStatement us) :
    Reads (fun s => match plainPath s with
      | .ok (_, after) => .ok (startAfterPath after.rest, s)
      | .error _ => .ok (none, s)) us us (· = none) := by
  intro s hleft hrest
  have hrefuses : ∀ {us}, (Look.ident us || Look.anyOf pathKeywords us) = false →
      spelledAhead "::".toList us = false → Refuses plainPath us := by
    intro us hword hcolons
    unfold plainPath
    refine .after (.op_absent (.noOp hcolons)) ?_
    rintro _ rfl
    refine .after (Runs.reads (.stop (.skip ((Steady.ident.or (Steady.anyOf _)).sees hword)
      (.pure ⟨rfl, rfl⟩))) : Reads _ us us fun found : List (Tree × Tree) => found = []) ?_
    rintro _ rfl
    exact .bind (.ident (Bool.or_eq_false_iff.mp hword).1)
  have hrefused : (∃ e, plainPath s = .error e) → (match plainPath s with
      | .ok (_, after) => .ok (startAfterPath after.rest, s)
      | .error _ => .ok (none, s)) = (.ok (none, s) : Except SyntaxError _) := by
    rintro ⟨e, he⟩
    rw [he]
  refine ⟨none, s, ?_, hleft, hrest, rfl⟩
  obtain ⟨tail, rfl | rfl | rfl | rfl⟩ := h
  · obtain ⟨a, s', hs, -, hrest', -⟩ :=
      reads_plainPath rfl (.noOp rfl) s hleft hrest
    have hbang : Look.op "!" s'.rest = false := Sees.noOp rfl s'.rest hrest'
    simp only [hs, startAfterPath, hbang, Bool.not_false, if_true]
  · exact hrefused (hrefuses rfl rfl s hleft hrest)
  · exact hrefused (hrefuses rfl rfl s hleft hrest)
  · exact hrefused (hrefuses rfl rfl s hleft hrest)

theorem startsStatement_front (h : startsStatement us) :
    spelledAhead ['#'] us = false ∧ Look.word "let" us = false ∧ itemAhead us = false ∧
      atEnd us = false ∧ spelledAhead [';'] us = false := by
  obtain ⟨tail, rfl | rfl | rfl | rfl⟩ := h <;> exact ⟨rfl, rfl, rfl, rfl, rfl⟩

theorem reads_statementStart (h : startsStatement us) :
    Reads (statementStart rules) us us (· = .expression) := by
  obtain ⟨hpound, hlet, hitem, -, -⟩ := startsStatement_front h
  unfold statementStart
  refine .ahead (?_ : Reads _ us us _)
  refine .bind (Reads.outerAttributes_none hpound) ?_
  rintro _ rfl
  refine .bind (reads_startAfterPath h) ?_
  rintro _ rfl
  exact .skip (.word hlet) (.skip (Steady.itemAhead.sees hitem) (.pure rfl))

/-- An expression that begins with an operand. -/
theorem reads_earlyExpression {mid : List Token} {good : Tree → Prop} (h : startsStatement us)
    (hif : Look.word "if" us = false) (hunary : Reads (rules.unary true) us mid (Operand ts))
    (hclimb : ∀ e, Operand ts e → Reads (rules.climb true e .jump) mid vs good) :
    Reads (earlyExpression rules) us vs good := by
  have hfront : ∀ name ∈ ["while", "for", "loop", "match", "try", "unsafe", "const"],
      Look.word name us = false := by
    obtain ⟨tail, rfl | rfl | rfl | rfl⟩ := h <;> simp [Look.word, Quote.word]
  have hbrace : Look.brace us = false ∧ Look.lifetime us = false := by
    obtain ⟨tail, rfl | rfl | rfl | rfl⟩ := h <;> exact ⟨rfl, rfl⟩
  obtain ⟨hpound, -⟩ := startsStatement_front h
  unfold earlyExpression
  refine .bind (Reads.outerAttributes_none hpound) ?_
  rintro _ rfl
  refine .skip (.word hif) (.skip (.word (hfront _ (by simp))) ?_)
  refine .skip (.and_left (.word (hfront _ (by simp)))) (.skip (.word (hfront _ (by simp))) ?_)
  refine .skip (.word (hfront _ (by simp))) (.skip (.and_left (.word (hfront _ (by simp)))) ?_)
  refine .skip (.word (hfront _ (by simp))) (.skip (.and_left (.word (hfront _ (by simp)))) ?_)
  refine .skip (.group hbrace.1) (.skip (.lifetime hbrace.2) ?_)
  refine .bind hunary fun e he => ?_
  simp only [if_neg he.ne_verbatim]
  exact hclimb _ he.withoutAttributes

/-- A statement of one expression, after which the block ends. -/
theorem reads_statement_last (h : startsStatement us)
    (hearly : Reads rules.early us [] (·.unplaced = ts)) :
    Reads (statement rules) us [] fun r => r.1.unplaced = ts := by
  obtain ⟨hpound, -⟩ := startsStatement_front h
  unfold statement
  refine .bind (reads_statementStart h) ?_
  rintro _ rfl
  refine .bind (Reads.outerAttributes_none hpound) ?_
  rintro _ rfl
  unfold expressionStatement
  refine .bind hearly fun e he => .bind (.op_absent (.noOp rfl)) ?_
  rintro _ rfl
  refine .pure ?_
  simp [statementOf, he]

/-- A statement of one expression with a semicolon. -/
theorem reads_statement (h : startsStatement us)
    (hearly : Reads rules.early us (Quote.op ";" ++ vs) (·.unplaced = ts)) :
    Reads (statement rules) us vs fun r => r.1.unplaced = ts ++ Quote.op ";" ∧ r.2 = false := by
  obtain ⟨hpound, -⟩ := startsStatement_front h
  unfold statement
  refine .bind (reads_statementStart h) ?_
  rintro _ rfl
  refine .bind (Reads.outerAttributes_none hpound) ?_
  rintro _ rfl
  unfold expressionStatement
  refine .bind hearly fun e he => .bind (.op_present rfl rfl rfl) fun semicolon hsemicolon => ?_
  refine .pure ⟨?_, ?_⟩
  · simp [statementOf, he, hsemicolon, Quote.op, Quote.nowhere]
  · simp [isPresent_of_unplaced (hsemicolon.trans (by rfl))]

/-- A block of one statement. -/
theorem reads_statements_one (h : startsStatement us)
    (hearly : Reads rules.early us [] (·.unplaced = ts)) :
    Reads (statements rules) us [] (unplacedTrees · = ts) := by
  obtain ⟨-, -, -, hend, hsemicolon⟩ := startsStatement_front h
  unfold statements
  refine .bind (Runs.reads (.stop ?_) : Reads _ _ [] fun found : List Tree =>
    unplacedTrees found.reverse = ts) fun found hfound => .pure hfound
  refine .skip (.noOp hsemicolon) (.skip (.atEnd hend) (.bind (reads_statement_last h hearly) ?_))
  rintro ⟨tree, open_⟩ htree
  refine .take (.atEnd rfl) (.pure ⟨rfl, ?_⟩)
  simpa using htree

/-- A block of two statements with semicolons. -/
theorem reads_statements_two {us' ts' : List Token} (h : startsStatement us)
    (h' : startsStatement us')
    (hlength : us'.length < us.length)
    (hearly : Reads rules.early us (Quote.op ";" ++ us') (·.unplaced = ts))
    (hearly' : Reads rules.early us' (Quote.op ";" ++ []) (·.unplaced = ts')) :
    Reads (statements rules) us []
      (unplacedTrees · = (ts ++ Quote.op ";") ++ (ts' ++ Quote.op ";")) := by
  obtain ⟨-, -, -, hend, hsemicolon⟩ := startsStatement_front h
  obtain ⟨-, -, -, hend', hsemicolon'⟩ := startsStatement_front h'
  unfold statements
  refine .bind (Runs.reads (.next (fun found => unplacedTrees found.reverse = ts ++ Quote.op ";")
    ?_ hlength fun found hfound => .stop ?_) : Reads _ _ [] fun found : List Tree =>
    unplacedTrees found.reverse = (ts ++ Quote.op ";") ++ (ts' ++ Quote.op ";"))
    fun found hfound => .pure hfound
  · refine .skip (.noOp hsemicolon) (.skip (.atEnd hend) (.bind (reads_statement h hearly) ?_))
    rintro ⟨tree, _⟩ ⟨htree, rfl⟩
    refine .skip (.atEnd hend') (.pure ⟨rfl, ?_⟩)
    simpa using htree
  · refine .skip (.noOp hsemicolon') (.skip (.atEnd hend') (.bind (reads_statement h' hearly') ?_))
    rintro ⟨tree, _⟩ ⟨htree, rfl⟩
    refine .take (.atEnd rfl) (.pure ⟨rfl, ?_⟩)
    simp [hfound, htree]

/-- A condition with its block, after which the statements end. -/
theorem reads_earlyExpression_if {condition body : List Token}
    (hcondition : Reads (rules.expression false) (condition ++ [Quote.braces body])
      [Quote.braces body] (·.unplaced = condition))
    (hbody : Reads rules.statements body [] (unplacedTrees · = body)) :
    Reads (earlyExpression rules) (Quote.word "if" :: (condition ++ [Quote.braces body])) []
      (·.unplaced = Quote.word "if" :: (condition ++ [Quote.braces body])) := by
  have hblock : Reads (block rules) [Quote.braces body] [] (·.unplaced = [Quote.braces body]) := by
    unfold block
    refine .bind (.within hbody) fun group hgroup => .pure ?_
    simpa [Quote.braces, Quote.nowhere] using hgroup
  have hclause : Reads (ifClause rules) (Quote.word "if" :: (condition ++ [Quote.braces body])) []
      fun clause => clause.getLast?.any Tree.isPresent = false ∧
        unplacedTrees clause = Quote.word "if" :: (condition ++ [Quote.braces body]) := by
    unfold ifClause
    refine .bind .word fun if_ hif => .bind hcondition fun condition hcondition => ?_
    refine .bind hblock fun block hblock => .bind (.word_absent rfl) ?_
    rintro _ rfl
    refine .pure ⟨rfl, ?_⟩
    simp [hif, hcondition, hblock]
    rfl
  have hexpression : Reads (ifExpression rules)
      (Quote.word "if" :: (condition ++ [Quote.braces body])) []
      fun e => e.exprForm ≠ .verbatim ∧
        (e.withAttributes []).unplaced = Quote.word "if" :: (condition ++ [Quote.braces body]) := by
    unfold ifExpression
    refine .bind (Runs.reads (.stop (.bind hclause fun clause hclause => ?_)) : Reads _ _ []
      (unplacedTrees · = Quote.word "if" :: (condition ++ [Quote.braces body])))
      fun parts hparts => .pure ⟨ExprForm.noConfusion, hparts⟩
    simp only [hclause.1, Bool.false_eq_true, if_false]
    exact .pure ⟨rfl, hclause.2⟩
  unfold earlyExpression
  refine .bind (Reads.outerAttributes_none rfl) ?_
  rintro _ rfl
  refine .take (.word rfl) (.bind hexpression fun e he => .skip ?_ ?_)
  · exact .or (.and_left (.noOp rfl)) (.noOp rfl)
  · simp only [if_neg he.1]
    exact .pure he.2

end Observable.Grammar
