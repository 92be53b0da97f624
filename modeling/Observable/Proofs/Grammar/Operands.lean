import Observable.Grammar.Expression
import Observable.Proofs.Grammar.Paths
/-! Reading operands: names, the fields and methods of what they stand for, and numbers. -/
namespace Observable.Grammar

variable {rules : Rules} {struct raw : Bool} {name : String} {us vs : List Token} {e : Tree}

/-- Whether a name can begin an operand: `self` is the only keyword that does. -/
def startsOperand (name : String) : Bool := isIdentifier false name || name = "self"

theorem word_of_startsOperand (h : startsOperand name = true) {other : String}
    (hother : (reservedWords.contains other && other ≠ "self") = true) (p : Position)
    (us : List Token) : Look.word other (.ident false name p :: us) = false := by
  simp only [Bool.and_eq_true, decide_eq_true_eq] at hother
  simp only [startsOperand, Bool.or_eq_true, decide_eq_true_eq] at h
  rcases h with h | rfl
  · exact word_of_isIdentifier h hother.1 p us
  · simp [Look.word, Ne.symm hother.2]

theorem literalText?_of_isIdentifier (h : isIdentifier raw name = true) (p : Position)
    (us : List Token) : Look.literalText? (.ident raw name p :: us) = none := by
  cases raw with
  | true => rfl
  | false =>
    have htrue := word_of_isIdentifier h (show reservedWords.contains "true" = true by decide) p us
    have hfalse :=
      word_of_isIdentifier h (show reservedWords.contains "false" = true by decide) p us
    simp only [Look.word, decide_eq_false_iff_not] at htrue hfalse
    simp [Look.literalText?, htrue, hfalse]

/-- The forms of the expressions that are read here. -/
def ExprForm.isPlain : ExprForm → Bool
  | .path | .field | .methodCall | .literal | .reference => true
  | _ => false

/-- An expression of a plain form, with its tokens. -/
structure Operand (ts : List Token) (e : Tree) : Prop where
  unplaced : e.unplaced = ts
  form : e.exprForm.isPlain = true

namespace Operand

variable {ts : List Token}

theorem isRange (h : Operand ts e) : e.isRange = false := by
  have hform := h.form
  unfold Tree.isRange
  cases hf : e.exprForm <;> simp_all [ExprForm.isPlain]

theorem rangePlace? (h : Operand ts e) : rangePlace? e = none := by
  have hform := h.form
  unfold Grammar.rangePlace?
  split
  · cases hform
  · rfl

theorem ne_verbatim (h : Operand ts e) : e.exprForm ≠ .verbatim := by
  intro hf
  have hform := h.form
  rw [hf] at hform
  cases hform

theorem of_expression {form : ExprForm} {parts : List Tree} (hform : form.isPlain = true)
    (h : unplacedTrees parts = ts) : Operand ts (expressionOf form parts) :=
  ⟨h, hform⟩

/-- No attributes are put in front of an operand. -/
theorem withoutAttributes (h : Operand ts e) : Operand ts (e.withAttributes []) := by
  cases e <;> exact h

end Operand

/-- What can follow a name without belonging to it. -/
def endsName (struct : Bool) : List Token → Bool
  | [] => true
  | .punct c _ _ :: _ => c = '.' || c = ';'
  | .group .brace _ _ _ :: _ => !struct
  | _ => false

theorem endsName_front (h : endsName struct vs = true) {text : String} {c : Char} {cs : List Char}
    (htext : text.toList = c :: cs) (hc : (c ≠ '.' && c ≠ ';') = true) :
    Sees (Look.op text) vs false := by
  refine .noOp ?_
  rw [htext]
  rcases vs with _ | ⟨_ | _ | _ | _, vs⟩ <;> simp_all [endsName, spelledAhead]
  rintro rfl
  rcases h with rfl | rfl <;> simp_all

theorem endsName_brace (h : endsName struct vs = true) :
    Sees (fun ts => struct && Look.brace ts) vs false := by
  cases struct with
  | false => exact .and_left fun _ _ => rfl
  | true =>
    refine .and_right (.group ?_)
    rcases vs with _ | ⟨_ | _ | _ | ⟨_ | _ | _ | _⟩, vs⟩ <;> simp_all [endsName, Look.group]

theorem pathRow_name (h : startsOperand name = true) :
    PathRow rules true [.ident false name .start] := by
  refine ⟨⟨false, name, [], rfl⟩, fun vs hvs => ?_⟩
  rcases Bool.or_eq_true _ _ ▸ h with h | h
  · exact reads_segment_bare h hvs
  · rw [decide_eq_true_eq] at h
    subst h
    exact reads_segment_keyword (by decide)

/-- A name. -/
theorem reads_name (h : startsOperand name = true) (hends : endsName struct vs = true) :
    Reads (operand rules struct) (.ident false name .start :: vs) vs
      (Operand [.ident false name .start]) := by
  have hword : ∀ {other}, (reservedWords.contains other && other ≠ "self") = true →
      Sees (Look.word other) (.ident false name .start :: vs) false :=
    fun hother => .word (word_of_startsOperand h hother _ _)
  have hliteral : Sees Look.literal (.ident false name .start :: vs) false := by
    refine .literal ?_
    rcases Bool.or_eq_true _ _ ▸ h with h | h
    · simp [Look.literal, literalText?_of_isIdentifier h]
    · rw [decide_eq_true_eq] at h
      subst h
      rfl
  have hahead : Sees pathExpressionAhead (.ident false name .start :: vs) true := by
    refine .or_left (.or_left (.or_left ?_))
    rcases Bool.or_eq_true _ _ ▸ h with h | h
    · exact .or_left (.ident h)
    · rw [decide_eq_true_eq] at h
      subst h
      exact .or (.ident rfl) (.anyOf rfl)
  have hcolons : Sees (Look.op "::") vs false := endsName_front hends rfl (by decide)
  have hpart : EndsPart true vs := fun ts hts => by simp [argumentsAhead, hcolons ts hts]
  have hpath : Reads (path rules true) (.ident false name .start :: vs) vs
      (·.unplaced = [.ident false name .start]) :=
    reads_path [[.ident false name .start]] (by simp)
      (fun row hrow => List.mem_singleton.mp hrow ▸ pathRow_name h) hpart (.and_left hcolons)
  unfold operand
  refine .skip hliteral (.skip (.and_left (hword rfl)) (.skip (.and_left (hword rfl)) ?_))
  refine .skip ?closure (.skip ?builtin (.take hahead ?_))
  case closure =>
    exact .or (.or (.or (.or (.or (.noOp rfl) (hword rfl)) (.and_left (hword rfl)))
      (.and_left (hword rfl))) (hword rfl)) (.and_left (hword rfl))
  case builtin => exact .and_right (.second (endsName_front hends rfl (by decide)))
  unfold expressionWithPath
  refine .bind (reads_qualifiedPath rfl hpath) ?_
  rintro ⟨_, path⟩ ⟨rfl, hpath⟩
  refine .bind (reads_macroCall?_none none path (endsName_front hends rfl (by decide))) ?_
  rintro _ rfl
  refine .skip (endsName_brace hends) (.pure (.of_expression rfl ?_))
  simpa [qualified] using hpath

/-- What can follow an operand with its fields and calls. -/
def endsTrailers : List Token → Bool
  | [] => true
  | .punct c _ _ :: _ => c ≠ '.' && c ≠ '?'
  | .group .brace _ _ _ :: _ => true
  | _ => false

theorem reads_trailer_none (h : endsTrailers vs = true) (e : Tree) :
    Reads (trailer rules e) vs vs fun r => r.2 = false ∧ r.1 = e := by
  have hgroup : ∀ {d}, d ≠ .brace → Sees (Look.group d) vs false := by
    intro d hd
    refine .group ?_
    rcases vs with _ | ⟨_ | _ | _ | ⟨_ | _ | _ | _⟩, vs⟩ <;> simp_all [endsTrailers, Look.group]
  have hop : ∀ {c}, c = '.' ∨ c = '?' → Look.spells [c] vs = false := by
    intro c hc
    rcases vs with _ | ⟨_ | ⟨d, _, _⟩ | _ | _, vs⟩ <;> simp_all [endsTrailers, Look.spells]
    rintro rfl
    simp_all
  unfold trailer
  refine .skip (hgroup (by decide)) (.skip (.and_left (.and_left (.op rfl (hop (.inl rfl))))) ?_)
  refine .skip (hgroup (by decide)) (.skip (.and_left (.op rfl (hop (.inr rfl)))) ?_)
  exact .pure ⟨rfl, rfl⟩

/-- What can follow the name of a field without belonging to it. -/
def endsField : List Token → Bool
  | [] => true
  | .punct c _ _ :: _ => c ≠ ':'
  | .group .brace _ _ _ :: _ => true
  | _ => false

theorem endsField_noParen (h : endsField vs = true) : Sees Look.paren vs false := by
  refine .group ?_
  rcases vs with _ | ⟨_ | _ | _ | ⟨_ | _ | _ | _⟩, vs⟩ <;> simp_all [endsField, Look.group]

theorem endsField_noColons (h : endsField vs = true) : Sees (Look.op "::") vs false := by
  refine .noOp ?_
  rcases vs with _ | ⟨_ | ⟨d, _, _⟩ | _ | _, vs⟩ <;> simp_all [endsField, spelledAhead]
  exact fun hd => absurd hd.symm h

variable {ts : List Token} {dot : Tree}

/-- The name of a field after a point. -/
theorem reads_afterPoint_field (hname : isIdentifier raw name = true) (he : e.unplaced = ts)
    (hdot : dot.unplaced = us) (hends : endsField vs = true) :
    Reads (afterPoint rules e dot) (.ident raw name .start :: vs) vs
      (Operand (ts ++ (us ++ [.ident raw name .start]))) := by
  unfold afterPoint member
  refine .skip (.word (word_of_isIdentifier hname (by decide) _ _)) ?_
  refine .bind (.take (.ident hname) (.identToken hname)) ?_
  rintro _ ⟨p, rfl⟩
  refine .skip (.and_right (endsField_noColons hends)) (.pure_bind ?_)
  refine .seeing (.and_right (endsField_noParen hends)) (.pure (.of_expression rfl ?_))
  simp [he, hdot, Token.unplaced]

/-- A call without arguments of a method after a point. -/
theorem reads_afterPoint_call (hname : isIdentifier raw name = true) (he : e.unplaced = ts)
    (hdot : dot.unplaced = us) :
    Reads (afterPoint rules e dot)
      (.ident raw name .start :: .group .parenthesis [] .start .start :: vs) vs
      (Operand (ts ++ (us ++ [.ident raw name .start, .group .parenthesis [] .start .start]))) := by
  unfold afterPoint member
  refine .skip (.word (word_of_isIdentifier hname (by decide) _ _)) ?_
  refine .bind (.take (.ident hname) (.identToken hname)) ?_
  rintro _ ⟨p, rfl⟩
  refine .skip (.and_right (.noOp rfl)) (.pure_bind ?_)
  refine .seeing (.and (fun _ _ => rfl) (.group rfl)) ?_
  have hnone : Reads (terminated "," (rules.expression true)) [] [] (unplacedTrees · = []) :=
    .terminated false fun row hrow => absurd hrow List.not_mem_nil
  refine .bind (.within hnone) fun arguments harguments => .pure (.of_expression rfl ?_)
  simp [he, hdot, harguments, Token.unplaced]

theorem reads_trailer {us' : List Token} (he : Operand ts e)
    (h : ∀ dot : Tree, dot.unplaced = Quote.op "." →
      Reads (afterPoint rules e dot) (.ident raw name .start :: us) vs (Operand us'))
    (hname : isIdentifier raw name = true) :
    Reads (trailer rules e) (Quote.op "." ++ .ident raw name .start :: us) vs
      fun r => r.2 = true ∧ Operand us' r.1 := by
  have hpoint : Sees (fun ts => Look.op "." ts && !Look.op ".." ts && !e.isRange)
      (Quote.op "." ++ .ident raw name .start :: us) true :=
    .and (.and (.op rfl rfl) (.not (.op rfl rfl))) fun _ _ => by rw [he.isRange]; rfl
  have hdecimal : Sees decimalAhead (.ident raw name .start :: us) false := by
    intro ts hts
    have htext : Look.literalText? ts = none := by
      rw [← literalText?_easedTokens, hts, literalText?_of_isIdentifier hname]
    simp [decimalAhead, Look.literalForm?, htext]
  unfold trailer
  refine .skip (.group rfl) (.take hpoint ?_)
  refine .bind (.op rfl rfl) fun dot hdot => .skip hdecimal ?_
  exact .bind (h dot hdot) fun e he => .pure ⟨rfl, he⟩

/-- The tokens of fields one after the other. -/
def fieldTokens (names : List (Bool × String)) : List Token :=
  names.flatMap fun n => Quote.op "." ++ [.ident n.1 n.2 .start]

theorem length_fieldTokens_lt (n : Bool × String) (us : List Token) :
    us.length < (Quote.op "." ++ .ident n.1 n.2 .start :: us).length := by
  rw [List.length_append, List.length_cons]
  omega

/-- The fields after an operand, one after the other. -/
theorem runs_fields {names : List (Bool × String)}
    (hnames : ∀ n ∈ names, isIdentifier n.1 n.2 = true) {good : Tree → Prop}
    (hus : endsField us = true)
    (h : ∀ e, Operand (ts ++ fieldTokens names) e → Runs (trailer rules) good e us vs)
    (he : Operand ts e) : Runs (trailer rules) good e (fieldTokens names ++ us) vs := by
  induction names generalizing ts e with
  | nil => exact h e (by simpa [fieldTokens] using he)
  | cons n names ih =>
    have hname := hnames n List.mem_cons_self
    have hends : endsField (fieldTokens names ++ us) = true := by
      cases names with
      | nil => exact hus
      | cons => rfl
    have hsplit : fieldTokens (n :: names) ++ us
        = Quote.op "." ++ .ident n.1 n.2 .start :: (fieldTokens names ++ us) := rfl
    rw [hsplit]
    refine .next (Operand (ts ++ (Quote.op "." ++ [.ident n.1 n.2 .start])))
      (reads_trailer he (fun dot hdot => reads_afterPoint_field hname he.unplaced hdot hends) hname)
      (length_fieldTokens_lt n _) fun e he => ?_
    refine ih (fun m hm => hnames m (List.mem_cons_of_mem _ hm)) (fun e he => h e ?_) he
    simpa [fieldTokens] using he

theorem runs_none (h : endsTrailers vs = true) (he : Operand ts e) :
    Runs (trailer rules) (Operand ts) e vs vs :=
  .stop ((reads_trailer_none h e).weaken fun _ ⟨hagain, hsame⟩ => ⟨hagain, hsame ▸ he⟩)

/-- A call of a method without arguments, after which the operand ends. -/
theorem runs_call (hname : isIdentifier raw name = true) (h : endsTrailers vs = true)
    (he : Operand ts e) :
    Runs (trailer rules)
      (Operand (ts
        ++ (Quote.op "." ++ [.ident raw name .start, .group .parenthesis [] .start .start])))
      e (Quote.op "."
        ++ .ident raw name .start :: .group .parenthesis [] .start .start :: vs) vs := by
  refine .next _ (reads_trailer he (fun dot hdot =>
    reads_afterPoint_call hname he.unplaced hdot) hname)
    ?_ fun e he => runs_none h he
  rw [List.length_append, List.length_cons, List.length_cons]
  omega

/-- An operand with what follows it. -/
theorem reads_operandWithTrailers {mid ts' : List Token}
    (hoperand : Reads (operand rules struct) us mid (Operand ts))
    (h : ∀ e, Operand ts e → Runs (trailer rules) (Operand ts') e mid vs) (before : List Token) :
    Reads (operandWithTrailers rules struct [] before) us vs (Operand ts') := by
  unfold operandWithTrailers
  have hall : Reads (do trailers rules (← operand rules struct)) us vs (Operand ts') :=
    hoperand.bind fun e he => (h e he).reads
  refine hall.withSource.bind ?_
  rintro ⟨e, source⟩ he
  simp only [List.isEmpty_nil, if_true, if_neg he.ne_verbatim]
  exact .pure he.withoutAttributes

/-- An operand that no operator stands in front of. -/
theorem reads_unaryTree {good : Tree → Prop} (hfront : noPunctAhead us = true)
    (h : ∀ before, Reads (operandWithTrailers rules struct [] before) us vs good) :
    Reads (unaryTree rules struct) us vs good := by
  have hop : ∀ c cs, spelledAhead (c :: cs) us = false := by
    intro c cs
    rcases us with _ | ⟨_ | _ | _ | _, us⟩ <;> first | rfl | cases hfront
  unfold unaryTree
  refine .bind (Reads.outerAttributes_none (hop _ _)).withSource ?_
  rintro ⟨attributes, before⟩ rfl
  have hstar : Sees (Look.op "*") us false := .noOp (hop _ _)
  have hbang : Sees (Look.op "!") us false := .noOp (hop _ _)
  have hminus : Sees (Look.op "-") us false := .noOp (hop _ _)
  refine .skip (.noOp (hop _ _)) (.skip (fun ts hts => ?_) (h before))
  simp [hstar ts hts, hbang ts hts, hminus ts hts]

/-- The address of an operand, which may be marked as one that can change. -/
theorem reads_reference {mutable : Bool} {marks : List Token}
    (hmarks : marks = if mutable then [.ident false "mut" .start] else [])
    (hfront : Look.word "self" us = true)
    (h : Reads (rules.unary struct) us vs (Operand ts)) :
    Reads (unaryTree rules struct) (Quote.op "&" ++ (marks ++ us)) vs
      (Operand (Quote.op "&" ++ (marks ++ ts))) := by
  obtain ⟨q, tail, rfl⟩ : ∃ q tail, us = .ident false "self" q :: tail := by
    unfold Look.word at hfront
    split at hfront
    · rw [decide_eq_true_eq] at hfront
      subst hfront
      exact ⟨_, _, rfl⟩
    · cases hfront
  have hread : Reads referenceMarks (marks ++ .ident false "self" q :: tail)
      (.ident false "self" q :: tail) fun r => unplacedTrees r.1 = marks ∧ r.2 = false := by
    unfold referenceMarks
    subst hmarks
    cases mutable with
    | false =>
      refine .skip (.and_left (.word rfl)) (.bind (.word_absent rfl) ?_)
      rintro _ rfl
      exact .pure ⟨rfl, rfl⟩
    | true =>
      refine .skip (.and_left (.word rfl)) (.bind (.optionally_present (.word rfl) .word) ?_)
      exact fun mark hmark => .pure ⟨by simp [hmark], rfl⟩
  unfold unaryTree
  refine .bind (Reads.outerAttributes_none rfl).withSource ?_
  rintro ⟨attributes, before⟩ rfl
  refine .take (.op rfl rfl) (.bind (.op rfl rfl) fun and hand => .bind hread ?_)
  rintro ⟨found, address⟩ ⟨hfound, rfl⟩
  refine .bind h fun e he => .pure (.of_expression rfl ?_)
  simp [hand, hfound, he.unplaced, Quote.op, Quote.nowhere]

end Observable.Grammar
