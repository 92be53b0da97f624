import Observable.Proofs.Grammar.Attributes
import Observable.Proofs.Grammar.Types
/-! Reading the signatures and the bodies of methods. -/
namespace Observable.Grammar

variable {rules : Rules} {us vs row : List Token} {n : Nat} {raw : Bool} {name : String}

/-- A word that may stand in a place. -/
def mark (name : String) (marked : Bool) : List Token := if marked then [Quote.word name] else []

theorem reads_mark {marked : Bool} (h : marked = false → Look.word name us = false) :
    Reads (word? name) (mark name marked ++ us) us (·.unplaced = mark name marked) := by
  cases marked with
  | true => exact .optionally_present (.word (by simp [mark, Look.word, Quote.word])) .word
  | false =>
    refine (Reads.word_absent (h rfl)).weaken ?_
    rintro _ rfl
    rfl

/-- A shared or a changing receiver. -/
theorem reads_receiver {mutable : Bool} :
    Reads (receiver rules) (Quote.op "&" ++ (mark "mut" mutable ++ Quote.word "self" :: vs)) vs
      (·.unplaced = Quote.op "&" ++ (mark "mut" mutable ++ [Quote.word "self"])) := by
  have hlifetime : Look.lifetime (mark "mut" mutable ++ Quote.word "self" :: vs) = false := by
    cases mutable <;> rfl
  unfold receiver
  refine .seeing (.op rfl rfl) (.bind (.op rfl rfl) fun and hand => .bind
    (.optionally_absent (.lifetime hlifetime)) ?_)
  rintro _ rfl
  refine .pure_bind (.bind (reads_mark fun _ => rfl) fun mut_ hmut =>
    .bind .word fun self hself => ?_)
  refine .seeing (.and_left fun _ _ => rfl) (.pure_bind (.pure ?_))
  simp [hand, hmut, hself]
  rfl

/-- A receiver as an input. -/
theorem reads_argument_receiver {mutable : Bool} :
    Reads (argument rules) (Quote.op "&" ++ (mark "mut" mutable ++ Quote.word "self" :: vs)) vs
      fun a => ∃ tree self, a = .receiver tree self ∧
        tree.unplaced = Quote.op "&" ++ (mark "mut" mutable ++ [Quote.word "self"]) := by
  unfold argument
  refine .bind (.outerAttributes_none rfl) ?_
  rintro _ rfl
  refine .skip (.noOp rfl) (.bind (.attempt reads_receiver) ?_)
  rintro _ ⟨tree, rfl, htree⟩
  refine .pure ⟨_, _, rfl, ?_⟩
  simpa using htree

/-- A name that stands for a value, where no name of a path goes on. -/
theorem reads_pattern_name (h : isIdentifier false name = true)
    (hcolons : spelledAhead "::".toList vs = false) (hbang : spelledAhead ['!'] vs = false)
    (hdots : spelledAhead "..".toList vs = false) (hat : spelledAhead ['@'] vs = false)
    (hbrace : Look.brace vs = false) (hparen : Look.paren vs = false) :
    Reads (patternTree rules) (Quote.word name :: vs) vs (·.unplaced = [Quote.word name]) := by
  have hword : ∀ {other}, reservedWords.contains other = true →
      Sees (Look.word other) (Quote.word name :: vs) false :=
    fun hother => .word (word_of_isIdentifier h hother _ _)
  have hany : ∀ {names : List String}, names.all reservedWords.contains = true →
      Sees (Look.anyOf names) (Quote.word name :: vs) false :=
    fun hnames => .anyOf (anyOf_of_isIdentifier h hnames _ _)
  have hpath : Sees pathPatternAhead (Quote.word name :: vs) false :=
    .or (.or (.or (.or
      (.and_right (.second (.or (.or (.or (.or (.noOp hcolons) (.noOp hbang)) (.group hbrace))
        (.group hparen)) (.noOp hdots))))
      (.and_left (hword (by decide)))) (.noOp rfl)) (.noOp rfl)) (hany (by decide))
  have hliteral : Sees Look.literal (Quote.word name :: vs) false :=
    .literal (by simp [Look.literal, Quote.word, literalText?_of_isIdentifier h])
  unfold patternTree
  refine .skip hpath (.skip (hword (by decide)) (.skip (hword (by decide)) ?_))
  refine .skip (.or (.or (.noOp rfl) hliteral) (hword (by decide))) (.take ?_ ?_)
  · exact .or (hany (by decide)) (.ident h)
  unfold namePattern
  refine .bind (.word_absent (word_of_isIdentifier h (by decide) _ _)) ?_
  rintro _ rfl
  refine .bind (.word_absent (word_of_isIdentifier h (by decide) _ _)) ?_
  rintro _ rfl
  refine .seeing (hword (by decide)) (.bind (.ident h) fun found hfound => ?_)
  refine .seeing (.noOp hat) (.pure_bind (.pure ?_))
  simpa [plainPattern, Quote.word, Quote.nowhere] using hfound

/-- A value with its type as an input. -/
theorem reads_argument_typed (h : isIdentifier false name = true) (hstarts : startsType us = true)
    (hpattern : Reads rules.pattern (Quote.word name :: (Quote.op ":" ++ us)) (Quote.op ":" ++ us)
      (·.unplaced = [Quote.word name]))
    (htype : Reads (rules.type true) us vs (·.unplaced = row)) :
    Reads (argument rules) (Quote.word name :: (Quote.op ":" ++ us)) vs
      fun a => ∃ tree, a = .typed tree ∧ tree.unplaced = Quote.word name ::
        (Quote.op ":" ++ row) := by
  have hreceiver : Refuses (receiver rules) (Quote.word name :: (Quote.op ":" ++ us)) := by
    unfold receiver
    refine .after (.looking (.noOp rfl)) ?_
    rintro _ rfl
    refine .after (.pure rfl) ?_
    rintro _ rfl
    refine .after (.word_absent (word_of_isIdentifier h (by decide) _ _)) ?_
    rintro _ rfl
    exact .bind (.word (word_of_isIdentifier h (by decide) _ _))
  unfold argument
  refine .bind (.outerAttributes_none rfl) ?_
  rintro _ rfl
  refine .skip (.noOp rfl) (.bind hreceiver.attempt ?_)
  rintro _ rfl
  refine .skip (.and_right (.second (.noOp rfl))) (.bind hpattern fun pattern hpattern => ?_)
  refine .bind (.op rfl rfl) fun colon hcolon => ?_
  refine .skip (.noOp (startsType_spelledAhead hstarts (by decide)))
    (.bind htype fun type htype => .pure ⟨_, rfl, ?_⟩)
  simp [hpattern, hcolon, htype]
  rfl

/-- A receiver alone. -/
theorem reads_functionInputs_one (mutable : Bool) :
    Reads (functionInputs rules) (Quote.op "&" ++ (mark "mut" mutable ++ [Quote.word "self"])) []
      (unplacedTrees · = Quote.op "&" ++ (mark "mut" mutable ++ [Quote.word "self"])) := by
  unfold functionInputs
  refine .bind (Runs.reads (.stop (.skip (.atEnd rfl) (.bind reads_argument_receiver ?_))) :
    Reads _ _ [] fun found : List Tree × Bool => unplacedTrees found.1.reverse
      = Quote.op "&" ++ (mark "mut" mutable ++ [Quote.word "self"])) ?_
  · rintro _ ⟨tree, self, rfl, htree⟩
    refine .take (.atEnd rfl) (.pure ⟨rfl, ?_⟩)
    simpa using htree
  · rintro ⟨found, _⟩ hfound
    exact .pure hfound

/-- A receiver and a value. -/
theorem reads_functionInputs_two (mutable : Bool) {value : List Token} (hne : value ≠ [])
    (hvalue : Reads (argument rules) value [] fun a => ∃ tree, a = .typed tree ∧
    tree.unplaced = value) :
    Reads (functionInputs rules)
      (Quote.op "&" ++ (mark "mut" mutable ++ Quote.word "self" :: (Quote.op "," ++ value))) []
      (unplacedTrees · = Quote.op "&" ++ (mark "mut" mutable ++ Quote.word "self" :: (Quote.op ","
        ++ value))) := by
  have hmore : atEnd value = false := List.isEmpty_eq_false_iff.mpr hne
  unfold functionInputs
  refine .bind (Runs.reads (.next (fun found : List Tree × Bool => unplacedTrees found.1.reverse
      = Quote.op "&" ++ (mark "mut" mutable ++ Quote.word "self" :: Quote.op ","))
      (.skip (.atEnd rfl) (.bind reads_argument_receiver ?_)) ?_
      fun found hfound => .stop (.skip (.atEnd hmore) (.bind hvalue ?_))) :
    Reads _ _ [] fun found : List Tree × Bool => unplacedTrees found.1.reverse
      = Quote.op "&" ++ (mark "mut" mutable ++ Quote.word "self" :: (Quote.op "," ++ value))) ?_
  · rintro _ ⟨tree, self, rfl, htree⟩
    refine .skip (.atEnd rfl) (.bind (.op rfl rfl) fun comma hcomma => .pure ⟨rfl, ?_⟩)
    simp [htree, hcomma]
    rfl
  · simp only [List.length_append, List.length_cons]
    omega
  · rintro _ ⟨tree, rfl, htree⟩
    refine .take (.atEnd rfl) (.pure ⟨rfl, ?_⟩)
    simp [hfound, htree]
  · rintro ⟨found, _⟩ hfound
    exact .pure hfound

/-- The result of a method, which may be absent, in front of its body. -/
def IsResult (rules : Rules) (result : List Token) : Prop :=
  ∀ body vs, Reads (returnType rules true) (result ++ Quote.braces body :: vs)
    (Quote.braces body :: vs) (·.unplaced = result)

theorem isResult_none : IsResult rules [] := by
  intro body vs
  unfold returnType
  exact .skip (.noOp rfl) (.pure rfl)

theorem isResult_type (h : ∀ vs, endsType vs = true →
    Reads (rules.type true) (row ++ vs) vs (·.unplaced = row)) :
    IsResult rules (Quote.op "->" ++ row) := by
  intro body vs
  unfold returnType
  refine .take (.op rfl rfl) (.bind (.op rfl rfl) fun arrow harrow => ?_)
  refine .bind (h _ rfl) fun type htype => .pure ?_
  simp [harrow, htype]
  rfl

/-- The tokens of a signature. -/
def signatureTokens (constant : Bool) (name : Token) (inputs result : List Token) : List Token :=
  mark "const" constant ++ Quote.word "fn" :: name :: Quote.parens inputs :: result

/-- The signature of a method, in front of its body. -/
theorem reads_signature {constant : Bool} {inputs result body : List Token}
    (hname : isIdentifier raw name = true)
    (hinputs : Reads (functionInputs rules) inputs [] (unplacedTrees · = inputs))
    (hresult : IsResult rules result) :
    Reads (signature rules)
      (signatureTokens constant (.ident raw name .start) inputs (result ++ Quote.braces body :: vs))
      (Quote.braces body :: vs)
      (unplacedTrees · = signatureTokens constant (.ident raw name .start) inputs result) := by
  have hwith : Reads (signatureWith rules false)
      (signatureTokens constant (.ident raw name .start) inputs (result ++ Quote.braces body :: vs))
      (Quote.braces body :: vs)
      fun r => unplacedTrees r.1
        = signatureTokens constant (.ident raw name .start) inputs result := by
    unfold signatureWith signatureTokens
    refine .bind (reads_mark fun _ => rfl) fun const hconst => .bind (.word_absent rfl) ?_
    rintro _ rfl
    refine .bind (.word_absent rfl) ?_
    rintro _ rfl
    refine .seeing (.and_left fun _ _ => rfl)
      (.pure_bind (.bind (.skip (.word rfl) (.pure rfl)) ?_))
    rintro _ rfl
    refine .bind .word fun fn hfn => .bind (.ident hname) fun name hname => ?_
    refine .bind (.skip (.noOp rfl) (.pure rfl)) ?_
    rintro _ rfl
    refine .bind (.within hinputs) fun inputs hinputs =>
      .bind (hresult _ _) fun output houtput => ?_
    refine .bind (.skip (.word rfl) (.pure rfl)) ?_
    rintro _ rfl
    refine .pure ?_
    simp [hconst, hfn, hname, hinputs, houtput]
    exact ⟨rfl, rfl⟩
  unfold signature
  exact hwith.bind fun r hr => .pure hr

end Observable.Grammar
