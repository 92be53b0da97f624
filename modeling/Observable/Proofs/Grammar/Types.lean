import Observable.Grammar.Type
import Observable.Proofs.Grammar.Expressions
import Observable.Proofs.Grammar.Paths
/-! Reading plain types. -/
namespace Observable

open Grammar (Rules Reads)

mutual
/-- How deep a type is nested. -/
def PlainType.depth : PlainType → Nat
  | .path first rest => max first.depth (partsDepth rest) + 1
  | .reference _ _ target => target.depth + 1
  | .pointer _ target => target.depth + 1
  | .tuple parts _ => typesDepth parts + 1
  | .slice element => element.depth + 1
  | .array element _ => max element.depth 2 + 1

def PathPart.depth : PathPart → Nat
  | .bare _ => 0
  | .generic _ _ types _ => typesDepth types

def partsDepth : List PathPart → Nat
  | [] => 0
  | part :: rest => max part.depth (partsDepth rest)

def typesDepth : List PlainType → Nat
  | [] => 0
  | type :: rest => max type.depth (typesDepth rest)
end

theorem PlainType.depth_pos (τ : PlainType) : 0 < τ.depth := by
  cases τ <;> exact Nat.succ_pos _

namespace Grammar

variable {n : Nat} {plus : Bool} {us vs ts : List Token}

/-- What can follow a type without belonging to it. -/
def endsType : List Token → Bool
  | [] => true
  | .punct c _ _ :: _ => c = ',' || c = '>' || c = ';'
  | .group .brace _ _ _ :: _ => true
  | _ => false

theorem endsType_noOp (h : endsType vs = true) {text : String} {c : Char} {cs : List Char}
    (htext : text.toList = c :: cs) (hc : (c ≠ ',' && c ≠ '>' && c ≠ ';') = true) :
    Sees (Look.op text) vs false := by
  refine .noOp ?_
  rw [htext]
  rcases vs with _ | ⟨_ | ⟨d, s, p⟩ | _ | _, vs⟩ <;> simp_all [endsType, spelledAhead]
  rintro rfl
  simp_all

theorem endsPart_of_endsType (h : endsType vs = true) : EndsPart false vs := by
  intro ts hts
  have hless : Look.op "<" ts = false := endsType_noOp h rfl (by decide) ts hts
  have hcolons : Look.op "::" ts = false := endsType_noOp h rfl (by decide) ts hts
  simp [argumentsAhead, hless, hcolons]

/-- What a plain type begins with. -/
def startsType : List Token → Bool
  | .ident false name _ :: _ => isIdentifier false name
  | .punct c .alone _ :: _ => c = '&' || c = '*'
  | .group d _ _ _ :: _ => d = .parenthesis || d = .bracket
  | _ => false

section

variable (h : startsType us = true)
include h

theorem startsType_word {other : String} (hother : reservedWords.contains other = true) :
    Look.word other us = false := by
  rcases us with _ | ⟨⟨_ | _, name, p⟩ | _ | _ | _, us⟩
  case cons.ident.false => exact word_of_isIdentifier h hother p us
  all_goals rfl

theorem startsType_spelledAhead {c : Char} {cs : List Char} (hc : (c ≠ '&' && c ≠ '*') = true) :
    spelledAhead (c :: cs) us = false := by
  rcases us with _ | ⟨_ | ⟨d, _ | _, p⟩ | _ | _, us⟩ <;> simp_all [startsType, spelledAhead]
  rintro rfl
  simp_all

theorem startsType_lifetime : Look.lifetime us = false := by
  rcases us with _ | ⟨_ | ⟨d, _ | _, p⟩ | _ | _, us⟩ <;> simp_all [startsType, Look.lifetime]

theorem startsType_constAhead : Sees constAhead us false := by
  have hliteral : Look.literal us = false := by
    rcases us with _ | ⟨⟨_ | _, name, p⟩ | ⟨d, _ | _, p⟩ | _ | _, us⟩
    case cons.ident.false =>
      simp [Look.literal, literalText?_of_isIdentifier (show isIdentifier false name
        = true from h) p us]
    case cons.punct.alone =>
      have hd : d ≠ '-' := by
        rintro rfl
        simp [startsType] at h
      simp [Look.literal, Look.literalText?, hd]
    case cons.group => rfl
    all_goals cases h
  have hbrace : Look.brace us = false := by
    rcases us with _ | ⟨_ | _ | _ | ⟨d, _, _, _⟩, us⟩ <;> first | rfl | skip
    cases d <;> first | rfl | cases h
  exact .or (.literal hliteral) (.group hbrace)

theorem startsType_ne_nil : us ≠ [] := by
  rintro rfl
  cases h

end

section

variable {rules : Rules} {row : List Token}

/-- A path in which a type consists. -/
theorem reads_typeTree_path (hahead : Sees pathAhead us true) (hparen : Look.paren us = false)
    (hwords : Look.anyOf ["for", "fn", "unsafe", "extern"] us = false)
    (hless : spelledAhead ['<'] us = false)
    (hpath : Reads (path rules false) us vs (·.unplaced = row))
    (hvs : endsType vs = true) : Reads (typeTree rules plus) us vs (·.unplaced = row) := by
  simp only [Look.anyOf, List.any_cons, List.any_nil, Bool.or_false, Bool.or_eq_false_iff] at hwords
  obtain ⟨hfor, hfn, hunsafe, hextern⟩ := hwords
  have hstarts : Look.anyOf ["fn", "unsafe", "extern"] us = false := by
    simp [Look.anyOf, hfn, hunsafe, hextern]
  unfold typeTree
  refine .skip (.word hfor) ?_
  unfold typeAfterBinder
  refine .skip (.group hparen) (.skip (.anyOf hstarts) (.take hahead ?_))
  unfold typeWithPath
  refine .bind (reads_qualifiedPath hless hpath) ?_
  rintro ⟨_, path⟩ ⟨rfl, hpath⟩
  refine .bind (reads_macroCall?_none none path (endsType_noOp hvs rfl (by decide))) ?_
  rintro _ rfl
  refine .seeing (.and_right (endsType_noOp hvs rfl (by decide))) (.pure ?_)
  simpa using hpath

/-- A reference or a pointer and what it leads to. -/
theorem reads_typeTree_reference (plus : Bool) (lifetime : Option LifetimeName) (mutable : Bool)
    (hword : Look.word "mut" us = false) (hlifetime : Look.lifetime us = false)
    (htarget : Reads (rules.type false) us vs (·.unplaced = row)) :
    Reads (typeTree rules plus)
      (Quote.op "&" ++ (lifetime.elim [] LifetimeName.tokens
        ++ ((if mutable then [Quote.word "mut"] else []) ++ us))) vs
      (·.unplaced = Quote.op "&" ++ (lifetime.elim [] LifetimeName.tokens
        ++ ((if mutable then [Quote.word "mut"] else []) ++ row))) := by
  unfold typeTree
  refine .skip (.word rfl) ?_
  unfold typeAfterBinder
  refine .skip (.group rfl) (.skip (.anyOf rfl) (.skip ?_ (.skip (.word rfl) (.skip (.group rfl)
    (.skip (.noOp rfl) (.take (.op rfl rfl) ?_))))))
  · exact .or (.or (.or (.ident rfl) (.anyOf rfl)) (.noOp rfl)) (.noOp rfl)
  unfold referenceType
  have hmutable : Reads (word? "mut") ((if mutable then [Quote.word "mut"] else []) ++ us) us
      (·.unplaced = if mutable then [Quote.word "mut"] else []) := by
    cases mutable with
    | true => exact .optionally_present (.word rfl) .word
    | false =>
      refine (Reads.word_absent hword).weaken ?_
      rintro _ rfl
      rfl
  refine .bind (.op rfl rfl) fun and hand => .bind
    (?_ : Reads (optionally Look.lifetime Grammar.lifetime) _
      ((if mutable then [Quote.word "mut"] else []) ++ us)
      (·.unplaced = lifetime.elim [] LifetimeName.tokens)) fun l hl => ?_
  · cases lifetime with
    | some l => exact .optionally_present (.lifetime rfl) .lifetime
    | none =>
      have hnone : Look.lifetime ((if mutable then [Quote.word "mut"] else []) ++ us) = false := by
        cases mutable with
        | true => rfl
        | false => exact hlifetime
      refine (Reads.optionally_absent (.lifetime hnone)).weaken ?_
      rintro _ rfl
      rfl
  · refine .bind hmutable fun mark hmark => .bind htarget fun target htarget => .pure ?_
    simp [plainType, hand, hl, hmark, htarget]
    rfl

theorem reads_typeTree_pointer (plus mutable : Bool)
    (htarget : Reads (rules.type false) us vs (·.unplaced = row)) :
    Reads (typeTree rules plus)
      (Quote.op "*" ++ ([Quote.word (if mutable then "mut" else "const")] ++ us)) vs
      (·.unplaced = Quote.op "*" ++ ([Quote.word (if mutable then "mut" else "const")]
        ++ row)) := by
  unfold typeTree
  refine .skip (.word rfl) ?_
  unfold typeAfterBinder
  refine .skip (.group rfl) (.skip (.anyOf rfl) (.skip ?_ (.skip (.word rfl) (.skip (.group rfl)
    (.take (.op rfl rfl) ?_)))))
  · exact .or (.or (.or (.ident rfl) (.anyOf rfl)) (.noOp rfl)) (.noOp rfl)
  unfold pointerType
  have hkind : Look.anyOf ["const", "mut"]
      ([Quote.word (if mutable then "mut" else "const")] ++ us) = true := by
    cases mutable <;> rfl
  refine .bind (.op rfl rfl) fun star hstar =>
    .seeing (.anyOf hkind) (.bind .anyWord fun kind hkind => ?_)
  refine .bind htarget fun target htarget => .pure ?_
  simp [plainType, hstar, hkind, htarget]
  rfl

/-- A type in brackets, with or without a length. -/
theorem reads_typeTree_brackets (plus : Bool) (vs : List Token) {tail : List Token}
    (htype : Reads (rules.type true) (row ++ tail) tail (·.unplaced = row))
    (hlength : tail = [] ∨ ∃ text, tail = Quote.op ";" ++ [.literal text .start] ∧
      Reads (rules.expression true) [.literal text .start] []
        (·.unplaced = [.literal text .start])) :
    Reads (typeTree rules plus) (Quote.brackets (row ++ tail) :: vs) vs
      (·.unplaced = [Quote.brackets (row ++ tail)]) := by
  unfold typeTree
  refine .skip (.word rfl) ?_
  unfold typeAfterBinder
  refine .skip (.group rfl)
    (.skip (.anyOf rfl) (.skip ?_ (.skip (.word rfl) (.take (.group rfl) ?_))))
  · exact .or (.or (.or (.ident rfl) (.anyOf rfl)) (.noOp rfl)) (.noOp rfl)
  unfold bracketedType
  have hinside : Reads (do
      let element ← rules.type true
      if ← looking (Look.op ";") then
        let semicolon ← op ";"
        return [element, semicolon, ← rules.expression true]
      else return [element]) (row ++ tail) [] (unplacedTrees · = row ++ tail) := by
    refine .bind htype fun element helement => ?_
    rcases hlength with rfl | ⟨text, rfl, hread⟩
    · refine .skip (.noOp rfl) (.pure ?_)
      simpa using helement
    · refine .take (.op rfl rfl) (.bind (.op rfl rfl) fun semicolon hsemicolon => ?_)
      refine .bind hread fun e he => .pure ?_
      simp [helement, hsemicolon, he]
      rfl
  refine .bind (.within hinside) fun t ht => .pure ?_
  simpa [plainType, Quote.brackets, Quote.nowhere] using ht

end

theorem startsType_append (h : startsType us = true) (vs : List Token) :
    startsType (us ++ vs) = true := by
  rcases us with _ | ⟨⟨_ | _, _, _⟩ | ⟨_, _ | _, _⟩ | _ | _, us⟩ <;> first | exact h | cases h

/-- The tokens of a type. -/
structure TypeRow (rules : Rules) (row : List Token) : Prop where
  starts : startsType row = true
  reads : ∀ plus vs, endsType vs = true →
    Reads (rules.type plus) (row ++ vs) vs (·.unplaced = row)

/-- Types in parentheses; one alone has a comma after it. -/
theorem reads_typeTree_tuple {rules : Rules} {trailing : Bool} {rows : List (List Token)}
    (hlone : rows.length = 1 → trailing = true) (hrows : ∀ row ∈ rows, TypeRow rules row) :
    Reads (typeTree rules plus) (Quote.parens (separated (Quote.op ",") trailing rows) :: vs) vs
      (·.unplaced = [Quote.parens (separated (Quote.op ",") trailing rows)]) := by
  have hinside : Reads (parenthesizedType rules) (separated (Quote.op ",") trailing rows) []
      fun found => ∃ parts, found = .whole parts ∧
        unplacedTrees parts = separated (Quote.op ",") trailing rows := by
    unfold parenthesizedType
    cases rows with
    | nil => exact .take (.atEnd rfl) (.pure ⟨[], rfl, rfl⟩)
    | cons row rows =>
      have hrow := hrows row List.mem_cons_self
      have hmany : Reads (terminated "," (rules.type true))
        (separated (Quote.op ",") trailing rows) []
          (unplacedTrees · = separated (Quote.op ",") trailing rows) := by
        refine .terminated trailing fun row hmem => ?_
        have hrow := hrows row (List.mem_cons_of_mem _ hmem)
        refine ⟨startsType_ne_nil hrow.starts, fun vs hvs => hrow.reads true vs ?_⟩
        rcases hvs with rfl | ⟨ws, rfl⟩ <;> rfl
      have hsplit : separated (Quote.op ",") trailing (row :: rows)
          = row ++ (Quote.op "," ++ separated (Quote.op ",") trailing rows) := by
        cases rows with
        | nil => simp [separated, hlone rfl]
        | cons row' rows => rfl
      have hstarts := startsType_append hrow.starts
        (Quote.op "," ++ separated (Quote.op ",") trailing rows)
      rw [hsplit]
      refine .skip (.atEnd ?_) (.skip (.lifetime (startsType_lifetime hstarts))
        (.skip (.noOp (startsType_spelledAhead hstarts (by decide))) ?_))
      · exact List.isEmpty_eq_false_iff.mpr (startsType_ne_nil hstarts)
      refine .bind (hrow.reads true _ rfl) fun first hfirst => .take (.op rfl rfl) ?_
      refine .bind (.op rfl rfl) fun comma hcomma => .bind hmany fun parts hparts =>
        .pure ⟨_, rfl, ?_⟩
      simp [hfirst, hcomma, hparts]
      rfl
  unfold typeTree
  refine .skip (.word rfl) ?_
  unfold typeAfterBinder
  refine .take (.group rfl) ?_
  unfold typeInParentheses
  refine .bind (.inside hinside) ?_
  rintro ⟨_, wrap⟩ ⟨⟨parts, rfl, hparts⟩, hwrap⟩
  refine .pure ?_
  simp [plainType, hwrap, hparts, Quote.parens, Quote.nowhere]

/-- Items that pass a test and are in front already stay where they are. -/
theorem inFront_eq_flat {test : Tree → Bool} {first others : List (Tree × Tree)}
    (hfirst : ∀ p ∈ first, test p.1 = true) (hothers : ∀ p ∈ others, test p.1 = false)
    (hcommas : others ≠ [] → ∀ p ∈ first, p.2.isPresent = true) :
    inFront test (first ++ others) = flat (first ++ others) := by
  have hpartition : (first ++ others).partition (fun p => test p.1) = (first, others) := by
    rw [List.partition_eq_filter_filter, List.filter_append, List.filter_append,
      List.filter_eq_self.mpr hfirst, List.filter_eq_nil_iff.mpr fun p hp => by simp [hothers p hp],
      List.filter_eq_nil_iff.mpr fun p hp => by simp [hfirst p hp],
      List.filter_eq_self.mpr fun p hp => by simp [hothers p hp]]
    simp
  have hcomma : ((first.getLast?.all fun p => p.2.isPresent) || others.isEmpty) = true := by
    cases others with
    | nil => simp
    | cons p others =>
      cases hlast : first.getLast? with
      | none => rfl
      | some q => simp [hcommas (by simp) q (List.mem_of_getLast? hlast)]
  simp only [inFront, hpartition, hcomma, if_true, flat, List.append_nil, List.flatMap_append]

theorem entries_append {separator : List Token} {trailing : Bool} (rows : List (List Token × Bool))
    {others : List (List Token × Bool)} (hne : others ≠ []) :
    entries separator trailing (rows ++ others)
      = rows.map (fun r => ⟨r.1, r.2, separator⟩) ++ entries separator trailing others := by
  induction rows with
  | nil => rfl
  | cons row rows ih =>
    obtain ⟨next, rest, hnext⟩ := List.exists_cons_of_ne_nil
      (show rows ++ others ≠ [] from fun h => hne (List.append_eq_nil_iff.mp h).2)
    rw [List.cons_append, hnext, entries, ← hnext, ih]
    rfl

theorem marked_of_mem_entries {separator : List Token} {trailing : Bool}
    {rows : List (List Token × Bool)} {e : Entry} (h : e ∈ entries separator trailing rows) :
    ∃ r ∈ rows, e.marked = r.2 := by
  induction rows with
  | nil => cases h
  | cons row rows ih =>
    cases rows with
    | nil =>
      obtain rfl := List.mem_singleton.mp h
      exact ⟨row, List.mem_cons_self, rfl⟩
    | cons row' rows =>
      rcases List.mem_cons.mp h with rfl | h
      · exact ⟨row, List.mem_cons_self, rfl⟩
      · obtain ⟨r, hr, hmarked⟩ := ih h
        exact ⟨r, List.mem_cons_of_mem _ hr, hmarked⟩

/-- Items that were read from a list, those that pass a test first. -/
theorem unplacedTrees_inFront {test : Tree → Bool} (separator : Token) {trailing : Bool}
    {first others : List (List Token)} {pairs : List (Tree × Tree)}
    (h : pairs.map (Entry.ofPair test)
      = entries [separator] trailing (first.map (·, true) ++ others.map (·, false))) :
    unplacedTrees (inFront test pairs) = separated [separator] trailing (first ++ others) := by
  have hflat : unplacedTrees (flat pairs) = separated [separator] trailing (first ++ others) := by
    rw [unplacedTrees_flat test, h, entriesTokens_entries]
    simp [List.map_map, Function.comp_def]
  have hmarked : ∀ (rows : List (List Token × Bool)) {b : Bool} {ps : List (Tree × Tree)},
      (∀ r ∈ rows, r.2 = b) → ps.map (Entry.ofPair test) = entries [separator] trailing rows →
        ∀ p ∈ ps, test p.1 = b := by
    intro rows b ps hrows hps p hp
    obtain ⟨r, hr, htest⟩ := marked_of_mem_entries (hps ▸ List.mem_map_of_mem hp)
    exact htest.trans (hrows r hr)
  rw [← hflat]
  congr 1
  cases others with
  | nil =>
    have hall : inFront test (pairs ++ []) = flat (pairs ++ []) :=
      inFront_eq_flat (hmarked (first.map (·, true)) (by simp) (by simpa using h)) (by simp)
        fun hne => absurd rfl hne
    simpa using hall
  | cons row rows =>
    rw [entries_append _ (by simp)] at h
    obtain ⟨front, back, rfl, hfront, hback⟩ := List.map_eq_append_iff.mp h
    have hpair : ∀ p ∈ front, test p.1 = true ∧ p.2.unplaced = [separator] := by
      intro p hp
      have hmem : Entry.ofPair test p ∈ (first.map (·, true)).map
          (fun r => (⟨r.1, r.2, [separator]⟩ : Entry)) := hfront ▸ List.mem_map_of_mem hp
      rw [List.map_map] at hmem
      obtain ⟨r, -, hr⟩ := List.mem_map.mp hmem
      simp only [Entry.ofPair, Function.comp_apply, Entry.mk.injEq] at hr
      exact ⟨hr.2.1.symm, hr.2.2.symm⟩
    exact inFront_eq_flat (fun p hp => (hpair p hp).1)
      (hmarked ((row :: rows).map (·, false)) (by simp) hback)
      fun _ p hp => isPresent_of_unplaced (hpair p hp).2

/-- The tokens of a lifetime among arguments. -/
theorem reads_genericArgument_lifetime {rules : Rules} (l : LifetimeName)
    (hvs : endsType vs = true) :
    Reads (genericArgument rules) (l.tokens ++ vs) vs
      fun t => t.unplaced = l.tokens ∧ isLifetimeArgument t = true := by
  unfold genericArgument
  have hplus : Sees (Look.second (Look.op "+")) (l.tokens ++ vs) false :=
    .second (endsType_noOp hvs rfl (by decide))
  refine .take (.and (.lifetime rfl) (.not hplus)) (.bind .lifetime fun name hname =>
    .pure ⟨?_, rfl⟩)
  simpa [LifetimeName.tokens, Quote.word, Quote.nowhere] using hname

/-- The tokens of a type among arguments. -/
theorem reads_genericArgument_type {rules : Rules} {row : List Token} (h : TypeRow rules row)
    (hvs : endsType vs = true) :
    Reads (genericArgument rules) (row ++ vs) vs
      fun t => t.unplaced = row ∧ isLifetimeArgument t = false := by
  have hstarts := startsType_append h.starts vs
  unfold genericArgument
  refine .skip (.and_left (.lifetime (startsType_lifetime hstarts)))
    (.skip (startsType_constAhead hstarts) (.bind (h.reads true vs hvs) fun type htype => ?_))
  have hlone : Reads (Pure.pure (.node .genericArgument [type]) : Parser Tree) vs vs
      fun t => t.unplaced = row ∧ isLifetimeArgument t = false :=
    .pure ⟨by simpa using htype, rfl⟩
  split
  · exact .skip (endsType_noOp hvs rfl (by decide))
      (.skip (endsType_noOp hvs rfl (by decide)) hlone)
  · exact hlone

/-- Arguments in angle brackets, the lifetimes first. -/
theorem reads_angleArguments {rules : Rules} (trailing : Bool) {lifetimes : List LifetimeName}
    {rows : List (List Token)} (hrows : ∀ row ∈ rows, TypeRow rules row) :
    Reads (angleArguments rules)
      (Quote.op "<"
        ++ (separated (Quote.op ",") trailing (lifetimes.map LifetimeName.tokens ++ rows)
        ++ (Quote.op ">" ++ vs))) vs
      (·.unplaced = Quote.op "<"
        ++ (separated (Quote.op ",") trailing (lifetimes.map LifetimeName.tokens ++ rows)
          ++ Quote.op ">")) := by
  let marked := (lifetimes.map LifetimeName.tokens).map (·, true) ++ rows.map (·, false)
  have hmarked : marked.map Prod.fst = lifetimes.map LifetimeName.tokens ++ rows := by
    simp [marked, Function.comp_def]
  have hclose : Sees (Look.op ">") (Quote.op ">" ++ vs) true := .op rfl rfl
  have hmore : ∀ ts, Sees (fun ts => !Look.op ">" ts) (Quote.op "," ++ ts) true :=
    fun ts => .not (.noOp rfl)
  have hsep : Separates (Look.op ">") (fun ts => !Look.op ">" ts) (op ",") (Quote.op ",") trailing
      (Quote.op ">" ++ vs) :=
    ⟨by decide, fun vs => .op rfl rfl, fun _ => ⟨hmore _, hclose⟩, fun _ => .not hclose⟩
  have hlist : Reads (upTo (Look.op ">") "," (genericArgument rules))
      (entriesTokens (entries (Quote.op ",") trailing marked) ++ (Quote.op ">" ++ vs))
      (Quote.op ">" ++ vs) fun pairs =>
        pairs.map (Entry.ofPair isLifetimeArgument) = entries (Quote.op ",") trailing marked := by
    refine .listed (endsType · = true) hsep ?_ (fun row hrow => ?_) fun _ => hclose
    · cases trailing <;> rfl
    · refine ⟨fun vs => .noOp ?_, fun vs => hmore _, fun vs => rfl, fun vs hvs => ?_⟩
      all_goals rcases List.mem_append.mp hrow with hmem | hmem
      all_goals obtain ⟨r, hr, rfl⟩ := List.mem_map.mp hmem
      · obtain ⟨l, -, rfl⟩ := List.mem_map.mp hr
        rfl
      · exact startsType_spelledAhead (startsType_append (hrows r hr).starts vs) (by decide)
      · obtain ⟨l, -, rfl⟩ := List.mem_map.mp hr
        exact reads_genericArgument_lifetime l hvs
      · exact reads_genericArgument_type (hrows r hr) hvs
  rw [entriesTokens_entries, hmarked] at hlist
  unfold angleArguments
  refine .bind (.op_absent (.noOp rfl)) ?_
  rintro _ rfl
  refine .bind (.op rfl rfl) fun less hless => .bind hlist fun found hfound => ?_
  refine .bind (.op rfl rfl) fun greater hgreater => .pure ?_
  have hfront := unplacedTrees_inFront (.punct ',' .alone .start) hfound
  simp [hless, hgreater, hfront]
  rfl

/-- What arguments in angle brackets begin with continues no operator. -/
theorem spelledAhead_arguments {rules : Rules} {c : Char} {cs : List Char} (trailing : Bool)
    {lifetimes : List LifetimeName} {rows : List (List Token)}
    (hrows : ∀ row ∈ rows, TypeRow rules row)
    (hc : (c ≠ '&' && c ≠ '*' && c ≠ '\'' && c ≠ '>') = true) :
    spelledAhead (c :: cs) (separated (Quote.op ",") trailing
      (lifetimes.map LifetimeName.tokens ++ rows) ++ (Quote.op ">" ++ vs)) = false := by
  simp only [Bool.and_eq_true, decide_eq_true_eq] at hc
  obtain ⟨⟨⟨hand, hstar⟩, htick⟩, hgreater⟩ := hc
  cases lifetimes with
  | cons l ls =>
    cases hrest : ls.map LifetimeName.tokens ++ rows <;>
      simp [hrest, separated, LifetimeName.tokens, spelledAhead, htick]
  | nil =>
    cases rows with
    | nil =>
      show spelledAhead (c :: cs) (.punct '>' .alone Quote.nowhere :: vs) = false
      simp [spelledAhead, hgreater]
    | cons row rows =>
      have hstarts := (hrows row List.mem_cons_self).starts
      have hc : (c ≠ '&' && c ≠ '*') = true := by simp [hand, hstar]
      cases rows <;> simp only [List.map_nil, List.nil_append, separated, List.append_assoc] <;>
        exact startsType_spelledAhead (startsType_append hstarts _) hc

/-- A part of a path with arguments. -/
theorem pathRow_generic {rules : Rules} (name : PlainName) (trailing : Bool)
    {lifetimes : List LifetimeName} {rows : List (List Token)}
    (hrows : ∀ row ∈ rows, TypeRow rules row) :
    PathRow rules false ([name.token] ++ Quote.op "<"
      ++ separated (Quote.op ",") trailing (lifetimes.map LifetimeName.tokens ++ rows)
      ++ Quote.op ">") := by
  refine ⟨⟨false, name.text, _, rfl⟩, fun vs _ => ?_⟩
  let args := separated (Quote.op ",") trailing (lifetimes.map LifetimeName.tokens ++ rows)
  have hargs : Sees (argumentsAhead false)
      (Quote.op "<" ++ (args ++ (Quote.op ">" ++ vs))) true := by
    have hno : ∀ (c : Char) (cs : List Char),
        (c ≠ '&' && c ≠ '*' && c ≠ '\'' && c ≠ '>') = true →
          spelledAhead ('<' :: c :: cs) (Quote.op "<" ++ (args ++ (Quote.op ">" ++ vs)))
            = false := by
      intro c cs hc
      show (decide ('<' = '<') && spelledAhead (c :: cs) (args ++ (Quote.op ">" ++ vs))) = false
      rw [spelledAhead_arguments trailing hrows hc, Bool.and_false]
    have hequals : Sees (Look.op "<=") (Quote.op "<" ++ (args ++ (Quote.op ">" ++ vs))) false :=
      .noOp (hno '=' [] (by decide))
    have hshift : Sees (Look.op "<<=") (Quote.op "<" ++ (args ++ (Quote.op ">" ++ vs))) false :=
      .noOp (hno '<' ['='] (by decide))
    have hless : Sees (Look.op "<") (Quote.op "<" ++ (args ++ (Quote.op ">" ++ vs))) true :=
      .op rfl rfl
    intro ts hts
    simp [argumentsAhead, hless ts hts, hequals ts hts, hshift ts hts]
  have hread : Reads (segment rules false)
      (name.token :: (Quote.op "<" ++ (args ++ (Quote.op ">" ++ vs)))) vs
      (·.unplaced = name.token :: (Quote.op "<" ++ (args ++ Quote.op ">"))) := by
    unfold segment
    refine .skip (.anyOf (anyOf_of_isIdentifier name.isIdentifier (by decide) _ _)) ?_
    refine .skip (.word (word_of_isIdentifier name.isIdentifier (by decide) _ _)) ?_
    refine .bind (.ident name.isIdentifier) fun word hword => .take hargs ?_
    refine .bind (reads_angleArguments trailing hrows) fun arguments harguments => .pure ?_
    simp [hword, harguments, PlainName.token, Quote.word, Quote.nowhere, args]
  simpa [args] using hread

/-- A path of parts, as a type. -/
theorem typeRow_path {row : List Token} {rows : List (List Token)}
    (hrow : PathRow (Rules.upTo n) false row) (hstarts : startsType row = true)
    (hrows : ∀ row ∈ rows, PathRow (Rules.upTo n) false row) :
    TypeRow (Rules.upTo (n + 1)) (separated (Quote.op "::") false (row :: rows)) := by
  obtain ⟨raw, name, tail, rfl⟩ := hrow.front
  cases raw with
  | true => cases hstarts
  | false =>
    have hfree : isIdentifier false name = true := hstarts
    obtain ⟨ts, hts⟩ : ∃ ts, separated (Quote.op "::") false
      ((.ident false name .start :: tail) :: rows)
        = .ident false name .start :: ts := by
      cases rows <;> exact ⟨_, rfl⟩
    refine ⟨by rw [hts]; exact hfree, fun plus vs hvs => ?_⟩
    have hpath := reads_path _ (List.cons_ne_nil _ _) (List.forall_mem_cons.mpr ⟨hrow, hrows⟩)
      (endsPart_of_endsType hvs) (.and_left (endsType_noOp hvs rfl (by decide)))
    show Reads (typeTree (Rules.upTo n) plus) _ _ _
    rw [hts] at hpath ⊢
    refine reads_typeTree_path ?_ rfl (anyOf_of_isIdentifier hfree (by decide) _ _) rfl hpath hvs
    exact .or_left (.or_left (.or_left (.ident hfree)))

end Grammar

open Grammar

theorem PathPart.startsType_tokens (part : PathPart) : startsType part.tokens = true := by
  cases part with
  | bare name => exact name.isIdentifier
  | generic name => exact name.isIdentifier

mutual
/-- The tokens of a type are read as a type. -/
theorem PlainType.row (τ : PlainType) {n : Nat} (h : τ.depth ≤ n) :
    TypeRow (Rules.upTo n) τ.tokens := by
  obtain ⟨m, rfl⟩ : ∃ m, n = m + 1 := ⟨n - 1, by have := τ.depth_pos; omega⟩
  have h : τ.depth ≤ m + 1 := h
  cases τ with
  | path first rest =>
    obtain ⟨hfirst, hrest⟩ := Nat.max_le.mp (Nat.le_of_succ_le_succ h)
    exact typeRow_path (first.row hfirst) first.startsType_tokens (pathRows_row rest hrest)
  | reference lifetime mutable target =>
    have htarget := target.row (Nat.le_of_succ_le_succ h)
    refine ⟨by simp [PlainType.tokens]; rfl, fun plus vs hvs => ?_⟩
    show Reads (typeTree (Rules.upTo m) plus) _ _ _
    have hstarts := startsType_append htarget.starts vs
    have hread := reads_typeTree_reference plus lifetime mutable
      (startsType_word hstarts (by decide)) (startsType_lifetime hstarts)
      (htarget.reads false vs hvs)
    simpa [PlainType.tokens, Quote.nowhere] using hread
  | pointer mutable target =>
    have htarget := target.row (Nat.le_of_succ_le_succ h)
    refine ⟨by simp [PlainType.tokens]; rfl, fun plus vs hvs => ?_⟩
    show Reads (typeTree (Rules.upTo m) plus) _ _ _
    have hread := reads_typeTree_pointer plus mutable (htarget.reads false vs hvs)
    simpa [PlainType.tokens, Quote.nowhere] using hread
  | tuple parts trailing =>
    have hparts := typeRows_row parts (Nat.le_of_succ_le_succ h)
    refine ⟨rfl, fun plus vs hvs => reads_typeTree_tuple (fun hone => ?_) hparts⟩
    have hlength : parts.length = 1 := by simpa [typeRows_eq] using hone
    simp [hlength]
  | slice element =>
    have helement := element.row (Nat.le_of_succ_le_succ h)
    refine ⟨rfl, fun plus vs hvs => ?_⟩
    show Reads (typeTree (Rules.upTo m) plus) _ _ _
    have hread := reads_typeTree_brackets plus vs (helement.reads true [] rfl) (.inl rfl)
    simpa [PlainType.tokens, Quote.nowhere] using hread
  | array element length =>
    obtain ⟨helement, hlength⟩ := Nat.max_le.mp (Nat.le_of_succ_le_succ h)
    obtain ⟨k, rfl⟩ : ∃ k, m = k + 2 := ⟨m - 2, by omega⟩
    have helement := element.row helement
    refine ⟨rfl, fun plus vs hvs => ?_⟩
    show Reads (typeTree (Rules.upTo (k + 2)) plus) _ _ _
    have hread := reads_typeTree_brackets plus vs
      (helement.reads true (Quote.op ";" ++ [.literal length.text .start]) rfl)
      (.inr ⟨_, rfl, reads_expression_number⟩)
    simpa [PlainType.tokens, Quote.nowhere] using hread

theorem PathPart.row (part : PathPart) {n : Nat} (h : part.depth ≤ n) :
    PathRow (Rules.upTo n) false part.tokens := by
  cases part with
  | bare name => 
    refine ⟨⟨false, name.text, [], rfl⟩, fun vs hvs => reads_segment_bare name.isIdentifier hvs⟩
  | generic name lifetimes types trailing =>
    exact pathRow_generic name trailing (typeRows_row types h)

theorem pathRows_row (parts : List PathPart) {n : Nat} (h : partsDepth parts ≤ n) :
    ∀ row ∈ pathRows parts, PathRow (Rules.upTo n) false row := by
  cases parts with
  | nil => simp [pathRows]
  | cons part parts =>
    obtain ⟨hpart, hparts⟩ := Nat.max_le.mp h
    exact List.forall_mem_cons.mpr ⟨part.row hpart, pathRows_row parts hparts⟩

theorem typeRows_row (types : List PlainType) {n : Nat} (h : typesDepth types ≤ n) :
    ∀ row ∈ typeRows types, TypeRow (Rules.upTo n) row := by
  cases types with
  | nil => simp [typeRows]
  | cons type types =>
    obtain ⟨htype, htypes⟩ := Nat.max_le.mp h
    exact List.forall_mem_cons.mpr ⟨type.row htype, typeRows_row types htypes⟩
end

end Observable
