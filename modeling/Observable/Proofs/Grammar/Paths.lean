import Observable.Grammar.Path
import Observable.Proofs.Grammar.Listing
import Observable.Proofs.Grammar.PlainType
/-! Reading paths. -/
namespace Observable.Grammar

variable {rules : Rules} {expression raw : Bool} {name : String} {us vs rest : List Token}

/-- A word that is not reserved is none of some reserved ones. -/
theorem word_of_isIdentifier (h : isIdentifier raw name = true) {other : String}
    (hother : reservedWords.contains other = true) (p : Position) (us : List Token) :
    Look.word other (.ident raw name p :: us) = false := by
  cases raw with
  | true => rfl
  | false =>
    refine Bool.eq_false_iff.mpr fun hword => ?_
    obtain rfl : name = other := by simpa [Look.word] using hword
    simp [isIdentifier, List.contains_eq_mem] at h hother
    exact h hother

theorem anyOf_of_isIdentifier (h : isIdentifier raw name = true) {names : List String}
    (hnames : names.all reservedWords.contains = true) (p : Position) (us : List Token) :
    Look.anyOf names (.ident raw name p :: us) = false := by
  refine Bool.eq_false_iff.mpr fun hany => ?_
  obtain ⟨other, hmem, hword⟩ := List.any_eq_true.mp hany
  rw [word_of_isIdentifier h (List.all_eq_true.mp hnames other hmem) p us] at hword
  cases hword

/-- Whether a row can stand right after a part of a path without belonging to it. -/
def EndsPart (expression : Bool) (vs : List Token) : Prop :=
  Sees (argumentsAhead expression) vs false

theorem reads_segment_bare (h : isIdentifier raw name = true) (hends : EndsPart expression vs) :
    Reads (segment rules expression) (.ident raw name .start :: vs) vs
      (·.unplaced = [.ident raw name .start]) := by
  unfold segment
  refine .skip (.anyOf (anyOf_of_isIdentifier h (by decide) _ _)) ?_
  refine .skip (.word (word_of_isIdentifier h (by decide) _ _)) ?_
  refine .bind (.ident h) fun name hname => .skip hends (.pure ?_)
  simp [hname]

/-- A keyword that is a part of a path. -/
theorem reads_segment_keyword (h : ["super", "self", "crate", "try"].contains name = true) :
    Reads (segment rules expression) (.ident false name .start :: vs) vs
      (·.unplaced = [.ident false name .start]) := by
  have hany : Look.anyOf ["super", "self", "crate", "try"] (.ident false name .start :: vs)
      = true := by
    simpa [Look.anyOf, Look.word] using h
  unfold segment
  refine .take (.anyOf hany) (.bind .anyWord fun name hname => .pure ?_)
  simp [hname]

/-- What goes on after a part of a path. -/
def partGoesOn (ts : List Token) : Bool := Look.op "::" ts && !Look.third Look.paren ts

/-- The tokens of a part of a path, which begin with a word. -/
structure PathRow (rules : Rules) (expression : Bool) (row : List Token) : Prop where
  front : ∃ raw name rest, row = .ident raw name .start :: rest
  reads : ∀ vs, EndsPart expression vs →
    Reads (segment rules expression) (row ++ vs) vs (·.unplaced = row)

theorem endsPart_colons {row : List Token} (h : PathRow rules expression row) (vs : List Token) :
    EndsPart expression (Quote.op "::" ++ (row ++ vs)) := by
  obtain ⟨raw, name, tail, rfl⟩ := h.front
  intro ts hts
  have hless : Look.op "<" ts = false := (Sees.noOp rfl) ts hts
  have hthird : Look.third (Look.op "<") ts = false := (Steady.op rfl).third.sees rfl ts hts
  simp [argumentsAhead, hless, hthird]

theorem goesOn_colons {row : List Token} (h : PathRow rules expression row) (vs : List Token) :
    Sees partGoesOn (Quote.op "::" ++ (row ++ vs)) true := by
  obtain ⟨raw, name, tail, rfl⟩ := h.front
  intro ts hts
  have hcolons : Look.op "::" ts = true := (Sees.op rfl rfl) ts hts
  have hthird : Look.third Look.paren ts = false :=
    (Steady.group .parenthesis).third.sees rfl ts hts
  simp [partGoesOn, hcolons, hthird]

theorem reads_segments {rows : List (List Token)} (hne : rows ≠ [])
    (hrows : ∀ row ∈ rows, PathRow rules expression row) (hends : EndsPart expression rest)
    (hrest : Sees partGoesOn rest false) :
    Reads (segments rules expression partGoesOn) (separated (Quote.op "::") false rows ++ rest) rest
      (unplacedTrees · = separated (Quote.op "::") false rows) := by
  have hsep : Separates (fun _ => false) partGoesOn (op "::") (Quote.op "::") false rest :=
    ⟨by decide, fun vs => .op rfl rfl, fun h => (by cases h), fun _ => hrest⟩
  have hmap : (rows.map (·, false)).map Prod.fst = rows := by
    rw [List.map_map]
    exact List.map_id' rows
  have hlist : Reads (listed (fun _ => false) partGoesOn (op "::") (segment rules expression))
      (entriesTokens (entries (Quote.op "::") false (rows.map (·, false))) ++ rest) rest
      fun pairs => pairs.map (Entry.ofPair fun _ => false)
        = entries (Quote.op "::") false (rows.map (·, false)) := by
    refine .listed (EndsPart expression) hsep hends ?_ fun h =>
      absurd (List.map_eq_nil_iff.mp h) hne
    rintro row hrow
    obtain ⟨row, hmem, rfl⟩ := List.mem_map.mp hrow
    have hpart := hrows row hmem
    exact ⟨fun vs ts _ => rfl, goesOn_colons hpart, endsPart_colons hpart,
      fun vs hvs => (hpart.reads vs hvs).weaken fun t ht => ⟨ht, rfl⟩⟩
  rw [entriesTokens_entries, hmap] at hlist
  refine hlist.bind fun pairs hpairs => .pure ?_
  rw [unplacedTrees_flat (fun _ => false), hpairs, entriesTokens_entries, hmap]

/-- A path from where it stands. -/
theorem reads_path (rows : List (List Token)) (hne : rows ≠ [])
    (hrows : ∀ row ∈ rows, PathRow rules expression row) (hends : EndsPart expression rest)
    (hrest : Sees partGoesOn rest false) :
    Reads (path rules expression) (separated (Quote.op "::") false rows ++ rest) rest
      (·.unplaced = separated (Quote.op "::") false rows) := by
  have hfront : spelledAhead "::".toList (separated (Quote.op "::") false rows ++ rest)
      = false := by
    cases rows with
    | nil => exact absurd rfl hne
    | cons row rows =>
      obtain ⟨raw, name, tail, rfl⟩ := (hrows row List.mem_cons_self).front
      cases rows <;> rfl
  unfold path
  refine .bind (.op_absent (.noOp hfront)) ?_
  rintro _ rfl
  refine .bind (reads_segments hne hrows hends hrest) fun parts hparts => .pure ?_
  simp [hparts]

/-- A path from the root of all libraries. -/
theorem reads_path_rooted (rows : List (List Token)) (hne : rows ≠ [])
    (hrows : ∀ row ∈ rows, PathRow rules expression row) (hends : EndsPart expression rest)
    (hrest : Sees partGoesOn rest false) :
    Reads (path rules expression) (Quote.op "::" ++ (separated (Quote.op "::") false rows ++ rest))
      rest (·.unplaced = Quote.op "::" ++ separated (Quote.op "::") false rows) := by
  unfold path
  refine .bind (.op_present rfl rfl rfl) fun leading hleading => ?_
  refine .bind (reads_segments hne hrows hends hrest) fun parts hparts => .pure ?_
  simp [hleading, hparts]
  rfl

/-- A path that no type in angle brackets stands in front of. -/
theorem reads_qualifiedPath {good : Tree → Prop} (hfront : spelledAhead ['<'] us = false)
    (h : Reads (path rules expression) us vs good) :
    Reads (qualifiedPath rules expression) us vs fun r => r.1 = none ∧ good r.2 := by
  unfold qualifiedPath
  exact .skip (.noOp hfront) (.bind h fun path hpath => .pure ⟨rfl, hpath⟩)

/-- A path that calls no macro. -/
theorem reads_macroCall?_none (self : Option Tree) (path : Tree) (h : Sees (Look.op "!") vs false) :
    Reads (macroCall? self path) vs vs (· = none) := by
  unfold macroCall?
  exact .skip (.and_left (.and_left (.and_right h))) (.pure rfl)

end Observable.Grammar
