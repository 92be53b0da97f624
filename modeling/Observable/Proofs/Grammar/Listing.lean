import Observable.Grammar.Attribute
import Observable.Output.Quote
import Observable.Proofs.Grammar.Reading
/-! What readers of lists do on the rows of their items. -/
namespace Observable.Grammar

/-- An item of a list with what stands after it. -/
structure Entry where
  item : List Token
  marked : Bool
  separator : List Token

namespace Entry

def tokens (e : Entry) : List Token := e.item ++ e.separator

/-- What a tree and its separator are read from. -/
def ofPair (test : Tree → Bool) (pair : Tree × Tree) : Entry :=
  ⟨pair.1.unplaced, test pair.1, pair.2.unplaced⟩

end Entry

/-- Items with a separator between them and, when the list is trailing, after the last one. -/
def entries (separator : List Token) (trailing : Bool) : List (List Token × Bool) → List Entry
  | [] => []
  | [r] => [⟨r.1, r.2, if trailing then separator else []⟩]
  | r :: r' :: rest => ⟨r.1, r.2, separator⟩ :: entries separator trailing (r' :: rest)

def entriesTokens (all : List Entry) : List Token := all.flatMap Entry.tokens

/-- Rows with a separator between them and, when the list is trailing, after the last one. -/
def separated (separator : List Token) (trailing : Bool) : List (List Token) → List Token
  | [] => []
  | [row] => row ++ if trailing then separator else []
  | row :: row' :: rest => row ++ (separator ++ separated separator trailing (row' :: rest))

theorem entriesTokens_entries (separator : List Token) (trailing : Bool)
    (rows : List (List Token × Bool)) :
    entriesTokens (entries separator trailing rows)
      = separated separator trailing (rows.map Prod.fst) := by
  induction rows with
  | nil => rfl
  | cons row rows ih =>
    cases rows with
    | nil => simp [entries, entriesTokens, Entry.tokens, separated]
    | cons row' rows =>
      simp only [List.map_cons] at ih
      simp only [entries, List.map_cons, separated, ← ih]
      simp [entriesTokens, Entry.tokens]

theorem unplacedTrees_flat (test : Tree → Bool) (pairs : List (Tree × Tree)) :
    unplacedTrees (flat pairs) = entriesTokens (pairs.map (Entry.ofPair test)) := by
  induction pairs with
  | nil => rfl
  | cons pair pairs ih =>
    have hflat : flat (pair :: pairs) = [pair.1, pair.2] ++ flat pairs := rfl
    rw [hflat, unplacedTrees_append, ih]
    simp [entriesTokens, Entry.tokens, Entry.ofPair]

section

variable {stop goesOn : List Token → Bool} {separator item : Parser Tree} {test : Tree → Bool}
  {sep rest : List Token} {trailing : Bool}

/-- How a list in which separators are read as the given tokens goes on and ends. -/
structure Separates (stop goesOn : List Token → Bool) (separator : Parser Tree)
    (sep : List Token) (trailing : Bool) (rest : List Token) : Prop where
  present : sep ≠ []
  reads : ∀ vs, Reads separator (sep ++ vs) vs (·.unplaced = sep)
  ended : trailing = true → Sees goesOn (sep ++ rest) true ∧ Sees stop rest true
  last : trailing = false → Sees goesOn rest false

/-- What the items of a list have to be like, given what may follow them. -/
structure Lists (stop goesOn : List Token → Bool) (item : Parser Tree) (test : Tree → Bool)
    (sep : List Token) (follows : List Token → Prop) (row : List Token × Bool) : Prop where
  starts : ∀ vs, Sees stop (row.1 ++ vs) false
  goes : ∀ vs, Sees goesOn (sep ++ (row.1 ++ vs)) true
  ends : ∀ vs, follows (sep ++ (row.1 ++ vs))
  reads : ∀ vs, follows vs → Reads item (row.1 ++ vs) vs fun t => t.unplaced = row.1 ∧
    test t = row.2

theorem runs_listed {follows : List Token → Prop}
    (hsep : Separates stop goesOn separator sep trailing rest)
    (hrest : follows (if trailing then sep ++ rest else rest)) {rows : List (List Token × Bool)}
    (hrows : ∀ row ∈ rows, Lists stop goesOn item test sep follows row)
    (hempty : rows = [] → Sees stop rest true) (done : List Entry) (found : List (Tree × Tree))
    (hfound : found.reverse.map (Entry.ofPair test) = done) :
    Runs (fun found => do
        if ← looking stop then return (found, false)
        let x ← item
        if ← looking goesOn then
          let c ← separator
          return ((x, c) :: found, true)
        else return ((x, .absent) :: found, false))
      (fun found => found.reverse.map (Entry.ofPair test) = done ++ entries sep trailing rows)
      found (entriesTokens (entries sep trailing rows) ++ rest) rest := by
  induction rows generalizing done found with
  | nil =>
    refine .stop (.take (hempty rfl) (.pure ⟨rfl, ?_⟩))
    rw [hfound, entries, List.append_nil]
  | cons row rows ih =>
    have hrow := hrows row List.mem_cons_self
    have hlength : ∀ vs : List Token, vs.length < (row.1 ++ (sep ++ vs)).length := by
      intro vs
      have hpos := List.length_pos_iff.mpr hsep.present
      simp only [List.length_append]
      omega
    cases rows with
    | nil =>
      cases trailing with
      | false =>
        have hus : entriesTokens (entries sep false [row]) ++ rest = row.1 ++ rest := by
          simp [entries, entriesTokens, Entry.tokens]
        rw [hus]
        refine .stop (.skip (hrow.starts rest) (.bind (hrow.reads rest hrest) fun x hx =>
          .skip (hsep.last rfl) (.pure ⟨rfl, ?_⟩)))
        simp [Entry.ofPair, hx.1, hx.2, hfound, entries]
      | true =>
        have hus : entriesTokens (entries sep true [row]) ++ rest = row.1 ++ (sep ++ rest) := by
          simp [entries, entriesTokens, Entry.tokens]
        rw [hus]
        refine .next (fun found => found.reverse.map (Entry.ofPair test) = done
          ++ [⟨row.1, row.2, sep⟩])
          (.skip (hrow.starts _) (.bind (hrow.reads _ hrest) fun x hx =>
            .take (hsep.ended rfl).1 (.bind (hsep.reads rest) fun c hc => .pure ⟨rfl, ?_⟩)))
          (hlength rest) fun found hfound => .stop (.take (hsep.ended rfl).2 (.pure ⟨rfl, ?_⟩))
        · simp [Entry.ofPair, hx.1, hx.2, hc, hfound]
        · simp [hfound, entries]
    | cons row' rows =>
      have hus : entriesTokens (entries sep trailing (row :: row' :: rows)) ++ rest
          = row.1 ++ (sep ++ (entriesTokens (entries sep trailing (row' :: rows)) ++ rest)) := by
        simp [entries, entriesTokens, Entry.tokens]
      have hgoes : Sees goesOn
        (sep ++ (entriesTokens (entries sep trailing (row' :: rows)) ++ rest))
          true := by
        have hrow' := hrows row' (List.mem_cons_of_mem _ List.mem_cons_self)
        cases rows <;> simp only [entries, entriesTokens, List.flatMap_cons, Entry.tokens,
          List.append_assoc] <;> exact hrow'.goes _
      have hends : follows (sep ++ (entriesTokens (entries sep trailing (row' :: rows))
          ++ rest)) := by
        have hrow' := hrows row' (List.mem_cons_of_mem _ List.mem_cons_self)
        cases rows <;> simp only [entries, entriesTokens, List.flatMap_cons, Entry.tokens,
          List.append_assoc] <;> exact hrow'.ends _
      rw [hus]
      refine .next (fun found => found.reverse.map (Entry.ofPair test) = done
        ++ [⟨row.1, row.2, sep⟩])
        (.skip (hrow.starts _) (.bind (hrow.reads _ hends) fun x hx =>
          .take hgoes (.bind (hsep.reads _) fun c hc => .pure ⟨rfl, ?_⟩)))
        (hlength _) fun found hfound => ?_
      · simp [Entry.ofPair, hx.1, hx.2, hc, hfound]
      · have hruns := ih (fun r hr => hrows r (List.mem_cons_of_mem _ hr)) (fun h => by cases h)
          (done ++ [⟨row.1, row.2, sep⟩]) found hfound
        have hdone : done ++ [⟨row.1, row.2, sep⟩] ++ entries sep trailing (row' :: rows)
            = done ++ entries sep trailing (row :: row' :: rows) := by simp [entries]
        rwa [hdone] at hruns

/-- A list is read from the rows of its items. -/
theorem Reads.listed (follows : List Token → Prop)
    (hsep : Separates stop goesOn separator sep trailing rest)
    (hrest : follows (if trailing then sep ++ rest else rest)) {rows : List (List Token × Bool)}
    (hrows : ∀ row ∈ rows, Lists stop goesOn item test sep follows row)
    (hempty : rows = [] → Sees stop rest true) :
    Reads (listed stop goesOn separator item) (entriesTokens (entries sep trailing rows)
      ++ rest) rest
      fun pairs => pairs.map (Entry.ofPair test) = entries sep trailing rows :=
  (runs_listed hsep hrest hrows hempty [] [] rfl).reads.bind fun found hfound =>
    .pure (by simpa using hfound)

/-- Items with commas up to the end of a group. -/
theorem Reads.terminated (trailing : Bool) {rows : List (List Token)}
    (hrows : ∀ row ∈ rows, row ≠ [] ∧
      ∀ vs, (vs = [] ∨ ∃ ws, vs = Quote.op "," ++ ws) → Reads item (row ++ vs) vs
        (·.unplaced = row)) :
    Reads (terminated "," item) (separated (Quote.op ",") trailing rows) []
      (unplacedTrees · = separated (Quote.op ",") trailing rows) := by
  have hend : Sees (fun ts => !Grammar.atEnd ts) [] false := .not (.atEnd rfl)
  have hmore : ∀ vs, Sees (fun ts => !Grammar.atEnd ts) (Quote.op "," ++ vs) true :=
    fun vs => .not (.atEnd rfl)
  have hsep : Separates Grammar.atEnd (fun ts => !Grammar.atEnd ts) (Grammar.op ",") (Quote.op ",")
      trailing [] :=
    ⟨by decide, fun vs => .op rfl rfl, fun _ => ⟨hmore [], .atEnd rfl⟩, fun _ => hend⟩
  have hmap : (rows.map (·, false)).map Prod.fst = rows := by
    rw [List.map_map]
    exact List.map_id' rows
  have hlist : Reads (upTo Grammar.atEnd "," item)
      (entriesTokens (entries (Quote.op ",") trailing (rows.map (·, false))) ++ []) []
      fun pairs => pairs.map (Entry.ofPair fun _ => false)
        = entries (Quote.op ",") trailing (rows.map (·, false)) := by
    refine .listed (fun vs => vs = [] ∨ ∃ ws, vs = Quote.op "," ++ ws) hsep ?_ ?_ fun _ =>
      .atEnd rfl
    · cases trailing with
      | false => exact .inl rfl
      | true => exact .inr ⟨[], rfl⟩
    · rintro row hrow
      obtain ⟨row, hmem, rfl⟩ := List.mem_map.mp hrow
      obtain ⟨hne, hread⟩ := hrows row hmem
      have hstarts : ∀ vs, Grammar.atEnd (row ++ vs) = false := by
        intro vs
        cases row with
        | nil => exact absurd rfl hne
        | cons => rfl
      exact ⟨fun vs => .atEnd (hstarts vs), fun vs => hmore _, fun vs => .inr ⟨_, rfl⟩,
        fun vs hvs => (hread vs hvs).weaken fun t ht => ⟨ht, rfl⟩⟩
  rw [List.append_nil, entriesTokens_entries, hmap] at hlist
  refine hlist.bind fun pairs hpairs => .pure ?_
  rw [unplacedTrees_flat (fun _ => false), hpairs, entriesTokens_entries, hmap]

end

section

variable {look : List Token → Bool} {item : Parser Tree} {rest : List Token}

/-- Items are read as long as a test holds. -/
theorem Reads.whileAhead {rows : List (List Token)} (hrest : Sees look rest false)
    (hrows : ∀ row ∈ rows, row ≠ [] ∧ ∀ vs, Sees look (row ++ vs) true ∧
      Reads item (row ++ vs) vs (·.unplaced = row)) :
    Reads (whileAhead look item) (rows.flatten ++ rest) rest (unplacedTrees · = rows.flatten) := by
  suffices hruns : ∀ (done : List Token) (found : List Tree), unplacedTrees found.reverse = done →
      Runs (fun found => do
          if ← Grammar.looking look then return ((← item) :: found, true)
          else return (found, false))
        (fun found => unplacedTrees found.reverse = done ++ rows.flatten) found
        (rows.flatten ++ rest) rest by
    exact (hruns [] [] rfl).reads.bind fun found hfound => .pure (by simpa using hfound)
  induction rows with
  | nil =>
    refine fun done found hfound => .stop (.skip hrest (.pure ⟨rfl, ?_⟩))
    simpa using hfound
  | cons row rows ih =>
    intro done found hfound
    obtain ⟨hne, hrow⟩ := hrows row List.mem_cons_self
    obtain ⟨hlook, hread⟩ := hrow (rows.flatten ++ rest)
    have hpos := List.length_pos_iff.mpr hne
    rw [List.flatten_cons, List.append_assoc]
    refine .next (fun found => unplacedTrees found.reverse = done ++ row)
      (.take hlook (.bind hread fun x hx => .pure ⟨rfl, ?_⟩)) ?_ fun found hfound => ?_
    · simp [hx, hfound]
    · simp only [List.length_append]
      omega
    · have hruns := ih (fun r hr => hrows r (List.mem_cons_of_mem _ hr)) (done ++ row) found hfound
      rwa [List.append_assoc] at hruns

theorem Reads.whileAhead_none (h : Sees look rest false) :
    Reads (Grammar.whileAhead look item) rest rest (· = []) := by
  have hruns : Runs (fun found => do
      if ← Grammar.looking look then return ((← item) :: found, true) else return (found, false))
      (· = []) [] rest rest := .stop (.skip h (.pure ⟨rfl, rfl⟩))
  refine hruns.reads.bind ?_
  rintro _ rfl
  exact .pure rfl

theorem Reads.outerAttributes_none {rules : Rules} (h : spelledAhead ['#'] rest = false) :
    Reads (outerAttributes rules) rest rest (· = []) :=
  .whileAhead_none (.noOp h)

/-- All of a group is read as items. -/
theorem Reads.allItems {rows : List (List Token)}
    (hrows : ∀ row ∈ rows, row ≠ [] ∧ ∀ vs, Reads item (row ++ vs) vs (·.unplaced = row)) :
    Reads (allItems item) rows.flatten [] (unplacedTrees · = rows.flatten) := by
  suffices hruns : ∀ (done : List Token) (found : List Tree), unplacedTrees found.reverse = done →
      Runs (fun found => do
          if ← Grammar.looking Grammar.atEnd then return (found, false)
          return ((← item) :: found, true))
        (fun found => unplacedTrees found.reverse = done ++ rows.flatten) found
        rows.flatten [] by
    exact (hruns [] [] rfl).reads.bind fun found hfound => .pure (by simpa using hfound)
  induction rows with
  | nil =>
    refine fun done found hfound => .stop (.take (.atEnd rfl) (.pure ⟨rfl, ?_⟩))
    simpa using hfound
  | cons row rows ih =>
    intro done found hfound
    obtain ⟨hne, hrow⟩ := hrows row List.mem_cons_self
    have hpos := List.length_pos_iff.mpr hne
    have hmore : atEnd (row ++ rows.flatten) = false := by
      cases row with
      | nil => exact absurd rfl hne
      | cons => rfl
    rw [List.flatten_cons]
    refine .next (fun found => unplacedTrees found.reverse = done ++ row)
      (.skip (.atEnd hmore) (.bind (hrow _) fun x hx => .pure ⟨rfl, ?_⟩)) ?_ fun found hfound => ?_
    · simp [hx, hfound]
    · simp only [List.length_append]
      omega
    · have hruns := ih (fun r hr => hrows r (List.mem_cons_of_mem _ hr)) (done ++ row) found hfound
      rwa [List.append_assoc] at hruns

end

end Observable.Grammar
