import Mathlib.Data.List.TakeWhile
import Mathlib.Tactic.SplitIfs
import Observable.Field.Marker
/-! What the words of a path lead to from a module, and which paths lead to the marker. -/
namespace Observable

namespace ModulePath

/-- The module some steps up. -/
def ancestor (m : ModulePath) (steps : Nat) : ModulePath :=
  ⟨m.segments.take (m.segments.length - steps)⟩

theorem length_ancestor (m : ModulePath) (steps : Nat) :
    (m.ancestor steps).segments.length = m.segments.length - steps := by
  rw [ancestor, List.length_take]
  omega

theorem ancestor_ancestor (m : ModulePath) (i j : Nat) :
    (m.ancestor i).ancestor j = m.ancestor (i + j) := by
  simp only [ancestor, List.length_take, List.take_take]
  congr 2
  omega

theorem parent_eq_some {m above : ModulePath} :
    m.parent = some above ↔ 0 < m.segments.length ∧ above = m.ancestor 1 := by
  rw [parent, isRoot, ancestor, ← List.dropLast_eq_take, List.length_pos_iff]
  cases m.segments <;> simp [eq_comm]

theorem parent_eq_none {m : ModulePath} : m.parent = none ↔ m.segments.length = 0 := by
  rw [parent, isRoot]
  cases m.segments <;> simp

end ModulePath

namespace Scope

/-- The words that a path stands for: the target of an import in the place of its first word. -/
def expanded (s : Scope) : List String → List String
  | [] => []
  | first :: rest => (s.import? first).getD [first] ++ rest

/-- Each `super` leads one module up, and none leads further up than the root. -/
theorem resolveAbove_eq_some {m : ModulePath} {words : List String} {q : CanonicalPath} :
    resolveAbove m words = some q ↔
      ∃ k rest, words = List.replicate k "super" ++ rest ∧ rest.head? ≠ some "super" ∧
        k < m.segments.length ∧ q = .below (m.ancestor (k + 1)) rest := by
  induction words generalizing m with
  | nil =>
    rw [resolveAbove, Option.map_eq_some_iff]
    constructor
    · rintro ⟨above, habove, rfl⟩
      obtain ⟨hdepth, rfl⟩ := ModulePath.parent_eq_some.mp habove
      exact ⟨0, [], rfl, by simp, hdepth, rfl⟩
    · rintro ⟨k, rest, hwords, -, hdepth, rfl⟩
      obtain ⟨hk, rfl⟩ := List.append_eq_nil_iff.mp hwords.symm
      obtain rfl : k = 0 := by simpa using hk
      exact ⟨_, ModulePath.parent_eq_some.mpr ⟨hdepth, rfl⟩, rfl⟩
  | cons word words ih =>
    rw [resolveAbove]
    cases hparent : m.parent with
    | none =>
      have hdepth := ModulePath.parent_eq_none.mp hparent
      simp [hdepth]
    | some above =>
      obtain ⟨hdepth, rfl⟩ := ModulePath.parent_eq_some.mp hparent
      by_cases hword : word = "super"
      · subst hword
        simp only [if_true, ih, ModulePath.length_ancestor, ModulePath.ancestor_ancestor]
        constructor
        · rintro ⟨k, rest, rfl, hrest, hk, rfl⟩
          exact ⟨k + 1, rest, rfl, hrest, by omega, by rw [Nat.add_comm 1]⟩
        · rintro ⟨k, rest, hwords, hrest, hk, rfl⟩
          cases k with
          | zero =>
            obtain rfl : "super" :: words = rest := hwords
            exact absurd rfl hrest
          | succ k =>
            obtain rfl : words = List.replicate k "super" ++ rest := (List.cons.inj hwords).2
            exact ⟨k, rest, rfl, hrest, by omega, by rw [Nat.add_comm 1]⟩
      · simp only [hword, if_false, Option.some.injEq]
        constructor
        · rintro rfl
          exact ⟨0, word :: words, rfl, by simpa using hword, hdepth, rfl⟩
        · rintro ⟨k, rest, hwords, -, -, rfl⟩
          cases k with
          | zero =>
            obtain rfl : word :: words = rest := hwords
            rfl
          | succ k => exact absurd (List.cons.inj hwords).1 hword

/-- A single word that neither the module nor the language binds is looked up at the root; any other
path leads where the words lead that it stands for. -/
theorem resolve_eq (s : Scope) (path : List String) :
    s.resolve path =
      match path with
      | [word] =>
        if s.binds word || pathWords.contains word then s.resolveWords (s.expanded [word])
        else some (.below .root [word])
      | path => s.resolveWords (s.expanded path) := by
  rcases path with _ | ⟨first, _ | ⟨second, rest⟩⟩
  case nil => rfl
  all_goals
    simp only [resolve, expanded, binds]
    split
    · rename_i target himport
      simp [himport]
    · rename_i himport
      simp only [himport, Option.getD_none, Option.isSome_none, Bool.or_false]
      cases s.locals.contains first <;> cases pathWords.contains first <;> rfl

theorem import?_eq_none {s : Scope} {word : String} (h : s.binds word = false) :
    s.import? word = none ∧ s.locals.contains word = false := by
  rw [binds, Bool.or_eq_false_iff, Option.isSome_eq_false_iff, Option.isNone_iff_eq_none] at h
  exact h.symm

theorem expanded_unbound {s : Scope} {word : String} (h : s.binds word = false) :
    s.expanded [word] = [word] := by
  rw [expanded, (import?_eq_none h).1]
  rfl

/-- No item is reached by a word that is not bound. -/
theorem resolveWords_unbound {s : Scope} {word : String} (h : s.binds word = false)
    (hword : pathWords.contains word = false) : s.resolveWords (s.expanded [word]) = none := by
  have hne : ∀ w ∈ pathWords, word ≠ w := by
    rintro w hw rfl
    rw [List.contains_eq_mem, decide_eq_false_iff_not] at hword
    exact hword hw
  rw [expanded_unbound h, resolveWords, if_neg (hne _ (by decide)), if_neg (hne _ (by decide)),
    if_neg (hne _ (by decide)), (import?_eq_none h).2]
  rfl

end Scope

namespace Marker

/-- The paths that name the marker in a module, by what they stand for there: the marker's own path,
a path from the module or from one above it to the marker's name at the root, that name where
nothing binds it, and that name as an item of the root. -/
inductive Named (s : Scope) (path : List String) : Prop
  | ofCrate (h : s.expanded path = ["crate", name])
  | ofModule {rest} (h : s.expanded path = "self" :: rest)
      (hname : s.module.segments ++ rest = [name])
  | ofAncestor {k rest} (h : s.expanded path = List.replicate (k + 1) "super" ++ rest)
      (hdepth : k + 1 ≤ s.module.segments.length)
      (hname : (s.module.ancestor (k + 1)).segments ++ rest = [name])
  | unbound (h : path = [name]) (hbinds : s.binds name = false)
  | item (h : s.expanded path = [name]) (hroot : s.module.isRoot = true) (hlocal : name ∈ s.locals)

theorem below_eq_identity {m : ModulePath} {rest : List String} :
    CanonicalPath.below m rest = identity ↔ m.segments ++ rest = [name] := by
  rw [identity, CanonicalPath.below, CanonicalPath.below, CanonicalPath.mk.injEq, List.cons.injEq]
  simp [ModulePath.root]

theorem Named.of_resolveWords {s : Scope} {path : List String}
    (h : s.resolveWords (s.expanded path) = some identity) : Named s path := by
  cases ht : s.expanded path with
  | nil => rw [ht] at h; cases h
  | cons first rest =>
    rw [ht, Scope.resolveWords] at h
    split_ifs at h with hcrate hself hsuper hlocal
    · obtain rfl := hcrate
      have hwords : "crate" :: rest = ["crate", name] := by
        rw [Option.some.injEq, identity, CanonicalPath.below, CanonicalPath.mk.injEq] at h
        exact h
      exact .ofCrate (ht.trans hwords)
    · obtain rfl := hself
      exact .ofModule ht (below_eq_identity.mp (Option.some.inj h))
    · obtain rfl := hsuper
      obtain ⟨k, rest, rfl, -, hdepth, hq⟩ := Scope.resolveAbove_eq_some.mp h
      exact .ofAncestor ht hdepth (below_eq_identity.mp hq.symm)
    · have hname := below_eq_identity.mp (Option.some.inj h)
      obtain ⟨hroot, hwords⟩ : s.module.segments = [] ∧ first :: rest = [name] := by
        cases hsegments : s.module.segments with
        | nil => exact ⟨rfl, by simpa [hsegments] using hname⟩
        | cons segment segments => simp [hsegments] at hname
      obtain ⟨rfl, rfl⟩ := List.cons.inj hwords
      exact .item ht (by simp [ModulePath.isRoot, hroot]) (by simpa using hlocal)

theorem Named.of_resolve {s : Scope} {path : List String} (h : s.resolve path = some identity) :
    Named s path := by
  rw [Scope.resolve_eq] at h
  split at h
  · rename_i word
    split_ifs at h with hbound
    · exact .of_resolveWords h
    · obtain rfl : word = name := by
        simpa [ModulePath.root] using below_eq_identity.mp (Option.some.inj h)
      rw [Bool.not_eq_true, Bool.or_eq_false_iff] at hbound
      exact .unbound rfl hbound.1
  · exact .of_resolveWords h

theorem resolve_of_resolveWords {s : Scope} {path : List String}
    (h : s.resolveWords (s.expanded path) = some identity) : s.resolve path = some identity := by
  rw [Scope.resolve_eq]
  split
  · rename_i word
    split_ifs with hbound
    · exact h
    · rw [Bool.not_eq_true, Bool.or_eq_false_iff] at hbound
      rw [Scope.resolveWords_unbound hbound.1 hbound.2] at h
      cases h
  · exact h

theorem Named.resolve {s : Scope} {path : List String} (h : Named s path) :
    s.resolve path = some identity := by
  cases h with
  | ofCrate h => exact resolve_of_resolveWords (by rw [h]; rfl)
  | ofModule h hname =>
    refine resolve_of_resolveWords ?_
    rw [h]
    exact congrArg some (below_eq_identity.mpr hname)
  | @ofAncestor k rest h hdepth hname =>
    have hrest : rest.head? ≠ some "super" := by
      intro hhead
      have hmem : "super" ∈ [name] := hname ▸ List.mem_append_right _ (List.mem_of_mem_head? hhead)
      exact absurd hmem (by decide)
    have habove : Scope.resolveAbove s.module (List.replicate k "super" ++ rest) = some identity :=
      Scope.resolveAbove_eq_some.mpr
        ⟨k, rest, rfl, hrest, hdepth, (below_eq_identity.mpr hname).symm⟩
    refine resolve_of_resolveWords ?_
    rw [h, ← habove]
    rfl
  | unbound h hbinds =>
    subst h
    rw [Scope.resolve_eq]
    simp only [hbinds, show Scope.pathWords.contains name = false by decide, Bool.or_self,
      Bool.false_eq_true, if_false]
    rfl
  | item h hroot hlocal =>
    have hsegments : s.module.segments ++ [name] = [name] := by
      rw [List.isEmpty_iff.mp hroot, List.nil_append]
    have hcontains : s.locals.contains name = true := by simpa using hlocal
    refine resolve_of_resolveWords ?_
    rw [h, Scope.resolveWords, if_neg (by decide), if_neg (by decide), if_neg (by decide),
      hcontains,
      if_pos rfl, below_eq_identity.mpr hsegments]

theorem Named.head_ne_libraryRoot {s : Scope} {path : List String} (h : Named s path) :
    (s.expanded path).head? ≠ some Binding.libraryRoot := by
  cases h with
  | unbound h hbinds =>
    rw [h, Scope.expanded_unbound hbinds]
    decide
  | ofCrate h | ofModule h | ofAncestor h | item h =>
    rw [h]
    simp [Binding.libraryRoot, List.replicate_succ, name]

/-- The number of times that some words begin with `super`. -/
def supers (words : List String) : Nat := (words.takeWhile (· = "super")).length

theorem Named.supers_le {s : Scope} {path : List String} (h : Named s path) :
    supers (s.expanded path) ≤ s.module.segments.length := by
  cases h with
  | unbound h hbinds =>
    rw [h, Scope.expanded_unbound hbinds]
    exact Nat.zero_le _
  | @ofAncestor k rest h hdepth hname =>
    have hrest : rest.takeWhile (· = "super") = [] := by
      refine List.takeWhile_eq_nil_iff.mpr fun hpos hsuper => ?_
      have hmem : rest.get ⟨0, hpos⟩ ∈ [name] := hname ▸ List.mem_append_right _ (List.get_mem _ _)
      rw [decide_eq_true_eq.mp hsuper] at hmem
      exact absurd hmem (by decide)
    rw [h, supers, List.takeWhile_append_of_pos (by simp), hrest]
    simpa using hdepth
  | ofCrate h | ofModule h | item h =>
    rw [h]
    exact Nat.zero_le _

open Grammar (Tree)

/-- A path out of the crate: it begins with `::`, itself or in what it stands for, or it leads
further up than the root. -/
def Leaves (s : Scope) (path : Tree) : Prop :=
  path.pathIsGlobal = true ∨ (s.expanded path.pathWords).head? = some Binding.libraryRoot ∨
    s.module.segments.length < supers (s.expanded path.pathWords)

/-- Which attributes are the marker: those whose path does not begin with `::` and names the marker
in the module. None is whose path leaves the crate. -/
theorem marks_iff_named (s : Scope) (attr : Tree) :
    (marks s attr = true ↔ ∃ path, attr.attributePath? = some path ∧ path.pathIsGlobal = false ∧
      Named s path.pathWords) ∧
    ∀ path, attr.attributePath? = some path → Leaves s path → marks s attr = false := by
  have hmarks : ∀ path, attr.attributePath? = some path →
      (marks s attr = true ↔ path.pathIsGlobal = false ∧ Named s path.pathWords) := by
    intro path hpath
    rw [marks, hpath, beq_iff_eq, Scope.resolvePath]
    cases path.pathIsGlobal with
    | true => simp
    | false => simpa using ⟨Named.of_resolve, Named.resolve⟩
  constructor
  · cases hpath : attr.attributePath? with
    | none => simp [marks, hpath]
    | some path => simpa using hmarks path hpath
  · intro path hpath hleaves
    refine Bool.eq_false_iff.mpr fun hmark => ?_
    obtain ⟨hlocal, hnamed⟩ := (hmarks path hpath).mp hmark
    rcases hleaves with hglobal | hroot | habove
    · exact absurd (hglobal.symm.trans hlocal) (by decide)
    · exact hnamed.head_ne_libraryRoot hroot
    · exact absurd hnamed.supers_le (Nat.not_le.mpr habove)

/-- A use of the marker from a module above the root. -/
theorem marks_iff_named_above_root :
    let segment (word : String) : Tree :=
      .node .segment [.token (.ident false word .start), .absent]
    let path : Tree := .node .path [.absent, segment "R"]
    let attr : Tree :=
      .node (.attr false) [.group .bracket .start .start [.node (.metaItem .path) [path]]]
    let s : Scope := ⟨⟨["a"]⟩, [⟨"R", ["super", "super", name]⟩], []⟩
    attr.attributePath? = some path ∧ Leaves s path ∧ marks s attr = false := by
  intro segment path attr s
  have hpath : attr.attributePath? = some path := rfl
  have hleaves : Leaves s path := .inr (.inr (by decide +kernel))
  exact ⟨hpath, hleaves, (marks_iff_named s attr).2 path hpath hleaves⟩

end Marker

end Observable
