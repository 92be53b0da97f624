import Observable.Field.Scan
import Observable.Proofs.Module.Resolution
/-! Paths that lead upwards from a module: `super` goes one module up wherever a path begins with
it, and is kept as it is behind `self`. -/
namespace Observable

namespace ModulePath

/-- What some words refer to from a module, when each `super` in front leads one module up. -/
def ascend (m : ModulePath) : List String → Option CanonicalPath
  | [] => some (.below m [])
  | word :: rest =>
    if word = "super" then m.parent.bind fun above => above.ascend rest
    else some (.below m (word :: rest))

theorem ascend_of_head_ne {m : ModulePath} {words : List String}
    (h : words.head? ≠ some "super") : m.ascend words = some (.below m words) := by
  cases words with
  | nil => rfl
  | cons word rest =>
    have hword : word ≠ "super" := by simpa using h
    rw [ascend, if_neg hword]

/-- Each step up makes a path shorter. -/
theorem length_ascend_le {m : ModulePath} {words : List String} {p : CanonicalPath}
    (h : m.ascend words = some p) :
    p.segments.length ≤ (CanonicalPath.below m words).segments.length := by
  induction words generalizing m with
  | nil =>
    cases h
    exact Nat.le_refl _
  | cons word rest ih =>
    rw [ascend] at h
    split at h
    · obtain ⟨above, habove, h⟩ := Option.bind_eq_some_iff.mp h
      obtain ⟨-, rfl⟩ := parent_eq_some.mp habove
      have hlength := ih h
      simp only [CanonicalPath.below, List.length_cons, List.length_append, length_ancestor]
        at hlength ⊢
      omega
    · cases h
      exact Nat.le_refl _

/-- A path that leads upwards never leads to where its words stand below the module. -/
theorem ascend_eq_below_iff {m : ModulePath} {words : List String} :
    m.ascend words = some (.below m words) ↔ words.head? ≠ some "super" := by
  refine ⟨fun h hhead => ?_, ascend_of_head_ne⟩
  obtain ⟨rest, rfl⟩ : ∃ rest, words = "super" :: rest := List.head?_eq_some_iff.mp hhead
  rw [ascend, if_pos rfl] at h
  obtain ⟨above, habove, h⟩ := Option.bind_eq_some_iff.mp h
  obtain ⟨-, rfl⟩ := parent_eq_some.mp habove
  have hlength := length_ascend_le h
  simp only [CanonicalPath.below, List.length_cons, List.length_append, length_ancestor]
    at hlength
  omega

end ModulePath

namespace Scope

theorem resolveAbove_eq (m : ModulePath) (words : List String) :
    resolveAbove m words = m.ascend ("super" :: words) := by
  induction words generalizing m with
  | nil =>
    rw [resolveAbove, ModulePath.ascend, if_pos rfl]
    cases m.parent <;> rfl
  | cons word words ih =>
    rw [resolveAbove, ModulePath.ascend, if_pos rfl]
    cases m.parent with
    | none => rfl
    | some above =>
      by_cases hword : word = "super"
      · subst hword
        exact ih above
      · simp only [hword, if_false, Option.bind_some, ModulePath.ascend]

theorem resolveWords_super (s : Scope) (words : List String) :
    s.resolveWords ("super" :: words) = s.module.ascend ("super" :: words) :=
  resolveAbove_eq s.module words

theorem resolveWords_self (s : Scope) (words : List String) :
    s.resolveWords ("self" :: words) = some (.below s.module words) := rfl

theorem resolveWords_of_head {s : Scope} {words : List String} (h : words.head? = some "super") :
    s.resolveWords words = s.module.ascend words := by
  obtain ⟨rest, rfl⟩ : ∃ rest, words = "super" :: rest := List.head?_eq_some_iff.mp h
  exact s.resolveWords_super rest

/-- A path that begins with a word of the language, which no import binds. -/
theorem resolve_pathWord {s : Scope} {word : String} (hword : pathWords.contains word = true)
    (h : s.import? word = none) (words : List String) :
    s.resolve (word :: words) = s.resolveWords (word :: words) := by
  simp only [resolve, h, hword, Bool.not_true, Bool.and_false, Bool.false_eq_true, if_false]

theorem resolve_import {s : Scope} {word : String} {target : List String}
    (h : s.import? word = some target) (words : List String) :
    s.resolve (word :: words) = s.resolveWords (target ++ words) := by
  simp only [resolve, h]

/-- A path that begins with `super` leads upwards, and a `self` in front of some words makes no
difference to where they lead exactly when they do not begin with `super`. Both hold of a path as it
is written, if no import binds the word that it begins with, and of the target of an import,
whatever is written behind the name that it binds. -/
theorem resolve_self_iff (s : Scope) (words : List String) :
    (s.import? "super" = none → words.head? = some "super" →
      s.resolve words = s.module.ascend words) ∧
    (s.import? "self" = none →
      (s.resolve ("self" :: words) = s.module.ascend words ↔ words.head? ≠ some "super")) ∧
    (∀ name more, s.import? name = some words → words.head? = some "super" →
      s.resolve (name :: more) = s.module.ascend (words ++ more)) ∧
    ∀ name more, s.import? name = some ("self" :: words) →
      (s.resolve (name :: more) = s.module.ascend (words ++ more) ↔
        (words ++ more).head? ≠ some "super") := by
  refine ⟨fun himport hhead => ?_, fun himport => ?_, fun name more himport hhead => ?_,
    fun name more himport => ?_⟩
  · obtain ⟨rest, rfl⟩ : ∃ rest, words = "super" :: rest := List.head?_eq_some_iff.mp hhead
    rw [resolve_pathWord (by decide) himport, resolveWords_super]
  · rw [resolve_pathWord (by decide) himport, resolveWords_self, eq_comm]
    exact ModulePath.ascend_eq_below_iff
  · rw [resolve_import himport]
    refine resolveWords_of_head ?_
    rw [List.head?_append, hhead]
    rfl
  · rw [resolve_import himport, List.cons_append, resolveWords_self, eq_comm]
    exact ModulePath.ascend_eq_below_iff

/-- Two modules below the root, a path two modules up, alone and as the target of imports. -/
theorem resolve_self_two_up :
    let words := ["super", "super", "m"]
    let s : Scope := ⟨⟨["a", "b"]⟩, [⟨"R", words⟩, ⟨"Q", "self" :: words⟩], []⟩
    (s.import? "super" = none ∧ s.import? "self" = none ∧ words.head? = some "super" ∧
      s.import? "R" = some words ∧ s.import? "Q" = some ("self" :: words)) ∧
    s.module.ascend words = some ⟨["crate", "m"]⟩ ∧
      s.resolve words = some ⟨["crate", "m"]⟩ ∧
      s.resolve ("self" :: words) ≠ some ⟨["crate", "m"]⟩ ∧
      s.resolve ["R", "T"] = some ⟨["crate", "m", "T"]⟩ ∧
      s.resolve ["Q", "T"] ≠ some ⟨["crate", "m", "T"]⟩ := by
  intro words s
  have hup : s.module.ascend words = some ⟨["crate", "m"]⟩ := by decide
  have hbelow : s.module.ascend (words ++ ["T"]) = some ⟨["crate", "m", "T"]⟩ := by decide
  have hR : s.import? "R" = some words := by decide
  have hQ : s.import? "Q" = some ("self" :: words) := by decide
  obtain ⟨hplain, hself, himport, himportSelf⟩ := resolve_self_iff s words
  refine ⟨⟨by decide, by decide, by decide, hR, hQ⟩, hup, ?_, fun h => ?_, ?_, fun h => ?_⟩
  · exact (hplain (by decide) (by decide)).trans hup
  · exact (hself (by decide)).mp (h.trans hup.symm) (by decide)
  · exact (himport "R" ["T"] hR (by decide)).trans hbelow
  · exact (himportSelf "Q" ["T"] hQ).mp (h.trans hbelow.symm) (by decide)

/-- From a module below the root, the marker is found by a path upwards, and not by the same path
behind `self`; neither when it is written on a field nor when it is imported. -/
theorem resolve_keeps_super :
    let s : Scope := .ofItems ⟨["a"]⟩ []
    let marked (text : String) : Option (List String) :=
      (Compilation.ofSources [("a.rs", text)]).toOption.map fun c => c.scan.candidates.map (·.name)
    s.resolve ["super", Marker.name] = some Marker.identity ∧
      s.resolve ["self", "super", Marker.name] = some ⟨["crate", "a", "super", Marker.name]⟩ ∧
      marked "struct S \x7b #[super::ReactiveProperty] _x: u8 \x7d" = some ["_x"] ∧
      marked "struct S \x7b #[self::super::ReactiveProperty] _x: u8 \x7d" = some [] ∧
      marked "use super::ReactiveProperty as R; struct S \x7b #[R] _x: u8 \x7d" = some ["_x"] ∧
      marked "use self::\x7bsuper::ReactiveProperty as R\x7d; struct S \x7b #[R] _x: u8 \x7d"
        = some [] := by
  decide +kernel

end Scope

end Observable
