import Observable.Proofs.Output.Grouping
import Observable.Proofs.Text.Bytes
/-! Grouping is a stable partition: each candidate is in the group of its owner, once, and fields of
one name stay in the order in which they came. -/
namespace Observable

/-- The order of owners: their modules come first, segment by segment, and then their names; all of
them are compared by their bytes. -/
def Owner.Precedes (a b : Owner) : Prop :=
  a.module.segments.map Text.bytes < b.module.segments.map Text.bytes ∨
    a.module = b.module ∧ Text.bytes a.name < Text.bytes b.name

theorem Owner.compare_eq_lt_iff {a b : Owner} : a.compare b = .lt ↔ a.Precedes b := by
  have hmodule : Ord.compare a.module.segments b.module.segments = .eq ↔ a.module = b.module := by
    rw [Std.LawfulEqOrd.compare_eq_iff_eq]
    cases a.module
    cases b.module
    simp
  rw [Owner.compare, Ordering.then_eq_lt, Text.compare_list_eq_lt_iff, hmodule,
    Text.compare_eq_lt_iff, Precedes]

namespace Group

/-- Groups that share some candidates out among their owners. The owners are in order and each has
one group, which is not empty. Its fields are in the order of their names, and those of one name are
the owner's candidates of that name, in the order in which they came. -/
structure Partition (candidates : List Candidate) (groups : List Group) : Prop where
  owners : (groups.map (·.owner)).Pairwise Owner.Precedes
  nonempty : ∀ g ∈ groups, g.fields ≠ []
  owned : ∀ g ∈ groups, ∀ c ∈ g.fields, c.owner = g.owner
  names : ∀ g ∈ groups, g.fields.Pairwise fun a b => Text.bytes a.name ≤ Text.bytes b.name
  stable : ∀ g ∈ groups, ∀ name, (g.fields.filter fun c => c.name = name)
    = candidates.filter fun c => c.owner = g.owner ∧ c.name = name
  perm : (groups.flatMap (·.fields)).Perm candidates

theorem names_ofOwner (candidates : List Candidate) (o : Owner) :
    (ofOwner candidates o).fields.Pairwise fun a b => Text.bytes a.name ≤ Text.bytes b.name := by
  have hsorted := @sorted_pairwise _ (compareOn Candidate.name) _
    (candidates.filter fun c => c.owner = o)
  exact hsorted.imp fun h => Text.isLE_compare_iff.mp h

theorem stable_ofOwner (candidates : List Candidate) (o : Owner) (name : String) :
    ((ofOwner candidates o).fields.filter fun c => c.name = name)
      = candidates.filter fun c => c.owner = o ∧ c.name = name := by
  have hsame : ∀ a b : Candidate, decide (a.name = name) = true → decide (b.name = name) = true →
      (compare a.name b.name).isLE = true := by
    intro a b ha hb
    have hname : compare a.name b.name = .eq := Std.LawfulEqOrd.compare_eq_iff_eq.mpr
      ((of_decide_eq_true ha).trans (of_decide_eq_true hb).symm)
    rw [hname]
    rfl
  rw [ofOwner, filter_sorted hsame, List.filter_filter]
  refine List.filter_congr fun c _ => ?_
  rw [Bool.decide_and, Bool.and_comm]

/-- The groups of some candidates are a stable partition of them, and they depend on the candidates
alone, and not on their order, when no owner has two fields of one name. -/
theorem ofCandidates_partition (candidates : List Candidate) :
    Partition candidates (ofCandidates candidates) ∧
    ∀ candidates', candidates.Perm candidates' →
      (candidates.map fun c => (c.owner, c.name)).Nodup →
      ofCandidates candidates = ofCandidates candidates' := by
  refine ⟨⟨?_, fun g hg => (fields_of_mem hg).1, fun g hg => (fields_of_mem hg).2, ?_, ?_,
    flatMap_fields_perm candidates⟩, fun candidates' h hnames => ofCandidates_eq_of_perm h hnames⟩
  · rw [map_owner_ofCandidates]
    exact (owners_pairwise_lt candidates).imp Owner.compare_eq_lt_iff.mp
  · intro g hg
    obtain ⟨o, -, rfl⟩ := mem_ofCandidates.mp hg
    exact names_ofOwner candidates o
  · intro g hg
    obtain ⟨o, -, rfl⟩ := mem_ofCandidates.mp hg
    exact stable_ofOwner candidates o

/-- Fields of two types that are displayed alike, in two orders. -/
theorem ofCandidates_partition_interleaved :
    let candidate (segments : List String) (name : String) : Candidate :=
      { owner := ⟨⟨segments⟩, "T"⟩, name, type := [], accessibility := .confined
        location := ⟨"", .start⟩, argument := none }
    let candidates := [candidate ["a", "b"] "_x", candidate ["a::b"] "_x",
      candidate ["a", "b"] "_a"]
    (candidates.map fun c => c.owner.display).eraseDups = ["crate::a::b::T"] ∧
      (ofCandidates candidates).map (fun g => (g.owner.module.segments, g.fields.map (·.name)))
        = [(["a", "b"], ["_a", "_x"]), (["a::b"], ["_x"])] ∧
      ofCandidates candidates = ofCandidates candidates.reverse := by
  intro candidate candidates
  exact ⟨by decide +kernel, by decide +kernel, (ofCandidates_partition candidates).2 _
    (List.reverse_perm _).symm (by decide +kernel)⟩

end Group

end Observable
