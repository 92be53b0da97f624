import Mathlib.Data.List.Nodup
import Observable.Build.Run
import Observable.Proofs.Field.Names
import Observable.Proofs.File.Access
import Observable.Proofs.Pass.Account
/-! The files of a build: their names have no slash, so that different units have different files,
and each file holds its unit when all of them are written. -/
namespace Observable

theorem slashless_intercalate {separator : String} {names : List String}
    (hseparator : Slashless separator) (h : ∀ name ∈ names, Slashless name) :
    Slashless (separator.intercalate names) := by
  induction names with
  | nil => exact List.not_mem_nil
  | cons name names ih =>
    rw [List.forall_mem_cons] at h
    cases names with
    | nil => simpa using h.1
    | cons next names =>
      rw [String.intercalate_cons_cons, slashless_append, slashless_append]
      exact ⟨⟨h.1, hseparator⟩, ih h.2⟩

theorem slashless_toString (n : Nat) : Slashless (toString n) := by
  intro hmem
  have hdigits : (toString n).toList = Nat.toDigits 10 n := by
    rw [Nat.toString_eq_repr, Nat.repr_eq_ofList_toDigits, String.toList_ofList]
  rw [hdigits] at hmem
  exact absurd (Nat.isDigit_of_mem_toDigits (by decide) (by decide) hmem) (by decide)

namespace Group

theorem slashless_keyOf {base : String} (h : Slashless base) : Slashless (keyOf base) := by
  have hsuffix : '/' ∉ "_Classes_g".toList := by decide
  exact slashless_append.mpr ⟨h, hsuffix⟩

theorem slashless_keyChoice {o : Owner} (h : o.Slashless) (n : Nat) :
    Slashless (keyChoice o n) := by
  have hunderscore : Slashless "_" := by
    have hnot : '/' ∉ "_".toList := by decide
    exact hnot
  have hqualified : Slashless (qualifiedName o) := by
    refine slashless_intercalate hunderscore fun name hname => ?_
    rcases List.mem_append.mp hname with hname | hname
    · exact h.module name hname
    · rw [List.mem_singleton.mp hname]
      exact h.name
  match n with
  | 0 => exact slashless_keyOf h.name
  | 1 => exact slashless_keyOf hqualified
  | n + 2 =>
    refine slashless_keyOf (slashless_append.mpr ⟨?_, slashless_toString _⟩)
    exact slashless_append.mpr ⟨hqualified, hunderscore⟩

end Group

/-- No key of a unit that a pass delivers has a slash in it. -/
theorem PassOutput.slashless_of_mem_delivery {c : Compilation} (hc : ∀ f ∈ c.files, f.FromText)
    {events : Token} {u : SourceUnit}
    (hu : u ∈ ((ofCompilation c events).delivery Marker.registered).units) : Slashless u.key := by
  rcases List.mem_cons.mp hu with rfl | hu
  · have hmarker : '/' ∉ Marker.key.toList := by decide +kernel
    exact hmarker
  · have hkey : u.key ∈ (ofCompilation c events).units.map (·.key) := List.mem_map_of_mem hu
    rw [keys_units, emittedGroups] at hkey
    obtain ⟨p, hp, hpkey⟩ := List.mem_map.mp hkey
    have hissued : p.2 ∈ Group.keys (Group.ofCandidates c.scan.candidates) :=
      List.of_mem_zip (List.mem_filter.mp hp).1 |>.2
    obtain ⟨o, ho, n, hchoice⟩ := Group.mem_keysFrom hissued
    rw [Group.map_owner_ofCandidates] at ho
    obtain ⟨k, hk, rfl⟩ := Group.mem_owners.mp ho
    rw [← hpkey, hchoice]
    exact Group.slashless_keyChoice (Compilation.slashless_of_mem_candidates hc hk) n

namespace Build

/-- The name of the file of a unit. -/
def unitFile (unit : SourceUnit) : String := unit.key ++ ".rs"

variable {u : SourceUnit} {units : List SourceUnit} {out : String} {tree tree' : FileTree}
  {directory : List String}

theorem slashless_unitFile (h : Slashless u.key) : Slashless (unitFile u) := by
  have hsuffix : '/' ∉ ".rs".toList := by decide
  exact slashless_append.mpr ⟨h, hsuffix⟩

theorem toList_unitFile (u : SourceUnit) :
    (unitFile u).toList = u.key.toList ++ ['.', 'r', 's'] := by
  rw [unitFile, String.toList_append]
  rfl

theorem unitFile_ne_empty (u : SourceUnit) : unitFile u ≠ "" := by
  intro h
  have hlist := toList_unitFile u
  rw [h] at hlist
  simp at hlist

theorem component_unitFile (u : SourceUnit) :
    File.Path.component (unitFile u).toList = .name (unitFile u) := by
  have hlength : 3 ≤ (unitFile u).toList.length := by
    rw [toList_unitFile, List.length_append]
    exact Nat.le_add_left 3 _
  unfold File.Path.component
  rw [if_neg, if_neg, String.ofList_toList]
  · intro h
    rw [h] at hlength
    exact absurd hlength (by decide)
  · intro h
    rw [h] at hlength
    exact absurd hlength (by decide)

theorem unitFile_injective {u v : SourceUnit} (h : unitFile u = unitFile v) : u.key = v.key :=
  String.append_left_inj _ |>.mp h

/-- Units with different keys are written to different paths. -/
theorem unitPath_nodup (out : String) (hslash : ∀ u ∈ units, Slashless u.key)
    (hkeys : (units.map (·.key)).Nodup) : (units.map (unitPath out)).Nodup := by
  refine List.Nodup.map_on ?_ (List.Nodup.of_map _ hkeys)
  intro u hu v hv h
  refine List.inj_on_of_nodup_map hkeys hu hv (unitFile_injective ?_)
  exact File.Path.join_injective out (slashless_unitFile (hslash u hu))
    (slashless_unitFile (hslash v hv)) h

/-- What a tree holds after units were written into one of its directories. -/
structure Wrote (out : String) (directory : List String) (units : List SourceUnit)
    (tree tree' : FileTree) : Prop where
  keeps : tree.Keeps tree'
  located : ∀ u ∈ units, tree'.locate (unitPath out u) = .ok (directory ++ [unitFile u])
  body : ∀ u ∈ units, tree'.find? (directory ++ [unitFile u]) = some (.file u.body.toUTF8)
  other : ∀ path, (∀ u ∈ units, path ≠ directory ++ [unitFile u]) →
    tree'.find? path = tree.find? path

/-- Units with different keys that were written are all there in the end: none of them takes the
place of another one. -/
theorem wrote_of_writeUnits (hslash : ∀ u ∈ units, Slashless u.key)
    (hkeys : (units.map (·.key)).Nodup)
    (hout : tree.follow [] (File.Path.pieces out.toList) = .ok directory)
    {paths : List String} (h : writeUnits out tree units = (tree', .ok paths)) :
    paths = units.map (unitPath out) ∧ Wrote out directory units tree tree' := by
  induction units generalizing tree paths with
  | nil =>
    cases h
    exact ⟨rfl, .refl _, by simp, by simp, fun _ _ => rfl⟩
  | cons u units ih =>
    rw [List.forall_mem_cons] at hslash
    rw [List.map_cons, List.nodup_cons] at hkeys
    rw [writeUnits] at h
    cases hwrite : tree.write (unitPath out u) u.body.toUTF8 with
    | error e =>
      simp only [hwrite] at h
      cases h
    | ok next =>
      obtain ⟨hkeeps, hlocate, hwritten⟩ := FileTree.write_join (slashless_unitFile hslash.1)
        (component_unitFile u) (unitFile_ne_empty u) hout hwrite
      simp only [hwrite] at h
      cases hrest : writeUnits out next units with
      | mk last written =>
        simp only [hrest, Prod.mk.injEq] at h
        obtain ⟨rfl, hwrittenPaths⟩ := h
        cases written with
        | error e => cases hwrittenPaths
        | ok rest =>
          cases hwrittenPaths
          obtain ⟨rfl, hall⟩ := ih hslash.2 hkeys.2 (FileTree.follow_of_keeps hkeeps hout) hrest
          -- No later unit has the file of this one.
          have hapart : ∀ v ∈ units, directory ++ [unitFile u] ≠ directory ++ [unitFile v] := by
            intro v hv heq
            have hname : unitFile u = unitFile v := by simpa using heq
            exact hkeys.1 (List.mem_map.mpr ⟨v, hv, (unitFile_injective hname).symm⟩)
          refine ⟨rfl, hkeeps.trans hall.keeps, ?_, ?_, ?_⟩
          · exact List.forall_mem_cons.mpr
              ⟨FileTree.locate_of_keeps hall.keeps hlocate, hall.located⟩
          · refine List.forall_mem_cons.mpr ⟨?_, hall.body⟩
            rw [hall.other _ hapart, hwritten, if_pos rfl]
          · intro path hpath
            rw [List.forall_mem_cons] at hpath
            rw [hall.other path hpath.2, hwritten, if_neg hpath.1]

end Build

end Observable
