import Mathlib.Data.List.Perm.Basic
import Mathlib.Data.List.Perm.Subperm
import Mathlib.Data.Nat.Find
import Observable.Output.Group
import Observable.Proofs.Text.Sorted
/-! The groups of some candidates share them out among their owners, and each group has a key of its
own. -/
namespace Observable

namespace Owner

instance : Std.TransCmp Owner.compare :=
  inferInstanceAs (Std.TransCmp (compareLex (compareOn fun o : Owner => o.module.segments)
    (compareOn fun o : Owner => o.name)))

instance : Std.LawfulEqCmp Owner.compare where
  eq_of_compare {a b} h := by
    rw [Owner.compare, Ordering.then_eq_eq, Std.LawfulEqOrd.compare_eq_iff_eq,
      Std.LawfulEqOrd.compare_eq_iff_eq] at h
    rcases a with ⟨⟨segments⟩, name⟩
    rcases b with ⟨⟨segments'⟩, name'⟩
    obtain ⟨rfl, rfl⟩ := h
    rfl

end Owner

namespace Group

theorem mem_owners {candidates : List Candidate} {o : Owner} :
    o ∈ owners candidates ↔ ∃ c ∈ candidates, c.owner = o := by
  rw [owners, mem_eraseReps, (sorted_perm _ _).mem_iff, List.mem_map]

theorem owners_nodup (candidates : List Candidate) : (owners candidates).Nodup :=
  eraseReps_nodup (sorted_pairwise _)

theorem owners_pairwise_lt (candidates : List Candidate) :
    (owners candidates).Pairwise fun a b => a.compare b = .lt :=
  eraseReps_pairwise_lt (sorted_pairwise _)

theorem mem_fields_ofOwner {candidates : List Candidate} {o : Owner} {c : Candidate} :
    c ∈ (ofOwner candidates o).fields ↔ c ∈ candidates ∧ c.owner = o := by
  rw [ofOwner, (sorted_perm _ _).mem_iff, List.mem_filter, decide_eq_true_iff]

theorem mem_ofCandidates {candidates : List Candidate} {g : Group} :
    g ∈ ofCandidates candidates ↔ ∃ o ∈ owners candidates, g = ofOwner candidates o := by
  rw [ofCandidates, List.mem_map]
  simp only [eq_comm]

/-- A group holds fields of its owner, and at least one. -/
theorem fields_of_mem {candidates : List Candidate} {g : Group} (h : g ∈ ofCandidates candidates) :
    g.fields ≠ [] ∧ ∀ c ∈ g.fields, c.owner = g.owner := by
  obtain ⟨o, ho, rfl⟩ := mem_ofCandidates.mp h
  obtain ⟨c, hc, hown⟩ := mem_owners.mp ho
  exact ⟨List.ne_nil_of_mem (mem_fields_ofOwner.mpr ⟨hc, hown⟩),
    fun c hc => (mem_fields_ofOwner.mp hc).2⟩

theorem map_owner_ofCandidates (candidates : List Candidate) :
    (ofCandidates candidates).map (·.owner) = owners candidates := by
  rw [ofCandidates, List.map_map]
  exact List.map_id _

/-- When the marks of all members are among some different marks, the members with the first mark,
those with the second and so on are all the members. -/
theorem flatMap_filter_perm {α β : Type} [DecidableEq β] (mark : α → β) {marks : List β}
    (hnodup : marks.Nodup) {l : List α} (hl : ∀ a ∈ l, mark a ∈ marks) :
    (marks.flatMap fun b => l.filter fun a => mark a = b).Perm l := by
  induction marks generalizing l with
  | nil => rw [List.eq_nil_iff_forall_not_mem.mpr fun a ha => List.not_mem_nil (hl a ha)]; rfl
  | cons b marks ih =>
    obtain ⟨hb, hmarks⟩ := List.nodup_cons.mp hnodup
    let others := l.filter fun a => !decide (mark a = b)
    have hothers : ∀ a ∈ others, mark a ∈ marks := by
      intro a ha
      obtain ⟨hmem, hne⟩ := List.mem_filter.mp ha
      exact (List.mem_cons.mp (hl a hmem)).resolve_left (by simpa using hne)
    have hsame : marks.flatMap (fun b' => l.filter fun a => mark a = b')
        = marks.flatMap fun b' => others.filter fun a => mark a = b' := by
      refine List.flatMap_congr fun b' hb' => ?_
      rw [List.filter_filter]
      refine List.filter_congr fun a _ => ?_
      by_cases hab : mark a = b'
      · have hne : b' ≠ b := fun h => hb (h ▸ hb')
        simp [hab, hne]
      · simp [hab]
    rw [List.flatMap_cons, hsame]
    exact ((ih hmarks hothers).append_left _).trans (List.filter_append_perm _ l)

/-- Each candidate is in one group. -/
theorem flatMap_fields_perm (candidates : List Candidate) :
    ((ofCandidates candidates).flatMap (·.fields)).Perm candidates := by
  have hfields : ((ofCandidates candidates).flatMap (·.fields)).Perm
      ((owners candidates).flatMap fun o => candidates.filter fun c => c.owner = o) := by
    rw [ofCandidates, List.flatMap_map]
    exact List.Perm.flatMap_left _ fun o _ => sorted_perm _ _
  exact hfields.trans (flatMap_filter_perm Candidate.owner (owners_nodup candidates)
    fun c hc => mem_owners.mpr ⟨c, hc, rfl⟩)

/-- The order of some candidates does not show in their groups when fields of one owner have
different names. -/
theorem ofCandidates_eq_of_perm {candidates candidates' : List Candidate}
    (h : candidates.Perm candidates')
    (hnames : (candidates.map fun c => (c.owner, c.name)).Nodup) :
    ofCandidates candidates = ofCandidates candidates' := by
  have howners : owners candidates = owners candidates' := by
    rw [owners, owners, sorted_eq_of_perm (h.map Candidate.owner)
      fun _ _ _ _ hcompare => Std.LawfulEqCmp.eq_of_compare hcompare]
  rw [ofCandidates, ofCandidates, howners]
  refine List.map_congr_left fun o _ => congrArg (Group.mk o) ?_
  refine @sorted_eq_of_perm _ (compareOn Candidate.name) _ _ _ (h.filter _) ?_
  intro a ha b hb hcompare
  obtain ⟨ha, hoa⟩ := List.mem_filter.mp ha
  obtain ⟨hb, hob⟩ := List.mem_filter.mp hb
  have hname : a.name = b.name := Std.LawfulEqOrd.eq_of_compare hcompare
  have howner : a.owner = b.owner := (of_decide_eq_true hoa).trans (of_decide_eq_true hob).symm
  exact List.inj_on_of_nodup_map hnames ha hb (Prod.ext howner hname)

theorem keyOf_injective {base base' : String} (h : keyOf base = keyOf base') : base = base' :=
  String.append_left_inj _ |>.mp h

theorem repr_injective {m n : Nat} (h : m.repr = n.repr) : m = n := by
  have hdigits : Nat.toDigits 10 m = Nat.toDigits 10 n := by
    rwa [Nat.repr_eq_ofList_toDigits, Nat.repr_eq_ofList_toDigits, String.ofList_inj] at h
  rw [← Nat.ofDigitChars_toDigits (b := 10) (n := m) (by decide) (by decide), hdigits,
    Nat.ofDigitChars_toDigits (by decide) (by decide)]

/-- The choices of an owner's key that name its modules differ. -/
theorem keyChoice_injective {o : Owner} {m n : Nat}
    (h : keyChoice o (m + 1) = keyChoice o (n + 1)) : m = n := by
  have hlonger : ∀ k, qualifiedName o ≠ qualifiedName o ++ "_" ++ toString (k + 2) := by
    intro k heq
    have hlength := congrArg String.length heq
    rw [String.length_append, String.length_append] at hlength
    have hmark : "_".length = 1 := rfl
    omega
  cases m with
  | zero =>
    cases n with
    | zero => rfl
    | succ n => exact absurd (keyOf_injective h) (hlonger n)
  | succ m =>
    cases n with
    | zero => exact absurd (keyOf_injective h).symm (hlonger m)
    | succ n =>
      have hnumber := (String.append_right_inj _).mp (keyOf_injective h)
      exact Nat.succ.inj (repr_injective hnumber)

/-- A key is the first of an owner's choices that is not taken, and not many choices come before
it. -/
def IsFirstFree (taken : List String) (o : Owner) (key : String) : Prop :=
  ∃ n ≤ taken.length + 1, key = keyChoice o n ∧ key ∉ taken ∧ ∀ m < n, keyChoice o m ∈ taken

/-- Of the choices for a key, one more than are taken are different: one of them is free. -/
theorem exists_free (taken : List String) (o : Owner) :
    ∃ n ≤ taken.length + 1, keyChoice o n ∉ taken := by
  by_contra hnone
  push Not at hnone
  let named := (List.range (taken.length + 1)).map fun n => keyChoice o (n + 1)
  have hnodup : named.Nodup := by
    refine List.nodup_range.map_on fun m _ n _ h => keyChoice_injective h
  have hsub : named ⊆ taken := by
    intro key hkey
    obtain ⟨n, hn, rfl⟩ := List.mem_map.mp hkey
    exact hnone (n + 1) (Nat.succ_le_of_lt (List.mem_range.mp hn))
  have hlength := (List.subperm_of_subset hnodup hsub).length_le
  rw [List.length_map, List.length_range] at hlength
  omega

theorem freeKey_spec (taken : List String) (o : Owner) :
    IsFirstFree taken o (freeKey taken o) := by
  have hfree : ∃ n, keyChoice o n ∉ taken := (exists_free taken o).imp fun _ h => h.2
  let n := Nat.find hfree
  obtain ⟨bound, hbound, hbounded⟩ := exists_free taken o
  have hn : n ≤ taken.length + 1 := Nat.le_trans (Nat.find_min' hfree hbounded) hbound
  have hbefore : ∀ m < n, keyChoice o m ∈ taken := fun m hm => not_not.mp (Nat.find_min hfree hm)
  have hfind : (List.range (taken.length + 2)).find? ((!taken.contains ·) ∘ keyChoice o)
      = some n := by
    rw [List.find?_range_eq_some]
    refine ⟨by simpa using Nat.find_spec hfree, List.mem_range.mpr (by omega), fun m hm => ?_⟩
    simpa using hbefore m hm
  have hkey : freeKey taken o = keyChoice o n := by
    rw [freeKey, List.find?_map, hfind]
    rfl
  exact ⟨n, hn, hkey, hkey ▸ Nat.find_spec hfree, hbefore⟩

theorem freeKey_not_mem (taken : List String) (o : Owner) : freeKey taken o ∉ taken := by
  obtain ⟨n, -, -, hfree, -⟩ := freeKey_spec taken o
  exact hfree

/-- Keys are issued once, and none that is taken. -/
theorem keysFrom_nodup (taken : List String) (os : List Owner) :
    (keysFrom taken os).Nodup ∧ ∀ key ∈ keysFrom taken os, key ∉ taken := by
  induction os generalizing taken with
  | nil => exact ⟨.nil, fun key h => absurd h List.not_mem_nil⟩
  | cons o os ih =>
    obtain ⟨hnodup, hfree⟩ := ih (taken ++ [freeKey taken o])
    refine ⟨List.nodup_cons.mpr ⟨fun hmem => ?_, hnodup⟩, fun key hkey => ?_⟩
    · exact hfree _ hmem (List.mem_append_right _ List.mem_cons_self)
    · rcases List.mem_cons.mp hkey with rfl | hkey
      · exact freeKey_not_mem taken o
      · exact fun h => hfree key hkey (List.mem_append_left _ h)

theorem mem_keysFrom {taken : List String} {os : List Owner} {key : String}
    (h : key ∈ keysFrom taken os) : ∃ o ∈ os, ∃ n, key = keyChoice o n := by
  induction os generalizing taken with
  | nil => cases h
  | cons o os ih =>
    rcases List.mem_cons.mp h with rfl | h
    · obtain ⟨n, -, hkey, -⟩ := freeKey_spec taken o
      exact ⟨o, List.mem_cons_self, n, hkey⟩
    · obtain ⟨o', ho', hkey⟩ := ih h
      exact ⟨o', List.mem_cons_of_mem _ ho', hkey⟩

/-- No key of a group is the marker's. -/
theorem ne_marker_of_mem_keys {groups : List Group} {key : String} (h : key ∈ keys groups) :
    key ≠ Marker.key := by
  have hne : ∀ base, keyOf base ≠ Marker.key := by
    intro base heq
    have hsuffix : "_Classes_g".toList <:+ Marker.key.toList :=
      ⟨base.toList, by rw [← heq, keyOf, String.toList_append]⟩
    exact absurd hsuffix (by decide +kernel)
  obtain ⟨o, -, n, rfl⟩ := mem_keysFrom h
  match n with
  | 0 => exact hne _
  | 1 => exact hne _
  | n + 2 => exact hne _

theorem keys_nodup (groups : List Group) : (keys groups).Nodup := (keysFrom_nodup [] _).1

theorem length_keys (groups : List Group) : (keys groups).length = groups.length := by
  have hfrom : ∀ owners taken, (keysFrom taken owners).length = owners.length := by
    intro owners
    induction owners with
    | nil => exact fun _ => rfl
    | cons o owners ih => exact fun taken => congrArg (· + 1) (ih _)
  rw [keys, hfrom, List.length_map]

/-- The groups of some candidates, each with its key. -/
def keyed (candidates : List Candidate) : List (Group × String) :=
  (ofCandidates candidates).zip (keys (ofCandidates candidates))

theorem map_fst_keyed (candidates : List Candidate) :
    (keyed candidates).map (·.1) = ofCandidates candidates :=
  List.map_fst_zip (Nat.le_of_eq (length_keys _).symm)

theorem keyed_keys_nodup (candidates : List Candidate) : ((keyed candidates).map (·.2)).Nodup := by
  rw [keyed, List.map_snd_zip (Nat.le_of_eq (length_keys _))]
  exact keys_nodup _

theorem keyed_owners_nodup (candidates : List Candidate) :
    ((keyed candidates).map (·.1.owner)).Nodup := by
  have howners : (keyed candidates).map (·.1.owner)
      = ((keyed candidates).map (·.1)).map (·.owner) := (List.map_map ..).symm
  rw [howners, map_fst_keyed, map_owner_ofCandidates]
  exact owners_nodup candidates

theorem keyed_fields_perm (candidates : List Candidate) :
    ((keyed candidates).flatMap (·.1.fields)).Perm candidates := by
  have hfields : (keyed candidates).flatMap (·.1.fields)
      = ((keyed candidates).map (·.1)).flatMap (·.fields) := (List.flatMap_map ..).symm
  rw [hfields, map_fst_keyed]
  exact flatMap_fields_perm candidates

theorem fields_of_mem_keyed {candidates : List Candidate} {p : Group × String}
    (h : p ∈ keyed candidates) : p.1.fields ≠ [] ∧ ∀ c ∈ p.1.fields, c.owner = p.1.owner :=
  fields_of_mem (map_fst_keyed candidates ▸ List.mem_map_of_mem h)

end Group

end Observable
