import Mathlib.Data.List.Nodup
import Observable.Text.Sorted
/-! Sorted lists are in order, and depend on their members alone when no two of them are equal. -/
namespace Observable

variable {α β : Type}

theorem insertSorted_pairwise {cmp : α → α → Ordering} [Std.TransCmp cmp] (a : α) {l : List α}
    (h : l.Pairwise fun a b => (cmp a b).isLE) :
    (insertSorted (fun a b => (cmp a b).isLE) a l).Pairwise fun a b => (cmp a b).isLE := by
  induction l with
  | nil => exact List.pairwise_singleton _ _
  | cons b rest ih =>
    obtain ⟨hb, hrest⟩ := List.pairwise_cons.mp h
    unfold insertSorted
    split
    · rename_i hab
      refine List.pairwise_cons.mpr ⟨fun x hx => ?_, h⟩
      rcases List.mem_cons.mp hx with rfl | hx
      · exact hab
      · exact Std.TransCmp.isLE_trans hab (hb x hx)
    · rename_i hab
      have hba : (cmp b a).isLE := by
        rw [show cmp b a = (cmp a b).swap from Std.OrientedCmp.eq_swap]
        cases hcmp : cmp a b <;> simp_all
      refine List.pairwise_cons.mpr ⟨fun x hx => ?_, ih hrest⟩
      rcases List.mem_cons.mp ((insertSorted_perm _ _ _).mem_iff.mp hx) with rfl | hx
      · exact hba
      · exact hb x hx

/-- Sorting puts the members of a list in order. -/
theorem sorted_pairwise {cmp : α → α → Ordering} [Std.TransCmp cmp] (l : List α) :
    (sorted (fun a b => (cmp a b).isLE) l).Pairwise fun a b => (cmp a b).isLE := by
  induction l with
  | nil => exact .nil
  | cons a l ih => exact insertSorted_pairwise a ih

/-- Lists of the same members are the same list once they are sorted, when the order tells their
members apart. -/
theorem sorted_eq_of_perm {cmp : α → α → Ordering} [Std.TransCmp cmp] {l l' : List α}
    (h : l.Perm l') (hcmp : ∀ a ∈ l, ∀ b ∈ l, cmp a b = .eq → a = b) :
    sorted (fun a b => (cmp a b).isLE) l = sorted (fun a b => (cmp a b).isLE) l' := by
  have hperm : (sorted (fun a b => (cmp a b).isLE) l).Perm
      (sorted (fun a b => (cmp a b).isLE) l') :=
    (sorted_perm _ l).trans (h.trans (sorted_perm _ l').symm)
  refine hperm.eq_of_pairwise (fun a b ha hb hab hba => ?_) (sorted_pairwise l) (sorted_pairwise l')
  exact hcmp a ((sorted_perm _ l).mem_iff.mp ha)
    b (h.mem_iff.mpr ((sorted_perm _ l').mem_iff.mp hb)) (Std.OrientedCmp.isLE_antisymm hab hba)

theorem filter_insertSorted {le : α → α → Bool} {test : α → Bool}
    (h : ∀ a b, test a = true → test b = true → le a b = true) (a : α) (l : List α) :
    (insertSorted le a l).filter test = (a :: l).filter test := by
  induction l with
  | nil => rfl
  | cons b l ih =>
    unfold insertSorted
    split
    · rfl
    · rename_i hab
      cases hb : test b with
      | false =>
        rw [List.filter_cons_of_neg (by simp [hb]), ih, List.filter_cons, List.filter_cons,
          List.filter_cons_of_neg (by simp [hb])]
      | true =>
        -- a member that the new one passes is not of its kind
        have ha : test a = false := Bool.eq_false_iff.mpr fun ha => hab (h a b ha hb)
        rw [List.filter_cons_of_pos hb, ih, List.filter_cons_of_neg (by simp [ha]),
          List.filter_cons_of_neg (by simp [ha]), List.filter_cons_of_pos hb]

/-- Sorting is stable: members of one kind, which may stand in any order, stay in the order in which
they came. -/
theorem filter_sorted {le : α → α → Bool} {test : α → Bool}
    (h : ∀ a b, test a = true → test b = true → le a b = true) (l : List α) :
    (sorted le l).filter test = l.filter test := by
  induction l with
  | nil => rfl
  | cons a l ih => rw [sorted, filter_insertSorted h, List.filter_cons, List.filter_cons, ih]

theorem insertSorted_map (f : α → β) (le : β → β → Bool) (a : α) (l : List α) :
    insertSorted le (f a) (l.map f) = (insertSorted (fun a b => le (f a) (f b)) a l).map f := by
  induction l with
  | nil => rfl
  | cons b rest ih =>
    rw [List.map_cons, insertSorted, insertSorted, ih]
    split <;> rfl

theorem sorted_map (f : α → β) (le : β → β → Bool) (l : List α) :
    sorted le (l.map f) = (sorted (fun a b => le (f a) (f b)) l).map f := by
  induction l with
  | nil => rfl
  | cons a l ih => rw [List.map_cons, sorted, sorted, ih, insertSorted_map]

section Repetitions

variable [DecidableEq α]

theorem eraseReps_loop (a : α) (l kept : List α) :
    List.eraseRepsBy.loop (· == ·) a l kept = kept.reverse ++ (a :: l).eraseReps := by
  induction l generalizing a kept with
  | nil => simp [List.eraseRepsBy.loop, List.eraseReps, List.eraseRepsBy]
  | cons b l ih =>
    rw [List.eraseReps, List.eraseRepsBy, List.eraseRepsBy.loop, List.eraseRepsBy.loop]
    by_cases hab : a = b
    · simp only [hab, beq_self_eq_true, ih]
      rfl
    · simp only [beq_eq_false_iff_ne.mpr hab, ih]
      simp

theorem eraseReps_cons_cons (a b : α) (l : List α) :
    (a :: b :: l).eraseReps = if a = b then (b :: l).eraseReps else a :: (b :: l).eraseReps := by
  rw [List.eraseReps, List.eraseRepsBy, List.eraseRepsBy.loop]
  by_cases hab : a = b
  · simp only [hab, beq_self_eq_true, eraseReps_loop, if_true]
    rfl
  · simp only [beq_eq_false_iff_ne.mpr hab, eraseReps_loop, if_neg hab]
    rfl

theorem mem_eraseReps {a : α} {l : List α} : a ∈ l.eraseReps ↔ a ∈ l := by
  induction l with
  | nil => exact Iff.rfl
  | cons b l ih =>
    cases l with
    | nil => exact Iff.rfl
    | cons c l =>
      rw [eraseReps_cons_cons]
      split
      · rename_i hbc
        simp [ih, hbc]
      · rw [List.mem_cons, ih]
        exact List.mem_cons.symm

theorem eraseReps_sublist (l : List α) : l.eraseReps.Sublist l := by
  induction l with
  | nil => exact .refl _
  | cons a l ih =>
    cases l with
    | nil => exact .refl _
    | cons b l =>
      rw [eraseReps_cons_cons]
      split
      · exact ih.cons a
      · exact ih.cons_cons a

/-- A list that is in order has no member twice without its repetitions. -/
theorem eraseReps_nodup {cmp : α → α → Ordering} [Std.TransCmp cmp] [Std.LawfulEqCmp cmp]
    {l : List α} (h : l.Pairwise fun a b => (cmp a b).isLE) : l.eraseReps.Nodup := by
  induction l with
  | nil => exact .nil
  | cons a l ih =>
    obtain ⟨ha, hl⟩ := List.pairwise_cons.mp h
    cases l with
    | nil => exact List.nodup_singleton a
    | cons b l =>
      rw [eraseReps_cons_cons]
      split
      · exact ih hl
      · rename_i hab
        refine List.nodup_cons.mpr ⟨fun hmem => ?_, ih hl⟩
        have hba : (cmp b a).isLE := by
          rcases List.mem_cons.mp (mem_eraseReps.mp hmem) with rfl | hmem
          · exact absurd rfl hab
          · exact (List.pairwise_cons.mp hl).1 a hmem
        exact hab (Std.LawfulEqCmp.eq_of_compare
          (Std.OrientedCmp.isLE_antisymm (ha b List.mem_cons_self) hba))

theorem eraseReps_pairwise_lt {cmp : α → α → Ordering} [Std.TransCmp cmp] [Std.LawfulEqCmp cmp]
    {l : List α} (h : l.Pairwise fun a b => (cmp a b).isLE) :
    l.eraseReps.Pairwise fun a b => cmp a b = .lt := by
  refine (h.sublist (eraseReps_sublist l)).imp₂ ?_ (eraseReps_nodup h)
  intro a b hle hne
  cases hcompare : cmp a b with
  | lt => rfl
  | eq => exact absurd (Std.LawfulEqCmp.eq_of_compare hcompare) hne
  | gt =>
    rw [hcompare] at hle
    cases hle

end Repetitions

end Observable
