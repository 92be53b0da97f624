import Mathlib.Data.List.Basic
import Observable.File.Path
/-! The pieces of a path: none of them holds a slash, and a name without a slash is one piece behind
those of the directory that it is joined to. -/
namespace Observable

/-- A name without a slash: it stands in a path as one piece. -/
def Slashless (name : String) : Prop := '/' ∉ name.toList

theorem slashless_append {a b : String} :
    Slashless (a ++ b) ↔ Slashless a ∧ Slashless b := by
  simp [Slashless]

section

variable {α : Type} [BEq α] [LawfulBEq α]

theorem not_mem_of_mem_splitOn {c : α} {text piece : List α} (h : piece ∈ text.splitOn c) :
    c ∉ piece := by
  induction text generalizing piece with
  | nil =>
    obtain rfl : piece = [] := by simpa using h
    exact List.not_mem_nil
  | cons d text ih =>
    have hcons := List.splitOnP_cons_eq_if_modifyHead (p := (· == c)) d text
    rw [List.splitOn, hcons] at h
    split at h
    · rcases List.mem_cons.mp h with rfl | h
      · exact List.not_mem_nil
      · exact ih h
    · rename_i hd
      obtain ⟨first, rest, hsplit⟩ :=
        List.exists_cons_of_ne_nil (List.splitOnP_ne_nil (· == c) text)
      have hfirst : first ∈ text.splitOn c := by
        rw [List.splitOn, hsplit]
        exact List.mem_cons_self
      rw [hsplit, List.modifyHead_cons] at h
      rcases List.mem_cons.mp h with rfl | h
      · rw [List.mem_cons, not_or]
        exact ⟨fun heq => hd (by simp [heq]), ih hfirst⟩
      · refine ih ?_
        rw [List.splitOn, hsplit]
        exact List.mem_cons_of_mem _ h

/-- What is split stays split when each element is written out as some others. -/
theorem splitOn_flatMap {β : Type} [BEq β] [LawfulBEq β] {f : α → List β} {c : α} {d : β}
    (hc : f c = [d]) (hne : ∀ a, a ≠ c → d ∉ f a) (text : List α) :
    (text.flatMap f).splitOn d = (text.splitOn c).map (·.flatMap f) := by
  induction h : text.length using Nat.strongRecOn generalizing text with
  | ind n ih =>
    subst h
    by_cases hmem : c ∈ text
    · obtain ⟨a, b, rfl⟩ := List.append_of_mem hmem
      have ha := ih a.length (by simp) a rfl
      have hb := ih b.length (by simp; omega) b rfl
      rw [List.splitOn_append_cons_self, List.map_append, ← ha, ← hb,
        ← List.splitOn_append_cons_self, List.flatMap_append, List.flatMap_cons, hc]
      rfl
    · have hnot : d ∉ text.flatMap f := fun hd => by
        obtain ⟨a, ha, hd⟩ := List.mem_flatMap.mp hd
        exact hne a (ne_of_mem_of_not_mem ha hmem) hd
      rw [List.splitOn_eq_singleton hmem, List.splitOn_eq_singleton hnot, List.map_singleton]

end

namespace File.Path

theorem not_mem_of_mem_pieces {text piece : List Char} (h : piece ∈ pieces text) : '/' ∉ piece :=
  not_mem_of_mem_splitOn (List.mem_filter.mp h).1

theorem pieces_append (a b : List Char) : pieces (a ++ '/' :: b) = pieces a ++ pieces b := by
  rw [pieces, List.splitOn_append_cons_self, List.filter_append]
  rfl

theorem pieces_of_not_mem {text : List Char} (h : '/' ∉ text) (hne : text ≠ []) :
    pieces text = [text] := by
  simp [pieces, List.splitOn_eq_singleton h, hne]

theorem isAbsolute_eq_false {name : String} (h : Slashless name) :
    isAbsolute name.toList = false := by
  cases hname : name.toList with
  | nil => rfl
  | cons c rest =>
    rw [Slashless, hname, List.mem_cons, not_or] at h
    simpa [isAbsolute] using fun heq => h.1 heq.symm

/-- A name behind a directory is the last piece. -/
theorem pieces_join (directory : String) {name : String} (h : Slashless name) (hne : name ≠ "") :
    pieces (join directory name).toList = pieces directory.toList ++ [name.toList] := by
  have hname : pieces name.toList = [name.toList] := pieces_of_not_mem h (by simpa using hne)
  rw [join, isAbsolute_eq_false h, if_neg Bool.false_ne_true]
  split
  · rename_i hend
    rw [Bool.or_eq_true, decide_eq_true_eq] at hend
    rcases hend with hempty | hslash
    · obtain rfl : directory = "" := by simpa using hempty
      rw [String.empty_append, hname]
      rfl
    · obtain ⟨front, hfront⟩ := List.getLast?_eq_some_iff.mp hslash
      have hpieces : pieces directory.toList = pieces front := by
        rw [hfront, pieces_append]
        simp [pieces]
      rw [String.toList_append, hfront, List.append_assoc, List.singleton_append, pieces_append,
        hname, hpieces.symm, hfront]
  · rw [String.toList_append, String.toList_append, List.append_assoc]
    exact (pieces_append _ _).trans (congrArg _ hname)

theorem getLast?_join (directory : String) {name : String} (h : Slashless name) (hne : name ≠ "") :
    (join directory name).toList.getLast? = name.toList.getLast? := by
  have hlist : name.toList ≠ [] := by simpa using hne
  have hend : ∃ front, (join directory name).toList = front ++ name.toList := by
    rw [join, isAbsolute_eq_false h, if_neg Bool.false_ne_true]
    split
    · exact ⟨_, String.toList_append⟩
    · exact ⟨_, String.toList_append⟩
  obtain ⟨front, hfront⟩ := hend
  rw [hfront, List.getLast?_append_of_ne_nil _ hlist]

/-- Different names behind a directory give different paths. -/
theorem join_injective (directory : String) {a b : String} (ha : Slashless a) (hb : Slashless b)
    (h : join directory a = join directory b) : a = b := by
  rw [join, join, isAbsolute_eq_false ha, isAbsolute_eq_false hb, if_neg Bool.false_ne_true,
    if_neg Bool.false_ne_true] at h
  split at h
  · exact String.append_right_inj _ |>.mp h
  · exact String.append_right_inj _ |>.mp h

end File.Path

end Observable
