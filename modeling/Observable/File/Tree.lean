/-! Trees of files, as the list of what stands at each path. -/
namespace Observable

/-- What stands at a path. -/
inductive Entry where
  | directory
  | file (bytes : ByteArray)
deriving Inhabited

def Entry.isDirectory : Entry → Bool
  | directory => true
  | file _ => false

/-- What stands at the paths below the top of a tree; a path is the list of the names that lead
there. -/
abbrev Entries := List (List String × Entry)

namespace Entries

/-- What stands at a path; the top is a directory. -/
def find? (entries : Entries) (path : List String) : Option Entry :=
  if path = [] then some .directory
  else (List.find? (fun e => e.1 = path) entries).map (·.2)

def hasDirectory (entries : Entries) (path : List String) : Bool :=
  path.isEmpty || List.any entries fun e => e.1 = path && e.2.isDirectory

/-- Whether a path comes before another one; a directory comes before what it holds. -/
def Precedes (a b : List String) : Prop := compare a b = .lt

instance (a b : List String) : Decidable (Precedes a b) :=
  inferInstanceAs (Decidable (_ = Ordering.lt))

theorem Precedes.trans {a b c : List String} (hab : Precedes a b) (hbc : Precedes b c) :
    Precedes a c :=
  Std.TransCmp.lt_trans hab hbc

theorem ne_iff_precedes {a b : List String} : a ≠ b ↔ Precedes a b ∨ Precedes b a := by
  have eq : compare a b = .eq ↔ a = b := Std.LawfulEqCmp.compare_eq_iff_eq
  have gt : compare a b = .gt ↔ compare b a = .lt := Std.OrientedCmp.gt_iff_lt
  rw [Precedes, Precedes, ← gt, ne_eq, ← eq]
  cases compare a b <;> simp

def put (path : List String) (entry : Entry) (entries : Entries) : Entries :=
  List.filter (fun e => Precedes e.1 path) entries
    ++ (path, entry) :: List.filter (fun e => Precedes path e.1) entries

theorem mem_put {path : List String} {entry : Entry} {entries : Entries}
    {e : List String × Entry} :
    e ∈ put path entry entries ↔ e = (path, entry) ∨ (e ∈ entries ∧ e.1 ≠ path) := by
  simp only [put, List.mem_append, List.mem_cons, List.mem_filter, decide_eq_true_eq,
    ne_iff_precedes]
  grind

theorem put_pairwise {path : List String} {entry : Entry} {entries : Entries}
    (h : entries.Pairwise fun a b => Precedes a.1 b.1) :
    (put path entry entries).Pairwise fun a b => Precedes a.1 b.1 := by
  refine List.pairwise_append.2 ⟨h.filter _, List.pairwise_cons.2 ⟨?_, h.filter _⟩, ?_⟩
  · intro e he
    simpa using (List.mem_filter.1 he).2
  · intro a ha b hb
    have ha : Precedes a.1 path := by simpa using (List.mem_filter.1 ha).2
    rcases List.mem_cons.1 hb with rfl | hb
    · exact ha
    · exact ha.trans (by simpa using (List.mem_filter.1 hb).2)

theorem hasDirectory_put {path directory : List String} {entry : Entry} {entries : Entries}
    (h : ¬ entries.hasDirectory path) (hd : entries.hasDirectory directory) :
    (put path entry entries).hasDirectory directory := by
  simp only [hasDirectory, Bool.or_eq_true, List.any_eq_true, Bool.and_eq_true,
    decide_eq_true_eq] at h hd ⊢
  rcases hd with hd | ⟨e, he, rfl, hdir⟩
  · exact .inl hd
  · exact .inr ⟨e, mem_put.2 (.inr ⟨he, fun hp => h (.inr ⟨e, he, hp, hdir⟩)⟩), rfl, hdir⟩

end Entries

/-- A tree of files: the paths come in the order of their names, a directory before what it holds,
and each of them leads through directories. -/
structure FileTree where
  entries : Entries
  ordered : entries.Pairwise fun a b => Entries.Precedes a.1 b.1
  enclosed : ∀ e ∈ entries, e.1 ≠ [] ∧ entries.hasDirectory e.1.dropLast

namespace FileTree

def empty : FileTree := ⟨[], .nil, by simp⟩

instance : Inhabited FileTree := ⟨empty⟩

def find? (tree : FileTree) (path : List String) : Option Entry := tree.entries.find? path

def hasDirectory (tree : FileTree) (path : List String) : Bool := tree.entries.hasDirectory path

/-- Sets what stands in a directory under a name; a directory that is there already stays. -/
def put (tree : FileTree) (directory : List String) (name : String) (entry : Entry) : FileTree :=
  if h : tree.hasDirectory directory ∧ ¬ tree.hasDirectory (directory ++ [name]) then
    { entries := tree.entries.put (directory ++ [name]) entry
      ordered := Entries.put_pairwise tree.ordered
      enclosed := by
        intro e he
        rcases Entries.mem_put.1 he with rfl | ⟨he, _⟩
        · exact ⟨by simp, by simpa using Entries.hasDirectory_put h.2 h.1⟩
        · exact ⟨(tree.enclosed e he).1, Entries.hasDirectory_put h.2 (tree.enclosed e he).2⟩ }
  else tree

/-- The names behind those of another path, if a path goes through it. -/
def namesBelow? (path full : List String) : Option (List String) :=
  if path.isPrefixOf full then some (full.drop path.length) else none

/-- The files at and below a path, in the order of a walk, with the names that lead to them from
there. -/
def filesBelow (tree : FileTree) (path : List String) : List (List String × ByteArray) :=
  tree.entries.filterMap fun (full, entry) =>
    match entry with
    | .file bytes => (namesBelow? path full).map (·, bytes)
    | .directory => none

end FileTree

end Observable
