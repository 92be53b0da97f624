import Mathlib.Data.List.Induction
import Mathlib.Logic.Function.Basic
import Observable.Module.Source
/-! What imports bind, leaf by leaf, and which groupings of them bind the same. -/
namespace Observable

open Grammar (Tree)

/-- How an import ends: with a name, with a name that gets another one, or with all names. -/
inductive LeafForm where
  | name (word : String)
  | rename (word bound : String)
  | glob
deriving DecidableEq, Repr

/-- A leaf of an import tree, with the words that lead to it. -/
structure Leaf where
  words : List String
  form : LeafForm
deriving DecidableEq, Repr

namespace Leaf

/-- The path that a leaf stands for when it ends with a word; `self` adds nothing. -/
def target (l : Leaf) (word : String) : List String :=
  if word = "self" then l.words else l.words ++ [word]

/-- What a leaf binds. A name binds itself, `self` binds the last word that leads to it, another
name is bound in the place of the name, unless it is `_`, and all names bind none of them. -/
def binding? (l : Leaf) : Option Binding :=
  match l.form with
  | .name word =>
    if word = "self" then l.words.getLast?.map (⟨·, l.words⟩) else some ⟨word, l.target word⟩
  | .rename word bound => if bound = "_" then none else some ⟨bound, l.target word⟩
  | .glob => none

/-- A leaf with more words in front. -/
def behind (words : List String) (l : Leaf) : Leaf := { l with words := words ++ l.words }

theorem behind_nil (l : Leaf) : l.behind [] = l := rfl

theorem behind_behind (front words : List String) (l : Leaf) :
    (l.behind words).behind front = l.behind (front ++ words) := by
  simp only [behind, List.append_assoc]

/-- A leaf that ends with `self` where it ended with a name. -/
def closed (l : Leaf) : Leaf :=
  match l.form with
  | .name word => if word = "self" then l else ⟨l.words ++ [word], .name "self"⟩
  | .rename word bound => if word = "self" then l else ⟨l.words ++ [word], .rename "self" bound⟩
  | .glob => l

theorem closed_behind (words : List String) (l : Leaf) :
    (l.behind words).closed = l.closed.behind words := by
  obtain ⟨_, word | ⟨word, bound⟩ | _⟩ := l
  · by_cases hself : word = "self"
    · simp only [closed, behind, hself, if_true]
    · simp only [closed, behind, hself, if_false, List.append_assoc]
  · by_cases hself : word = "self"
    · simp only [closed, behind, hself, if_true]
    · simp only [closed, behind, hself, if_false, List.append_assoc]
  · rfl

theorem binding?_closed (l : Leaf) : l.closed.binding? = l.binding? := by
  obtain ⟨words, word | ⟨word, bound⟩ | _⟩ := l
  · by_cases hself : word = "self"
    · simp only [closed, hself, if_true]
    · simp only [closed, binding?, target, hself, if_false, if_true, List.getLast?_concat,
        Option.map_some]
  · by_cases hself : word = "self"
    · simp only [closed, hself, if_true]
    · simp only [closed, binding?, target, hself, if_false, if_true]
  · rfl

/-- Adds what a leaf binds to what is bound so far, in the place of an earlier binding. -/
def insert (found : String → Option (List String)) (l : Leaf) : String → Option (List String) :=
  match l.binding? with
  | some b => Function.update found b.name (some b.target)
  | none => found

end Leaf

/-- An import tree: a leaf, a tree behind a word, or a group of trees in braces. -/
inductive ImportTree where
  | leaf (form : LeafForm)
  | path (word : String) (tree : ImportTree)
  | group (trees : List ImportTree)

namespace ImportTree

mutual
/-- The leaves of an import tree in order. -/
def leaves : ImportTree → List Leaf
  | leaf form => [⟨[], form⟩]
  | path word tree => tree.leaves.map (Leaf.behind [word])
  | group trees => leavesAll trees

/-- The leaves of some import trees in order. -/
def leavesAll : List ImportTree → List Leaf
  | [] => []
  | t :: ts => t.leaves ++ leavesAll ts
end

mutual
/-- The import trees that a syntax tree stands for. -/
def ofTree : Tree → List ImportTree
  | .node (.useTree .path) parts => ofPath parts
  | .node (.useTree .name) [name] => [leaf (.name name.spelling)]
  | .node (.useTree .rename) [name, _, bound] => [leaf (.rename name.spelling bound.spelling)]
  | .node (.useTree .glob) _ => [leaf .glob]
  | .node (.useTree .group) parts => [group (ofTrees parts)]
  | .group _ _ _ parts => ofTrees parts
  | _ => []

/-- The import trees that a word and what follows it stand for. -/
def ofPath : List Tree → List ImportTree
  | name :: rest => (ofTrees rest).map (path name.spelling)
  | [] => []

/-- The import trees that some syntax trees stand for, in order. -/
def ofTrees : List Tree → List ImportTree
  | [] => []
  | t :: ts => ofTree t ++ ofTrees ts
end

/-- The import trees of an item. One that begins with `::` is behind the root of all libraries. -/
def ofItem : Tree → List ImportTree
  | .node (.item .use) parts =>
    match Tree.partsAfter "use" parts with
    | leading :: tree :: _ =>
      if leading.isPresent then (ofTree tree).map (path Binding.libraryRoot) else ofTree tree
    | _ => []
  | _ => []

theorem leavesAll_append (ts us : List ImportTree) :
    leavesAll (ts ++ us) = leavesAll ts ++ leavesAll us := by
  induction ts with
  | nil => rfl
  | cons t ts ih => simp only [List.cons_append, leavesAll, ih, List.append_assoc]

theorem leavesAll_map_path (word : String) (ts : List ImportTree) :
    leavesAll (ts.map (path word)) = (leavesAll ts).map (Leaf.behind [word]) := by
  induction ts with
  | nil => rfl
  | cons t ts ih => simp only [List.map_cons, leavesAll, leaves, ih, List.map_append]

/-- What the leaves of some trees bind behind some words, in order. -/
def bindings (words : List String) (ts : List ImportTree) : List Binding :=
  (leavesAll ts).filterMap fun l => (l.behind words).binding?

theorem bindings_append (words : List String) (ts us : List ImportTree) :
    bindings words (ts ++ us) = bindings words ts ++ bindings words us := by
  simp only [bindings, leavesAll_append, List.filterMap_append]

theorem bindings_map_path (words : List String) (word : String) (ts : List ImportTree) :
    bindings words (ts.map (path word)) = bindings (words ++ [word]) ts := by
  rw [bindings, leavesAll_map_path, List.filterMap_map]
  simp only [bindings, Function.comp_def, Leaf.behind_behind]

theorem bindings_group (words : List String) (ts : List ImportTree) :
    bindings words [group ts] = bindings words ts := by
  simp only [bindings, leavesAll, leaves, List.append_nil]

theorem bindings_leaf (words : List String) (form : LeafForm) :
    bindings words [leaf form] = (Leaf.binding? ⟨words, form⟩).toList := by
  have hleaf : Leaf.behind words ⟨[], form⟩ = ⟨words, form⟩ := by rw [Leaf.behind, List.append_nil]
  rw [bindings, leavesAll, leaves, leavesAll, List.append_nil, List.filterMap_cons,
    List.filterMap_nil, hleaf]
  cases Leaf.binding? ⟨words, form⟩ <;> rfl

end ImportTree

namespace Binding

open ImportTree (bindings)

theorem ofTree_name (words : List String) (name : Tree) :
    ofTree words (.node (.useTree .name) [name])
      = (Leaf.binding? ⟨words, .name name.spelling⟩).toList := by
  rw [ofTree, extend]
  by_cases hself : name.spelling = "self"
  · simp only [Leaf.binding?, hself, if_true]
    cases words.getLast? <;> rfl
  · simp only [Leaf.binding?, Leaf.target, hself, if_false, List.getLast?_concat, Option.toList]

theorem ofTree_rename (words : List String) (name keyword bound : Tree) :
    ofTree words (.node (.useTree .rename) [name, keyword, bound])
      = (Leaf.binding? ⟨words, .rename name.spelling bound.spelling⟩).toList := by
  rw [ofTree, Leaf.binding?]
  by_cases hnone : bound.spelling = "_"
  · simp only [hnone, if_true, Option.toList]
  · simp only [hnone, if_false, Option.toList, extend, Leaf.target]

theorem ofTree_glob (words : List String) (parts : List Tree) :
    ofTree words (.node (.useTree .glob) parts) = [] := by
  simp [ofTree]

mutual
/-- The words that are collected on the way down to a leaf are those in front of it. -/
theorem ofTree_eq (words : List String) :
    ∀ t : Tree, ofTree words t = bindings words (ImportTree.ofTree t)
  | .token _ => by
    simp only [ofTree, ImportTree.ofTree]
    rfl
  | .group _ _ _ parts => by
    rw [ofTree, ImportTree.ofTree]
    exact ofTrees_eq words parts
  | .node kind parts => by
    have hparts := ofTrees_eq words parts
    have hpath := ofPath_eq words parts
    unfold ImportTree.ofTree
    split <;> rename_i heq
    · obtain ⟨rfl, rfl⟩ := Tree.node.inj heq
      rw [ofTree, hpath]
    · obtain ⟨rfl, rfl⟩ := Tree.node.inj heq
      rw [ofTree_name, ImportTree.bindings_leaf]
    · obtain ⟨rfl, rfl⟩ := Tree.node.inj heq
      rw [ofTree_rename, ImportTree.bindings_leaf]
    · obtain ⟨rfl, rfl⟩ := Tree.node.inj heq
      rw [ofTree_glob, ImportTree.bindings_leaf]
      rfl
    · obtain ⟨rfl, rfl⟩ := Tree.node.inj heq
      rw [ofTree, hparts, ImportTree.bindings_group]
    · cases heq
    · rw [ofTree]
      · rfl
      all_goals assumption

theorem ofPath_eq (words : List String) :
    ∀ parts : List Tree, ofPath words parts = bindings words (ImportTree.ofPath parts)
  | [] => rfl
  | name :: rest => by
    rw [ofPath, ImportTree.ofPath, ImportTree.bindings_map_path]
    exact ofTrees_eq (words ++ [name.spelling]) rest

theorem ofTrees_eq (words : List String) :
    ∀ ts : List Tree, ofTrees words ts = bindings words (ImportTree.ofTrees ts)
  | [] => rfl
  | t :: ts => by
    rw [ofTrees, ImportTree.ofTrees, ImportTree.bindings_append, ofTree_eq words t,
      ofTrees_eq words ts]
end

theorem ofItem_use (parts : List Tree) :
    ofItem (.node (.item .use) parts)
      = bindings [] (ImportTree.ofItem (.node (.item .use) parts)) := by
  rw [ofItem, ImportTree.ofItem]
  rcases Tree.partsAfter "use" parts with _ | ⟨leading, _ | ⟨tree, rest⟩⟩
  · rfl
  · rfl
  · dsimp only
    split
    · rw [ImportTree.bindings_map_path, ofTree_eq, List.nil_append]
    · exact ofTree_eq [] tree

theorem ofItem_eq (item : Tree) : ofItem item = bindings [] (ImportTree.ofItem item) := by
  by_cases huse : ∃ parts, item = .node (.item .use) parts
  · obtain ⟨parts, rfl⟩ := huse
    exact ofItem_use parts
  · rw [not_exists] at huse
    rw [ofItem, ImportTree.ofItem]
    · rfl
    all_goals exact huse

end Binding

namespace ImportTree

/-- Other ways to write some import trees: braces around them or away from them, a word in front of
each of them or once in front of all, where `self` stands for the word alone; anywhere in a tree,
and in their order. -/
inductive Regroups : List ImportTree → List ImportTree → Prop
  | refl (ts : List ImportTree) : Regroups ts ts
  | symm {ts us} (h : Regroups ts us) : Regroups us ts
  | trans {ts us vs} (h : Regroups ts us) (h' : Regroups us vs) : Regroups ts vs
  | append {ts us ts' us'} (h : Regroups ts us) (h' : Regroups ts' us') :
      Regroups (ts ++ ts') (us ++ us')
  | behind (word : String) {t u} (h : Regroups [t] [u]) : Regroups [path word t] [path word u]
  | nest (ts : List ImportTree) : Regroups ts [group ts]
  | factor (word : String) (ts : List ImportTree) :
      Regroups (ts.map (path word)) [path word (group ts)]
  | name {word : String} (hself : word ≠ "self") :
      Regroups [leaf (.name word)] [path word (leaf (.name "self"))]
  | rename {word : String} (hself : word ≠ "self") (bound : String) :
      Regroups [leaf (.rename word bound)] [path word (leaf (.rename "self" bound))]

theorem leavesAll_singleton (t : ImportTree) : leavesAll [t] = t.leaves := by
  rw [leavesAll, leavesAll, List.append_nil]

/-- The leaves of some import trees, with `self` at the end of each name. -/
def closedLeaves (ts : List ImportTree) : List Leaf := (leavesAll ts).map Leaf.closed

theorem closedLeaves_leaf (form : LeafForm) :
    closedLeaves [leaf form] = [Leaf.closed ⟨[], form⟩] := rfl

theorem closedLeaves_append (ts us : List ImportTree) :
    closedLeaves (ts ++ us) = closedLeaves ts ++ closedLeaves us := by
  rw [closedLeaves, leavesAll_append, List.map_append, closedLeaves, closedLeaves]

theorem closedLeaves_map_path (word : String) (ts : List ImportTree) :
    closedLeaves (ts.map (path word)) = (closedLeaves ts).map (Leaf.behind [word]) := by
  simp only [closedLeaves, leavesAll_map_path, List.map_map, Function.comp_def, Leaf.closed_behind]

theorem closedLeaves_path (word : String) (t : ImportTree) :
    closedLeaves [path word t] = (closedLeaves [t]).map (Leaf.behind [word]) :=
  closedLeaves_map_path word [t]

theorem closedLeaves_group (ts : List ImportTree) : closedLeaves [group ts] = closedLeaves ts := by
  rw [closedLeaves, leavesAll_singleton, leaves, closedLeaves]

theorem Regroups.closedLeaves_eq {ts us : List ImportTree} (h : Regroups ts us) :
    closedLeaves ts = closedLeaves us := by
  induction h with
  | refl ts => rfl
  | symm _ ih => exact ih.symm
  | trans _ _ ih ih' => exact ih.trans ih'
  | append _ _ ih ih' => rw [closedLeaves_append, closedLeaves_append, ih, ih']
  | behind word _ ih => rw [closedLeaves_path, closedLeaves_path, ih]
  | nest ts => exact (closedLeaves_group ts).symm
  | factor word ts => rw [closedLeaves_map_path, closedLeaves_path, closedLeaves_group]
  | name hself =>
    rw [closedLeaves_path, closedLeaves_leaf, closedLeaves_leaf]
    simp only [Leaf.closed, hself, if_false, if_true]
    rfl
  | rename hself bound =>
    rw [closedLeaves_path, closedLeaves_leaf, closedLeaves_leaf]
    simp only [Leaf.closed, hself, if_false, if_true]
    rfl

theorem Regroups.map_path {ts us : List ImportTree} (h : Regroups ts us) (word : String) :
    Regroups (ts.map (path word)) (us.map (path word)) := by
  have hgroup : Regroups [group ts] [group us] := ((nest ts).symm.trans h).trans (nest us)
  exact ((factor word ts).trans (behind word hgroup)).trans (factor word us).symm

/-- The import tree of one leaf, without braces. -/
def ofLeaf (l : Leaf) : ImportTree := l.words.foldr path (leaf l.form)

theorem map_ofLeaf_behind (word : String) (found : List Leaf) :
    (found.map (Leaf.behind [word])).map ofLeaf = (found.map ofLeaf).map (path word) := by
  rw [List.map_map, List.map_map]
  rfl

theorem regroups_leaf (form : LeafForm) :
    Regroups [leaf form] ((closedLeaves [leaf form]).map ofLeaf) := by
  rw [closedLeaves_leaf]
  cases form with
  | name word =>
    by_cases hself : word = "self"
    · simp only [Leaf.closed, hself, if_true]
      exact .refl _
    · simp only [Leaf.closed, hself, if_false]
      exact .name hself
  | rename word bound =>
    by_cases hself : word = "self"
    · simp only [Leaf.closed, hself, if_true]
      exact .refl _
    · simp only [Leaf.closed, hself, if_false]
      exact .rename hself bound
  | glob => exact .refl [leaf .glob]

mutual
/-- Each tree can be written as its leaves, one after the other. -/
theorem regroups_leaves : ∀ t : ImportTree, Regroups [t] ((closedLeaves [t]).map ofLeaf)
  | leaf form => regroups_leaf form
  | path word tree => by
    rw [closedLeaves_path, map_ofLeaf_behind]
    exact (regroups_leaves tree).map_path word
  | group trees => by
    rw [closedLeaves_group]
    exact (Regroups.nest trees).symm.trans (regroups_leavesAll trees)

theorem regroups_leavesAll : ∀ ts : List ImportTree, Regroups ts ((closedLeaves ts).map ofLeaf)
  | [] => .refl []
  | t :: ts => by
    rw [← List.singleton_append, closedLeaves_append, List.map_append]
    exact (regroups_leaves t).append (regroups_leavesAll ts)
end

/-- Some trees are another way to write others exactly when they have the same leaves in the same
order. -/
theorem regroups_iff {ts us : List ImportTree} :
    Regroups ts us ↔ closedLeaves ts = closedLeaves us := by
  constructor
  · exact Regroups.closedLeaves_eq
  · intro h
    have hus := (regroups_leavesAll us).symm
    rw [← h] at hus
    exact (regroups_leavesAll ts).trans hus

/-- Another way to write some trees binds the same. -/
theorem Regroups.bindings_eq {ts us : List ImportTree} (h : Regroups ts us) :
    (leavesAll ts).filterMap Leaf.binding? = (leavesAll us).filterMap Leaf.binding? := by
  have hclosed : ∀ ts, (closedLeaves ts).filterMap Leaf.binding?
      = (leavesAll ts).filterMap Leaf.binding? := by
    intro ts
    simp only [closedLeaves, List.filterMap_map, Function.comp_def, Leaf.binding?_closed]
  rw [← hclosed, ← hclosed, h.closedLeaves_eq]

end ImportTree

namespace Leaf

/-- The leaves of an item; only an import has some. -/
def ofItem (item : Tree) : List Leaf := ImportTree.leavesAll (ImportTree.ofItem item)

theorem leavesAll_flatMap (items : List Tree) :
    ImportTree.leavesAll (items.flatMap ImportTree.ofItem) = items.flatMap ofItem := by
  induction items with
  | nil => rfl
  | cons item items ih =>
    rw [List.flatMap_cons, ImportTree.leavesAll_append, ih, List.flatMap_cons, ofItem]

/-- The last leaf that binds a name is what is found for it in the end. -/
theorem foldl_insert (found : List Leaf) (name : String) :
    found.foldl insert (fun _ => none) name =
      ((found.filterMap binding?).reverse.find? fun b => b.name = name).map Binding.target := by
  induction found using List.reverseRecOn with
  | nil => rfl
  | append_singleton found l ih =>
    rw [List.foldl_append, List.foldl_cons, List.foldl_nil, insert, List.filterMap_append,
      List.filterMap_cons]
    cases hbinding : l.binding? with
    | none => simpa using ih
    | some b =>
      by_cases hname : b.name = name
      · subst hname
        simp
      · simp [hname, Function.update_of_ne (Ne.symm hname), ih]

/-- What is read behind the root of all libraries says so in what it binds. -/
theorem head?_target {l : Leaf} {b : Binding} {word : String} (hwords : l.words.head? = some word)
    (h : l.binding? = some b) : b.target.head? = some word := by
  have htarget : ∀ name, (l.target name).head? = some word := by
    intro name
    rw [target]
    split
    · exact hwords
    · rw [List.head?_append, hwords]
      rfl
  unfold binding? at h
  split at h
  · split at h
    · obtain ⟨bound, -, rfl⟩ := Option.map_eq_some_iff.mp h
      exact hwords
    · obtain rfl := Option.some.inj h
      exact htarget _
  · split at h
    · cases h
    · obtain rfl := Option.some.inj h
      exact htarget _
  · cases h

theorem head?_words_of_leading {parts rest : List Tree} {leading tree : Tree}
    (hparts : Tree.partsAfter "use" parts = leading :: tree :: rest)
    (hleading : leading.isPresent = true) {l : Leaf}
    (h : l ∈ ofItem (.node (.item .use) parts)) : l.words.head? = some Binding.libraryRoot := by
  rw [ofItem, ImportTree.ofItem, hparts] at h
  simp only [hleading, if_true, ImportTree.leavesAll_map_path] at h
  obtain ⟨l, -, rfl⟩ := List.mem_map.mp h
  rfl

end Leaf

namespace Scope

theorem imports_eq (m : ModulePath) (items : List Tree) :
    (ofItems m items).imports = (items.flatMap Leaf.ofItem).filterMap Leaf.binding? := by
  have hitem : Binding.ofItem = fun item => (Leaf.ofItem item).filterMap Leaf.binding? := by
    funext item
    rw [Binding.ofItem_eq, ImportTree.bindings, Leaf.ofItem]
    simp only [Leaf.behind_nil]
  rw [ofItems, List.filterMap_flatMap, hitem]

theorem import?_eq_foldl (m : ModulePath) (items : List Tree) (name : String) :
    (ofItems m items).import? name
      = (items.flatMap Leaf.ofItem).foldl Leaf.insert (fun _ => none) name := by
  rw [import?, imports_eq, Leaf.foldl_insert]

section Congruence

variable {s s' : Scope} (hmodule : s.module = s'.module)
  (himport : ∀ name, s.import? name = s'.import? name)
  (hlocals : ∀ name, name ∈ s.locals ↔ name ∈ s'.locals)
include hlocals

theorem contains_locals_congr (name : String) :
    s.locals.contains name = s'.locals.contains name := by
  rw [List.contains_eq_mem, List.contains_eq_mem, decide_eq_decide]
  exact hlocals name

include himport in
theorem binds_congr (name : String) : s.binds name = s'.binds name := by
  rw [binds, binds, himport, contains_locals_congr hlocals]

include hmodule

theorem resolveWords_congr (words : List String) :
    s.resolveWords words = s'.resolveWords words := by
  cases words with
  | nil => rfl
  | cons first rest =>
    rw [resolveWords, resolveWords, hmodule, contains_locals_congr hlocals]

include himport

/-- What a path refers to depends on what its module binds alone. -/
theorem resolvePath_congr (path : Tree) : s.resolvePath path = s'.resolvePath path := by
  rw [resolvePath, resolvePath]
  cases path.pathWords with
  | nil => rfl
  | cons first rest =>
    simp only [resolve, himport, contains_locals_congr hlocals,
      resolveWords_congr hmodule hlocals]

end Congruence

theorem binds_ofItems (m : ModulePath) (items : List Tree) (name : String) :
    (ofItems m items).binds name = true ↔ ∃ item ∈ items,
      (∃ l ∈ Leaf.ofItem item, ∃ target, l.binding? = some ⟨name, target⟩) ∨
        ∃ t, item.name? = some t ∧ t.spelling = name := by
  have himport : ((ofItems m items).import? name).isSome = true ↔
      ∃ item ∈ items, ∃ l ∈ Leaf.ofItem item, ∃ target, l.binding? = some ⟨name, target⟩ := by
    rw [import?, imports_eq, Option.isSome_map, List.find?_isSome]
    simp only [List.mem_reverse, List.mem_filterMap, List.mem_flatMap, decide_eq_true_eq]
    constructor
    · rintro ⟨b, ⟨l, ⟨item, hitem, hl⟩, hbinding⟩, rfl⟩
      exact ⟨item, hitem, l, hl, b.target, hbinding⟩
    · rintro ⟨item, hitem, l, hl, target, hbinding⟩
      exact ⟨_, ⟨l, ⟨item, hitem, hl⟩, hbinding⟩, rfl⟩
  have hlocal : (ofItems m items).locals.contains name = true ↔
      ∃ item ∈ items, ∃ t, item.name? = some t ∧ t.spelling = name := by
    simp only [ofItems, List.contains_eq_mem, decide_eq_true_eq, List.mem_filterMap,
      Option.map_eq_some_iff]
  rw [binds, Bool.or_eq_true, himport, hlocal, or_comm, ← exists_or]
  simp only [and_or_left]

end Scope

namespace Grammar.Tree

/-- Whether a part of an item names it. -/
def isName : Tree → Bool
  | .node .name [.token _] => true
  | _ => false

/-- An item without what it contains: only its names are left. An import stays as it is. -/
def outline : Tree → Tree
  | .node (.item form) parts =>
    .node (.item form) (if form = .use then parts else parts.filter isName)
  | t => t

theorem name?_filter (kind : Grammar.Kind) (parts : List Tree) :
    (Tree.node kind (parts.filter isName)).name? = (Tree.node kind parts).name? := by
  induction parts with
  | nil => rfl
  | cons part parts ih =>
    rw [name?, name?] at ih
    rw [name?, name?, List.filter_cons]
    split
    · rw [List.findSome?_cons, List.findSome?_cons, ih]
    · rename_i hname
      rw [ih, List.findSome?_cons]
      split
      · rename_i heq
        split at heq
        · exact absurd rfl hname
        · cases heq
      · rfl

theorem name?_outline (item : Tree) : item.outline.name? = item.name? := by
  unfold outline
  split
  · split
    · rfl
    · exact name?_filter _ _
  · rfl

end Grammar.Tree

theorem Binding.ofItem_outline (item : Tree) : ofItem item.outline = ofItem item := by
  unfold Tree.outline
  split
  · rename_i form parts
    split
    · rfl
    · rename_i himport
      simp [ofItem, himport]
  · rfl

theorem Scope.ofItems_outline (m : ModulePath) (items : List Tree) :
    ofItems m (items.map Tree.outline) = ofItems m items := by
  simp only [ofItems, List.flatMap_map, List.filterMap_map, Function.comp_def,
    Binding.ofItem_outline, Tree.name?_outline]

namespace Compilation

/-- The files of a compilation with items that contain nothing. -/
def outline (c : Compilation) : Compilation where
  files := c.files.map fun f =>
    { f with syntaxTree.items := f.syntaxTree.items.map Tree.outline }

theorem rootBinds_outline (c : Compilation) (name : String) :
    c.outline.rootBinds name = c.rootBinds name := by
  simp only [rootBinds, outline, List.any_map, Function.comp_def, SourceFile.scope,
    Scope.ofItems_outline]

theorem rootBinds_iff (c : Compilation) (name : String) :
    c.rootBinds name = true ↔ ∃ f ∈ c.files, f.module.isRoot = true ∧
      ∃ item ∈ f.syntaxTree.items,
        (∃ l ∈ Leaf.ofItem item, ∃ target, l.binding? = some ⟨name, target⟩) ∨
          ∃ t, item.name? = some t ∧ t.spelling = name := by
  simp only [rootBinds, List.any_eq_true, Bool.and_eq_true, SourceFile.scope, Scope.binds_ofItems]

example :
    let text := "mod m \x7b pub struct D; \x7d fn f() \x7b use m::D; \x7d use m::f as E;"
    let c := Compilation.ofSources [("lib.rs", text)]
    c.toOption.map (fun c => (c.rootBinds "D", c.rootBinds "E")) = some (false, true) := by
  decide +kernel

end Compilation

/-- Imports mean their leaves. What a name is imported as is what its last leaf binds it to, leaf
after leaf and item after item, and behind `::` that begins at the root of all libraries. So another
way to write the imports changes neither which names a module binds nor what a path refers to. The
root binds the names of the leaves and the items in its files, and none for what an item
contains. -/
theorem Scope.imports_by_leaves (m : ModulePath) (items : List Tree) (c : Compilation) :
    (∀ name, (ofItems m items).import? name
      = (items.flatMap Leaf.ofItem).foldl Leaf.insert (fun _ => none) name) ∧
    (∀ parts leading tree rest, Tree.partsAfter "use" parts = leading :: tree :: rest →
      leading.isPresent = true → ∀ l ∈ Leaf.ofItem (.node (.item .use) parts),
        ∀ b ∈ l.binding?, b.target.head? = some Binding.libraryRoot) ∧
    (∀ items',
      ImportTree.Regroups (items.flatMap ImportTree.ofItem) (items'.flatMap ImportTree.ofItem) →
      (∀ name, name ∈ (ofItems m items).locals ↔ name ∈ (ofItems m items').locals) →
      (∀ name, (ofItems m items).binds name = (ofItems m items').binds name) ∧
        ∀ path, (ofItems m items).resolvePath path = (ofItems m items').resolvePath path) ∧
    ∀ name,
      (c.rootBinds name = true ↔ ∃ f ∈ c.files, f.module.isRoot = true ∧
        ∃ item ∈ f.syntaxTree.items,
          (∃ l ∈ Leaf.ofItem item, ∃ target, l.binding? = some ⟨name, target⟩) ∨
            ∃ t, item.name? = some t ∧ t.spelling = name) ∧
      c.outline.rootBinds name = c.rootBinds name := by
  refine ⟨import?_eq_foldl m items, ?_, ?_, fun name =>
    ⟨c.rootBinds_iff name, c.rootBinds_outline name⟩⟩
  · intro parts leading tree rest hparts hleading l hl b hb
    exact Leaf.head?_target (Leaf.head?_words_of_leading hparts hleading hl) hb
  · intro items' hregroups hlocals
    have himport : ∀ name, (ofItems m items).import? name = (ofItems m items').import? name := by
      intro name
      rw [import?, import?, imports_eq, imports_eq, ← Leaf.leavesAll_flatMap,
        ← Leaf.leavesAll_flatMap, hregroups.bindings_eq]
    exact ⟨binds_congr himport hlocals, resolvePath_congr rfl himport hlocals⟩

/-- Three imports, and one import with braces that stands for all of them. -/
theorem Scope.imports_by_leaves_grouped :
    let items (text : String) : List Tree :=
      match Grammar.readSource text.toList with
      | .ok file => file.items
      | .error _ => []
    let apart := items "use a; use a::b; use a::c as d; mod m;"
    let grouped := items "mod m; use a::\x7bself, b, \x7bc as d\x7d\x7d;"
    let word (name : String) : Tree := .token (.ident false name .start)
    let colons : Tree := .ofTokens (Token.operator [':', ':'] .start)
    let tree : Tree := .node (.useTree .name) [word "b"]
    (apart.flatMap Leaf.ofItem
        = [⟨[], .name "a"⟩, ⟨["a"], .name "b"⟩, ⟨["a"], .rename "c" "d"⟩] ∧
      grouped.flatMap Leaf.ofItem
        = [⟨["a"], .name "self"⟩, ⟨["a"], .name "b"⟩, ⟨["a"], .rename "c" "d"⟩] ∧
      ImportTree.Regroups (apart.flatMap ImportTree.ofItem) (grouped.flatMap ImportTree.ofItem) ∧
      (∀ name, name ∈ (ofItems .root apart).locals ↔ name ∈ (ofItems .root grouped).locals) ∧
      (ofItems .root apart).import? "d" = some ["a", "c"] ∧
      (∀ name, (ofItems .root apart).binds name = (ofItems .root grouped).binds name) ∧
      ∀ path, (ofItems .root apart).resolvePath path = (ofItems .root grouped).resolvePath path) ∧
    Tree.partsAfter "use" [word "use", colons, tree] = [colons, tree] ∧ colons.isPresent = true ∧
      ∀ l ∈ Leaf.ofItem (.node (.item .use) [word "use", colons, tree]),
        ∀ b ∈ l.binding?, b.target.head? = some Binding.libraryRoot := by
  intro items apart grouped word colons tree
  obtain ⟨hapart, hgrouped, hlocals⟩ :
      apart.flatMap Leaf.ofItem
        = [⟨[], .name "a"⟩, ⟨["a"], .name "b"⟩, ⟨["a"], .rename "c" "d"⟩] ∧
      grouped.flatMap Leaf.ofItem
        = [⟨["a"], .name "self"⟩, ⟨["a"], .name "b"⟩, ⟨["a"], .rename "c" "d"⟩] ∧
      (ofItems .root apart).locals = (ofItems .root grouped).locals := by decide +kernel
  have hregroups :
      ImportTree.Regroups (apart.flatMap ImportTree.ofItem)
        (grouped.flatMap ImportTree.ofItem) := by
    rw [ImportTree.regroups_iff, ImportTree.closedLeaves, ImportTree.closedLeaves,
      Leaf.leavesAll_flatMap, Leaf.leavesAll_flatMap, hapart, hgrouped]
    decide
  have hnames : ∀ name,
      name ∈ (ofItems .root apart).locals ↔ name ∈ (ofItems .root grouped).locals :=
    fun name => by rw [hlocals]
  obtain ⟨himport, hrooted, hsame, -⟩ := imports_by_leaves .root apart ⟨[]⟩
  have htarget : (ofItems .root apart).import? "d" = some ["a", "c"] := by
    rw [himport, hapart]
    decide
  exact ⟨⟨hapart, hgrouped, hregroups, hnames, htarget, hsame grouped hregroups hnames⟩, rfl, rfl,
    hrooted [word "use", colons, tree] colons tree [] rfl rfl⟩

end Observable
