import Mathlib.Algebra.BigOperators.Group.List.Basic
import Mathlib.Algebra.Group.Prod
import Mathlib.Algebra.Order.Group.Multiset
import Mathlib.Tactic.Abel
import Observable.Proofs.Field.Places
/-! A crate in which the body of a module has moved to a file of its own. -/
namespace Observable

open Grammar (Tree placelessTrees sameTrees)

namespace Findings

/-- What is found, whatever its order and its places. -/
def bag (f : Findings) : Multiset Candidate × Multiset Diagnostic :=
  (f.unlocated.candidates, f.unlocated.diagnostics)

@[simp] theorem bag_append (a b : Findings) : (a ++ b).bag = a.bag + b.bag := by
  rw [bag, unlocated_append]
  rfl

@[simp] theorem bag_empty : ({} : Findings).bag = 0 := rfl

theorem bag_eq_of_unlocated {a b : Findings} (h : a.unlocated = b.unlocated) : a.bag = b.bag := by
  rw [bag, h, bag]

theorem bag_eq_zero_iff (f : Findings) : f.bag = 0 ↔ f = {} := by
  rw [ext_iff, bag, Prod.mk_eq_zero, Multiset.coe_eq_zero, Multiset.coe_eq_zero]
  simp [unlocated]

theorem bag_join (all : List Findings) : (join all).bag = (all.map bag).sum := by
  induction all with
  | nil => rfl
  | cons f all ih => rw [join_cons, bag_append, ih, List.map_cons, List.sum_cons]

end Findings

namespace PlacedField

theorem bag_found_of_perm {fs gs : List PlacedField} (h : fs.Perm gs) :
    (found fs).bag = (found gs).bag := by
  rw [found, found, Findings.bag_join, Findings.bag_join]
  exact (((h.filter _).map scan).map Findings.bag).sum_eq

theorem ofTrees_append (p : Standing) (ts us : List Tree) :
    ofTrees p (ts ++ us) = ofTrees p ts ++ ofTrees p us := by
  induction ts with
  | nil => rfl
  | cons t ts ih => rw [List.cons_append, ofTrees, ih, ofTrees, List.append_assoc]

@[simp] theorem bag_given_append (p : Standing) (ts us : List Tree) :
    (given p (ts ++ us)).bag = (given p ts).bag + (given p us).bag := by
  rw [given, ofTrees_append, found_append, Findings.bag_append, given, given]

theorem bag_given_cons (p : Standing) (t : Tree) (ts : List Tree) :
    (given p (t :: ts)).bag = (given p [t]).bag + (given p ts).bag :=
  bag_given_append p [t] ts

/-- Nothing is found in a module without a body. -/
theorem given_of_detached {p : Standing} (h : p.detached = true) (ts : List Tree) :
    given p ts = {} := by
  refine found_of_detached fun f hf => ?_
  obtain ⟨part, hpart, hf⟩ := List.mem_flatMap.mp ((walkedParts_perm p ts).mem_iff.mpr hf)
  exact detached_of_mem_walkedParts h ts hpart hf

end PlacedField

/-- What is found in a file. -/
theorem SourceFile.bag_scan (f : SourceFile) :
    f.scan.bag = (PlacedField.given ⟨⟨f.path, f.scope, false⟩, false⟩
      (f.syntaxTree.attributes ++ f.syntaxTree.items)).bag := by
  rw [scan_eq]
  exact PlacedField.bag_found_of_perm (PlacedField.walkedParts_perm _ _)

theorem Compilation.bag_scan (c : Compilation) :
    c.scan.bag = (c.files.map fun f => f.scan.bag).sum := by
  rw [scan, Findings.bag_join, List.map_map]
  rfl

/-- Whether a part can stand in front of the name of a module: an attribute, a visibility or a
word. -/
def Grammar.Tree.precedesName : Tree → Bool
  | .token _ => true
  | .group .. => false
  | .node kind _ => kind != .name

/-- A module with all that stands in front of its body. -/
structure ModuleHead where
  front : List Tree
  name : Token
  front_precedes : ∀ t ∈ front, t.precedesName = true

namespace ModuleHead

variable (m : ModuleHead)

/-- The module with a body. -/
def withBody (place close : Position) (body : List Tree) : Tree :=
  .node (.item .module) (m.front ++ [.node .name [.token m.name], .group .brace place close body])

/-- The module without its body, which ends at a place. -/
def withoutBody (place : Position) : Tree :=
  .node (.item .module) (m.front ++ [.node .name [.token m.name],
    .ofTokens (Token.operator [';'] place)])

theorem name?_eq (rest : List Tree) :
    (Grammar.Tree.node (.item .module) (m.front ++ .node .name [.token m.name] :: rest)).name?
      = some m.name := by
  have hfront : (Grammar.Tree.node (.item .module) m.front).name? = none := by
    refine List.findSome?_eq_none_iff.mpr fun t ht => ?_
    have hprecedes := m.front_precedes t ht
    split
    · cases hprecedes
    · rfl
  rw [Tree.name?, List.findSome?_append]
  change (Grammar.Tree.node (.item .module) m.front).name?.or _ = _
  rw [hfront]
  rfl

theorem moduleItems?_eq (rest : List Tree) :
    Step.moduleItems? (m.front ++ .node .name [.token m.name] :: rest)
      = Step.moduleItems? rest := by
  have hfront : Step.moduleItems? m.front = none := by
    refine List.findSome?_eq_none_iff.mpr fun t ht => ?_
    have hprecedes := m.front_precedes t ht
    split
    · cases hprecedes
    · rfl
  rw [Step.moduleItems?, List.findSome?_append]
  change (Step.moduleItems? m.front).or _ = _
  rw [hfront]
  rfl

end ModuleHead

namespace Standing

/-- The place in a module with some items that is reached through modules with some names. -/
def below (p : Standing) (path : List String) (items : List Tree) : Standing :=
  { p with surroundings := { p.surroundings with
      scope := .ofItems ⟨p.surroundings.scope.module.segments ++ path⟩ items } }

variable (p : Standing) (m : ModuleHead)

theorem inside_withBody (q r : Position) (body : List Tree) :
    p.inside (m.withBody q r body) = p.below [m.name.spelling] body := by
  have hname : (m.withBody q r body).nameText = m.name.spelling := by
    rw [Tree.nameText, ModuleHead.withBody, m.name?_eq]
    rfl
  have hitems := m.moduleItems?_eq [.group .brace q r body]
  rw [ModuleHead.withBody] at hname ⊢
  simp only [inside, hitems, hname]
  rfl

theorem inside_withoutBody (q : Position) : (p.inside (m.withoutBody q)).detached = true := by
  have hitems := m.moduleItems?_eq [.ofTokens (Token.operator [';'] q)]
  rw [ModuleHead.withoutBody]
  simp only [inside, hitems]
  rfl

end Standing

namespace PlacedField

variable (p : Standing) (m : ModuleHead)

/-- What is found in a module with a body: what stands in front of the body is in the scope of the
body. -/
theorem bag_given_withBody (q r : Position) (body : List Tree) :
    (given p [m.withBody q r body]).bag
      = (given (p.below [m.name.spelling] body) m.front).bag
        + (given (p.below [m.name.spelling] body) body).bag := by
  have hinside := p.inside_withBody m q r body
  have hparts : given p [m.withBody q r body]
      = given (p.below [m.name.spelling] body)
          (m.front ++ [.node .name [.token m.name], .group .brace q r body]) := by
    rw [← hinside, given, ofTrees, ofTrees, List.append_nil, ModuleHead.withBody, ofTree]
    rfl
  have hbody : given (p.below [m.name.spelling] body)
        [.node .name [.token m.name], .group .brace q r body]
      = given (p.below [m.name.spelling] body) body := by
    simp only [given, ofTrees, ofTree, FieldDeclaration.ofItem, List.map_nil, List.nil_append,
      List.append_nil]
  rw [hparts, bag_given_append, hbody]

theorem bag_given_withoutBody (q : Position) : (given p [m.withoutBody q]).bag = 0 := by
  have hparts : given p [m.withoutBody q] = given (p.inside (m.withoutBody q))
      (m.front ++ [.node .name [.token m.name], .ofTokens (Token.operator [';'] q)]) := by
    rw [given, ofTrees, ofTrees, List.append_nil, ModuleHead.withoutBody, ofTree]
    rfl
  rw [hparts, given_of_detached (p.inside_withoutBody m q), Findings.bag_empty]

end PlacedField

/-- In some items a module that is reached through modules with some names has a body; in other
items, which are the same otherwise, it has none. -/
inductive Extracts (m : ModuleHead) (body : List Tree) : List String → List Tree → List Tree → Prop
  | here (before after : List Tree) (q r s : Position) :
      Extracts m body [m.name.spelling] (before ++ m.withBody q r body :: after)
        (before ++ m.withoutBody s :: after)
  | within (outer : ModuleHead) (before after : List Tree) (q r : Position) {path : List String}
      {items items' : List Tree} (h : Extracts m body path items items') :
      Extracts m body (outer.name.spelling :: path) (before ++ outer.withBody q r items :: after)
        (before ++ outer.withBody q r items' :: after)

namespace Extracts

variable {m : ModuleHead} {body items items' : List Tree} {path : List String}

/-- A module binds the same names with a body and without it. -/
theorem scope_eq (h : Extracts m body path items items') (module : ModulePath) :
    Scope.ofItems module items = Scope.ofItems module items' := by
  have hname : ∀ (m : ModuleHead) (rest rest' : List Tree),
      (Grammar.Tree.node (.item .module) (m.front ++ .node .name [.token m.name] :: rest)).name?
        = (Grammar.Tree.node (.item .module)
          (m.front ++ .node .name [.token m.name] :: rest')).name? :=
    fun m rest rest' => by rw [m.name?_eq, m.name?_eq]
  cases h with
  | here before after q r s =>
    simp only [Scope.ofItems, List.flatMap_append, List.flatMap_cons, List.filterMap_append,
      List.filterMap_cons, ModuleHead.withBody, ModuleHead.withoutBody, hname m _ [],
      Binding.ofItem]
  | within outer before after q r h =>
    simp only [Scope.ofItems, List.flatMap_append, List.flatMap_cons, List.filterMap_append,
      List.filterMap_cons, ModuleHead.withBody, hname outer _ [], Binding.ofItem]

/-- What is found in items that have lost the body of a module is what was found there before, but
for the body and what stands in front of it. -/
theorem bag_given (h : Extracts m body path items items') (p : Standing) :
    (PlacedField.given p items).bag = (PlacedField.given p items').bag
      + ((PlacedField.given (p.below path body) m.front).bag
        + (PlacedField.given (p.below path body) body).bag) := by
  induction h generalizing p with
  | here before after q r s =>
    rw [PlacedField.bag_given_append, PlacedField.bag_given_cons, PlacedField.bag_given_withBody,
      PlacedField.bag_given_append, PlacedField.bag_given_cons p (m.withoutBody s),
      PlacedField.bag_given_withoutBody]
    abel
  | @within outer before after q r path items items' h ih =>
    have hbelow : p.below [outer.name.spelling] items' = p.below [outer.name.spelling] items := by
      rw [Standing.below, ← h.scope_eq, Standing.below]
    have hpath : (p.below [outer.name.spelling] items).below path body
        = p.below (outer.name.spelling :: path) body := by
      simp only [Standing.below, Scope.ofItems, List.append_assoc, List.singleton_append]
    rw [PlacedField.bag_given_append, PlacedField.bag_given_cons, PlacedField.bag_given_withBody,
      ih, hpath, PlacedField.bag_given_append,
      PlacedField.bag_given_cons p (outer.withBody q r items'),
      PlacedField.bag_given_withBody, hbelow]
    abel

end Extracts

/-- Whether a part of a module is an attribute of the module. -/
def Grammar.Tree.isInnerAttribute : Tree → Bool
  | .node (.attr true) [.node .sequence _, .node .sequence _, .group .bracket _ _ _] => true
  | _ => false

/-- An attribute binds no name in the module that it stands in. -/
theorem Scope.ofItems_append_attributes (module : ModulePath) {attributes : List Tree}
    (h : ∀ a ∈ attributes, a.isInnerAttribute = true) (items : List Tree) :
    ofItems module (attributes ++ items) = ofItems module items := by
  have hattribute : ∀ a ∈ attributes, Binding.ofItem a = [] ∧ a.name?.map Token.spelling
      = none := by
    intro a ha
    have hinner := h a ha
    unfold Grammar.Tree.isInnerAttribute at hinner
    split at hinner
    · exact ⟨rfl, rfl⟩
    · cases hinner
  simp only [ofItems, List.flatMap_append, List.filterMap_append,
    List.flatMap_eq_nil_iff.mpr fun a ha => (hattribute a ha).1,
    List.filterMap_eq_nil_iff.mpr fun a ha => (hattribute a ha).2, List.nil_append]

/-- Two crates that differ in one module. In the file `outer` of the first one it has a body, and in
the second one the file `rest` is left without that body, which is spelled in a file `inner` whose
path is that of the module. All other files are the same. -/
structure Extraction (c c' : Compilation) where
  outer : SourceFile
  rest : SourceFile
  inner : SourceFile
  others : List SourceFile
  head : ModuleHead
  path : List String
  body : List Tree
  remaining : List Tree
  files : c.files.Perm (outer :: others)
  files' : c'.files.Perm (rest :: inner :: others)
  extracts : Extracts head body path outer.syntaxTree.items remaining
  rest_path : rest.path = outer.path
  rest_module : rest.module = outer.module
  rest_attributes : sameTrees outer.syntaxTree.attributes rest.syntaxTree.attributes = true
  rest_items : sameTrees remaining rest.syntaxTree.items = true
  inner_module : inner.module = ⟨outer.module.segments ++ path⟩
  inner_body : sameTrees body (inner.syntaxTree.attributes ++ inner.syntaxTree.items) = true
  inner_attributes : ∀ a ∈ inner.syntaxTree.attributes, a.isInnerAttribute = true

theorem Scope.ofItems_congr (module : ModulePath) {items items' : List Tree}
    (h : sameTrees items items' = true) : ofItems module items = ofItems module items' := by
  rw [← ofItems_placeless, (Grammar.sameTrees_iff items items').mp h, ofItems_placeless]

namespace Extraction

variable {c c' : Compilation} (e : Extraction c c')

/-- Where the items of the file stand that holds the module. -/
def standing : Standing := ⟨⟨e.outer.path, e.outer.scope, false⟩, false⟩

/-- What is found in front of the body of the module, which is passed over when it has none. -/
def passedOver : Findings :=
  PlacedField.given (e.standing.below e.path e.body) e.head.front

theorem scope_rest : e.rest.scope = e.outer.scope := by
  rw [SourceFile.scope, e.rest_module, ← Scope.ofItems_congr _ e.rest_items, ← e.extracts.scope_eq,
    SourceFile.scope]

theorem scope_inner : e.inner.scope = (e.standing.below e.path e.body).surroundings.scope := by
  rw [SourceFile.scope, e.inner_module, ← Scope.ofItems_append_attributes _ e.inner_attributes,
    ← Scope.ofItems_congr _ e.inner_body]
  rfl

theorem bag_rest : e.rest.scan.bag
    = (PlacedField.given e.standing e.outer.syntaxTree.attributes).bag
      + (PlacedField.given e.standing e.remaining).bag := by
  rw [SourceFile.bag_scan, e.scope_rest, e.rest_path, PlacedField.bag_given_append]
  refine congrArg₂ _ ?_ ?_
  · exact Findings.bag_eq_of_unlocated
      (PlacedField.unlocated_given e.standing e.outer.path e.rest_attributes).symm
  · exact Findings.bag_eq_of_unlocated
      (PlacedField.unlocated_given e.standing e.outer.path e.rest_items).symm

theorem bag_inner : e.inner.scan.bag
    = (PlacedField.given (e.standing.below e.path e.body) e.body).bag := by
  rw [SourceFile.bag_scan, e.scope_inner]
  exact Findings.bag_eq_of_unlocated (PlacedField.unlocated_given _ e.inner.path e.inner_body).symm

/-- The scan of a crate finds the same, up to order and places, when the body of a module moves to
a file of its own, but for what stands in front of the body. -/
theorem bag_scan : c.scan.bag = c'.scan.bag + e.passedOver.bag := by
  have houter : e.outer.scan.bag = e.rest.scan.bag + e.inner.scan.bag + e.passedOver.bag := by
    rw [SourceFile.bag_scan, PlacedField.bag_given_append]
    change (PlacedField.given e.standing _).bag + (PlacedField.given e.standing _).bag = _
    rw [e.extracts.bag_given e.standing, e.bag_rest, e.bag_inner, passedOver]
    abel
  rw [Compilation.bag_scan, Compilation.bag_scan, (e.files.map _).sum_eq, (e.files'.map _).sum_eq,
    List.map_cons, List.map_cons, List.map_cons, List.sum_cons, List.sum_cons,
    List.sum_cons, houter]
  abel

include e in
/-- The root of the crate binds the same names. -/
theorem rootBinds_eq (name : String) : c.rootBinds name = c'.rootBinds name := by
  have hinner : e.inner.module.isRoot = false := by
    have hpath : e.path ≠ [] := by
      have h := e.extracts
      intro hnil
      rw [hnil] at h
      cases h
    rw [e.inner_module, ModulePath.isRoot, List.isEmpty_eq_false_iff]
    exact fun hnil => hpath (List.append_eq_nil_iff.mp hnil).2
  rw [Compilation.rootBinds, Compilation.rootBinds, e.files.any_eq, e.files'.any_eq, List.any_cons,
    List.any_cons, List.any_cons, hinner, e.rest_module, e.scope_rest, Bool.false_and,
    Bool.false_or]

end Extraction

/-- Whether the last item of a crate with one file is a module whose body is a file of its own in
another crate, which is the same otherwise. -/
def Compilation.extractsLast (c c' : Compilation) : Bool :=
  match c.files, c'.files with
  | [outer], [rest, inner] =>
    match outer.syntaxTree.items.reverse with
    | .node (.item .module) parts :: before =>
      match parts.reverse with
      | .group .brace _ _ body :: .node .name [.token name] :: front =>
        let emptied := Grammar.Tree.node (.item .module) (front.reverse
          ++ [.node .name [.token name], .ofTokens (Token.operator [';'] .start)])
        front.all Tree.precedesName && rest.path = outer.path && rest.module = outer.module
          && sameTrees outer.syntaxTree.attributes rest.syntaxTree.attributes
          && sameTrees (before.reverse ++ [emptied]) rest.syntaxTree.items
          && inner.module = outer.module.child name.spelling
          && sameTrees body (inner.syntaxTree.attributes ++ inner.syntaxTree.items)
          && inner.syntaxTree.attributes.all Tree.isInnerAttribute
      | _ => false
    | _ => false
  | _, _ => false

theorem Extraction.nonempty_of_extractsLast {c c' : Compilation} (h : c.extractsLast c' = true) :
    Nonempty (Extraction c c') := by
  unfold Compilation.extractsLast at h
  split at h
  · rename_i outer rest inner hfiles hfiles'
    split at h
    · rename_i parts before hitems
      split at h
      · rename_i q r body name front hparts
        simp only [Bool.and_eq_true, decide_eq_true_eq] at h
        obtain ⟨⟨⟨⟨⟨⟨⟨hfront, hpath⟩, hmodule⟩, hattributes⟩, hrest⟩, hinner⟩, hbody⟩,
          hunnamed⟩ := h
        let m : ModuleHead := ⟨front.reverse, name, fun t ht =>
          List.all_eq_true.mp hfront t (List.mem_reverse.mp ht)⟩
        have hlast : outer.syntaxTree.items = before.reverse ++ m.withBody q r body :: [] := by
          have hparts' : parts = front.reverse
              ++ [.node .name [.token name], .group .brace q r body] := by
            rw [← List.reverse_reverse parts, hparts, List.reverse_cons, List.reverse_cons,
              List.append_assoc]
            rfl
          rw [← List.reverse_reverse outer.syntaxTree.items, hitems, List.reverse_cons, hparts']
          rfl
        exact ⟨{
          outer, rest, inner, others := [], head := m, path := [name.spelling], body
          remaining := before.reverse ++ m.withoutBody .start :: []
          files := by rw [hfiles]
          files' := by rw [hfiles']
          extracts := hlast ▸ .here before.reverse [] q r .start
          rest_path := hpath
          rest_module := hmodule
          rest_attributes := hattributes
          rest_items := hrest
          inner_module := hinner
          inner_body := hbody
          inner_attributes := List.all_eq_true.mp hunnamed }⟩
      · cases h
    · cases h
  · cases h

end Observable
