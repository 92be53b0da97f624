import Observable.Proofs.Field.Scan
import Observable.Proofs.File.Path
import Observable.Proofs.Token.Words
/-! No name that a scan finds has a slash in it: the names of modules, of types and of fields are
words of the text or pieces of a path. -/
namespace Observable

open Grammar (Tree)
open Weighed

theorem slashless_of_isName {name : String} (h : Lexer.isName name.toList = true) :
    Slashless name := by
  have hcontinue : Text.isIdentContinue '/' = false := by decide
  obtain ⟨c, rest, hname, hc, hrest⟩ := Lexer.isName_cons h
  rw [Slashless, hname, List.mem_cons, not_or]
  constructor
  · rintro rfl
    rw [Text.isIdentContinue_of_isIdentStart hc] at hcontinue
    cases hcontinue
  · intro hmem
    rw [List.all_eq_true.mp hrest _ hmem] at hcontinue
    cases hcontinue

theorem Token.slashless_spelling {t : Token} (h : weigh .unworded t = 0) :
    Slashless t.spelling := by
  cases t with
  | ident raw name place =>
    rw [weigh_ident, Weight.unworded_eq_zero] at h
    have hname := slashless_of_isName h
    have hraw : '/' ∉ "r#".toList := by decide
    cases raw with
    | true => exact slashless_append.mpr ⟨hraw, hname⟩
    | false => exact hname
  | _ => exact List.not_mem_nil

theorem weigh_of_mem {w : Weight} {ts : List Tree} {t : Tree} (h : weigh w ts = 0) (ht : t ∈ ts) :
    weigh w t = 0 := by
  induction ts with
  | nil => cases ht
  | cons u ts ih =>
    rw [weigh_cons] at h
    rcases List.mem_cons.mp ht with rfl | ht
    · omega
    · exact ih (by omega) ht

theorem Grammar.Tree.slashless_nameText {t : Tree} (h : weigh .unworded t = 0) :
    Slashless t.nameText := by
  unfold nameText
  cases hname : t.name? with
  | none => exact List.not_mem_nil
  | some token =>
    cases t with
    | node kind parts =>
      rw [weigh_node_of_declared rfl] at h
      obtain ⟨part, hpart, htoken⟩ := List.exists_of_findSome?_eq_some hname
      have hweight := weigh_of_mem h hpart
      split at htoken
      · cases htoken
        exact Token.slashless_spelling (by simpa using hweight)
      · cases htoken
    | _ => cases hname

/-- A module whose names have no slash. -/
def ModulePath.Slashless (m : ModulePath) : Prop := ∀ name ∈ m.segments, Observable.Slashless name

theorem ModulePath.Slashless.child {m : ModulePath} {name : String} (hm : m.Slashless)
    (hname : Observable.Slashless name) : (m.child name).Slashless := by
  intro segment hsegment
  rcases List.mem_append.mp hsegment with h | h
  · exact hm segment h
  · rw [List.mem_singleton.mp h]
    exact hname

/-- An owner whose name, and whose module's names, have no slash. -/
structure Owner.Slashless (o : Owner) : Prop where
  module : o.module.Slashless
  name : Observable.Slashless o.name

theorem FieldDeclaration.owner_of_mem_ofItem {t : Tree} {d : FieldDeclaration}
    (h : d ∈ ofItem t) : d.owner = t.nameText := by
  have hfields : ∀ inVariant fields, d ∈ ofFields t inVariant fields → d.owner = t.nameText := by
    intro inVariant fields hd
    obtain ⟨p, -, rfl⟩ := List.mem_map.mp hd
    rfl
  unfold ofItem at h
  split at h
  · exact hfields _ _ h
  · exact hfields _ _ h
  · obtain ⟨v, -, hd⟩ := List.mem_flatMap.mp h
    exact hfields _ _ hd
  · cases h

namespace PlacedField

/-- A field whose type and module are named without a slash. -/
structure Slashless (f : PlacedField) : Prop where
  module : f.2.surroundings.scope.module.Slashless
  owner : Observable.Slashless f.1.owner

theorem module_inside {p : Standing} {t : Tree} (hp : p.surroundings.scope.module.Slashless)
    (ht : weigh .unworded t = 0) : (p.inside t).surroundings.scope.module.Slashless := by
  unfold Standing.inside
  split
  · split
    · exact hp.child (Tree.slashless_nameText ht)
    · exact hp
  · exact hp
  · exact hp

mutual
theorem slashless_of_mem_ofTree {p : Standing} {t : Tree} {f : PlacedField}
    (hp : p.surroundings.scope.module.Slashless) (ht : weigh .unworded t = 0)
    (hf : f ∈ ofTree p t) :
    f.Slashless := by
  cases t with
  | token t => cases hf
  | group d place close parts =>
    rw [ofTree] at hf
    rw [Tree.weigh_group, Tree.weigh_trees_inside Weight.uniform_unworded] at ht
    exact slashless_of_mem_ofTrees hp ht hf
  | node kind parts =>
    rw [ofTree, List.mem_append, List.mem_map] at hf
    rcases hf with ⟨d, hd, rfl⟩ | hf
    · refine ⟨hp, ?_⟩
      rw [FieldDeclaration.owner_of_mem_ofItem hd]
      exact Tree.slashless_nameText ht
    · have hparts := (Tree.weigh_node_of_declared rfl kind parts).symm.trans ht
      exact slashless_of_mem_ofTrees (module_inside hp ht) hparts hf

theorem slashless_of_mem_ofTrees {p : Standing} {ts : List Tree} {f : PlacedField}
    (hp : p.surroundings.scope.module.Slashless) (hts : weigh .unworded ts = 0)
    (hf : f ∈ ofTrees p ts) : f.Slashless := by
  cases ts with
  | nil => cases hf
  | cons t ts =>
    rw [weigh_cons] at hts
    rw [ofTrees, List.mem_append] at hf
    rcases hf with hf | hf
    · exact slashless_of_mem_ofTree hp (by omega) hf
    · exact slashless_of_mem_ofTrees hp (by omega) hf
end

end PlacedField

theorem File.Path.slashless_of_mem_components {path : List Char} {name : String}
    (h : .name name ∈ components path) : Slashless name := by
  have hpieces : .name name ∈ (pieces path).map component := by
    unfold components at h
    split at h
    · have h := (List.mem_cons.mp h).resolve_left (fun heq => by cases heq)
      exact (List.mem_filter.mp h).1
    · rcases List.mem_append.mp h with h | h
      · exact List.mem_of_mem_take h
      · exact List.mem_of_mem_drop (List.mem_filter.mp h).1
  obtain ⟨piece, hpiece, hname⟩ := List.mem_map.mp hpieces
  have hslash := not_mem_of_mem_pieces hpiece
  unfold component at hname
  split at hname
  · cases hname
  · split at hname
    · cases hname
    · cases hname
      simpa [Slashless] using hslash

namespace ModulePath

theorem mem_of_names? {steps : List File.Component} {names : List String} {name : String}
    (h : names? steps = some names) (hname : name ∈ names) : .name name ∈ steps := by
  induction steps generalizing names with
  | nil =>
    cases h
    cases hname
  | cons step steps ih =>
    cases step with
    | name first =>
      obtain ⟨rest, hrest, rfl⟩ := Option.map_eq_some_iff.mp h
      rcases List.mem_cons.mp hname with rfl | hname
      · exact List.mem_cons_self
      · exact List.mem_cons_of_mem _ (ih hrest hname)
    | here => exact List.mem_cons_of_mem _ (ih h hname)
    | root => cases h
    | up => cases h

theorem mem_of_mem_splitName {name stem : List Char} {suffix : Option (List Char)}
    (h : File.Path.splitName name = (stem, suffix)) {c : Char} (hc : c ∈ stem) : c ∈ name := by
  unfold File.Path.splitName at h
  dsimp only at h
  split at h
  · cases h
    exact hc
  · cases h
    exact List.mem_reverse.mp (List.mem_of_mem_drop (List.mem_reverse.mp hc))

/-- The names of a module are pieces of the path of its file. -/
theorem slashless_of_ofFile {path : List Char} {m : ModulePath} (h : ofFile path = some m) :
    m.Slashless := by
  unfold ofFile at h
  obtain ⟨file, hfile, h⟩ := Option.bind_eq_some_iff.mp h
  dsimp only at h
  split at h
  · cases h
  · obtain ⟨names, hnames, hm⟩ := Option.bind_eq_some_iff.mp h
    cases hm
    have hall : ∀ name ∈ names, Observable.Slashless name := fun name hname =>
      File.Path.slashless_of_mem_components (mem_of_names? hnames hname)
    have hstem : Observable.Slashless (String.ofList (File.Path.splitName file.toList).1) := by
      have hlast : Observable.Slashless file := by
        unfold File.Path.fileName? at hfile
        split at hfile
        · rename_i n hn
          cases hfile
          exact File.Path.slashless_of_mem_components (List.mem_of_getLast? hn)
        · cases hfile
      intro hmem
      rw [String.toList_ofList] at hmem
      exact hlast (mem_of_mem_splitName rfl hmem)
    have hdirectories : ∀ name ∈ names.dropLast, Observable.Slashless name := fun name hname =>
      hall name (List.dropLast_subset _ hname)
    intro name hname
    unfold ofStem at hname
    split at hname
    · exact hdirectories name hname
    · rcases List.mem_append.mp hname with hname | hname
      · exact hdirectories name hname
      · rw [List.mem_singleton.mp hname]
        exact hstem

end ModulePath

/-- A source file that was read from a text, at a path that tells its module. -/
structure SourceFile.FromText (f : SourceFile) : Prop where
  text : ∃ text, Grammar.readSource text = .ok f.syntaxTree
  path : ∃ path, ModulePath.ofFile path = some f.module

theorem SourceFile.FromText.slashless {f : SourceFile} (h : f.FromText) {d : PlacedField}
    (hd : d ∈ PlacedField.ofFile f) : d.Slashless := by
  obtain ⟨text, htext⟩ := h.text
  obtain ⟨path, hpath⟩ := h.path
  refine PlacedField.slashless_of_mem_ofTrees (ModulePath.slashless_of_ofFile hpath) ?_ hd
  simpa using Grammar.weigh_readSource htext

/-- The owners of what a scan finds are named without a slash. -/
theorem Compilation.slashless_of_mem_candidates {c : Compilation} (hc : ∀ f ∈ c.files, f.FromText)
    {k : Candidate} (hk : k ∈ c.scan.candidates) : k.owner.Slashless := by
  rw [scan_eq_found, PlacedField.found, Findings.candidates_join, List.flatMap_map] at hk
  obtain ⟨d, hd, hk⟩ := List.mem_flatMap.mp hk
  have hwalked : d ∈ c.declared := c.walked_perm.mem_iff.mp (List.mem_filter.mp hd).1
  obtain ⟨f, hf, hd⟩ := List.mem_flatMap.mp hwalked
  obtain ⟨hmodule, howner⟩ := (hc f hf).slashless hd
  rw [(PlacedField.gives_of_mem hk).2.owner]
  exact ⟨hmodule, howner⟩

end Observable
