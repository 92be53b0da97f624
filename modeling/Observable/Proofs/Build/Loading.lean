import Observable.Module.Directory
import Observable.Proofs.Field.Location
import Observable.Proofs.Field.Names
import Observable.Proofs.File.Access
import Observable.Proofs.Text.Bytes
/-! The sources of a crate, read from a tree of files and given by their paths and texts: the same
modules in the same order, and so the same units. -/
namespace Observable

/-- Whether a file that some names lead to defines a module. -/
def definesModule (names : List String) : Bool :=
  (ModulePath.ofFile ("/".intercalate names).toList).isSome

/-- The text files below a place of a tree whose paths from there tell a module, each with the names
that lead to it. They come in the order of a walk: the files of a directory in the order of their
names, and what is in a directory at the place of its name. -/
structure FileTree.Sources (tree : FileTree) (place : List String)
    (sources : List (List String × String)) : Prop where
  ordered : sources.Pairwise fun a b => Entries.Precedes a.1 b.1
  mem_iff : ∀ names bytes, (∃ text, (names, text) ∈ sources ∧ bytes = text.toUTF8) ↔
    tree.find? (place ++ names) = some (.file bytes) ∧ definesModule names = true

namespace Entries

theorem precedes_append {path a b : List String} :
    Precedes (path ++ a) (path ++ b) ↔ Precedes a b := by
  induction path with
  | nil => rfl
  | cons name path ih =>
    rw [Precedes, List.cons_append, List.cons_append, List.compare_cons_cons,
      Std.ReflOrd.compare_self]
    exact ih

end Entries

namespace FileTree

variable {tree : FileTree} {place names : List String}

theorem namesBelow?_eq_some {full : List String} :
    namesBelow? place full = some names ↔ full = place ++ names := by
  unfold namesBelow?
  split
  · rename_i hbegins
    obtain ⟨rest, rfl⟩ := List.isPrefixOf_iff_prefix.mp hbegins
    simp
  · rename_i hbegins
    simp only [reduceCtorEq, false_iff]
    rintro rfl
    exact hbegins (List.isPrefixOf_iff_prefix.mpr (List.prefix_append _ _))

theorem mem_filesBelow {bytes : ByteArray} :
    (names, bytes) ∈ tree.filesBelow place ↔ tree.find? (place ++ names) = some (.file bytes) := by
  rw [filesBelow, List.mem_filterMap]
  constructor
  · rintro ⟨⟨full, entry⟩, hmem, hname⟩
    cases entry with
    | directory => cases hname
    | file content =>
      obtain ⟨found, hfound, heq⟩ := Option.map_eq_some_iff.mp hname
      cases heq
      rw [← namesBelow?_eq_some.mp hfound]
      exact find?_of_mem hmem
  · intro h
    have hne : place ++ names ≠ [] := fun hnil => by simp [hnil] at h
    exact ⟨_, (find?_eq_some_iff hne).mp h, by simp [namesBelow?_eq_some.mpr rfl]⟩

/-- The files below a place come in the order of their names. -/
theorem filesBelow_pairwise (tree : FileTree) (place : List String) :
    (tree.filesBelow place).Pairwise fun a b => Entries.Precedes a.1 b.1 := by
  rw [filesBelow, List.pairwise_filterMap]
  refine tree.ordered.imp ?_
  rintro ⟨full, entry⟩ ⟨full', entry'⟩ hfull f hf f' hf'
  cases entry with
  | directory => cases hf
  | file bytes =>
    cases entry' with
    | directory => cases hf'
    | file bytes' =>
      obtain ⟨names, hnames, rfl⟩ := Option.map_eq_some_iff.mp hf
      obtain ⟨names', hnames', rfl⟩ := Option.map_eq_some_iff.mp hf'
      rwa [namesBelow?_eq_some.mp hnames, namesBelow?_eq_some.mp hnames',
        Entries.precedes_append] at hfull

end FileTree

/-- A source by its path from the place of the sources. -/
def relativeSource (source : List String × String) : String × String :=
  ("/".intercalate source.1, source.2)

theorem mapM_cons_eq_ok {α β ε : Type} {f : α → Except ε β} {a : α} {l : List α} {bs : List β} :
    (a :: l).mapM f = .ok bs ↔ ∃ b rest, f a = .ok b ∧ l.mapM f = .ok rest ∧ bs = b :: rest := by
  rw [List.mapM_cons]
  cases hf : f a with
  | error e => simp [bind, Except.bind]
  | ok b =>
    cases hl : l.mapM f with
    | error e => simp [bind, Except.bind]
    | ok rest => simp [bind, Except.bind, pure, Except.pure, eq_comm]

theorem forall₂_of_mapM {α β ε : Type} {f : α → Except ε β} {l : List α} {bs : List β}
    (h : l.mapM f = .ok bs) : List.Forall₂ (fun a b => f a = .ok b) l bs := by
  induction l generalizing bs with
  | nil =>
    cases h
    exact .nil
  | cons a l ih =>
    obtain ⟨b, rest, hb, hrest, rfl⟩ := mapM_cons_eq_ok.mp h
    exact .cons hb (ih hrest)

theorem SourceFile.read_eq_ok {path text : String} {module : ModulePath} {f : SourceFile} :
    read path module text = .ok f ↔
      ∃ tree, Grammar.readSource text.toList = .ok tree ∧ f = ⟨path, module, tree⟩ := by
  unfold read
  cases Grammar.readSource text.toList <;> simp [eq_comm]

theorem SourceFile.ofSource_eq_ok {source : String × String} {f : SourceFile} :
    ofSource source = .ok f ↔ ∃ module tree, ModulePath.ofFile source.1.toList = some module ∧
      Grammar.readSource source.2.toList = .ok tree ∧ f = ⟨source.1, module, tree⟩ := by
  unfold ofSource
  cases ModulePath.ofFile source.1.toList with
  | none => simp
  | some module => simp [read_eq_ok]

theorem SourceFile.fromText_of_ofSource {source : String × String} {f : SourceFile}
    (h : ofSource source = .ok f) : f.FromText := by
  obtain ⟨module, tree, hmodule, htree, rfl⟩ := ofSource_eq_ok.mp h
  exact ⟨⟨_, htree⟩, ⟨_, hmodule⟩⟩

theorem ModuleFile.read_eq_ok {m : ModuleFile} {f : SourceFile} :
    m.read = .ok f ↔
      ∃ text, m.bytes = text.toUTF8 ∧ SourceFile.read m.path m.module text = .ok f := by
  simp only [← fromUTF8?_eq_some]
  unfold read
  cases String.fromUTF8? m.bytes <;> simp

namespace Compilation

/-- The files of a directory that are read are texts, and reading these with their paths from there
gives the same modules. -/
theorem exists_sources {directory : String} {entries : List (List String × ByteArray)}
    {files : List SourceFile}
    (h : (entries.filterMap fun e => ModuleFile.ofNames? directory e.1 e.2).mapM ModuleFile.read
      = .ok files) :
    ∃ sources : List (List String × String),
      sources.map (fun s => (s.1, s.2.toUTF8)) = entries.filter (definesModule ·.1) ∧
      ∃ files', (sources.map relativeSource).mapM SourceFile.ofSource = .ok files' ∧
        List.Forall₂ SourceFile.Alike files files' ∧ ∀ f ∈ files', f.FromText := by
  induction entries generalizing files with
  | nil =>
    cases h
    exact ⟨[], rfl, [], rfl, .nil, by simp⟩
  | cons e entries ih =>
    obtain ⟨names, bytes⟩ := e
    cases hmodule : ModulePath.ofFile ("/".intercalate names).toList with
    | none =>
      have hskip : ModuleFile.ofNames? directory names bytes = none := by
        rw [ModuleFile.ofNames?, hmodule, Option.map_none]
      rw [List.filterMap_cons_none (by exact hskip)] at h
      have hfilter : definesModule names = false := by rw [definesModule, hmodule]; rfl
      rw [List.filter_cons_of_neg (by simp [hfilter])]
      exact ih h
    | some module =>
      have hkeep : ModuleFile.ofNames? directory names bytes
          = some ⟨names.foldl File.Path.join directory, module, bytes⟩ := by
        rw [ModuleFile.ofNames?, hmodule, Option.map_some]
      rw [List.filterMap_cons_some (by exact hkeep), mapM_cons_eq_ok] at h
      obtain ⟨f, rest, hf, hrest, rfl⟩ := h
      obtain ⟨text, rfl, hf⟩ := ModuleFile.read_eq_ok.mp hf
      obtain ⟨tree, htree, rfl⟩ := SourceFile.read_eq_ok.mp hf
      obtain ⟨sources, hsources, files', hfiles', halike, hfrom⟩ := ih hrest
      have hread : SourceFile.ofSource (relativeSource (names, text))
          = .ok ⟨"/".intercalate names, module, tree⟩ :=
        SourceFile.ofSource_eq_ok.mpr ⟨module, tree, hmodule, htree, rfl⟩
      have hfilter : definesModule names = true := by rw [definesModule, hmodule]; rfl
      refine ⟨(names, text) :: sources, ?_, ⟨"/".intercalate names, module, tree⟩ :: files', ?_,
        .cons ⟨rfl, rfl⟩ halike, ?_⟩
      · rw [List.filter_cons_of_pos (by exact hfilter), List.map_cons, hsources]
      · exact mapM_cons_eq_ok.mpr ⟨_, _, hread, hfiles', rfl⟩
      · exact List.forall_mem_cons.mpr ⟨SourceFile.fromText_of_ofSource hread, hfrom⟩

theorem forall₂_ofSources {sources : List (String × String)} {c : Compilation}
    (h : ofSources sources = .ok c) :
    List.Forall₂ (fun source f => SourceFile.ofSource source = .ok f) sources c.files := by
  unfold ofSources at h
  cases hfiles : sources.mapM SourceFile.ofSource with
  | error e => simp [hfiles, bind, Except.bind] at h
  | ok files =>
    simp only [hfiles, bind, Except.bind] at h
    cases h
    exact forall₂_of_mapM hfiles

theorem fromText_of_ofSources {sources : List (String × String)} {c : Compilation}
    (h : ofSources sources = .ok c) : ∀ f ∈ c.files, f.FromText := by
  have hfiles := forall₂_ofSources h
  clear h
  generalize c.files = files at hfiles ⊢
  induction hfiles with
  | nil => exact List.forall_mem_nil _
  | cons hf _ ih => exact List.forall_mem_cons.mpr ⟨SourceFile.fromText_of_ofSource hf, ih⟩

/-- The modules that are read from a directory of a tree are those of the sources below it. -/
theorem sources_of_ofDirectory {tree : FileTree} {directory : String} {c : Compilation}
    (h : ofDirectory tree directory = .ok c) :
    ∃ place sources c', tree.locate directory = .ok place ∧ tree.Sources place sources ∧
      ofSources (sources.map relativeSource) = .ok c' ∧
      List.Forall₂ SourceFile.Alike c.files c'.files ∧ ∀ f ∈ c'.files, f.FromText := by
  unfold ofDirectory moduleFiles at h
  cases hplace : tree.locate directory with
  | error e => simp [hplace, bind, Except.bind] at h
  | ok place =>
    simp only [hplace, bind, Except.bind] at h
    split at h
    · cases h
    · rename_i files hfiles
      cases h
      obtain ⟨sources, hsources, files', hfiles', halike, hfrom⟩ := exists_sources hfiles
      refine ⟨place, sources, ⟨files'⟩, rfl, ⟨?_, fun names bytes => ?_⟩, ?_, halike, hfrom⟩
      · have hordered := (tree.filesBelow_pairwise place).filter fun e => definesModule e.1
        rw [← hsources, List.pairwise_map] at hordered
        exact hordered
      · have hmem : (names, bytes) ∈ (tree.filesBelow place).filter (definesModule ·.1) ↔
            (names, bytes) ∈ tree.filesBelow place ∧ definesModule names = true :=
          List.mem_filter
        rw [← FileTree.mem_filesBelow, ← hmem, ← hsources, List.mem_map]
        constructor
        · rintro ⟨text, htext, rfl⟩
          exact ⟨_, htext, rfl⟩
        · rintro ⟨⟨_, text⟩, htext, heq⟩
          cases heq
          exact ⟨text, htext, rfl⟩
      · rw [ofSources, hfiles']
        rfl

end Compilation

end Observable
