import Mathlib.Data.List.TakeWhile
import Mathlib.Tactic.SplitIfs
import Mathlib.Tactic.Tauto
import Observable.Module.Bytes
import Observable.Proofs.File.Path
import Observable.Proofs.Text.Bytes
/-! Which paths of files lead to a module, which modules they lead to, and which of them lead to the
same one. -/
namespace Observable

open Text (bytes bytes_eq bytes_injective)

namespace File

theorem Path.splitName_append {stem suffix : List Char} (h : '.' ∉ suffix) :
    splitName (stem ++ '.' :: suffix)
      = if stem.isEmpty then (stem ++ '.' :: suffix, none) else (stem, some suffix) := by
  have hreverse : (stem ++ '.' :: suffix).reverse = suffix.reverse ++ '.' :: stem.reverse := by simp
  have htake : (stem ++ '.' :: suffix).reverse.takeWhile (· ≠ '.') = suffix.reverse := by
    rw [hreverse, List.takeWhile_append_of_pos
      (by simpa using fun c hc => ne_of_mem_of_not_mem hc h)]
    simp
  have hdrop : (stem ++ '.' :: suffix).reverse.drop (suffix.reverse.length + 1) = stem.reverse := by
    rw [hreverse, ← List.drop_drop, List.drop_left]
    rfl
  simp only [splitName, htake, hdrop, List.isEmpty_reverse, List.reverse_reverse]

theorem Path.splitName_of_not_mem {name : List Char} (h : '.' ∉ name) :
    splitName name = (name, none) := by
  have htake : name.reverse.takeWhile (· ≠ '.') = name.reverse :=
    List.takeWhile_eq_self_iff.mpr (by simpa using fun c hc => ne_of_mem_of_not_mem hc h)
  simp only [splitName, htake]
  simp

/-- A name is split at its last point, if anything stands in front of it. -/
theorem Path.splitName_eq_some {name stem suffix : List Char} :
    splitName name = (stem, some suffix) ↔
      stem ≠ [] ∧ '.' ∉ suffix ∧ name = stem ++ '.' :: suffix := by
  constructor
  · intro h
    by_cases hmem : '.' ∈ name
    · obtain ⟨after, before, hreverse, hafter⟩ :=
        List.eq_append_cons_of_mem (List.mem_reverse.mpr hmem)
      have hname : name = before.reverse ++ '.' :: after.reverse := by
        rw [← List.reverse_reverse name, hreverse]
        simp
      have hsuffix : '.' ∉ after.reverse := by simpa using hafter
      rw [hname, splitName_append hsuffix] at h
      split at h
      · cases (Prod.mk.inj h).2
      · rename_i hempty
        obtain ⟨rfl, hsome⟩ := Prod.mk.inj h
        obtain rfl := Option.some.inj hsome
        exact ⟨by simpa using hempty, hsuffix, hname⟩
    · rw [splitName_of_not_mem hmem] at h
      cases h
  · rintro ⟨hstem, hsuffix, rfl⟩
    rw [splitName_append hsuffix, if_neg (by simpa using hstem)]

namespace BytePath

theorem textOf?_eq_some {found : List UInt8} {text : String} :
    textOf? found = some text ↔ found = bytes text := by
  rw [textOf?, fromUTF8?_eq_some, bytes]
  constructor
  · intro h
    rw [← h]
  · rintro rfl
    rfl

/-- The steps of a path but for points. -/
def trail (path : List UInt8) : List Step := (steps path).filter (· ≠ .here)

/-- The step to a name. -/
def Step.ofName (name : String) : Step := .name (bytes name)

theorem names?_eq_some {found : List Step} {names : List String} :
    names? found = some names ↔ found.filter (· ≠ .here) = names.map Step.ofName := by
  induction found generalizing names with
  | nil => cases names <;> simp [names?]
  | cons step found ih =>
    cases step with
    | root => cases names <;> simp [names?, Step.ofName]
    | up => cases names <;> simp [names?, Step.ofName]
    | here => simpa [names?] using ih
    | name first =>
      rw [names?, Option.bind_eq_bind, Option.bind_eq_some_iff]
      simp only [textOf?_eq_some, Option.bind_eq_bind, Option.bind_eq_some_iff, ih]
      cases names with
      | nil => simp
      | cons name names => simp [Step.ofName]

theorem trail_eq (path : List UInt8) :
    trail path = (if isAbsolute path then [.root] else []) ++
      ((pieces path).map step).filter (· ≠ .here) := by
  unfold trail steps
  split
  · simp
  · rw [List.filter_append, List.filter_filter]
    simp only [Bool.and_self]
    rw [← List.filter_append, List.take_append_drop, List.nil_append]

/-- A name is a piece of its path, and none of those that mean another step. -/
theorem mem_pieces_of_mem_trail {path : List UInt8} {name : String}
    (h : Step.ofName name ∈ trail path) :
    bytes name ∈ pieces path ∧ name ≠ "." ∧ name ≠ ".." := by
  rw [trail_eq, List.mem_append] at h
  have hpieces : Step.ofName name ∈ (pieces path).map step := by
    rcases h with h | h
    · split at h
      · cases List.mem_singleton.mp h
      · cases h
    · exact (List.mem_filter.mp h).1
  obtain ⟨piece, hpiece, hstep⟩ := List.mem_map.mp hpieces
  unfold step at hstep
  split at hstep
  · cases hstep
  · rename_i hpoint
    split at hstep
    · cases hstep
    · rename_i hpoints
      obtain rfl := Step.name.inj hstep
      refine ⟨hpiece, ?_, ?_⟩
      · rintro rfl
        exact hpoint (by decide +kernel)
      · rintro rfl
        exact hpoints (by decide +kernel)

theorem Step.ofName_injective : Function.Injective Step.ofName := fun _ _ h =>
  bytes_injective (Step.name.inj h)

theorem slash_mem_utf8EncodeChar_iff {c : Char} : slash ∈ String.utf8EncodeChar c ↔ c = '/' := by
  rw [Text.mem_utf8EncodeChar_iff (by decide), ← Char.toNat_inj]
  rfl

theorem slash_mem_bytes_iff {name : String} : slash ∈ bytes name ↔ ¬Slashless name := by
  simp [bytes_eq, Slashless, slash_mem_utf8EncodeChar_iff]

/-- A name that can stand in a path as it is. -/
structure IsPiece (name : String) : Prop where
  ne_empty : name ≠ ""
  slashless : Slashless name
  ne_point : name ≠ "."
  ne_points : name ≠ ".."

theorem IsPiece.step_bytes {name : String} (h : IsPiece name) :
    step (bytes name) = Step.ofName name := by
  have hpoint : bytes name ≠ [point] := fun heq =>
    h.ne_point (bytes_injective (heq.trans (by decide +kernel)))
  have hpoints : bytes name ≠ [point, point] := fun heq =>
    h.ne_points (bytes_injective (heq.trans (by decide +kernel)))
  rw [step, if_neg hpoint, if_neg hpoints, Step.ofName]

theorem IsPiece.bytes_ne_nil {name : String} (h : IsPiece name) : bytes name ≠ [] := fun heq =>
  h.ne_empty (bytes_injective (heq.trans (by decide +kernel)))

section

variable {names : List String} (hne : names ≠ []) (h : ∀ name ∈ names, IsPiece name)

include hne h

theorem isAbsolute_intercalate : isAbsolute ([slash].intercalate (names.map bytes)) = false := by
  obtain ⟨name, more, rfl⟩ := List.exists_cons_of_ne_nil hne
  have hname := h name List.mem_cons_self
  obtain ⟨byte, rest, hbytes⟩ := List.exists_cons_of_ne_nil hname.bytes_ne_nil
  have hbyte : byte ≠ slash := by
    rintro rfl
    exact slash_mem_bytes_iff.mp (hbytes ▸ List.mem_cons_self) hname.slashless
  cases more <;> simp [isAbsolute, hbytes, hbyte]

/-- Names with slashes between them are the steps of a path. -/
theorem trail_intercalate :
    trail ([slash].intercalate (names.map bytes)) = names.map Step.ofName := by
  have hpieces : pieces ([slash].intercalate (names.map bytes)) = names.map bytes := by
    rw [pieces, List.splitOn_intercalate _ _ (by simpa using hne)]
    · refine List.filter_eq_self.mpr (List.forall_mem_map.mpr fun name hname => ?_)
      simpa using (h name hname).bytes_ne_nil
    · refine List.forall_mem_map.mpr fun name hname => ?_
      simpa [slash_mem_bytes_iff] using (h name hname).slashless
  have hsteps : (names.map bytes).map step = names.map Step.ofName := by
    rw [List.map_map]
    exact List.map_congr_left fun name hname => (h name hname).step_bytes
  rw [trail_eq, isAbsolute_intercalate hne h, hpieces, hsteps]
  refine List.filter_eq_self.mpr (List.forall_mem_map.mpr fun name _ => ?_)
  simp [Step.ofName]

end

/-! The same paths as texts. -/

/-- A step of a path that is a text. -/
def Step.ofComponent : Component → Step
  | .root => .root
  | .here => .here
  | .up => .up
  | .name text => .name (bytes text)

theorem step_flatMap (piece : List Char) :
    step (piece.flatMap String.utf8EncodeChar) = Step.ofComponent (Path.component piece) := by
  have hbytes : piece.flatMap String.utf8EncodeChar = bytes (String.ofList piece) := by
    rw [bytes_eq, String.toList_ofList]
  have hiff (text : String) : bytes (String.ofList piece) = bytes text ↔ piece = text.toList :=
    ⟨fun h => by rw [← bytes_injective h, String.toList_ofList],
      fun h => by rw [h, String.ofList_toList]⟩
  have hpoint : bytes "." = [point] := by decide +kernel
  have hpoints : bytes ".." = [point, point] := by decide +kernel
  rw [hbytes, step, ← hpoints, ← hpoint, Path.component]
  simp only [hiff, String.reduceToList]
  split_ifs <;> rfl

theorem pieces_bytes (text : String) :
    pieces (bytes text) = (Path.pieces text.toList).map (·.flatMap String.utf8EncodeChar) := by
  have hsplit := splitOn_flatMap (f := String.utf8EncodeChar) (c := '/') (d := slash) (by decide)
    (fun c hc => mt slash_mem_utf8EncodeChar_iff.mp hc) text.toList
  rw [pieces, bytes_eq, hsplit, List.filter_map, Path.pieces]
  congr 1
  refine List.filter_congr fun piece _ => ?_
  cases piece <;> simp

theorem isAbsolute_bytes (text : String) :
    isAbsolute (bytes text) = Path.isAbsolute text.toList := by
  rw [isAbsolute, bytes_eq, Path.isAbsolute]
  cases text.toList with
  | nil => rfl
  | cons c rest =>
    obtain ⟨byte, more, hbytes⟩ :=
      List.exists_cons_of_ne_nil (String.utf8EncodeChar_ne_nil (c := c))
    have hslash : byte = slash ↔ c = '/' := by
      constructor
      · rintro rfl
        exact slash_mem_utf8EncodeChar_iff.mp (hbytes ▸ List.mem_cons_self)
      · rintro rfl
        exact (List.cons.inj hbytes).1.symm
    simp [hbytes, hslash]

/-- A text has the same steps as its bytes. -/
theorem steps_bytes (text : String) :
    steps (bytes text) = (Path.components text.toList).map Step.ofComponent := by
  have hstep : (pieces (bytes text)).map step
      = ((Path.pieces text.toList).map Path.component).map Step.ofComponent := by
    rw [pieces_bytes, List.map_map, List.map_map]
    exact List.map_congr_left fun piece _ => step_flatMap piece
  have hfilter (found : List Component) : (found.map Step.ofComponent).filter (· ≠ .here)
      = (found.filter (· ≠ .here)).map Step.ofComponent := by
    rw [List.filter_map]
    congr 1
    refine List.filter_congr fun component _ => ?_
    cases component <;> rfl
  unfold steps Path.components
  rw [hstep, isAbsolute_bytes]
  dsimp only
  split
  · rw [hfilter]
    rfl
  · rw [List.map_append, ← List.map_take, ← List.map_drop, hfilter]

theorem names?_map_ofComponent (found : List Component) :
    names? (found.map Step.ofComponent) = ModulePath.names? found := by
  induction found with
  | nil => rfl
  | cons component found ih =>
    cases component with
    | root => rfl
    | here => exact ih
    | up => rfl
    | name text =>
      rw [List.map_cons, Step.ofComponent, names?, textOf?_eq_some.mpr rfl, ih, ModulePath.names?]
      cases ModulePath.names? found <;> rfl

end BytePath

end File

namespace ModulePath

open File.BytePath

/-- A source file has a name that ends in `.rs`, with something in front of that. -/
theorem ofNames?_eq_some {names : List String} {m : ModulePath} :
    ofNames? names = some m ↔ ∃ directories stem, stem ≠ "" ∧
      names = directories ++ [stem ++ ".rs"] ∧ m = ofStem directories stem := by
  unfold ofNames?
  simp only [Option.bind_eq_bind, Option.bind_eq_some_iff]
  constructor
  · rintro ⟨file, hfile, h⟩
    obtain ⟨directories, rfl⟩ := List.getLast?_eq_some_iff.mp hfile
    rcases hsplit : File.Path.splitName file.toList with ⟨stem, suffix⟩
    simp only [hsplit] at h
    split_ifs at h with hsuffix
    obtain rfl := not_not.mp hsuffix
    obtain ⟨hstem, -, hname⟩ := File.Path.splitName_eq_some.mp hsplit
    refine ⟨directories, String.ofList stem, ?_, ?_, ?_⟩
    · simpa [← String.toList_inj] using hstem
    · simp [← String.toList_inj, hname]
    · simpa [eq_comm] using h
  · rintro ⟨directories, stem, hstem, rfl, rfl⟩
    have hsplit : File.Path.splitName (stem ++ ".rs").toList = (stem.toList, some ['r', 's']) :=
      File.Path.splitName_eq_some.mpr
        ⟨by simpa using hstem, by decide, String.toList_append⟩
    refine ⟨stem ++ ".rs", List.getLast?_concat, ?_⟩
    simp only [hsplit]
    simp

/-- The path of a source file and the module that it defines. -/
theorem ofBytes_eq_some {path : List UInt8} {m : ModulePath} :
    ofBytes path = some m ↔ ∃ directories stem, stem ≠ "" ∧
      trail path = (directories ++ [stem ++ ".rs"]).map Step.ofName ∧
      m = ofStem directories stem := by
  unfold ofBytes
  simp only [Option.bind_eq_bind, Option.bind_eq_some_iff, names?_eq_some, ofNames?_eq_some]
  constructor
  · rintro ⟨_, htrail, directories, stem, hstem, rfl, rfl⟩
    exact ⟨directories, stem, hstem, htrail, rfl⟩
  · rintro ⟨directories, stem, hstem, htrail, rfl⟩
    exact ⟨_, htrail, directories, stem, hstem, rfl, rfl⟩

/-- The stems of the files that define the root when they are at the top. -/
def rootStems : List String := ["lib", "main", "mod"]

/-- Whether a file stands for its directory. -/
def IsFolded (directories : List String) (stem : String) : Prop :=
  stem = "mod" ∨ directories = [] ∧ stem ∈ rootStems

theorem ofStem_of_isFolded {directories : List String} {stem : String}
    (h : IsFolded directories stem) : ofStem directories stem = ⟨directories⟩ := by
  rcases h with rfl | ⟨rfl, hstem⟩
  · simp [ofStem]
  · simp only [rootStems, List.mem_cons, List.not_mem_nil, or_false] at hstem
    rcases hstem with rfl | rfl | rfl <;> rfl

theorem ofStem_of_not_isFolded {directories : List String} {stem : String}
    (h : ¬IsFolded directories stem) : ofStem directories stem = ⟨directories ++ [stem]⟩ := by
  refine if_neg ?_
  simp only [IsFolded, rootStems, List.mem_cons, List.not_mem_nil, or_false] at h
  simp only [Bool.or_eq_true, Bool.and_eq_true, decide_eq_true_eq, List.isEmpty_iff]
  tauto

/-- A file that stands for its directory defines the module of another one that does not. -/
theorem ofStem_eq_iff_of_isFolded {directories directories' : List String} {stem stem' : String}
    (h : IsFolded directories stem) (h' : ¬IsFolded directories' stem') :
    ofStem directories stem = ofStem directories' stem' ↔
      directories = directories' ++ [stem'] ∧ stem = "mod" := by
  rw [ofStem_of_isFolded h, ofStem_of_not_isFolded h', ModulePath.mk.injEq]
  refine ⟨fun heq => ⟨heq, h.resolve_right fun hroot => ?_⟩, And.left⟩
  simp [heq] at hroot

/-- Two files define the same module when they are one, when both define the root, or when one of
them is the file that stands for the directory with the name of the other. -/
theorem ofStem_eq_iff {directories directories' : List String} {stem stem' : String} :
    ofStem directories stem = ofStem directories' stem' ↔
      (directories = directories' ∧ stem = stem') ∨
      ((directories = [] ∧ stem ∈ rootStems) ∧ directories' = [] ∧ stem' ∈ rootStems) ∨
      (¬IsFolded directories stem ∧ directories' = directories ++ [stem] ∧ stem' = "mod") ∨
      (¬IsFolded directories' stem' ∧ directories = directories' ++ [stem'] ∧ stem = "mod") := by
  have hmod : "mod" ∈ rootStems := by decide
  by_cases h : IsFolded directories stem <;> by_cases h' : IsFolded directories' stem'
  · rw [ofStem_of_isFolded h, ofStem_of_isFolded h', ModulePath.mk.injEq]
    constructor
    · rintro rfl
      rcases h with rfl | ⟨hroot, hstem⟩ <;> rcases h' with rfl | ⟨hroot', hstem'⟩
      · exact .inl ⟨rfl, rfl⟩
      · exact .inr (.inl ⟨⟨hroot', hmod⟩, hroot', hstem'⟩)
      · exact .inr (.inl ⟨⟨hroot, hstem⟩, hroot, hmod⟩)
      · exact .inr (.inl ⟨⟨hroot, hstem⟩, hroot', hstem'⟩)
    · rintro (⟨rfl, -⟩ | ⟨⟨rfl, -⟩, rfl, -⟩ | ⟨hnot, -⟩ | ⟨hnot, -⟩)
      · rfl
      · rfl
      · exact absurd h hnot
      · exact absurd h' hnot
  · rw [ofStem_eq_iff_of_isFolded h h']
    refine ⟨fun heq => .inr (.inr (.inr ⟨h', heq⟩)), ?_⟩
    rintro (⟨rfl, rfl⟩ | ⟨-, hroot⟩ | ⟨hnot, -⟩ | ⟨-, heq⟩)
    · exact absurd h h'
    · exact absurd (.inr hroot) h'
    · exact absurd h hnot
    · exact heq
  · rw [eq_comm, ofStem_eq_iff_of_isFolded h' h]
    refine ⟨fun heq => .inr (.inr (.inl ⟨h, heq⟩)), ?_⟩
    rintro (⟨rfl, rfl⟩ | ⟨hroot, -⟩ | ⟨-, heq⟩ | ⟨hnot, -⟩)
    · exact absurd h' h
    · exact absurd (.inr hroot) h
    · exact heq
    · exact absurd h' hnot
  · rw [ofStem_of_not_isFolded h, ofStem_of_not_isFolded h', ModulePath.mk.injEq,
      List.append_singleton_inj]
    refine ⟨.inl, ?_⟩
    rintro (heq | ⟨hroot, -⟩ | ⟨-, -, rfl⟩ | ⟨-, -, rfl⟩)
    · exact heq
    · exact absurd (.inr hroot) h
    · exact absurd (.inl rfl) h'
    · exact absurd (.inl rfl) h

/-- A point is no step but the first. -/
theorem eq_nil_of_components {path : List Char} {front : List File.Component}
    (h : File.Path.components path = front ++ [.here]) : front = [] := by
  have hnot (found : List File.Component) (init : List File.Component) :
      found.filter (· ≠ .here) ≠ init ++ [.here] := fun heq => by
    have hmem : File.Component.here ∈ found.filter (· ≠ .here) := by
      rw [heq]
      simp
    simpa using (List.mem_filter.mp hmem).2
  unfold File.Path.components at h
  dsimp only at h
  split at h
  · cases front with
    | nil => rfl
    | cons first front => exact absurd (List.cons.inj h).2 (hnot _ front)
  · rcases List.append_eq_append_iff.mp h with ⟨init, -, hinit⟩ | ⟨last, hfront, hlast⟩
    · exact absurd hinit (hnot _ init)
    · cases last with
      | nil => exact absurd hlast.symm (hnot _ [])
      | cons point last =>
        have hlength := congrArg List.length hfront
        simp only [List.length_take, List.length_append, List.length_cons] at hlength
        exact List.length_eq_zero_iff.mp (by omega)

theorem names?_append (a b : List File.Component) :
    names? (a ++ b) = (names? a).bind fun found => (names? b).map (found ++ ·) := by
  induction a with
  | nil => simp [names?]
  | cons component a ih =>
    cases component with
    | root => rfl
    | up => rfl
    | here => exact ih
    | name text =>
      rw [List.cons_append, names?, ih, names?]
      cases names? a <;> cases names? b <;> rfl

theorem ofFile_eq (path : List Char) :
    ofFile path = (names? (File.Path.components path)).bind ofNames? := by
  rw [ofFile, File.Path.fileName?]
  rcases List.eq_nil_or_concat (File.Path.components path) with hnil | ⟨front, last, hlast⟩
  · rw [hnil]
    rfl
  · rw [List.concat_eq_append] at hlast
    rw [hlast, List.getLast?_concat, names?_append]
    cases last with
    | root => cases names? front <;> rfl
    | up => cases names? front <;> rfl
    | here =>
      obtain rfl := eq_nil_of_components hlast
      rfl
    | name file =>
      cases names? front with
      | none => simp
      | some directories => simp [names?, ofNames?]

/-- The path of a file defines the same module as a text and in bytes. -/
theorem ofBytes_bytes (text : String) : ofBytes (bytes text) = ofFile text.toList := by
  rw [ofBytes, steps_bytes, names?_map_ofComponent, ofFile_eq]
  rfl

/-- A file at the top that defines the root. -/
def IsRootFile (path : List UInt8) : Prop :=
  ∃ file ∈ ["lib.rs", "main.rs", "mod.rs"], trail path = [Step.ofName file]

/-- A file and the one that stands for the directory with its name: `d/s.rs` and `d/s/mod.rs`, where
neither of them stands for another module already. -/
def Doubles (path path' : List UInt8) : Prop :=
  ∃ directories stem, stem ∉ [".", "..", "mod"] ∧ (directories = [] → stem ∉ ["lib", "main"]) ∧
    trail path = (directories ++ [stem ++ ".rs"]).map Step.ofName ∧
    trail path' = (directories ++ [stem, "mod.rs"]).map Step.ofName

/-- The steps of a path determine its directories and its stem. -/
theorem map_ofName_inj {directories directories' : List String} {stem stem' : String} :
    (directories ++ [stem ++ ".rs"]).map Step.ofName
        = (directories' ++ [stem' ++ ".rs"]).map Step.ofName ↔
      directories = directories' ∧ stem = stem' := by
  rw [(List.map_injective_iff.mpr Step.ofName_injective).eq_iff, List.append_singleton_inj,
    String.append_left_inj]

section

variable {path path' : List UInt8} {directories directories' : List String} {stem stem' : String}

theorem isRootFile_iff (h : trail path = (directories ++ [stem ++ ".rs"]).map Step.ofName) :
    IsRootFile path ↔ directories = [] ∧ stem ∈ rootStems := by
  have hfile (root : String) : trail path = [Step.ofName (root ++ ".rs")] ↔
      directories = [] ∧ stem = root := by
    rw [h, ← map_ofName_inj, List.nil_append]
    rfl
  have hlib := hfile "lib"
  have hmain := hfile "main"
  have hmod := hfile "mod"
  simp only [IsRootFile, rootStems, List.mem_cons, List.not_mem_nil, or_false, exists_eq_or_imp,
    exists_eq_left]
  rw [show "lib.rs" = "lib" ++ ".rs" from rfl, show "main.rs" = "main" ++ ".rs" from rfl,
    show "mod.rs" = "mod" ++ ".rs" from rfl, hlib, hmain, hmod, ← and_or_left, ← and_or_left]

theorem doubles_iff (h : trail path = (directories ++ [stem ++ ".rs"]).map Step.ofName)
    (h' : trail path' = (directories' ++ [stem' ++ ".rs"]).map Step.ofName) :
    Doubles path path' ↔
      ¬IsFolded directories stem ∧ directories' = directories ++ [stem] ∧ stem' = "mod" := by
  have hmod (d : List String) (s : String) :
      (d ++ [s, "mod.rs"]).map Step.ofName = ((d ++ [s]) ++ ["mod" ++ ".rs"]).map Step.ofName := by
    rw [List.append_assoc]
    rfl
  constructor
  · rintro ⟨d, s, hstem, hroot, hpath, hpath'⟩
    obtain ⟨rfl, rfl⟩ := map_ofName_inj.mp (h.symm.trans hpath)
    rw [h', hmod, map_ofName_inj] at hpath'
    refine ⟨?_, hpath'⟩
    simp only [List.mem_cons, List.not_mem_nil, or_false, not_or] at hstem hroot
    simp only [IsFolded, rootStems, List.mem_cons, List.not_mem_nil, or_false]
    tauto
  · rintro ⟨hfolded, rfl, rfl⟩
    have hmem : Step.ofName stem ∈ trail path' := by
      rw [h']
      simp
    obtain ⟨-, hpoint, hpoints⟩ := mem_pieces_of_mem_trail hmem
    simp only [IsFolded, rootStems, List.mem_cons, List.not_mem_nil, or_false] at hfolded
    refine ⟨directories, stem, ?_, ?_, h, by rw [h', hmod]⟩
    · simp only [List.mem_cons, List.not_mem_nil, or_false]
      tauto
    · simp only [List.mem_cons, List.not_mem_nil, or_false]
      tauto

end

/-- Paths of files and modules correspond. A path leads to a module exactly when it consists of
names, points aside, of which the last ends in `.rs` with something in front of that. Every module
whose names can stand in a path is led to by one. Two paths lead to the same module exactly when
they have the same steps, or both are a root file, or one doubles the other. A path that is a text
leads where its bytes do. -/
theorem ofBytes_correspondence :
    (∀ path, (ofBytes path).isSome = true ↔ ∃ directories stem, stem ≠ "" ∧
      trail path = (directories ++ [stem ++ ".rs"]).map Step.ofName) ∧
    (∀ segments, (∀ name ∈ segments, IsPiece name) →
      ∃ path, isAbsolute path = false ∧ ofBytes path = some ⟨segments⟩) ∧
    (∀ path path' m m', ofBytes path = some m → ofBytes path' = some m' →
      (m = m' ↔ trail path = trail path' ∨ (IsRootFile path ∧ IsRootFile path') ∨
        Doubles path path' ∨ Doubles path' path)) ∧
    ∀ text, ofBytes (bytes text) = ofFile text.toList := by
  refine ⟨fun path => ?_, fun segments h => ?_, fun path path' m m' h h' => ?_, ofBytes_bytes⟩
  · rw [Option.isSome_iff_exists]
    simp only [ofBytes_eq_some]
    constructor
    · rintro ⟨-, directories, stem, hstem, htrail, -⟩
      exact ⟨directories, stem, hstem, htrail⟩
    · rintro ⟨directories, stem, hstem, htrail⟩
      exact ⟨_, directories, stem, hstem, htrail, rfl⟩
  · have hpieces : ∀ name ∈ segments ++ ["mod.rs"], IsPiece name := by
      refine List.forall_mem_append.mpr ⟨h, List.forall_mem_singleton.mpr ?_⟩
      exact ⟨by decide, by unfold Slashless; decide, by decide, by decide⟩
    have hne : segments ++ ["mod.rs"] ≠ [] := by simp
    exact ⟨[slash].intercalate ((segments ++ ["mod.rs"]).map bytes),
      isAbsolute_intercalate hne hpieces,
      ofBytes_eq_some.mpr ⟨segments, "mod", by decide, trail_intercalate hne hpieces, rfl⟩⟩
  · obtain ⟨directories, stem, -, htrail, rfl⟩ := ofBytes_eq_some.mp h
    obtain ⟨directories', stem', -, htrail', rfl⟩ := ofBytes_eq_some.mp h'
    rw [ofStem_eq_iff, isRootFile_iff htrail, isRootFile_iff htrail', doubles_iff htrail htrail',
      doubles_iff htrail' htrail, htrail, htrail', map_ofName_inj]

/-- Below the top the file with the name of a directory doubles the one that stands for it; `lib.rs`
and `lib/mod.rs` are two modules. -/
theorem ofBytes_correspondence_lib :
    (∀ name ∈ ["lib", "mod"], IsPiece name) ∧
      ofBytes (bytes "a/lib.rs") = some ⟨["a", "lib"]⟩ ∧
      ofBytes (bytes "a/lib/mod.rs") = some ⟨["a", "lib"]⟩ ∧
      ofBytes (bytes "lib.rs") = some .root ∧ ofBytes (bytes "lib/mod.rs") = some ⟨["lib"]⟩ ∧
      (∃ path, ofBytes path = some ⟨["lib", "mod"]⟩) ∧
      (trail (bytes "a/lib.rs") = trail (bytes "a/lib/mod.rs") ∨
        (IsRootFile (bytes "a/lib.rs") ∧ IsRootFile (bytes "a/lib/mod.rs")) ∨
        Doubles (bytes "a/lib.rs") (bytes "a/lib/mod.rs") ∨
        Doubles (bytes "a/lib/mod.rs") (bytes "a/lib.rs")) ∧
      ¬Doubles (bytes "lib.rs") (bytes "lib/mod.rs") := by
  obtain ⟨-, himage, hsame, htext⟩ := ofBytes_correspondence
  have hpieces : ∀ name ∈ ["lib", "mod"], IsPiece name := by
    simp only [List.forall_mem_cons]
    exact ⟨⟨by decide, by unfold Slashless; decide, by decide, by decide⟩,
      ⟨by decide, by unfold Slashless; decide, by decide, by decide⟩, by simp⟩
  have hlib : ofBytes (bytes "a/lib.rs") = some ⟨["a", "lib"]⟩ := (htext _).trans (by decide)
  have hdouble : ofBytes (bytes "a/lib/mod.rs") = some ⟨["a", "lib"]⟩ := (htext _).trans (by decide)
  have hroot : ofBytes (bytes "lib.rs") = some .root := (htext _).trans (by decide)
  have hmod : ofBytes (bytes "lib/mod.rs") = some ⟨["lib"]⟩ := (htext _).trans (by decide)
  obtain ⟨path, -, hpath⟩ := himage _ hpieces
  refine ⟨hpieces, hlib, hdouble, hroot, hmod, ⟨path, hpath⟩, (hsame _ _ _ _ hlib hdouble).mp rfl,
    fun h => ?_⟩
  exact absurd ((hsame _ _ _ _ hroot hmod).mpr (.inr (.inr (.inl h)))) (by decide)

end ModulePath

end Observable
