import Observable.File.Access
import Observable.Proofs.File.Path
/-! Changes of a tree of files: what is made or written stands where its path leads, and everything
else stays as it was. -/
namespace Observable

namespace FileTree

variable {tree tree' tree'' : FileTree} {path directory here found : List String} {name : String}
  {entry : Entry}

theorem find?_of_mem {e : List String × Entry} (he : e ∈ tree.entries) :
    tree.find? e.1 = some e.2 := by
  have hne : e.1 ≠ [] := (tree.enclosed e he).1
  have hfirst : ∀ entries : Entries, entries.Pairwise (fun a b => Entries.Precedes a.1 b.1) →
      e ∈ entries → List.find? (fun a => a.1 = e.1) entries = some e := by
    intro entries hordered hmem
    induction entries with
    | nil => cases hmem
    | cons a entries ih =>
      rw [List.pairwise_cons] at hordered
      rcases List.mem_cons.mp hmem with rfl | hmem
      · simp
      · have hlt : Entries.Precedes a.1 e.1 := hordered.1 e hmem
        rw [List.find?_cons_of_neg (by simpa using Entries.ne_iff_precedes.mpr (.inl hlt))]
        exact ih hordered.2 hmem
  rw [find?, Entries.find?, if_neg hne, hfirst _ tree.ordered he]
  rfl

/-- What stands at a path is an entry of the tree, and the only one there. -/
theorem find?_eq_some_iff (hpath : path ≠ []) :
    tree.find? path = some entry ↔ (path, entry) ∈ tree.entries := by
  refine ⟨fun h => ?_, find?_of_mem⟩
  rw [find?, Entries.find?, if_neg hpath] at h
  obtain ⟨e, he, rfl⟩ := Option.map_eq_some_iff.mp h
  obtain rfl : e.1 = path := by simpa using List.find?_some he
  exact List.mem_of_find?_eq_some he

theorem hasDirectory_iff : tree.hasDirectory path = true ↔ tree.find? path = some .directory := by
  by_cases hpath : path = []
  · subst hpath
    simp [hasDirectory, Entries.hasDirectory, find?, Entries.find?]
  · simp only [hasDirectory, Entries.hasDirectory, List.isEmpty_eq_false_iff.mpr hpath,
      Bool.false_or, List.any_eq_true, Bool.and_eq_true, decide_eq_true_eq]
    constructor
    · rintro ⟨⟨p, entry⟩, he, rfl, hdirectory⟩
      cases entry with
      | directory => exact find?_of_mem he
      | file bytes => cases hdirectory
    · intro h
      exact ⟨_, (find?_eq_some_iff hpath).mp h, rfl, rfl⟩

theorem hasDirectory_dropLast (h : tree.hasDirectory path = true) :
    tree.hasDirectory path.dropLast = true := by
  by_cases hpath : path = []
  · subst hpath
    exact h
  · exact (tree.enclosed _ ((find?_eq_some_iff hpath).mp (hasDirectory_iff.mp h))).2

@[simp] theorem find?_nil (tree : FileTree) : tree.find? [] = some .directory := rfl

/-- What is put into a directory stands there, and nothing else has changed. -/
theorem find?_put (hdirectory : tree.hasDirectory directory = true)
    (hfree : tree.find? (directory ++ [name]) ≠ some .directory) (path : List String) :
    (tree.put directory name entry).find? path
      = if path = directory ++ [name] then some entry else tree.find? path := by
  have hput : tree.hasDirectory directory ∧ ¬ tree.hasDirectory (directory ++ [name]) :=
    ⟨hdirectory, fun h => hfree (hasDirectory_iff.mp h)⟩
  by_cases hpath : path = []
  · subst hpath
    simp
  · refine Option.ext fun e => ?_
    rw [find?_eq_some_iff hpath, put, dif_pos hput, Entries.mem_put, Prod.mk.injEq]
    by_cases heq : path = directory ++ [name]
    · simp [heq, eq_comm]
    · simp [heq, find?_eq_some_iff hpath]

/-- A tree in which every directory of another one is a directory, and something stands wherever
something stands in the other one. -/
structure Keeps (tree tree' : FileTree) : Prop where
  directory : ∀ path, tree.hasDirectory path = true → tree'.hasDirectory path = true
  present : ∀ path, (tree.find? path).isSome = true → (tree'.find? path).isSome = true

theorem Keeps.refl (tree : FileTree) : tree.Keeps tree := ⟨fun _ h => h, fun _ h => h⟩

theorem Keeps.trans (h : tree.Keeps tree') (h' : tree'.Keeps tree'') : tree.Keeps tree'' :=
  ⟨fun path hpath => h'.directory path (h.directory path hpath),
    fun path hpath => h'.present path (h.present path hpath)⟩

theorem keeps_put (hdirectory : tree.hasDirectory directory = true)
    (hfree : tree.find? (directory ++ [name]) ≠ some .directory) (entry : Entry) :
    tree.Keeps (tree.put directory name entry) := by
  refine ⟨fun path h => ?_, fun path h => ?_⟩
  · rw [hasDirectory_iff] at h ⊢
    have hne : path ≠ directory ++ [name] := by
      rintro rfl
      exact hfree h
    rw [find?_put hdirectory hfree, if_neg hne, h]
  · rw [find?_put hdirectory hfree]
    split
    · rfl
    · exact h

theorem step_eq_ok {there? : Option Entry} :
    tree.step here name = .ok there? ↔ tree.hasDirectory here = true ∧
      name.utf8ByteSize ≤ maxName ∧ there? = tree.find? (here ++ [name]) := by
  unfold step
  cases tree.hasDirectory here with
  | false => simp
  | true =>
    by_cases hname : maxName < name.utf8ByteSize
    · simp [hname, Nat.not_le_of_lt hname]
    · simp [hname, Nat.le_of_not_lt hname, eq_comm]

/-- A path leads where it led before when everything that stood there still stands. -/
theorem follow_of_keeps (hkeeps : tree.Keeps tree') {pieces : List (List Char)}
    (h : tree.follow here pieces = .ok found) : tree'.follow here pieces = .ok found := by
  induction pieces generalizing here with
  | nil => exact h
  | cons piece pieces ih =>
    rw [follow] at h ⊢
    cases hstep : tree.step here (String.ofList piece) with
    | error e => simp [hstep] at h
    | ok there? =>
      obtain ⟨hhere, hname, hentry⟩ := step_eq_ok.mp hstep
      have hstep' : tree'.step here (String.ofList piece)
          = .ok (tree'.find? (here ++ [String.ofList piece])) :=
        step_eq_ok.mpr ⟨hkeeps.directory here hhere, hname, rfl⟩
      rw [hstep] at h
      rw [hstep']
      cases hpiece : File.Path.component piece with
      | name n =>
        simp only [hpiece] at h ⊢
        cases there? with
        | none => cases h
        | some entry =>
          have hpresent := hkeeps.present _ (by rw [← hentry]; rfl)
          obtain ⟨entry', hentry'⟩ := Option.isSome_iff_exists.mp hpresent
          rw [hentry']
          exact ih h
      | up =>
        simp only [hpiece] at h ⊢
        exact ih h
      | here =>
        simp only [hpiece] at h ⊢
        exact ih h
      | root =>
        simp only [hpiece] at h ⊢
        exact ih h

theorem follow_append (pieces more : List (List Char)) :
    tree.follow here (pieces ++ more)
      = (tree.follow here pieces).bind fun found => tree.follow found more := by
  induction pieces generalizing here with
  | nil => rfl
  | cons piece pieces ih =>
    rw [List.cons_append, follow, follow]
    cases tree.step here (String.ofList piece) with
    | error e => rfl
    | ok there? =>
      cases File.Path.component piece <;> cases there? <;> first | rfl | exact ih

/-- A tree with the files of another one, and directories besides. -/
structure Grows (tree tree' : FileTree) : Prop extends tree.Keeps tree' where
  file : ∀ path bytes, tree'.find? path = some (.file bytes) ↔ tree.find? path = some (.file bytes)

theorem Grows.refl (tree : FileTree) : tree.Grows tree := ⟨.refl tree, fun _ _ => .rfl⟩

theorem Grows.trans (h : tree.Grows tree') (h' : tree'.Grows tree'') : tree.Grows tree'' :=
  ⟨h.toKeeps.trans h'.toKeeps, fun path bytes => (h'.file path bytes).trans (h.file path bytes)⟩

theorem grows_put (hdirectory : tree.hasDirectory directory = true)
    (hfree : tree.find? (directory ++ [name]) = none) :
    tree.Grows (tree.put directory name .directory) := by
  have hne : tree.find? (directory ++ [name]) ≠ some .directory := by simp [hfree]
  refine ⟨keeps_put hdirectory hne _, fun path bytes => ?_⟩
  rw [find?_put hdirectory hne]
  split
  · rename_i hpath
    simp [hpath, hfree]
  · rfl

/-- Making directories changes no file, and the path that was asked for leads to one of them. -/
theorem makeAll_grows {pieces : List (List Char)} (hhere : tree.hasDirectory here = true)
    (h : tree.makeAll here pieces = .ok tree') :
    tree.Grows tree' ∧ ∃ found, tree'.follow here pieces = .ok found ∧
      tree'.hasDirectory found = true := by
  induction pieces generalizing tree here with
  | nil =>
    cases h
    exact ⟨.refl _, here, rfl, hhere⟩
  | cons piece pieces ih =>
    rw [makeAll] at h
    cases hstep : tree.step here (String.ofList piece) with
    | error e => simp [hstep] at h
    | ok there? =>
      obtain ⟨-, hname, hentry⟩ := step_eq_ok.mp hstep
      -- The step that is taken in the tree before is taken in the tree after as well.
      have hagain (hkeeps : tree.Keeps tree') : tree'.step here (String.ofList piece)
          = .ok (tree'.find? (here ++ [String.ofList piece])) :=
        step_eq_ok.mpr ⟨hkeeps.directory here hhere, hname, rfl⟩
      rw [hstep] at h
      rw [follow]
      cases hpiece : File.Path.component piece with
      | name n =>
        simp only [hpiece] at h
        cases there? with
        | none =>
          have hnext := grows_put hhere hentry.symm
          have hmade : (tree.put here (String.ofList piece) .directory).hasDirectory
              (here ++ [String.ofList piece]) = true := by
            rw [hasDirectory_iff, find?_put hhere (by simp [hentry.symm]), if_pos rfl]
          obtain ⟨hgrows, found, hfound, hdirectory⟩ := ih hmade h
          have hthere := hgrows.directory _ hmade
          rw [hasDirectory_iff] at hthere
          refine ⟨hnext.trans hgrows, found, ?_, hdirectory⟩
          rw [hagain (hnext.trans hgrows).toKeeps, hthere]
          exact hfound
        | some entry =>
          cases entry with
          | file bytes => cases h
          | directory =>
            have hthere := hasDirectory_iff.mpr hentry.symm
            obtain ⟨hgrows, found, hfound, hdirectory⟩ := ih hthere h
            have hthere' := hgrows.directory _ hthere
            rw [hasDirectory_iff] at hthere'
            refine ⟨hgrows, found, ?_, hdirectory⟩
            rw [hagain hgrows.toKeeps, hthere']
            exact hfound
      | up =>
        simp only [hpiece] at h
        obtain ⟨hgrows, found, hfound, hdirectory⟩ := ih (hasDirectory_dropLast hhere) h
        rw [hagain hgrows.toKeeps]
        exact ⟨hgrows, found, hfound, hdirectory⟩
      | here =>
        simp only [hpiece] at h
        obtain ⟨hgrows, found, hfound, hdirectory⟩ := ih hhere h
        rw [hagain hgrows.toKeeps]
        exact ⟨hgrows, found, hfound, hdirectory⟩
      | root =>
        simp only [hpiece] at h
        obtain ⟨hgrows, found, hfound, hdirectory⟩ := ih hhere h
        rw [hagain hgrows.toKeeps]
        exact ⟨hgrows, found, hfound, hdirectory⟩

/-- A directory that was made is where its path leads, and no file has changed. -/
theorem makeDirectory_grows {out : String} (h : tree.makeDirectory out = .ok tree') :
    tree.Grows tree' ∧ ∃ found, tree'.follow [] (File.Path.pieces out.toList) = .ok found := by
  unfold makeDirectory at h
  split at h
  · cases h
  · obtain ⟨hgrows, found, hfound, -⟩ := makeAll_grows rfl h
    exact ⟨hgrows, found, hfound⟩

theorem locate_join {out : String} (hslash : Slashless name)
    (hname : File.Path.component name.toList = .name name) (hne : name ≠ "")
    (hnull : '\x00' ∉ (File.Path.join out name).toList)
    (hout : tree.follow [] (File.Path.pieces out.toList) = .ok directory)
    (hdirectory : tree.hasDirectory directory = true) (hlength : name.utf8ByteSize ≤ maxName)
    (hthere : tree.find? (directory ++ [name]) = some entry) :
    tree.locate (File.Path.join out name) = .ok (directory ++ [name]) := by
  have hlast : (File.Path.join out name).toList.getLast? = name.toList.getLast? :=
    File.Path.getLast?_join out hslash hne
  have hend : (File.Path.join out name).toList.getLast? ≠ some '/' := by
    rw [hlast]
    exact fun h => hslash (List.mem_of_getLast? h)
  have hempty : (File.Path.join out name).toList.isEmpty = false := by
    rw [List.isEmpty_eq_false_iff]
    intro h
    rw [h, List.getLast?_nil] at hlast
    exact hne (by simpa using hlast.symm)
  have hstep : tree.step directory name = .ok (some entry) :=
    step_eq_ok.mpr ⟨hdirectory, hlength, hthere.symm⟩
  have hfollow : tree.follow [] (File.Path.pieces out.toList ++ [name.toList])
      = .ok (directory ++ [name]) := by
    rw [follow_append, hout]
    simp only [Except.bind, follow, String.ofList_toList, hstep, hname]
  rw [locate]
  simp only [hnull, if_false, hempty, Bool.false_eq_true, File.Path.pieces_join out hslash hne,
    hfollow, bind, Except.bind, hend, decide_false, Bool.false_and]
  rfl

/-- A file that was written into a directory holds the bytes and is where its path leads; nothing
else has changed. -/
theorem write_join {out : String} {bytes : ByteArray} (hslash : Slashless name)
    (hname : File.Path.component name.toList = .name name) (hne : name ≠ "")
    (hout : tree.follow [] (File.Path.pieces out.toList) = .ok directory)
    (h : tree.write (File.Path.join out name) bytes = .ok tree') :
    tree.Keeps tree' ∧ tree'.locate (File.Path.join out name) = .ok (directory ++ [name]) ∧
      ∀ path, tree'.find? path
        = if path = directory ++ [name] then some (.file bytes) else tree.find? path := by
  unfold write at h
  dsimp only at h
  split at h
  · cases h
  · rename_i hnull
    rw [File.Path.pieces_join out hslash hne, List.getLast?_concat, Option.map_some, hname,
      List.dropLast_concat] at h
    simp only [hout] at h
    cases hstep : tree.step directory name with
    | error e => simp [hstep, bind, Except.bind] at h
    | ok there? =>
      obtain ⟨hdirectory, hlength, hentry⟩ := step_eq_ok.mp hstep
      simp only [hstep, bind, Except.bind] at h
      split at h
      · cases h
      · rename_i hfree
        cases h
        have hfree : tree.find? (directory ++ [name]) ≠ some .directory := by
          rw [← hentry]
          exact hfree
        have hkeeps := keeps_put hdirectory hfree (.file bytes)
        have hwritten : ∀ path, (tree.put directory name (.file bytes)).find? path = _ :=
          find?_put hdirectory hfree
        exact ⟨hkeeps, locate_join hslash hname hne hnull (follow_of_keeps hkeeps hout)
          (hkeeps.directory _ hdirectory) hlength (by rw [hwritten, if_pos rfl]), hwritten⟩

/-- A file is written into a directory when no directory has its name. -/
theorem write_eq_ok {path : String} (bytes : ByteArray) (hnull : '\x00' ∉ path.toList)
    (hname : (File.Path.pieces path.toList).getLast?.map File.Path.component = some (.name name))
    (hfollow : tree.follow [] (File.Path.pieces path.toList).dropLast = .ok directory)
    (hdirectory : tree.hasDirectory directory = true) (hlength : name.utf8ByteSize ≤ maxName)
    (hfree : tree.hasDirectory (directory ++ [name]) = false) :
    tree.write path bytes = .ok (tree.put directory name (.file bytes)) := by
  have hstep : tree.step directory name = .ok (tree.find? (directory ++ [name])) :=
    step_eq_ok.mpr ⟨hdirectory, hlength, rfl⟩
  simp only [write, if_neg hnull, hname, hfollow, bind, Except.bind, hstep]
  cases hentry : tree.find? (directory ++ [name]) with
  | none => rfl
  | some entry =>
    cases entry with
    | file _ => rfl
    | directory =>
      rw [hasDirectory_iff.mpr hentry] at hfree
      cases hfree

theorem locate_of_keeps (hkeeps : tree.Keeps tree') {path : String}
    (h : tree.locate path = .ok found) : tree'.locate path = .ok found := by
  unfold locate at h ⊢
  dsimp only at h ⊢
  split at h
  · cases h
  · rename_i hnull
    rw [if_neg hnull]
    split at h
    · cases h
    · rename_i hempty
      rw [if_neg hempty]
      cases hfollow : tree.follow [] (File.Path.pieces path.toList) with
      | error e => simp [hfollow, bind, Except.bind] at h
      | ok there =>
        rw [follow_of_keeps hkeeps hfollow]
        simp only [hfollow, bind, Except.bind] at h ⊢
        split at h
        · cases h
        · rename_i hslash
          cases h
          rw [if_neg]
          · rfl
          · simp only [Bool.and_eq_true, Bool.not_eq_true', not_and, Bool.not_eq_false] at hslash ⊢
            exact fun hend => hkeeps.directory _ (hslash hend)

end FileTree

end Observable
