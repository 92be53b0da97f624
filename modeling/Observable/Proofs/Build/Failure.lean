import Observable.Proofs.Build.Run
/-! A build that fails before it writes leaves the tree of files as it was: all that can go wrong
with the settings, the sources and the pass goes wrong before the first directory is made. -/
namespace Observable

/-- Settings that are read from a text name a field for the events. -/
theorem BuildConfig.isSome_eventsName? {text : String} {settings : BuildConfig}
    (h : ofText text = .ok settings) : settings.generator.eventsName?.isSome = true := by
  unfold ofText at h
  cases hread : readSettings read {} text with
  | error e => simp [hread, bind, Except.bind] at h
  | ok found =>
    simp only [hread, bind, Except.bind] at h
    by_cases hevents : found.generator.eventsName?.isSome = true
    · rw [GeneratorConfig.validate, if_pos hevents] at h
      cases h
      exact hevents
    · rw [GeneratorConfig.validate, if_neg hevents] at h
      cases h

/-- A traversal fails at the first member that fails. -/
theorem mapM_eq_error {α β ε : Type} {f : α → Except ε β} {l : List α} {e : ε} :
    l.mapM f = .error e ↔
      ∃ before a after done, l = before ++ a :: after ∧ before.mapM f = .ok done ∧
        f a = .error e := by
  induction l with
  | nil => simp [pure, Except.pure]
  | cons b l ih =>
    rw [List.mapM_cons]
    cases hb : f b with
    | error e' =>
      constructor
      · rintro ⟨⟩
        exact ⟨[], b, l, [], rfl, rfl, hb⟩
      · rintro ⟨before, a, after, done, heq, hbefore, ha⟩
        cases before with
        | nil =>
          cases heq
          rw [hb] at ha
          cases ha
          rfl
        | cons c before =>
          cases heq
          obtain ⟨_, _, hc, -⟩ := mapM_cons_eq_ok.mp hbefore
          rw [hb] at hc
          cases hc
    | ok d =>
      have htail : (do let d ← Except.ok d; let rest ← l.mapM f; pure (d :: rest)) = .error e ↔
          l.mapM f = .error e := by
        cases l.mapM f <;> simp [bind, Except.bind, pure, Except.pure]
      rw [htail, ih]
      constructor
      · rintro ⟨before, a, after, done, rfl, hbefore, ha⟩
        exact ⟨b :: before, a, after, d :: done, rfl,
          mapM_cons_eq_ok.mpr ⟨d, done, hb, hbefore, rfl⟩, ha⟩
      · rintro ⟨before, a, after, done, heq, hbefore, ha⟩
        cases before with
        | nil =>
          cases heq
          rw [hb] at ha
          cases ha
        | cons c before =>
          cases heq
          obtain ⟨_, rest, -, hrest, -⟩ := mapM_cons_eq_ok.mp hbefore
          exact ⟨before, a, after, rest, rfl, hrest, ha⟩

namespace Generator

/-- A pass that nothing cancels fails after a set-up exactly when the root of the crate binds the
name of the marker. -/
theorem execute_eq_error {g : Generator} (hready : g.state ≠ .uninitialized)
    (hevents : g.config.eventsName?.isSome = true) {c : Compilation} {e : GenerateError} :
    (g.execute c {}).result = .error e ↔
      c.rootBinds Marker.name = true ∧ e = .markerConflict Marker.name := by
  cases hroot : c.rootBinds Marker.name with
  | false =>
    obtain ⟨events, marker, hprepare⟩ := exists_prepare hready hevents hroot
    rw [execute_of_never hprepare (k := {}) rfl fun _ _ _ _ => rfl]
    simp [delivered]
  | true =>
    obtain ⟨events, hname⟩ := Option.isSome_iff_exists.mp hevents
    have hprepare : g.prepare c = .error (.markerConflict Marker.name) := by
      simp [prepare, hready, hname, hroot]
    simp [execute, hprepare, eq_comm]

theorem execute_after_setUp_eq_error {config : GeneratorConfig}
    (hevents : config.eventsName?.isSome = true) {c : Compilation} {e : GenerateError} :
    ((after { config } [.setUp]).execute c {}).result = .error e ↔
      c.rootBinds Marker.name = true ∧ e = .markerConflict Marker.name := by
  refine execute_eq_error ?_ ?_
  · rw [ne_eq, state_after_eq_uninitialized]
    exact Bool.noConfusion
  · rw [config_after]
    exact hevents

end Generator

namespace Build

/-- Why a build of a crate stops before it writes anything. -/
inductive Halts (tree : FileTree) (crate : String) : BuildError → Prop
  /-- The settings cannot be read, or they are refused. -/
  | settings {e : BuildError} (h : config tree crate = .error e) : Halts tree crate e
  /-- The directory of the sources cannot be listed. -/
  | listing {settings : BuildConfig} {e : SourceError} (hconfig : config tree crate = .ok settings)
      (h : Compilation.moduleFiles tree (settings.sourceRoot crate) = .error e) :
      Halts tree crate (.source e)
  /-- A file cannot be read or is no source file, and those before it are. -/
  | file {settings : BuildConfig} {before after : List ModuleFile} {f : ModuleFile}
      {loaded : List SourceFile} {e : SourceError} (hconfig : config tree crate = .ok settings)
      (hlisting : Compilation.moduleFiles tree (settings.sourceRoot crate)
        = .ok (before ++ f :: after))
      (hbefore : before.mapM ModuleFile.read = .ok loaded) (h : f.read = .error e) :
      Halts tree crate (.source e)
  /-- The root of the crate binds the name of the marker. -/
  | conflict {settings : BuildConfig} {c : Compilation}
      (hsources : sources tree crate = .ok (settings, c)) (h : c.rootBinds Marker.name = true) :
      Halts tree crate (.generate (.markerConflict Marker.name))

variable {tree : FileTree} {crate out : String} {e : BuildError}

theorem isSome_eventsName? {settings : BuildConfig} (h : config tree crate = .ok settings) :
    settings.generator.eventsName?.isSome = true := by
  unfold config at h
  split at h
  · rename_i text _
    cases hread : BuildConfig.ofText text with
    | error e =>
      rw [hread] at h
      cases h
    | ok found =>
      rw [hread] at h
      cases h
      exact BuildConfig.isSome_eventsName? hread
  · cases h
    decide +kernel
  · cases h

theorem ofDirectory_eq_error {directory : String} {e : SourceError} :
    Compilation.ofDirectory tree directory = .error e ↔
      Compilation.moduleFiles tree directory = .error e ∨
      ∃ before f after loaded,
        Compilation.moduleFiles tree directory = .ok (before ++ f :: after) ∧
        before.mapM ModuleFile.read = .ok loaded ∧ f.read = .error e := by
  unfold Compilation.ofDirectory
  cases hlisting : Compilation.moduleFiles tree directory with
  | error e' => simp [bind, Except.bind]
  | ok files =>
    have hread : (do return (⟨← files.mapM ModuleFile.read⟩ : Compilation)) = .error e ↔
        files.mapM ModuleFile.read = .error e := by
      cases files.mapM ModuleFile.read <;> simp [bind, Except.bind, pure, Except.pure]
    simp only [bind, Except.bind, reduceCtorEq, false_or, Except.ok.injEq] at hread ⊢
    rw [hread, mapM_eq_error]

theorem halts_of_sources (h : sources tree crate = .error e) : Halts tree crate e := by
  unfold sources at h
  cases hconfig : config tree crate with
  | error e' =>
    rw [hconfig] at h
    cases h
    exact .settings hconfig
  | ok settings =>
    simp only [hconfig, bind, Except.bind] at h
    cases hread : Compilation.ofDirectory tree (settings.sourceRoot crate) with
    | ok c =>
      rw [hread] at h
      cases h
    | error e' =>
      rw [hread] at h
      cases h
      rcases ofDirectory_eq_error.mp hread with hlisting | ⟨_, _, _, _, hlisting, hbefore, hf⟩
      · exact .listing hconfig hlisting
      · exact .file hconfig hlisting hbefore hf

/-- A build that halts before it writes anything gives the reason and leaves the tree as it was,
wherever the units were to go. -/
theorem run_of_halts (h : Halts tree crate e) (out : String) :
    (run tree crate out).result = .error e ∧ (run tree crate out).tree = tree := by
  have hsources (herror : sources tree crate = .error e) :
      (run tree crate out).result = .error e ∧ (run tree crate out).tree = tree := by
    unfold run
    rw [herror]
    exact ⟨rfl, rfl⟩
  cases h with
  | settings h =>
    refine hsources ?_
    rw [sources, h]
    rfl
  | listing hconfig h =>
    refine hsources ?_
    rw [sources, hconfig]
    simp only [bind, Except.bind, ofDirectory_eq_error.mpr (.inl h)]
    rfl
  | file hconfig hlisting hbefore h =>
    refine hsources ?_
    rw [sources, hconfig]
    simp only [bind, Except.bind,
      ofDirectory_eq_error.mpr (.inr ⟨_, _, _, _, hlisting, hbefore, h⟩)]
    rfl
  | @conflict settings c hread h =>
    have hpass := (Generator.execute_after_setUp_eq_error
      (isSome_eventsName? (sources_eq_ok hread).1)).mpr ⟨h, rfl⟩
    exact (run_of_error out hread hpass).symm

theorem writeUnits_eq_error {units : List SourceUnit}
    (h : (writeUnits out tree units).2 = .error e) :
    ∃ u ∈ units, ∃ a, e = .access (unitPath out u) a := by
  induction units generalizing tree with
  | nil => cases h
  | cons u units ih =>
    rw [writeUnits] at h
    cases hwrite : tree.write (unitPath out u) u.body.toUTF8 with
    | error a =>
      simp only [hwrite, Except.error.injEq] at h
      exact ⟨u, List.mem_cons_self, a, h.symm⟩
    | ok next =>
      simp only [hwrite] at h
      cases hrest : (writeUnits out next units).2 with
      | ok paths =>
        rw [hrest] at h
        cases h
      | error e' =>
        rw [hrest] at h
        cases h
        obtain ⟨v, hv, a, rfl⟩ := ih hrest
        exact ⟨v, List.mem_cons_of_mem u hv, a, rfl⟩

/-- A delivery fails for want of access to the directory or to the file of a unit. -/
theorem deliver_eq_error {units : List SourceUnit} (h : (deliver out tree units).2 = .error e) :
    ∃ path a, e = .access path a ∧ (path = out ∨ path ∈ units.map (unitPath out)) := by
  unfold deliver at h
  cases hmade : tree.makeDirectory out with
  | error a =>
    simp only [hmade, Except.error.injEq] at h
    exact ⟨out, a, h.symm, .inl rfl⟩
  | ok made =>
    simp only [hmade] at h
    obtain ⟨u, hu, a, rfl⟩ := writeUnits_eq_error h
    exact ⟨_, a, rfl, .inr (List.mem_map_of_mem hu)⟩

/-- A build that fails leaves the tree as it was when it fails with its settings, with its sources,
however many of them could be read, or with its pass. Otherwise its sources were read and its pass
came to its end, and it fails for want of access to the directory or to a file that it writes to. -/
theorem run_error_untouched (h : (run tree crate out).result = .error e) :
    (Halts tree crate e ∧ (run tree crate out).tree = tree) ∨
    (¬ Halts tree crate e ∧ ∃ settings c passed, sources tree crate = .ok (settings, c) ∧
      let pass := (Generator.setUp { config := settings.generator }).generator.execute c {}
      pass.result = .ok passed ∧
      ∃ path a, e = .access path a ∧
        (path = out ∨ path ∈ pass.delivery.units.map (unitPath out))) := by
  by_cases hhalts : Halts tree crate e
  · exact .inl ⟨hhalts, (run_of_halts hhalts out).2⟩
  · refine .inr ⟨hhalts, ?_⟩
    cases hsources : sources tree crate with
    | error e' =>
      have herror := halts_of_sources hsources
      rw [(run_of_halts herror out).1] at h
      cases h
      exact absurd herror hhalts
    | ok read =>
      obtain ⟨settings, c⟩ := read
      cases hpass : ((Generator.after { config := settings.generator } [.setUp]).execute
          c {}).result with
      | error e' =>
        obtain ⟨hroot, rfl⟩ := (Generator.execute_after_setUp_eq_error
          (isSome_eventsName? (sources_eq_ok hsources).1)).mp hpass
        rw [(run_of_error out hsources hpass).2] at h
        cases h
        exact absurd (.conflict hsources hroot) hhalts
      | ok passed =>
        rw [(run_of_ok out hsources hpass).2] at h
        refine ⟨settings, c, passed, rfl, ?_⟩
        rw [Generator.setUp_fresh]
        dsimp only
        refine ⟨hpass, ?_⟩
        cases hwrote : (deliver out tree ((Generator.after { config := settings.generator }
            [.setUp]).execute c {}).delivery.units).2 with
        | ok outputs =>
          rw [hwrote] at h
          cases h
        | error e' =>
          rw [hwrote] at h
          cases h
          exact deliver_eq_error hwrote

/-- A crate that declares the marker itself, with a unit of an earlier build. -/
def conflictingCrate : FileTree :=
  let sources := (FileTree.empty.put [] "src" .directory).put ["src"] "lib.rs"
    (.file "pub struct ReactiveProperty;".toUTF8)
  (sources.put [] "out" .directory).put ["out"] "S_Classes_g.rs" (.file "old".toUTF8)

theorem run_conflictingCrate_untouched :
    (run conflictingCrate "." "out").result
        = .error (.generate (.markerConflict "ReactiveProperty")) ∧
      (run conflictingCrate "." "out").tree = conflictingCrate := by
  have hconflict : (match sources conflictingCrate "." with
      | .ok (_, c) => c.rootBinds Marker.name
      | .error _ => false) = true := by decide +kernel
  cases hsources : sources conflictingCrate "." with
  | error e => simp [hsources] at hconflict
  | ok read =>
    obtain ⟨settings, c⟩ := read
    rw [hsources] at hconflict
    have hhalts : Halts conflictingCrate "." _ := .conflict hsources hconflict
    have hresult := (run_of_halts hhalts "out").1
    rcases run_error_untouched hresult with ⟨-, htree⟩ | ⟨hnot, -⟩
    · exact ⟨hresult, htree⟩
    · exact absurd hhalts hnot

end Build

end Observable
