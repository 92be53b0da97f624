import Observable.Proofs.Build.Loading
import Observable.Proofs.Build.Writing
import Observable.Proofs.Output.Independence
/-! A build writes what a pass over the sources of its crate delivers, and changes no other file. -/
namespace Observable

/-- Scans that differ in locations alone lead to the same units. -/
theorem PassOutput.units_of_unlocated {c c' : Compilation}
    (h : c.scan.unlocated = c'.scan.unlocated) (events : Token) :
    (ofCompilation c events).units = (ofCompilation c' events).units := by
  have hbare : ∀ c : Compilation, c.scan.candidates.map Candidate.bare
      = c.scan.unlocated.candidates.map Candidate.bare := by
    intro c
    rw [Findings.unlocated, List.map_map]
    exact List.map_congr_left fun k _ => k.bare_unlocated.symm
  rw [units_bare, units_bare, hbare, hbare, h]

/-- The unit of the marker is delivered first. -/
theorem PassOutput.head?_delivery (o : PassOutput) (marker : SourceUnit) :
    (o.delivery marker).units.head? = some marker := rfl

namespace Generator

/-- The first set-up of a generator succeeds. -/
theorem setUp_fresh (config : GeneratorConfig) :
    ({ config } : Generator).setUp
      = { generator := after { config } [.setUp], events := [.markerRegistered]
          result := .ok () } := by
  have hfresh : ({ config } : Generator).state = .uninitialized := rfl
  rw [setUp, if_neg (not_not.mpr hfresh), Marker.unit_eq, after_setUp]

/-- Passes over the same modules in the same order come to the same end and deliver the same
units. -/
theorem execute_alike {g : Generator} {c c' : Compilation} {report : PassReport}
    (hfiles : List.Forall₂ SourceFile.Alike c.files c'.files)
    (h : (g.execute c {}).result = .ok report) :
    (∃ report', (g.execute c' {}).result = .ok report') ∧
      (g.execute c' {}).delivery.units = (g.execute c {}).delivery.units := by
  have hprepare : g.prepare c' = g.prepare c := by
    simp only [prepare, Compilation.rootBinds_of_alike hfiles]
  cases hready : g.prepare c with
  | error e =>
    rw [execute, hready] at h
    cases h
  | ok ready =>
    obtain ⟨events, marker⟩ := ready
    have hready' := hprepare.trans hready
    refine ⟨⟨((PassOutput.ofCompilation c' events).delivery marker).report, ?_⟩, ?_⟩
    · rw [execute_of_never hready' (k := {}) rfl fun _ _ _ _ => rfl]
      rfl
    · rw [units_of_prepare hready, units_of_prepare hready',
        PassOutput.units_of_unlocated (Compilation.unlocated_scan hfiles)]

end Generator

namespace Build

/-- The paths that a build tells of are those of different files, one for each of some units in
order. Each file holds its unit, and all other files are as they were. -/
structure Delivers (out : String) (units : List SourceUnit) (outputs : List String)
    (tree tree' : FileTree) : Prop where
  outputs_eq : outputs = units.map (unitPath out)
  outputs_nodup : outputs.Nodup
  text : ∀ u ∈ units, tree'.text (unitPath out u) = .ok u.body
  other : ∀ path, (∀ output ∈ outputs, tree'.locate output ≠ .ok path) →
    ∀ bytes, tree'.find? path = some (.file bytes) ↔ tree.find? path = some (.file bytes)

theorem delivers_of_deliver {out : String} {units : List SourceUnit} {outputs : List String}
    {tree tree' : FileTree} (hslash : ∀ u ∈ units, Slashless u.key)
    (hkeys : (units.map (·.key)).Nodup) (h : deliver out tree units = (tree', .ok outputs)) :
    Delivers out units outputs tree tree' := by
  unfold deliver at h
  cases hmade : tree.makeDirectory out with
  | error e =>
    simp only [hmade] at h
    cases h
  | ok made =>
    simp only [hmade] at h
    obtain ⟨hgrows, directory, hdirectory⟩ := FileTree.makeDirectory_grows hmade
    obtain ⟨rfl, hwrote⟩ := wrote_of_writeUnits hslash hkeys hdirectory h
    refine ⟨rfl, unitPath_nodup out hslash hkeys, fun u hu => ?_, fun path hpath bytes => ?_⟩
    · rw [FileTree.text, hwrote.located u hu]
      simp only [bind, Except.bind, hwrote.body u hu, fromUTF8?_eq_some.mpr rfl]
      rfl
    · have hapart : ∀ u ∈ units, path ≠ directory ++ [unitFile u] := by
        rintro u hu rfl
        exact hpath _ (List.mem_map_of_mem hu) (hwrote.located u hu)
      rw [hwrote.other path hapart]
      exact hgrows.file path bytes

theorem sources_eq_ok {tree : FileTree} {crate : String} {settings : BuildConfig}
    {c : Compilation} (h : sources tree crate = .ok (settings, c)) :
    config tree crate = .ok settings ∧
      Compilation.ofDirectory tree (settings.sourceRoot crate) = .ok c := by
  unfold sources at h
  cases hconfig : config tree crate with
  | error e => simp [hconfig, bind, Except.bind] at h
  | ok settings' =>
    simp only [hconfig, bind, Except.bind] at h
    cases hc : Compilation.ofDirectory tree (settings'.sourceRoot crate) with
    | error e =>
      rw [hc] at h
      cases h
    | ok c' =>
      rw [hc] at h
      cases h
      exact ⟨rfl, hc⟩

theorem finish_of_error {tree : FileTree} {crate out : String} {settings : BuildConfig}
    {c : Compilation} {start : Call Unit} {pass : Call PassReport} {e : GenerateError}
    (hstart : start.result = .ok ()) (hpass : pass.result = .error e) :
    (finish tree crate out settings c start pass).tree = tree ∧
      (finish tree crate out settings c start pass).result = .error (.generate e) := by
  unfold finish
  rw [hstart, hpass]
  exact ⟨rfl, rfl⟩

theorem finish_of_ok {tree : FileTree} {crate out : String} {settings : BuildConfig}
    {c : Compilation} {start : Call Unit} {pass : Call PassReport} {passed : PassReport}
    (hstart : start.result = .ok ()) (hpass : pass.result = .ok passed) :
    (finish tree crate out settings c start pass).tree
        = (deliver out tree pass.delivery.units).1 ∧
      (finish tree crate out settings c start pass).result
        = (deliver out tree pass.delivery.units).2.map fun outputs =>
          { inputs := inputs tree crate settings c, outputs
            diagnostics := pass.delivery.diagnostics } := by
  unfold finish
  rw [hstart, hpass]
  exact ⟨rfl, rfl⟩

theorem setUp_result (settings : BuildConfig) :
    (Generator.setUp { config := settings.generator }).result = .ok () := by
  rw [Generator.setUp_fresh]

/-- A build whose sources can be read makes a pass over them after a set-up. -/
theorem run_of_sources {tree : FileTree} {crate : String} (out : String) {settings : BuildConfig}
    {c : Compilation} (hsources : sources tree crate = .ok (settings, c)) :
    run tree crate out =
      finish tree crate out settings c (Generator.setUp { config := settings.generator })
        ((Generator.after { config := settings.generator } [.setUp]).execute c {}) := by
  unfold run
  rw [hsources]
  dsimp only
  rw [Generator.setUp_fresh]

/-- A build whose pass fails leaves the tree as it was. -/
theorem run_of_error {tree : FileTree} {crate : String} (out : String) {settings : BuildConfig}
    {c : Compilation} {e : GenerateError} (hsources : sources tree crate = .ok (settings, c))
    (hpass : ((Generator.after { config := settings.generator } [.setUp]).execute c {}).result
      = .error e) :
    (run tree crate out).tree = tree ∧ (run tree crate out).result = .error (.generate e) := by
  rw [run_of_sources out hsources]
  exact finish_of_error (setUp_result settings) hpass

/-- A build whose pass comes to its end delivers the units. -/
theorem run_of_ok {tree : FileTree} {crate : String} (out : String) {settings : BuildConfig}
    {c : Compilation} {passed : PassReport} (hsources : sources tree crate = .ok (settings, c))
    (hpass : ((Generator.after { config := settings.generator } [.setUp]).execute c {}).result
      = .ok passed) :
    let delivery :=
      ((Generator.after { config := settings.generator } [.setUp]).execute c {}).delivery
    (run tree crate out).tree = (deliver out tree delivery.units).1 ∧
      (run tree crate out).result = (deliver out tree delivery.units).2.map fun outputs =>
        { inputs := inputs tree crate settings c, outputs
          diagnostics := delivery.diagnostics } := by
  rw [run_of_sources out hsources]
  exact finish_of_ok (setUp_result settings) hpass

/-- A build that comes to its end writes what a pass delivers that is made with the settings of the
crate over its sources, given by their paths from the source root and their texts: the marker first,
every unit into a file of its own, and nothing else. -/
theorem run_delivers {tree : FileTree} {crate out : String} {report : BuildReport}
    (h : (run tree crate out).result = .ok report) :
    ∃ settings place sources c passReport,
      config tree crate = .ok settings ∧
      tree.locate (settings.sourceRoot crate) = .ok place ∧ tree.Sources place sources ∧
      Compilation.ofSources (sources.map relativeSource) = .ok c ∧
      let pass := (Generator.setUp { config := settings.generator }).generator.execute c {}
      pass.result = .ok passReport ∧
      pass.delivery.units.head? = some Marker.registered ∧
      Delivers out pass.delivery.units report.outputs tree (run tree crate out).tree := by
  cases hsources : sources tree crate with
  | error e =>
    unfold run at h
    rw [hsources] at h
    cases h
  | ok read =>
    obtain ⟨settings, loaded⟩ := read
    obtain ⟨hconfig, hloaded⟩ := sources_eq_ok hsources
    obtain ⟨place, sources, c, hplace, hplaced, hc, halike, hfrom⟩ :=
      Compilation.sources_of_ofDirectory hloaded
    cases hpassed : ((Generator.after { config := settings.generator } [.setUp]).execute
        loaded {}).result with
    | error e =>
      rw [(run_of_error out hsources hpassed).2] at h
      cases h
    | ok passed =>
      obtain ⟨htree, hresult⟩ := run_of_ok out hsources hpassed
      rw [hresult] at h
      rw [htree]
      obtain ⟨⟨passReport, hpass⟩, hunits⟩ := Generator.execute_alike halike hpassed
      obtain ⟨events, -, hcall, -⟩ := Generator.execute_after_eq_ok hpass
      have hdelivery : ((Generator.after { config := settings.generator } [.setUp]).execute
            c {}).delivery = (PassOutput.ofCompilation c events).delivery Marker.registered := by
        rw [hcall]
        rfl
      rw [← hunits] at h ⊢
      cases hwrote : deliver out tree ((Generator.after { config := settings.generator }
          [.setUp]).execute c {}).delivery.units with
      | mk tree' written =>
        rw [hwrote] at h
        cases written with
        | error e => cases h
        | ok outputs =>
          cases h
          refine ⟨settings, place, sources, c, passReport, hconfig, hplace, hplaced, hc, ?_⟩
          rw [Generator.setUp_fresh]
          dsimp only
          refine ⟨hpass, ?_, ?_⟩
          · rw [hdelivery]
            exact PassOutput.head?_delivery _ _
          · refine delivers_of_deliver ?_ ?_ hwrote
            · rw [hdelivery]
              exact fun u hu => PassOutput.slashless_of_mem_delivery hfrom hu
            · rw [hdelivery]
              exact PassOutput.keys_nodup c events

/-- A crate with the types of `mixedSources`, whose units go where the marker has been written
before. -/
def smallCrate : FileTree :=
  let sources := mixedSources.foldl
    (fun tree (name, text) => tree.put ["src"] name (.file text.toUTF8))
    (FileTree.empty.put [] "src" .directory)
  (sources.put [] "out" .directory).put ["out"] "ReactivePropertyAttribute_g.rs"
    (.file "old".toUTF8)

/-- The marker and a unit of such a crate are written beside each other. -/
theorem deliver_smallCrate {u : SourceUnit} (hkey : u.key = "Ok_Classes_g") :
    (deliver "out" smallCrate [Marker.registered, u]).2
      = .ok ["out/ReactivePropertyAttribute_g.rs", "out/Ok_Classes_g.rs"] := by
  have hmade : smallCrate.makeDirectory "out" = .ok smallCrate := rfl
  have hmarker : unitPath "out" Marker.registered = "out/ReactivePropertyAttribute_g.rs" := by
    decide +kernel
  have hunit : unitPath "out" u = "out/Ok_Classes_g.rs" := by
    rw [unitPath, hkey]
    decide +kernel
  let written := smallCrate.put ["out"] "ReactivePropertyAttribute_g.rs"
    (.file Marker.registered.body.toUTF8)
  have hfirst : smallCrate.write "out/ReactivePropertyAttribute_g.rs" Marker.registered.body.toUTF8
      = .ok written :=
    FileTree.write_eq_ok _ (by decide +kernel) (by decide +kernel) (by decide +kernel)
      (by decide +kernel) (by decide +kernel) (by decide +kernel)
  have hsecond : ∀ bytes, written.write "out/Ok_Classes_g.rs" bytes
      = .ok (written.put ["out"] "Ok_Classes_g.rs" (.file bytes)) := fun bytes =>
    FileTree.write_eq_ok bytes (by decide +kernel) (by decide +kernel) (by decide +kernel)
      (by decide +kernel) (by decide +kernel) (by decide +kernel)
  simp only [deliver, hmade, writeUnits, hmarker, hunit, hfirst, hsecond, Except.map]

theorem run_delivers_smallCrate :
    let build := run smallCrate "." "out"
    ∃ report settings c unit, build.result = .ok report ∧
      report.outputs = ["out/ReactivePropertyAttribute_g.rs", "out/Ok_Classes_g.rs"] ∧
      report.diagnostics.map (·.code) = [.malformedName, .malformedName, .resolution] ∧
      smallCrate.text "out/ReactivePropertyAttribute_g.rs" = .ok "old" ∧
      build.tree.text "out/ReactivePropertyAttribute_g.rs" = .ok Marker.text ∧
      config smallCrate "." = .ok settings ∧
      ((Generator.setUp { config := settings.generator }).generator.execute c {}).delivery.units
        = [Marker.registered, unit] ∧
      build.tree.text "out/Ok_Classes_g.rs" = .ok unit.body := by
  have hmixed : (sources smallCrate ".").toOption.any (fun (settings, c) =>
      settings.generator.eventsName?.any c.isMixed) = true := by decide +kernel
  have hold : smallCrate.text "out/ReactivePropertyAttribute_g.rs" = .ok "old" := by decide +kernel
  obtain ⟨⟨settings, c⟩, hsources, hmixed⟩ := exists_of_any hmixed
  obtain ⟨name, hname, hmixed⟩ := (Option.any_eq_true _ _).mp hmixed
  obtain ⟨unit, d₁, d₂, d₃, hkey, hcodes, -, hdelivery, hpass⟩ :=
    Generator.execute_of_isMixed hname hmixed Marker.registered
  rw [← Generator.after_setUp] at hdelivery hpass
  have hreport := (run_of_ok "out" hsources hpass).2
  rw [hdelivery, deliver_smallCrate hkey] at hreport
  obtain ⟨settings', _, _, c', _, hconfig, -, -, -, -, hmarker, hdelivers⟩ := run_delivers hreport
  obtain ⟨first, rest, hunits, hfirst, hrest⟩ := List.map_eq_cons_iff.mp hdelivers.outputs_eq.symm
  obtain ⟨other, rfl, hother⟩ := List.map_eq_singleton_iff.mp hrest
  rw [hunits, List.head?_cons, Option.some.injEq] at hmarker
  subst hmarker
  have htext := hdelivers.text
  simp only [hunits, List.mem_cons, List.not_mem_nil, or_false, forall_eq_or_imp, forall_eq, hfirst,
    hother] at htext
  exact ⟨_, settings', c', other, hreport, rfl, hcodes, hold, htext.1, hconfig, hunits, htext.2⟩

end Build

end Observable
