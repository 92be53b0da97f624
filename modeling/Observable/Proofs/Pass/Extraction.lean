import Observable.Proofs.Build.Loading
import Observable.Proofs.Field.Shelter
import Observable.Proofs.Output.Independence
/-! A module is the same to the generator with a body and as a file of its own, but for what stands
in front of the body. -/
namespace Observable

namespace Extraction

variable {c c' : Compilation} (e : Extraction c c')

theorem candidates_perm (h : e.passedOver.candidates = []) :
    (c.scan.candidates.map Candidate.unlocated).Perm
    (c'.scan.candidates.map Candidate.unlocated) := by
  have hbag := congrArg Prod.fst e.bag_scan
  rw [Prod.fst_add] at hbag
  have hnone : e.passedOver.bag.1 = 0 := by
    rw [Findings.bag, Findings.unlocated, h]
    rfl
  rw [hnone, add_zero] at hbag
  exact Multiset.coe_eq_coe.mp hbag

/-- With a body there are as many candidates as without it and in front of it. -/
theorem length_candidates :
    c.scan.candidates.length = c'.scan.candidates.length + e.passedOver.candidates.length := by
  have hcard := congrArg (fun bag => bag.1.card) e.bag_scan
  simpa [Findings.bag, Findings.unlocated] using hcard

theorem length_diagnostics :
    c.scan.diagnostics.length = c'.scan.diagnostics.length + e.passedOver.diagnostics.length := by
  have hcard := congrArg (fun bag => bag.2.card) e.bag_scan
  simpa [Findings.bag, Findings.unlocated] using hcard

/-- A pass delivers the same units when no candidate stands in front of the body. -/
theorem units_eq (h : e.passedOver.candidates = [])
    (hnames : (c.scan.candidates.map fun k => (k.owner, k.name)).Nodup) (g : Generator) :
    (g.execute c {}).delivery.units = (g.execute c' {}).delivery.units := by
  have hprepare : g.prepare c = g.prepare c' := by
    simp only [Generator.prepare, e.rootBinds_eq]
  have hbare := (e.candidates_perm h).map Candidate.bare
  rw [List.map_map, List.map_map] at hbare
  have hfun : Candidate.bare ∘ Candidate.unlocated = Candidate.bare :=
    funext Candidate.bare_unlocated
  rw [hfun] at hbare
  exact Generator.units_eq_of_perm hprepare hbare hnames

end Extraction

namespace Generator

/-- The scan finds the same up to order and places, and a pass delivers the same units, when the
body of a module moves to a file of its own. What stands in front of the body is the exception: it
is passed over without the body. In a source text it gives diagnostics at most. -/
theorem execute_extraction {c c' : Compilation} (e : Extraction c c') :
    c.scan.bag = c'.scan.bag + e.passedOver.bag ∧
    (c.scan.bag = c'.scan.bag ↔ e.passedOver = {}) ∧
    ((∃ text, Grammar.readSource text = .ok e.outer.syntaxTree) → e.passedOver.candidates = [] ∧
      ((c.scan.candidates.map fun k => (k.owner, k.name)).Nodup →
        ∀ g : Generator, (g.execute c {}).delivery.units = (g.execute c' {}).delivery.units)) := by
  refine ⟨e.bag_scan, ?_, ?_⟩
  · rw [e.bag_scan, ← Findings.bag_eq_zero_iff, add_eq_left]
  · rintro ⟨text, htext⟩
    have hpassed := e.candidates_passedOver htext
    exact ⟨hpassed, e.units_eq hpassed⟩

/-- A module with an import from above, and the same module as a file of its own. -/
theorem execute_extraction_import :
    ∃ c c', Compilation.ofSources [("a.rs",
        "struct T; mod b \x7b use super::T; struct S \x7b #[crate::ReactiveProperty] _x: T \x7d \x7d")]
          = .ok c ∧
      Compilation.ofSources [("a.rs", "struct T; mod b;"),
        ("a/b.rs", "use super::T; struct S \x7b #[crate::ReactiveProperty] _x: T \x7d")] = .ok c' ∧
      c.scan.candidates.length = 1 ∧ c.scan.bag = c'.scan.bag ∧
      ∀ g : Generator, (g.execute c {}).delivery.units = (g.execute c' {}).delivery.units := by
  have h : (Compilation.ofSources [("a.rs",
        "struct T; mod b \x7b use super::T; struct S \x7b #[crate::ReactiveProperty] _x: T \x7d \x7d")]
      ).toOption.any (fun c => (Compilation.ofSources [("a.rs", "struct T; mod b;"),
        ("a/b.rs", "use super::T; struct S \x7b #[crate::ReactiveProperty] _x: T \x7d")]
      ).toOption.any fun c' => c.extractsLast c' && decide (c.scan.candidates.length = 1 ∧
        c'.scan.candidates.length = 1 ∧ c.scan.diagnostics.length = c'.scan.diagnostics.length ∧
        (c.scan.candidates.map fun k => (k.owner, k.name)).Nodup)) = true := by decide +kernel
  obtain ⟨c, hc, h⟩ := exists_of_any h
  obtain ⟨c', hc', h⟩ := exists_of_any h
  rw [Bool.and_eq_true, decide_eq_true_eq] at h
  obtain ⟨hextracts, hlength, hlength', hdiagnostics, hnames⟩ := h
  obtain ⟨e⟩ := Extraction.nonempty_of_extractsLast hextracts
  have htext := (Compilation.fromText_of_ofSources hc e.outer
    (e.files.mem_iff.mpr List.mem_cons_self)).text
  obtain ⟨hbag, hsame, hunits⟩ := execute_extraction e
  have hcandidates := e.length_candidates
  have hdiagnostics' := e.length_diagnostics
  have hnone : e.passedOver = {} := by
    refine Findings.ext_iff.mpr ⟨?_, ?_⟩ <;> refine List.eq_nil_of_length_eq_zero ?_ <;> omega
  exact ⟨c, c', hc, hc', hlength, hsame.mpr hnone, (hunits htext).2 hnames⟩

end Generator

/-- A module whose attribute holds a type with a marked field: the scan tells of the field when the
module has a body, and passes over it when the body is a file of its own. -/
theorem Compilation.extraction_passes_over_attribute :
    ∃ c c', ofSources [("lib.rs",
        "#[a = \x7b struct S \x7b #[ReactiveProperty] _x: u8 \x7d \x7d] mod m \x7b\x7d")] = .ok c ∧
      ofSources
        [("lib.rs", "#[a = \x7b struct S \x7b #[ReactiveProperty] _x: u8 \x7d \x7d] mod m;"),
        ("m.rs", "")] = .ok c' ∧
      Nonempty (Extraction c c') ∧ c.scan.bag ≠ c'.scan.bag := by
  have h : (ofSources [("lib.rs",
        "#[a = \x7b struct S \x7b #[ReactiveProperty] _x: u8 \x7d \x7d] mod m \x7b\x7d")]
      ).toOption.any (fun c => (ofSources [("lib.rs",
        "#[a = \x7b struct S \x7b #[ReactiveProperty] _x: u8 \x7d \x7d] mod m;"), ("m.rs", "")]
      ).toOption.any fun c' => c.extractsLast c' && decide (c.scan.diagnostics.length = 1 ∧
        c'.scan.diagnostics.length = 0)) = true := by decide +kernel
  obtain ⟨c, hc, h⟩ := exists_of_any h
  obtain ⟨c', hc', h⟩ := exists_of_any h
  rw [Bool.and_eq_true, decide_eq_true_eq] at h
  obtain ⟨hextracts, hone, hnone⟩ := h
  refine ⟨c, c', hc, hc', Extraction.nonempty_of_extractsLast hextracts, fun hbag => ?_⟩
  have hlength := congrArg (fun bag => bag.2.card) hbag
  simp only [Findings.bag, Findings.unlocated, Multiset.coe_card, List.length_map] at hlength
  omega

end Observable
