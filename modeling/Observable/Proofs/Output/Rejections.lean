import Observable.Proofs.Output.Members
/-! What becomes of the fields of a group: which of them are left out and why, and what blocks the
unit of a group. -/
namespace Observable

theorem filterMap_append_perm {α β : Type} {f g : α → Option β}
    (h : ∀ a, f a = none ∨ g a = none) (l : List α) :
    (l.filterMap f ++ l.filterMap g).Perm (l.filterMap fun a => (f a).or (g a)) := by
  induction l with
  | nil => exact .nil
  | cons a l ih =>
    rcases h a with hf | hg
    · cases hg : g a with
      | none => simpa [List.filterMap_cons, hf, hg] using ih
      | some b => simpa [List.filterMap_cons, hf, hg] using List.perm_middle.trans (ih.cons b)
    · cases hf : f a with
      | none => simpa [List.filterMap_cons, hf, hg] using ih
      | some b => simpa [List.filterMap_cons, hf, hg] using ih.cons b

namespace Emission

/-- Why a field of a group is left out, if it is: it has no descriptor, or shares an identifier with
a field of another name. -/
def rejection? (g : Group) (c : Candidate) : Option NameError :=
  match Derived.ofCandidate c with
  | .error e => some e
  | .ok d => Derived.collision? (derived g) d

/-- The problems of the fields that are left out, one for each. -/
def rejections (key : String) (g : Group) : List Diagnostic :=
  g.fields.filterMap fun c => (rejection? g c).map (malformed key c)

theorem rejections_perm (key : String) (g : Group) :
    (underivable key g ++ collisions key (derived g)).Perm (rejections key g) := by
  let collided (c : Candidate) : Option Diagnostic :=
    (Derived.ofCandidate c).toOption.bind fun d =>
      (Derived.collision? (derived g) d).map (malformed key d.candidate)
  have hcollisions : collisions key (derived g) = g.fields.filterMap collided := by
    rw [collisions]
    conv_lhs => arg 2; rw [derived]
    rw [List.filterMap_filterMap]
  have hone : ∀ c, (match Derived.ofCandidate c with
      | .error e => some (malformed key c e)
      | .ok _ => none) = none ∨ collided c = none := by
    intro c
    simp only [collided]
    cases Derived.ofCandidate c with
    | error e => exact .inr rfl
    | ok d => exact .inl rfl
  rw [hcollisions, underivable, rejections]
  refine (filterMap_append_perm hone _).trans (.of_eq ?_)
  refine List.filterMap_congr fun c _ => ?_
  simp only [collided, rejection?]
  cases hd : Derived.ofCandidate c with
  | error e => rfl
  | ok d =>
    obtain ⟨rfl, -⟩ := Derived.ofCandidate_eq_ok hd
    rfl

/-- A field is kept exactly when nothing rejects it. -/
theorem map_candidate_survivors (g : Group) :
    (survivors (derived g)).map (·.candidate)
      = g.fields.filter fun c => (rejection? g c).isNone := by
  have hkept : ∀ (all : List Derived) (fields : List Candidate),
      ((fields.filterMap fun c => (Derived.ofCandidate c).toOption).filter
          fun d => (Derived.collision? all d).isNone).map (·.candidate)
        = fields.filter fun c => (match Derived.ofCandidate c with
            | .error e => some e
            | .ok d => Derived.collision? all d).isNone := by
    intro all fields
    induction fields with
    | nil => rfl
    | cons c fields ih =>
      rw [List.filter_cons]
      cases hd : Derived.ofCandidate c with
      | error e =>
        rw [List.filterMap_cons_none (by rw [hd]; rfl)]
        exact ih
      | ok d =>
        obtain ⟨rfl, -⟩ := Derived.ofCandidate_eq_ok hd
        rw [List.filterMap_cons_some (by rw [hd]; rfl), List.filter_cons, ← ih]
        split <;> rfl
  exact hkept (derived g) g.fields

theorem code_of_mem_problems {key : String} {g : Group} {d : Diagnostic}
    (h : d ∈ underivable key g ++ collisions key (derived g)) :
    d.code = .malformedName ∧ d.unit = some key := by
  rw [(rejections_perm key g).mem_iff, rejections, List.mem_filterMap] at h
  obtain ⟨c, -, hd⟩ := h
  obtain ⟨e, -, rfl⟩ := Option.map_eq_some_iff.mp hd
  exact ⟨rfl, rfl⟩

theorem ofGroup_cases (g : Group) (key : String) (events : Token) :
    let e := ofGroup g key events
    let problems := underivable key g ++ collisions key (derived g)
    (survivors (derived g) = [] ∧ e.unit = none ∧ e.diagnostics = problems) ∨
    survivors (derived g) ≠ [] ∧
      ((e.unit = none ∧ e.diagnostics = problems ++ [unnamable key g.owner]) ∨
        e.unit.isSome ∧ e.diagnostics = problems) := by
  simp only [ofGroup]
  by_cases hnone : survivors (derived g) = []
  · exact .inl (by simp [hnone])
  · refine .inr ⟨hnone, ?_⟩
    rw [if_neg (by simpa using hnone)]
    cases OwnerNames.ofOwner? g.owner with
    | none => exact .inl ⟨rfl, rfl⟩
    | some owner => exact .inr ⟨rfl, rfl⟩

end Emission

/-- Whether a problem is about a whole unit: its owner has no name, or its text cannot be read. -/
def Diagnostic.blocks (key : String) (d : Diagnostic) : Bool :=
  d.unit = some key && (d.code = .resolution || d.code = .badSyntax)

namespace GroupOutcome

/-- What becomes of a group: it has no unit when all its fields are left out, or when one problem
blocks the unit; else it has its unit, and no problems but those of its fields. -/
theorem ofGroup_cases (events : Token) (g : Group) (key : String) :
    let o := ofGroup events g key
    let problems := Emission.underivable key g ++ Emission.collisions key (Emission.derived g)
    let kept := Emission.survivors (Emission.derived g)
    (kept = [] ∧ o.unit? = none ∧ o.diagnostics = problems) ∨
    kept ≠ [] ∧
      ((o.unit? = none ∧ ∃ d, d.blocks key = true ∧ o.diagnostics = problems ++ [d]) ∨
        ∃ u, o.unit? = some u ∧ u.key = key ∧ u.Augments g events ∧ o.diagnostics = problems) := by
  intro o problems kept
  rcases Emission.ofGroup_cases g key events with
    ⟨hnone, hunit, hproblems⟩ | ⟨hkept, ⟨hunit, hproblems⟩ | ⟨hunit, hproblems⟩⟩
  · refine .inl ⟨hnone, ?_⟩
    simp only [o, ofGroup, hunit]
    exact ⟨rfl, hproblems⟩
  · refine .inr ⟨hkept, .inl ?_⟩
    simp only [o, ofGroup, hunit]
    exact ⟨rfl, Emission.unnamable key g.owner, by simp [Diagnostic.blocks, Emission.unnamable],
      hproblems⟩
  · refine .inr ⟨hkept, ?_⟩
    obtain ⟨u, hu⟩ := Option.isSome_iff_exists.mp hunit
    cases hbody : Output.canonical key u.body false with
    | error e =>
      have ho : o = rejected ((Emission.ofGroup g key events).diagnostics
          ++ [unreadable key e]) := by
        simp only [o, ofGroup, hu, hbody]
      rw [ho]
      exact .inl ⟨rfl, unreadable key e, by simp [Diagnostic.blocks, unreadable],
        congrArg (· ++ [_]) hproblems⟩
    | ok body =>
      have ho : o = emitted { u with body } (Emission.ofGroup g key events).properties
          (Emission.ofGroup g key events).diagnostics := by
        simp only [o, ofGroup, hu, hbody]
      have hunit : o.unit? = some { u with body } := by rw [ho]; rfl
      have hkey : u.key = key := Emission.key_of_unit hu
      exact .inr ⟨_, hunit, hkey, augments_of_unit? hunit, by rw [ho]; exact hproblems⟩

theorem key_of_unit? {events : Token} {g : Group} {key : String} {u : SourceUnit}
    (h : (ofGroup events g key).unit? = some u) : u.key = key := by
  rcases ofGroup_cases events g key with ⟨-, hnone, -⟩ | ⟨-, ⟨hnone, -⟩ | ⟨u', hu, hkey, -⟩⟩
  · cases hnone.symm.trans h
  · cases hnone.symm.trans h
  · rw [← hkey, Option.some.inj (hu.symm.trans h)]

/-- The problems of a group that are about names are those of the fields that are left out. -/
theorem malformed_perm (events : Token) (g : Group) (key : String) :
    ((ofGroup events g key).diagnostics.filter (·.code = .malformedName)).Perm
      (Emission.rejections key g) := by
  have hproblems : (Emission.underivable key g ++ Emission.collisions key
    (Emission.derived g)).filter
      (·.code = .malformedName)
        = Emission.underivable key g ++ Emission.collisions key (Emission.derived g) :=
    List.filter_eq_self.mpr fun d hd => decide_eq_true (Emission.code_of_mem_problems hd).1
  rcases ofGroup_cases events g key with
    ⟨-, -, h⟩ | ⟨-, ⟨-, d, hd, h⟩ | ⟨u, -, -, -, h⟩⟩
  · rw [h, hproblems]
    exact Emission.rejections_perm key g
  · have hother : d.code ≠ .malformedName := by
      intro hcode
      simp [Diagnostic.blocks, hcode] at hd
    rw [h, List.filter_append, hproblems, List.filter_cons_of_neg (by simpa using hother),
      List.filter_nil, List.append_nil]
    exact Emission.rejections_perm key g
  · rw [h, hproblems]
    exact Emission.rejections_perm key g

/-- The problems of a group are errors about its unit. -/
theorem unit_of_mem_diagnostics {events : Token} {g : Group} {key : String} {d : Diagnostic}
    (hd : d ∈ (ofGroup events g key).diagnostics) : d.unit = some key ∧ d.isError = true := by
  have hproblem : d ∈ Emission.underivable key g ++ Emission.collisions key (Emission.derived g) →
      d.unit = some key ∧ d.isError = true := by
    intro h
    obtain ⟨hcode, hunit⟩ := Emission.code_of_mem_problems h
    exact ⟨hunit, by simp [Diagnostic.isError, Diagnostic.severity, hcode, DiagnosticCode.severity]⟩
  rcases ofGroup_cases events g key with
    ⟨-, -, h⟩ | ⟨-, ⟨-, d', hd', h⟩ | ⟨u, -, -, -, h⟩⟩
  · exact hproblem (h ▸ hd)
  · rw [h, List.mem_append, List.mem_singleton] at hd
    rcases hd with hd | rfl
    · exact hproblem hd
    · rw [Diagnostic.blocks, Bool.and_eq_true, Bool.or_eq_true, decide_eq_true_iff,
        decide_eq_true_iff, decide_eq_true_iff] at hd'
      refine ⟨hd'.1, ?_⟩
      rcases hd'.2 with hcode | hcode <;>
        simp [Diagnostic.isError, Diagnostic.severity, hcode, DiagnosticCode.severity]
  · exact hproblem (h ▸ hd)

/-- A group with a field that is kept has its unit or one problem that blocks it. -/
theorem blocks_ofGroup (events : Token) (g : Group) (key : String) :
    let o := ofGroup events g key
    (Emission.survivors (Emission.derived g) = [] ∧ o.unit? = none) ∨
    (o.unit?.isSome ∧ o.diagnostics.filter (·.blocks key) = []) ∨
    (o.unit? = none ∧ ∃ d, o.diagnostics.filter (·.blocks key) = [d]) := by
  have hnone : (Emission.underivable key g ++ Emission.collisions key (Emission.derived g)).filter
      (·.blocks key) = [] := by
    refine List.filter_eq_nil_iff.mpr fun d hd => ?_
    simp [Diagnostic.blocks, (Emission.code_of_mem_problems hd).1]
  intro o
  rcases ofGroup_cases events g key with
    ⟨hkept, hunit, -⟩ | ⟨-, ⟨hunit, d, hd, h⟩ | ⟨u, hunit, -, -, h⟩⟩
  · exact .inl ⟨hkept, hunit⟩
  · refine .inr (.inr ⟨hunit, d, ?_⟩)
    rw [h, List.filter_append, hnone, List.filter_cons_of_pos hd, List.filter_nil, List.nil_append]
  · refine .inr (.inl ⟨Option.isSome_iff_exists.mpr ⟨u, hunit⟩, ?_⟩)
    rw [h, hnone]

end GroupOutcome

end Observable
