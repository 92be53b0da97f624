import Observable.Proofs.Field.Places
import Observable.Proofs.Field.Scan
import Observable.Proofs.Output.Members
import Observable.Proofs.Output.Placeless
import Observable.Proofs.Pass.Cancellation
/-! The units of a pass depend on the marked fields alone: on their owners, their names and how
their types are spelled, and neither on their order nor on where they stand. -/
namespace Observable

/-- A candidate with nothing but its owner, its name and the spelling of its type. -/
def Candidate.bare (c : Candidate) : Candidate :=
  { owner := c.owner, name := c.name, type := unplacedTokens c.type
    accessibility := .confined, location := ⟨"", .start⟩, argument := none }

theorem Candidate.bare_unlocated (c : Candidate) : c.unlocated.bare = c.bare := by
  simp only [unlocated, bare, unplacedTokens_unplacedTokens]

/-- A descriptor whose type stands nowhere. -/
def Descriptor.bare (d : Descriptor) : Descriptor := { d with type := unplacedTokens d.type }

def Derived.bare (d : Derived) : Derived := ⟨d.candidate.bare, d.descriptor.bare⟩

def Group.bare (g : Group) : Group := ⟨g.owner, g.fields.map Candidate.bare⟩

namespace Group

theorem owners_bare (candidates : List Candidate) :
    owners (candidates.map Candidate.bare) = owners candidates := by
  rw [owners, owners, List.map_map]
  rfl

theorem ofOwner_bare (candidates : List Candidate) (o : Owner) :
    ofOwner (candidates.map Candidate.bare) o = (ofOwner candidates o).bare := by
  rw [ofOwner, bare, ofOwner, List.filter_map, sorted_map]
  rfl

theorem ofCandidates_bare (candidates : List Candidate) :
    ofCandidates (candidates.map Candidate.bare) = (ofCandidates candidates).map bare := by
  rw [ofCandidates, owners_bare, ofCandidates, List.map_map]
  exact List.map_congr_left fun o _ => ofOwner_bare candidates o

theorem keyed_bare (candidates : List Candidate) :
    keyed (candidates.map Candidate.bare) = (keyed candidates).map fun p => (p.1.bare, p.2) := by
  have hkeys : keys ((ofCandidates candidates).map bare) = keys (ofCandidates candidates) := by
    rw [keys, keys, List.map_map]
    rfl
  rw [keyed, ofCandidates_bare, hkeys, List.zip_map_left, keyed]
  rfl

/-- The order of some candidates does not show in their groups when fields of one owner have
different names. -/
theorem keyed_eq_of_perm {candidates candidates' : List Candidate}
    (h : candidates.Perm candidates')
    (hnames : (candidates.map fun c => (c.owner, c.name)).Nodup) :
    keyed candidates = keyed candidates' := by
  rw [keyed, keyed, ofCandidates_eq_of_perm h hnames]

end Group

namespace Derived

/-- The descriptor of a field depends on its type in nothing but that type. -/
theorem ofCandidate_bare (c : Candidate) :
    ofCandidate c.bare = (ofCandidate c).map Derived.bare := by
  simp only [ofCandidate, Descriptor.ofField, Candidate.bare]
  cases Property.nameOf c.name with
  | error e => rfl
  | ok property =>
    simp only [bind, Except.bind]
    split <;> rfl

theorem rivals_bare (all : List Derived) (name identifier : String) :
    rivals (all.map Derived.bare) name identifier = rivals all name identifier := by
  rw [rivals, rivals, List.filter_map, List.map_map]
  rfl

theorem collision?_bare (all : List Derived) (d : Derived) :
    collision? (all.map Derived.bare) d.bare = collision? all d := by
  simp only [collision?, rivals_bare]
  rfl

end Derived

namespace Emission

theorem derived_bare (g : Group) : derived g.bare = (derived g).map Derived.bare := by
  rw [derived, Group.bare, List.filterMap_map, derived, List.map_filterMap]
  refine List.filterMap_congr fun c _ => ?_
  rw [Function.comp_apply, Derived.ofCandidate_bare]
  cases Derived.ofCandidate c <;> rfl

theorem survivors_bare (all : List Derived) :
    survivors (all.map Derived.bare) = (survivors all).map Derived.bare := by
  rw [survivors, survivors, List.filter_map]
  refine congrArg _ (List.filter_congr fun d _ => ?_)
  rw [Function.comp_apply, Derived.collision?_bare]

end Emission

/-- What is generated is spelled alike wherever the types of fields stand. -/
theorem Augmentation.tokens_bare (owner : OwnerNames) (events : Token) (ds : List Descriptor) :
    unplacedTokens (Augmentation.ofProperties owner events (ds.map Descriptor.bare)).tokens
      = unplacedTokens (Augmentation.ofProperties owner events ds).tokens := by
  have hbare : (ds.map Descriptor.bare).map Descriptor.unplaced = ds.map Descriptor.unplaced := by
    rw [List.map_map]
    refine List.map_congr_left fun d _ => ?_
    simp only [Function.comp_apply, Descriptor.unplaced, Descriptor.bare,
      unplacedTokens_unplacedTokens]
  rw [← unplaced_tokens, ← unplaced_tokens, hbare]

/-- The unit of a group depends on the names and the types of its fields alone. -/
theorem Emission.unit_bare (g : Group) (key : String) (events : Token) :
    (ofGroup g.bare key events).unit = (ofGroup g key events).unit := by
  have howner : g.bare.owner = g.owner := rfl
  simp only [ofGroup, derived_bare, survivors_bare, List.isEmpty_map, List.map_map, howner]
  split
  · rfl
  · cases OwnerNames.ofOwner? g.owner with
    | none => rfl
    | some owner =>
      let ds := (survivors (derived g)).map (·.descriptor)
      have hproperties : (survivors (derived g)).map ((·.descriptor) ∘ Derived.bare)
          = ds.map Descriptor.bare := by
        rw [List.map_map]
        rfl
      have htext : spacedTokens (Augmentation.ofProperties owner events
            (ds.map Descriptor.bare)).tokens
          = spacedTokens (Augmentation.ofProperties owner events ds).tokens := by
        rw [← spacedTokens_unplaced, Augmentation.tokens_bare, spacedTokens_unplaced]
      simp only [hproperties, htext]
      rfl

theorem GroupOutcome.unit?_ofGroup (events : Token) (g : Group) (key : String) :
    (ofGroup events g key).unit? = (Emission.ofGroup g key events).unit.bind fun u =>
      (Output.canonical key u.body false).toOption.map fun body => { u with body } := by
  rw [ofGroup]
  cases (Emission.ofGroup g key events).unit with
  | none => rfl
  | some u =>
    cases hbody : Output.canonical key u.body false <;>
      simp only [hbody, Option.bind_some, Except.toOption, unit?, Option.map]

theorem GroupOutcome.unit?_bare (events : Token) (g : Group) (key : String) :
    (ofGroup events g.bare key).unit? = (ofGroup events g key).unit? := by
  rw [unit?_ofGroup, unit?_ofGroup, Emission.unit_bare]

theorem PassOutput.units_bare (c : Compilation) (events : Token) :
    (ofCompilation c events).units
      = (Group.keyed (c.scan.candidates.map Candidate.bare)).filterMap fun p =>
          (GroupOutcome.ofGroup events p.1 p.2).unit? := by
  rw [Group.keyed_bare, List.filterMap_map, units, ofCompilation, List.filterMap_map]
  refine List.filterMap_congr fun p _ => ?_
  exact (GroupOutcome.unit?_bare events p.1 p.2).symm

/-- The order of the files shows in nothing but the order of what is found. -/
theorem Compilation.candidates_perm {c c' : Compilation} (h : c.files.Perm c'.files) :
    c.scan.candidates.Perm c'.scan.candidates := by
  rw [scan, scan, Findings.candidates_join, Findings.candidates_join]
  exact (h.map _).flatMap_right _

namespace Generator

theorem units_of_prepare {g : Generator} {c : Compilation} {events : Token} {marker : SourceUnit}
    (h : g.prepare c = .ok (events, marker)) :
    (g.execute c {}).delivery.units = marker :: (PassOutput.ofCompilation c events).units := by
  rw [execute_of_never h (k := {}) rfl fun _ _ _ _ => rfl]
  rfl

/-- Passes that are prepared alike deliver the same units if the scans find the same fields up to
order, and no owner has two fields of one name. -/
theorem units_eq_of_perm {g g' : Generator} {c c' : Compilation}
    (hprepare : g.prepare c = g'.prepare c')
    (hfields : (c.scan.candidates.map Candidate.bare).Perm (c'.scan.candidates.map Candidate.bare))
    (hnames : (c.scan.candidates.map fun k => (k.owner, k.name)).Nodup) :
    (g.execute c {}).delivery.units = (g'.execute c' {}).delivery.units := by
  cases h : g.prepare c with
  | error e =>
    have h' := hprepare ▸ h
    simp only [execute, h, h']
  | ok prepared =>
    obtain ⟨events, marker⟩ := prepared
    have hdistinct : ((c.scan.candidates.map Candidate.bare).map fun k =>
        (k.owner, k.name)).Nodup := by
      rw [List.map_map]
      exact hnames
    rw [units_of_prepare h, units_of_prepare (hprepare ▸ h), PassOutput.units_bare,
      PassOutput.units_bare, Group.keyed_eq_of_perm hfields hdistinct]

/-- Two passes of one configuration deliver the same units, in the same order, if the scans find the
same fields up to order: the same owners, names and spellings of types. No owner may have two fields
of one name. -/
theorem execute_units_eq (g g' : Generator) (c c' : Compilation) (hconfig : g.config = g'.config)
    (hmarker : g.stage.marker? = g'.stage.marker?) (hroot : c.rootBinds Marker.name = false)
    (hroot' : c'.rootBinds Marker.name = false)
    (hfields : (c.scan.candidates.map fun k => (k.owner, k.name, unplacedTokens k.type)).Perm
      (c'.scan.candidates.map fun k => (k.owner, k.name, unplacedTokens k.type)))
    (hnames : (c.scan.candidates.map fun k => (k.owner, k.name)).Nodup) :
    (g.execute c {}).delivery.units = (g'.execute c' {}).delivery.units := by
  have hprepare : g.prepare c = g'.prepare c' := by
    have hfresh : ∀ g : Generator, g.state = .uninitialized ↔ g.stage.marker? = none := by
      intro g
      rw [state]
      cases g.stage <;> simp [Stage.state, Stage.marker?]
    simp only [prepare, hroot, hroot', hconfig, hmarker, hfresh]
  let rebuild (p : Owner × String × List Token) : Candidate :=
    { owner := p.1, name := p.2.1, type := p.2.2, accessibility := .confined
      location := ⟨"", .start⟩, argument := none }
  refine units_eq_of_perm hprepare ?_ hnames
  have hall := hfields.map rebuild
  rwa [List.map_map, List.map_map] at hall

/-- A crate of two files, and the same files the other way round. -/
theorem execute_units_reverse :
    let g : Generator := { config := {}, stage := .registered ⟨Marker.key, none, ""⟩ }
    ∃ c, Compilation.ofSources [("a.rs", "struct S \x7b #[ReactiveProperty] _x: u8 \x7d"),
        ("b.rs", "struct S \x7b #[ReactiveProperty] _x: u8, #[ReactiveProperty] _y: T \x7d")]
          = .ok c ∧
      c.scan.candidates.length = 3 ∧
      (g.execute c {}).delivery.units = (g.execute ⟨c.files.reverse⟩ {}).delivery.units := by
  intro g
  have h : (match Compilation.ofSources [("a.rs", "struct S \x7b #[ReactiveProperty] _x: u8 \x7d"),
        ("b.rs", "struct S \x7b #[ReactiveProperty] _x: u8, #[ReactiveProperty] _y: T \x7d")] with
      | .ok c => decide (c.scan.candidates.length = 3 ∧ c.rootBinds Marker.name = false ∧
          Compilation.rootBinds ⟨c.files.reverse⟩ Marker.name = false ∧
          (c.scan.candidates.map fun k => (k.owner, k.name)).Nodup)
      | .error _ => false) = true := by decide +kernel
  split at h
  · rename_i c hc
    obtain ⟨hlength, hroot, hroot', hnames⟩ := of_decide_eq_true h
    have hperm : c.scan.candidates.Perm (Compilation.scan ⟨c.files.reverse⟩).candidates :=
      Compilation.candidates_perm (List.reverse_perm _).symm
    exact ⟨c, hc, hlength, execute_units_eq g g c _ rfl rfl hroot hroot' (hperm.map _) hnames⟩
  · cases h

end Generator

end Observable
