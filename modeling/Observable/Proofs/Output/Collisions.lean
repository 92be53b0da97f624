import Observable.Proofs.Output.Members
import Observable.Proofs.Text.Bytes
/-! Fields that generate a name in common are all left out, and no others are. -/
namespace Observable

namespace Derived

/-- The first identifier of a field that another one generates too, and the name of such a field:
the least one, by its bytes. -/
structure FirstClash (all : List Derived) (d : Derived) (identifier other : String) : Prop where
  first : ∃ before after, d.descriptor.identifiers = before ++ identifier :: after ∧
    ∀ i ∈ before, ∀ d' ∈ all, d' ≠ d → i ∉ d'.descriptor.identifiers
  shared : ∃ d' ∈ all, d' ≠ d ∧ identifier ∈ d'.descriptor.identifiers ∧ d'.candidate.name = other
  least : ∀ d' ∈ all, d' ≠ d → identifier ∈ d'.descriptor.identifiers →
    Text.bytes other ≤ Text.bytes d'.candidate.name

theorem rivals_eq_nil {all : List Derived} {name identifier : String} :
    rivals all name identifier = [] ↔
      ∀ d ∈ all, d.candidate.name ≠ name → identifier ∉ d.descriptor.identifiers := by
  rw [List.eq_nil_iff_forall_not_mem]
  constructor
  · intro h d hd hne hmem
    exact h _ (mem_rivals.mpr ⟨d, hd, hmem, hne, rfl⟩)
  · intro h other hother
    obtain ⟨d, hd, hmem, hne, -⟩ := mem_rivals.mp hother
    exact h d hd hne hmem

theorem bytes_head_rivals_le {all : List Derived} {name identifier other : String}
    {others : List String} (h : rivals all name identifier = other :: others) {d : Derived}
    (hd : d ∈ all) (hne : d.candidate.name ≠ name) (hmem : identifier ∈ d.descriptor.identifiers) :
    Text.bytes other ≤ Text.bytes d.candidate.name := by
  have hrival : d.candidate.name ∈ other :: others := h ▸ mem_rivals.mpr ⟨d, hd, hmem, hne, rfl⟩
  have hsorted : (other :: others).Pairwise fun a b => (compare a b).isLE :=
    h ▸ @sorted_pairwise String compare _ _
  rcases List.mem_cons.mp hrival with heq | hlater
  · rw [heq]
    exact List.le_refl _
  · exact Text.isLE_compare_iff.mp ((List.pairwise_cons.mp hsorted).1 _ hlater)

/-- The collision that is reported, when names tell the fields apart. -/
theorem collision?_eq_some {all : List Derived} {d : Derived} {e : NameError}
    (hname : ∀ d' ∈ all, d'.candidate.name ≠ d.candidate.name ↔ d' ≠ d)
    (h : collision? all d = some e) :
    ∃ identifier other, FirstClash all d identifier other ∧
      e = .collision d.candidate.name other identifier := by
  obtain ⟨before, identifier, after, hids, hfound, hbefore⟩ := List.findSome?_eq_some_iff.mp h
  obtain ⟨other, hhead, rfl⟩ := Option.map_eq_some_iff.mp hfound
  obtain ⟨others, hrivals⟩ := List.head?_eq_some_iff.mp hhead
  obtain ⟨d', hd', hmem, hne, hother⟩ :=
    mem_rivals.mp (hrivals ▸ List.mem_cons_self : other ∈ rivals all d.candidate.name identifier)
  refine ⟨identifier, other, ⟨⟨before, after, hids, fun i hi d₁ hd₁ hne₁ => ?_⟩,
    ⟨d', hd', (hname d' hd').mp hne, hmem, hother⟩, fun d₁ hd₁ hne₁ hmem₁ => ?_⟩, rfl⟩
  · have hnone : rivals all d.candidate.name i = [] :=
      List.head?_eq_none_iff.mp (Option.map_eq_none_iff.mp (hbefore i hi))
    exact rivals_eq_nil.mp hnone d₁ hd₁ ((hname d₁ hd₁).mpr hne₁)
  · exact bytes_head_rivals_le hrivals hd₁ ((hname d₁ hd₁).mpr hne₁) hmem₁

/-- A collision depends on which fields there are, and not on their order. -/
theorem isNone_collision?_perm {all all' : List Derived} (h : all.Perm all') (d : Derived) :
    (collision? all d).isNone = (collision? all' d).isNone := by
  rw [Bool.eq_iff_iff, Option.isNone_iff_eq_none, Option.isNone_iff_eq_none, collision?_eq_none,
    collision?_eq_none]
  simp only [h.mem_iff]

end Derived

namespace Descriptor

theorem nameOf_ne_collision (name field other identifier : String) :
    Property.nameOf name ≠ .error (.collision field other identifier) := by
  unfold Property.nameOf
  split
  · dsimp only
    split_ifs <;> simp
  · simp

/-- A field that has no descriptor is not said to collide. -/
theorem ofField_ne_collision (name : String) (type : List Token) (field other identifier : String) :
    ofField name type ≠ .error (.collision field other identifier) := by
  intro h
  unfold ofField at h
  cases hname : Property.nameOf name with
  | error e =>
    have he : e = .collision field other identifier := by
      simpa [hname, bind, Except.bind] using h
    exact nameOf_ne_collision name field other identifier (he ▸ hname)
  | ok property =>
    simp only [hname, bind, Except.bind] at h
    split at h <;> cases h

end Descriptor

namespace Emission

theorem derived_names_sublist (fields : List Candidate) :
    ((fields.filterMap fun c => (Derived.ofCandidate c).toOption).map (·.candidate.name)).Sublist
      (fields.map (·.name)) := by
  induction fields with
  | nil => exact .slnil
  | cons c fields ih =>
    cases hc : Derived.ofCandidate c with
    | error e =>
      rw [List.filterMap_cons_none (by rw [hc]; rfl)]
      exact ih.cons _
    | ok d =>
      rw [List.filterMap_cons_some (by rw [hc]; rfl), List.map_cons, List.map_cons,
        (Derived.ofCandidate_eq_ok hc).1]
      exact ih.cons_cons _

theorem survivors_perm {all all' : List Derived} (h : all.Perm all') :
    (survivors all).Perm (survivors all') := by
  have hsame : survivors all = all.filter fun d => (Derived.collision? all' d).isNone :=
    List.filter_congr fun d _ => Derived.isNone_collision?_perm h d
  rw [hsame]
  exact h.filter _

variable {g : Group}

/-- Names that differ tell derived fields apart. -/
theorem name_ne_iff (hnames : (g.fields.map (·.name)).Nodup) {d d' : Derived}
    (hd : d ∈ derived g) (hd' : d' ∈ derived g) :
    d'.candidate.name ≠ d.candidate.name ↔ d' ≠ d := by
  have hnodup : ((derived g).map (·.candidate.name)).Nodup :=
    hnames.sublist (derived_names_sublist g.fields)
  refine not_congr ⟨fun heq => ?_, fun heq => by rw [heq]⟩
  exact List.inj_on_of_nodup_map hnodup hd' hd heq

theorem mem_survivors_iff (hnames : (g.fields.map (·.name)).Nodup) {d : Derived}
    (hd : d ∈ derived g) :
    d ∈ survivors (derived g) ↔
      ∀ d' ∈ derived g, d' ≠ d → d.descriptor.identifiers.Disjoint d'.descriptor.identifiers := by
  rw [survivors, List.mem_filter, Option.isNone_iff_eq_none, Derived.collision?_eq_none]
  constructor
  · intro h d' hd' hne
    exact h.2 d' hd' ((name_ne_iff hnames hd hd').mpr hne)
  · intro h
    exact ⟨hd, fun d' hd' hne => h d' hd' ((name_ne_iff hnames hd hd').mp hne)⟩

/-- The fields that collide with another one. -/
def dropped (all : List Derived) : List Derived :=
  all.filter fun d => !(Derived.collision? all d).isNone

theorem survivors_append_dropped (all : List Derived) :
    (survivors all ++ dropped all).Perm all :=
  List.filter_append_perm _ _

/-- Each dropped field is reported once, with its first clash. -/
theorem collisions_forall₂ (hnames : (g.fields.map (·.name)).Nodup) (key : String) :
    List.Forall₂ (fun d report => ∃ identifier other,
        Derived.FirstClash (derived g) d identifier other ∧
        report = malformed key d.candidate (.collision d.candidate.name other identifier))
      (dropped (derived g)) (collisions key (derived g)) := by
  have hpart : ∀ part : List Derived, part ⊆ derived g →
      List.Forall₂ (fun d report => ∃ identifier other,
          Derived.FirstClash (derived g) d identifier other ∧
          report = malformed key d.candidate (.collision d.candidate.name other identifier))
        (part.filter fun d => !(Derived.collision? (derived g) d).isNone)
        (part.filterMap fun d =>
          (Derived.collision? (derived g) d).map (malformed key d.candidate)) := by
    intro part hsub
    induction part with
    | nil => exact .nil
    | cons d part ih =>
      obtain ⟨hd, hsub⟩ := List.cons_subset.mp hsub
      cases hcollision : Derived.collision? (derived g) d with
      | none =>
        rw [List.filter_cons_of_neg (by simp [hcollision]),
          List.filterMap_cons_none (by simp [hcollision])]
        exact ih hsub
      | some e =>
        obtain ⟨identifier, other, hclash, rfl⟩ :=
          Derived.collision?_eq_some (fun d' hd' => name_ne_iff hnames hd hd') hcollision
        rw [List.filter_cons_of_pos (by simp [hcollision]),
          List.filterMap_cons_some (by rw [hcollision]; rfl)]
        exact .cons ⟨identifier, other, hclash, rfl⟩ (ih hsub)
  exact hpart (derived g) (List.Subset.refl _)

theorem ofGroup_eq {owner : OwnerNames} (howner : OwnerNames.ofOwner? g.owner = some owner)
    (key : String) (events : Token) :
    ofGroup g key events =
      { unit := if (survivors (derived g)).isEmpty then none
          else some ⟨key, g.owner.enclosing?, spacedTokens (augmentation g owner events).tokens⟩
        properties := (survivors (derived g)).length
        diagnostics := underivable key g ++ collisions key (derived g) } := by
  simp only [ofGroup, howner]
  split
  · rename_i hempty
    simp [List.isEmpty_iff.mp hempty]
  · simp [augmentation]

/-- A problem of a field without a descriptor is not a collision. -/
theorem mem_underivable {key : String} {report : Diagnostic} (h : report ∈ underivable key g) :
    ∃ c ∈ g.fields, ∃ e, Derived.ofCandidate c = .error e ∧ report = malformed key c e ∧
      ∀ field other identifier, e ≠ .collision field other identifier := by
  obtain ⟨c, hc, hreport⟩ := List.mem_filterMap.mp h
  cases hderived : Derived.ofCandidate c with
  | ok d => simp [hderived] at hreport
  | error e =>
    refine ⟨c, hc, e, hderived, by simpa [hderived] using hreport.symm, ?_⟩
    rintro field other identifier rfl
    cases hfield : Descriptor.ofField c.name c.type with
    | ok d => simp [Derived.ofCandidate, hfield, Except.map] at hderived
    | error e =>
      obtain rfl : e = .collision field other identifier := by
        simpa [Derived.ofCandidate, hfield, Except.map] using hderived
      exact Descriptor.ofField_ne_collision _ _ _ _ _ hfield

/-- What collisions do to a group whose owner can be named and whose fields have different names.
Of the fields with a descriptor, those that share no identifier with another one are kept. The unit
is made of them, and its methods have different names. Each other one has a report of its own, about
its first identifier that another field generates and the least such field. Of two fields that share
an identifier neither is kept, and the order of the fields does not matter. -/
theorem ofGroup_collisions {owner : OwnerNames} (howner : OwnerNames.ofOwner? g.owner = some owner)
    (hnames : (g.fields.map (·.name)).Nodup) (key : String) (events : Token) :
    let all := derived g
    let kept := survivors all
    let emission := ofGroup g key events
    let unit := augmentation g owner events
    (∀ d ∈ all, d ∈ kept ↔
      ∀ d' ∈ all, d' ≠ d → d.descriptor.identifiers.Disjoint d'.descriptor.identifiers) ∧
    (∀ d ∈ all, ∀ d' ∈ all, d' ≠ d →
      ¬ d.descriptor.identifiers.Disjoint d'.descriptor.identifiers → d ∉ kept ∧ d' ∉ kept) ∧
    emission.unit = (if kept.isEmpty then none
      else some ⟨key, g.owner.enclosing?, spacedTokens unit.tokens⟩) ∧
    emission.properties = kept.length ∧
    (∀ identifier, identifier ∈ unit.methodNames ↔
      ∃ d ∈ kept, identifier ∈ d.descriptor.identifiers) ∧
    unit.methodNames.Nodup ∧
    (∃ dropped reports, (kept ++ dropped).Perm all ∧
      List.Forall₂ (fun d report => ∃ identifier other,
          Derived.FirstClash all d identifier other ∧
          report = malformed key d.candidate (.collision d.candidate.name other identifier))
        dropped reports ∧
      emission.diagnostics = underivable key g ++ reports) ∧
    (∀ report ∈ underivable key g, ∃ c ∈ g.fields, ∃ e,
      Derived.ofCandidate c = .error e ∧ report = malformed key c e ∧
        ∀ field other identifier, e ≠ .collision field other identifier) ∧
    ∀ fields, fields.Perm g.fields → (survivors (derived ⟨g.owner, fields⟩)).Perm kept := by
  intro all kept emission unit
  have hkept : ∀ d ∈ all, d ∈ kept ↔
      ∀ d' ∈ all, d' ≠ d → d.descriptor.identifiers.Disjoint d'.descriptor.identifiers :=
    fun d hd => mem_survivors_iff hnames hd
  have hmutual : ∀ d ∈ all, ∀ d' ∈ all, d' ≠ d →
      ¬ d.descriptor.identifiers.Disjoint d'.descriptor.identifiers → d ∉ kept ∧ d' ∉ kept := by
    intro d hd d' hd' hne hshared
    refine ⟨fun hmem => hshared ((hkept d hd).mp hmem d' hd' hne), fun hmem => hshared ?_⟩
    exact List.disjoint_symm ((hkept d' hd').mp hmem d hd hne.symm)
  have hemission := ofGroup_eq howner key events
  have hnodup : (keptNames g).Nodup :=
    (hnames.sublist (derived_names_sublist g.fields)).sublist (List.filter_sublist.map _)
  refine ⟨hkept, hmutual, congrArg (·.unit) hemission, congrArg (·.properties) hemission,
    fun identifier => mem_methodNames, (methodNames_nodup_iff g owner events).mpr hnodup,
    ⟨dropped all, collisions key all, survivors_append_dropped all, collisions_forall₂ hnames key,
      congrArg (·.diagnostics) hemission⟩, fun report => mem_underivable, fun fields hperm => ?_⟩
  exact survivors_perm (hperm.filterMap _)

/-- A setter that is another property's getter: both fields are dropped, and a third one is kept. -/
theorem ofGroup_collisions_across_roles :
    let field (name : String) : Candidate :=
      { owner := ⟨⟨[]⟩, "S"⟩, name, type := [.ident false "u8" .start]
        accessibility := .confined, location := ⟨"lib.rs", .start⟩, argument := none }
    let g : Group := ⟨⟨⟨[]⟩, "S"⟩, [field "_other", field "_set_value", field "_value"]⟩
    let events : Token := .ident false "events" .start
    (g.fields.map (·.name)).Nodup ∧ keptNames g = ["_other"] ∧
      ∃ owner, OwnerNames.ofOwner? g.owner = some owner ∧
        (augmentation g owner events).methodNames.Nodup ∧
        ∃ dropped reports, (survivors (derived g) ++ dropped).Perm (derived g) ∧
          reports.length = 2 ∧
          (ofGroup g "S_Classes_g" events).diagnostics = underivable "S_Classes_g" g
            ++ reports := by
  intro field g events
  have hnames : (g.fields.map (·.name)).Nodup := by decide +kernel
  obtain ⟨hkept, hderived⟩ : keptNames g = ["_other"] ∧ (derived g).length = 3 := by decide +kernel
  have hsurvivors : (survivors (derived g)).length = 1 := by
    simpa [keptNames] using congrArg List.length hkept
  have hnamed : (OwnerNames.ofOwner? g.owner).isSome = true := by decide +kernel
  obtain ⟨owner, howner⟩ := Option.isSome_iff_exists.mp hnamed
  obtain ⟨-, -, -, -, -, hnodup, ⟨dropped, reports, hperm, hreports, hdiagnostics⟩, -⟩ :=
    ofGroup_collisions howner hnames "S_Classes_g" events
  have htotal : (survivors (derived g)).length + dropped.length = (derived g).length := by
    rw [← List.length_append, hperm.length_eq]
  have hlength : reports.length = 2 := by
    rw [← hreports.length_eq]
    omega
  exact ⟨hnames, hkept, owner, howner, hnodup, dropped, reports, hperm, hlength, hdiagnostics⟩

end Emission

end Observable
