import Mathlib.Data.List.Nodup
import Observable.Proofs.Output.Grouping
import Observable.Proofs.Pass.Run
import Observable.Proofs.Property.Descriptor
/-! The members that a unit declares: two of them share a name exactly when two fields do. -/
namespace Observable

namespace Derived

theorem mem_rivals {all : List Derived} {name identifier other : String} :
    other ∈ rivals all name identifier ↔
      ∃ d ∈ all, identifier ∈ d.descriptor.identifiers ∧ d.candidate.name ≠ name ∧
        d.candidate.name = other := by
  rw [rivals, (sorted_perm _ _).mem_iff]
  simp [and_assoc]

theorem collision?_eq_none {all : List Derived} {d : Derived} :
    collision? all d = none ↔
      ∀ d' ∈ all, d'.candidate.name ≠ d.candidate.name →
        d.descriptor.identifiers.Disjoint d'.descriptor.identifiers := by
  have hhead : ∀ identifier, (rivals all d.candidate.name identifier).head? = none ↔
      ∀ d' ∈ all, identifier ∈ d'.descriptor.identifiers → d'.candidate.name
        = d.candidate.name := by
    intro identifier
    rw [List.head?_eq_none_iff, List.eq_nil_iff_forall_not_mem]
    constructor
    · intro h d' hd' hmem
      by_contra hne
      exact h _ (mem_rivals.mpr ⟨d', hd', hmem, hne, rfl⟩)
    · intro h other hother
      obtain ⟨d', hd', hmem, hne, -⟩ := mem_rivals.mp hother
      exact hne (h d' hd' hmem)
  simp only [collision?, List.findSome?_eq_none_iff, Option.map_eq_none_iff, hhead]
  constructor
  · intro h d' hd' hne identifier hmem hmem'
    exact hne (h identifier hmem d' hd' hmem')
  · intro h identifier hmem d' hd' hmem'
    by_contra hne
    exact h d' hd' hne hmem hmem'

theorem ofCandidate_eq_ok {c : Candidate} {d : Derived} (h : ofCandidate c = .ok d) :
    d.candidate = c ∧ Descriptor.ofField c.name c.type = .ok d.descriptor := by
  unfold ofCandidate at h
  cases hfield : Descriptor.ofField c.name c.type with
  | error e => simp [hfield, Except.map] at h
  | ok descriptor =>
    obtain rfl : (⟨c, descriptor⟩ : Derived) = d := by simpa [hfield, Except.map] using h
    exact ⟨rfl, rfl⟩

end Derived

namespace Emission

/-- Fields that generate something each have a descriptor of their own. -/
theorem descriptor_of_mem_derived {g : Group} {d : Derived} (h : d ∈ derived g) :
    d.candidate ∈ g.fields ∧
      Descriptor.ofField d.candidate.name d.candidate.type = .ok d.descriptor := by
  obtain ⟨c, hc, hok⟩ := List.mem_filterMap.mp h
  cases hd : Derived.ofCandidate c with
  | error e => simp [hd, Except.toOption] at hok
  | ok d' =>
    obtain rfl : d' = d := by simpa [hd, Except.toOption] using hok
    obtain ⟨rfl, hfield⟩ := Derived.ofCandidate_eq_ok hd
    exact ⟨hc, hfield⟩

/-- Two fields that are kept share an identifier exactly when they share their name. -/
theorem disjoint_iff_of_mem_survivors {g : Group} {d d' : Derived}
    (h : d ∈ survivors (derived g)) (h' : d' ∈ survivors (derived g)) :
    d.descriptor.identifiers.Disjoint d'.descriptor.identifiers ↔
      d.candidate.name ≠ d'.candidate.name := by
  obtain ⟨hmem, hkept⟩ := List.mem_filter.mp h
  obtain ⟨hmem', -⟩ := List.mem_filter.mp h'
  constructor
  · intro hdisjoint hname
    have hfield := (descriptor_of_mem_derived hmem).2
    have hfield' := (descriptor_of_mem_derived hmem').2
    rw [← hname] at hfield'
    have hgetter := (Descriptor.identifiers_eq_of_name hfield hfield').1
    exact hdisjoint (a := d.descriptor.getter.spelling) (by simp [Descriptor.identifiers])
      (by simp [Descriptor.identifiers, hgetter])
  · intro hname
    exact Derived.collision?_eq_none.mp (Option.isNone_iff_eq_none.mp hkept) d' hmem' hname.symm

/-- When each member of a list gives different things, and two give a thing in common exactly when
they have one mark, all that is given differs exactly when the marks do. -/
theorem nodup_flatMap_iff {α β γ : Type} {l : List α} {f : α → List β} {mark : α → γ}
    (hf : ∀ a ∈ l, (f a).Nodup)
    (hmark : ∀ a ∈ l, ∀ b ∈ l, (f a).Disjoint (f b) ↔ mark a ≠ mark b) :
    (l.flatMap f).Nodup ↔ (l.map mark).Nodup := by
  rw [List.nodup_flatMap, List.nodup_iff_pairwise_ne (l := l.map mark), List.pairwise_map]
  constructor
  · intro h
    exact h.2.imp_of_mem fun ha hb hdisjoint => (hmark _ ha _ hb).mp hdisjoint
  · intro h
    exact ⟨hf, h.imp_of_mem fun ha hb hne => (hmark _ ha _ hb).mpr hne⟩

/-- What is generated for the fields of a group that are kept. -/
def augmentation (g : Group) (owner : OwnerNames) (events : Token) : Augmentation :=
  .ofProperties owner events ((survivors (derived g)).map (·.descriptor))

def keptNames (g : Group) : List String := (survivors (derived g)).map (·.candidate.name)

theorem methodNames_perm (events : Token) (d : Descriptor) :
    ((d.methods events).map (·.name.spelling)).Perm d.identifiers :=
  (List.perm_append_singleton d.accessor.spelling [d.getter.spelling, d.setter.spelling]).symm

theorem methodNames_augmentation (g : Group) (owner : OwnerNames) (events : Token) :
    (augmentation g owner events).methodNames
      = (survivors (derived g)).flatMap fun d =>
          (d.descriptor.methods events).map (·.name.spelling) := by
  simp only [augmentation, Augmentation.methodNames, Augmentation.ofProperties, List.map_flatMap,
    List.flatMap_map]

/-- The methods of a unit are named by the identifiers of the fields that are kept. -/
theorem mem_methodNames {g : Group} {owner : OwnerNames} {events : Token} {identifier : String} :
    identifier ∈ (augmentation g owner events).methodNames ↔
      ∃ d ∈ survivors (derived g), identifier ∈ d.descriptor.identifiers := by
  simp only [methodNames_augmentation, List.mem_flatMap, (methodNames_perm events _).mem_iff]

/-- The methods of a unit have different names exactly when the fields do that are kept. -/
theorem methodNames_nodup_iff (g : Group) (owner : OwnerNames) (events : Token) :
    (augmentation g owner events).methodNames.Nodup ↔ (keptNames g).Nodup := by
  rw [methodNames_augmentation]
  refine nodup_flatMap_iff ?_ ?_
  · intro d hd
    rw [(methodNames_perm events d.descriptor).nodup_iff]
    exact Descriptor.identifiers_nodup (descriptor_of_mem_derived (List.mem_of_mem_filter hd)).2
  · intro d hd d' hd'
    rw [← disjoint_iff_of_mem_survivors hd hd']
    simp only [List.Disjoint, (methodNames_perm events _).mem_iff]

theorem slotNames_nodup_iff (g : Group) (owner : OwnerNames) (events : Token) :
    (augmentation g owner events).slotNames.Nodup ↔ (keptNames g).Nodup := by
  have hnames : (augmentation g owner events).slotNames
      = (survivors (derived g)).map (·.descriptor.accessor.spelling) := by
    simp only [augmentation, Augmentation.slotNames, Augmentation.ofProperties, List.map_map]
    rfl
  rw [hnames, keptNames, List.nodup_iff_pairwise_ne, List.nodup_iff_pairwise_ne,
    List.pairwise_map, List.pairwise_map]
  constructor
  · intro h
    refine h.imp_of_mem fun {d d'} hd hd' hne hname => hne ?_
    have hfield := (descriptor_of_mem_derived (List.mem_of_mem_filter hd)).2
    have hfield' := (descriptor_of_mem_derived (List.mem_of_mem_filter hd')).2
    rw [← hname] at hfield'
    rw [(Descriptor.identifiers_eq_of_name hfield hfield').2.2]
  · intro h
    refine h.imp_of_mem fun {d d'} hd hd' hne heq => ?_
    have hdisjoint := (disjoint_iff_of_mem_survivors hd hd').mpr hne
    exact hdisjoint (a := d.descriptor.accessor.spelling) (by simp [Descriptor.identifiers])
      (by simp [Descriptor.identifiers, heq])

theorem ofGroup_unit {g : Group} {key : String} {events : Token} {u : SourceUnit}
    (h : (ofGroup g key events).unit = some u) :
    ∃ owner, OwnerNames.ofOwner? g.owner = some owner ∧
      u = ⟨key, g.owner.enclosing?, spacedTokens (augmentation g owner events).tokens⟩ := by
  simp only [ofGroup] at h
  split at h
  · cases h
  · split at h
    · cases h
    · rename_i owner howner
      exact ⟨owner, howner, (Option.some.inj h).symm⟩

end Emission

/-- A unit of a group: the canonical text of what is generated for the fields that are kept. -/
def SourceUnit.Augments (u : SourceUnit) (g : Group) (events : Token) : Prop :=
  ∃ owner, OwnerNames.ofOwner? g.owner = some owner ∧
    Output.canonical u.key (spacedTokens (Emission.augmentation g owner events).tokens) false
      = .ok u.body

theorem GroupOutcome.augments_of_unit? {events : Token} {g : Group} {key : String} {u : SourceUnit}
    (h : (ofGroup events g key).unit? = some u) : u.Augments g events := by
  simp only [ofGroup] at h
  split at h
  · cases h
  · rename_i emitted hemitted
    obtain ⟨owner, howner, rfl⟩ := Emission.ofGroup_unit hemitted
    split at h
    · rename_i body hbody
      obtain rfl := Option.some.inj h
      exact ⟨owner, howner, hbody⟩
    · cases h

/-- The units of a pass stand in the order of their groups. -/
theorem PassOutput.units_ofCompilation (c : Compilation) (events : Token) :
    ∃ groups, groups.Sublist (Group.ofCandidates c.scan.candidates) ∧
      List.Forall₂ (fun u g => SourceUnit.Augments u g events) (ofCompilation c events).units
        groups := by
  have hkeyed : ∀ keyed : List (Group × String), ∃ groups,
      groups.Sublist (keyed.map Prod.fst) ∧
      List.Forall₂ (fun u g => SourceUnit.Augments u g events)
        ((keyed.map fun p => GroupOutcome.ofGroup events p.1 p.2).filterMap GroupOutcome.unit?)
        groups := by
    intro keyed
    induction keyed with
    | nil => exact ⟨[], .slnil, .nil⟩
    | cons head keyed ih =>
      obtain ⟨group, key⟩ := head
      obtain ⟨groups, hsub, hunits⟩ := ih
      rw [List.map_cons, List.map_cons]
      cases hunit : (GroupOutcome.ofGroup events group key).unit? with
      | none =>
        rw [List.filterMap_cons_none hunit]
        exact ⟨groups, hsub.cons group, hunits⟩
      | some u =>
        rw [List.filterMap_cons_some hunit]
        exact ⟨group :: groups, hsub.cons_cons group,
          .cons (GroupOutcome.augments_of_unit? hunit) hunits⟩
  let all := Group.ofCandidates c.scan.candidates
  obtain ⟨groups, hsub, hunits⟩ := hkeyed (all.zip (Group.keys all))
  rw [List.map_fst_zip (Nat.le_of_eq (Group.length_keys all).symm)] at hsub
  exact ⟨groups, hsub, hunits⟩

namespace Generator

theorem eventsName?_of_prepare {g : Generator} {c : Compilation} {events : Token}
    {marker : SourceUnit} (h : g.prepare c = .ok (events, marker)) :
    g.config.eventsName? = some events := by
  cases hname : g.config.eventsName? with
  | none =>
    simp only [prepare, hname] at h
    split_ifs at h
  | some name =>
    simp only [prepare, hname] at h
    split_ifs at h
    split at h
    · rw [(Prod.mk.inj (Except.ok.inj h)).1]
    · cases h

/-- A pass either delivers nothing or what it has made of the crate. -/
theorem execute_delivery (g : Generator) (c : Compilation) (k : Cancellation) :
    (g.execute c k).delivery = {} ∨ ∃ events marker, g.config.eventsName? = some events ∧
      (g.execute c k).delivery = (PassOutput.ofCompilation c events).delivery marker := by
  cases hprepare : g.prepare c with
  | error e => exact .inl (by simp [execute, hprepare])
  | ok prepared =>
    obtain ⟨events, marker⟩ := prepared
    rw [execute_eq hprepare]
    split_ifs
    · exact .inr ⟨events, marker, eventsName?_of_prepare hprepare, rfl⟩
    · exact .inl rfl

/-- What units declare twice. The units that a pass delivers after the marker's are made of groups,
one of each. The members of a unit are named differently exactly when the fields are that it keeps
of its group, and it leaves a field out exactly when a field of another name shares one of its
identifiers. -/
theorem execute_members_nodup_iff (g : Generator) (c : Compilation) (k : Cancellation) :
    ∃ groups, groups.Sublist (Group.ofCandidates c.scan.candidates) ∧
      List.Forall₂ (fun u group => ∃ owner events, g.config.eventsName? = some events ∧
          let all := Emission.derived group
          let unit := Emission.augmentation group owner events
          Output.canonical u.key (spacedTokens unit.tokens) false = .ok u.body ∧
          (unit.methodNames.Nodup ↔ (Emission.keptNames group).Nodup) ∧
          (unit.slotNames.Nodup ↔ (Emission.keptNames group).Nodup) ∧
          ∀ d ∈ all, d ∉ Emission.survivors all ↔
            ∃ d' ∈ all, d'.candidate.name ≠ d.candidate.name ∧
              ¬ d.descriptor.identifiers.Disjoint d'.descriptor.identifiers)
        (g.execute c k).delivery.units.tail groups := by
  rcases execute_delivery g c k with hnothing | ⟨events, marker, hevents, hdelivery⟩
  · rw [hnothing]
    exact ⟨[], List.nil_sublist _, .nil⟩
  · obtain ⟨groups, hsub, hunits⟩ := PassOutput.units_ofCompilation c events
    rw [hdelivery]
    refine ⟨groups, hsub, hunits.imp fun u group haugments => ?_⟩
    obtain ⟨owner, -, hbody⟩ := haugments
    refine ⟨owner, events, hevents, hbody, Emission.methodNames_nodup_iff group owner events,
      Emission.slotNames_nodup_iff group owner events, ?_⟩
    intro d hd
    rw [Emission.survivors, List.mem_filter, Option.isNone_iff_eq_none,
      Derived.collision?_eq_none]
    simp [hd]

/-- Two declarations of one type, of which a compiler sees only one. Their fields of one name are in
one group and both are kept: every member is declared twice, and no problem is reported. -/
theorem conditional_fields_declare_twice :
    let field (type : String) : Candidate :=
      { owner := ⟨⟨[]⟩, "S"⟩, name := "_x", type := [.ident false type .start]
        accessibility := .confined, location := ⟨"lib.rs", .start⟩, argument := none }
    let events : Token := .ident false "events" .start
    ∃ group, Group.ofCandidates [field "u8", field "u16"] = [group] ∧
      (Emission.ofGroup group "S_Classes_g" events).unit.isSome ∧
      (Emission.ofGroup group "S_Classes_g" events).diagnostics = [] ∧
      ∀ owner, ¬ (Emission.augmentation group owner events).methodNames.Nodup ∧
        ¬ (Emission.augmentation group owner events).slotNames.Nodup := by
  intro field events
  have hlength : (Group.ofCandidates [field "u8", field "u16"]).length = 1 := by decide +kernel
  obtain ⟨group, hgroup⟩ := List.length_eq_one_iff.mp hlength
  have hall : (Group.ofCandidates [field "u8", field "u16"]).all (fun g =>
      (Emission.ofGroup g "S_Classes_g" events).unit.isSome
        && (Emission.ofGroup g "S_Classes_g" events).diagnostics.isEmpty
        && Emission.keptNames g == ["_x", "_x"]) = true := by decide +kernel
  simp only [hgroup, List.all_cons, List.all_nil, Bool.and_true, Bool.and_eq_true,
    List.isEmpty_iff, beq_iff_eq] at hall
  obtain ⟨⟨hunit, hdiagnostics⟩, hnames⟩ := hall
  refine ⟨group, hgroup, hunit, hdiagnostics, fun owner => ?_⟩
  rw [Emission.methodNames_nodup_iff, Emission.slotNames_nodup_iff, hnames]
  decide

end Generator

end Observable
