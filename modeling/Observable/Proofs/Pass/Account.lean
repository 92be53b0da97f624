import Mathlib.Data.List.Dedup
import Observable.Proofs.Pass.Conservation
import Observable.Proofs.Pass.History
/-! The report of a pass, what its host holds and what its observer has received agree. -/
namespace Observable

/-- A pass that comes through its moments has told all their events. -/
theorem Moment.events_of_replay {k : Cancellation} {p : Progress} {ms : List Moment}
    (h : (replay k p ms).2 = true) : (replay k p ms).1.events = p.events ++ eventsOf ms := by
  induction ms generalizing p with
  | nil => simp [replay]
  | cons m ms ih =>
    cases m with
    | event e =>
      rw [replay, ih h, eventsOf_event]
      simp [Progress.record]
    | check =>
      rw [replay] at h ⊢
      split at h
      · cases h
      · rename_i hlive
        rw [if_neg hlive, ih h, eventsOf_check]

theorem Delivery.unit?_of_mem {d : Delivery} (hkeys : d.keys.Nodup) {u : SourceUnit}
    (hu : u ∈ d.units) : d.unit? u.key = some u := by
  rw [unit?]
  cases hfind : d.units.find? (·.key = u.key) with
  | none => simpa using List.find?_eq_none.mp hfind u hu
  | some found =>
    have hkey : found.key = u.key := by simpa using List.find?_some hfind
    rw [List.inj_on_of_nodup_map hkeys (List.mem_of_find?_eq_some hfind) hu hkey]

namespace Group

/-- How many fields of a group are kept. -/
def keptCount (g : Group) : Nat :=
  (g.fields.filter fun c => (Emission.rejection? g c).isNone).length

/-- The event of a group under its key: its emission gave no unit, or its unit has a property for
each field that is kept. A unit that cannot be laid out is no event. -/
def event? (events : Token) (p : Group × String) : Option PassEvent :=
  if (Emission.ofGroup p.1 p.2 events).unit.isNone then some (.unitSkipped p.2)
  else if (GroupOutcome.ofGroup events p.1 p.2).unit?.isSome then
    some (.unitEmitted p.2 p.1.keptCount)
  else none

theorem keyed_owners_pairwise_lt (candidates : List Candidate) :
    ((keyed candidates).map (·.1.owner)).Pairwise fun a b => a.compare b = .lt := by
  have howners : (keyed candidates).map (·.1.owner)
      = ((keyed candidates).map (·.1)).map (·.owner) := (List.map_map ..).symm
  rw [howners, map_fst_keyed, map_owner_ofCandidates]
  exact owners_pairwise_lt candidates

/-- There is a group for each owner. -/
theorem length_ofCandidates (candidates : List Candidate) :
    (ofCandidates candidates).length = (candidates.map (·.owner)).dedup.length := by
  have hperm : (owners candidates).Perm (candidates.map (·.owner)).dedup := by
    rw [List.perm_ext_iff_of_nodup (owners_nodup candidates) (List.nodup_dedup _)]
    intro o
    rw [mem_owners, List.mem_dedup, List.mem_map]
  rw [← hperm.length_eq, ← map_owner_ofCandidates, List.length_map]

end Group

theorem Emission.properties_of_unit {g : Group} {key : String} {events : Token} {u : SourceUnit}
    (h : (ofGroup g key events).unit = some u) :
    (ofGroup g key events).properties = g.keptCount := by
  have hkept : (survivors (derived g)).length = g.keptCount := by
    rw [Group.keptCount, ← map_candidate_survivors, List.length_map]
  simp only [ofGroup] at h ⊢
  split at h
  · cases h
  · rename_i hsome
    rw [if_neg hsome]
    split at h
    · cases h
    · exact hkept

theorem GroupOutcome.eventsOf_moments (events : Token) (p : Group × String) :
    Moment.eventsOf (ofGroup events p.1 p.2).moments = (Group.event? events p).toList := by
  rw [Group.event?, ofGroup]
  cases hunit : (Emission.ofGroup p.1 p.2 events).unit with
  | none => rfl
  | some u =>
    have hkey : u.key = p.2 := Emission.key_of_unit hunit
    cases hbody : Output.canonical p.2 u.body false with
    | ok body =>
      simp only [hbody, moments, hkey, Emission.properties_of_unit hunit]
      rfl
    | error e =>
      simp only [hbody]
      rfl

/-- The events of a pass before its delivery: its start, its scan, and one for each group. -/
theorem Generator.eventsOf_moments (c : Compilation) (events : Token) :
    Moment.eventsOf (moments c events) =
      .passStart c.files.length
        :: .scanned c.scan.candidates.length (c.scan.candidates.map (·.owner)).dedup.length
        :: (Group.keyed c.scan.candidates).filterMap (Group.event? events) := by
  have hscanned : PassOutput.scannedEvent c = .scanned c.scan.candidates.length
      (c.scan.candidates.map (·.owner)).dedup.length := by
    rw [PassOutput.scannedEvent, Group.length_ofCandidates,
      (Group.flatMap_fields_perm c.scan.candidates).length_eq]
  have hgroups : ∀ keyed : List (Group × String),
      Moment.eventsOf ((keyed.map fun p => GroupOutcome.ofGroup events p.1 p.2).flatMap
        fun o => .check :: o.moments) = keyed.filterMap (Group.event? events) := by
    intro keyed
    induction keyed with
    | nil => rfl
    | cons p keyed ih =>
      rw [List.map_cons, List.flatMap_cons, Moment.eventsOf_append, ih, Moment.eventsOf_check,
        GroupOutcome.eventsOf_moments, List.filterMap_cons]
      cases Group.event? events p <;> rfl
  rw [moments, PassOutput.moments, Moment.eventsOf_event, Moment.eventsOf_check,
    Moment.eventsOf_event, Moment.eventsOf_append, hscanned]
  simp only [Moment.eventsOf_check, Moment.eventsOf_nil, List.append_nil]
  exact congrArg _ (congrArg _ (hgroups (Group.keyed c.scan.candidates)))

/-- The keys of the units of a pass are those of the groups that have a unit. -/
theorem PassOutput.keys_units (c : Compilation) (events : Token) :
    (ofCompilation c events).units.map (·.key)
      = (emittedGroups events (Group.keyed c.scan.candidates)).map (·.2) := by
  have hall : ∀ {us : List SourceUnit} {ps : List (Group × String)},
      List.Forall₂ (fun u p => u.key = p.2 ∧ SourceUnit.Augments u p.1 events) us ps →
        us.map (·.key) = ps.map (·.2) := by
    intro us ps h
    induction h with
    | nil => rfl
    | cons hunit _ ih => rw [List.map_cons, List.map_cons, hunit.1, ih]
  exact hall (units_eq c events)

theorem PassOutput.keys_nodup (c : Compilation) (events : Token) :
    (((ofCompilation c events).delivery Marker.registered).keys).Nodup := by
  rw [Delivery.keys, delivery, List.map_cons, keys_units, List.nodup_cons]
  have hsub : ((emittedGroups events (Group.keyed c.scan.candidates)).map (·.2)).Sublist
      (Group.keys (Group.ofCandidates c.scan.candidates)) := by
    have hkeyed : (Group.keyed c.scan.candidates).map (·.2)
        = Group.keys (Group.ofCandidates c.scan.candidates) :=
      List.map_snd_zip (Nat.le_of_eq (Group.length_keys _))
    rw [← hkeyed]
    exact List.filter_sublist.map _
  refine ⟨fun hmem => ?_, (Group.keys_nodup _).sublist hsub⟩
  exact Group.ne_marker_of_mem_keys (hsub.subset hmem) rfl

namespace Generator

/-- A pass that comes to its end has told all its events, and delivers the unit that the set-up has
registered. -/
theorem execute_after_eq_ok {config : GeneratorConfig} {earlier : List Command} {c : Compilation}
    {k : Cancellation} {report : PassReport}
    (h : ((after { config } earlier).execute c k).result = .ok report) :
    ∃ events, config.eventsName? = some events ∧
      (after { config } earlier).execute c k
        = (after { config } earlier).delivered (Moment.eventsOf (moments c events))
            Marker.registered (PassOutput.ofCompilation c events) ∧
      report = ((after { config } earlier).execute c k).delivery.report := by
  cases hprepare : (after { config } earlier).prepare c with
  | error e =>
    rw [execute, hprepare] at h
    cases h
  | ok prepared =>
    obtain ⟨events, marker⟩ := prepared
    obtain rfl : Marker.registered = marker := by
      have hmarker := marker?_of_prepare hprepare
      rw [marker?_after] at hmarker
      split at hmarker
      · exact Option.some.inj hmarker
      · cases hmarker
    have hevents := eventsName?_of_prepare hprepare
    rw [config_after] at hevents
    have hcall := execute_eq hprepare k
    dsimp only at hcall
    rw [hcall] at h ⊢
    split at h
    · rename_i hdone
      rw [if_pos hdone, Moment.events_of_replay hdone]
      exact ⟨events, hevents, rfl, (Except.ok.inj h).symm⟩
    · cases h

/-- The report of a pass that comes to its end, what the host holds and what the observer received
agree. The keys are the marker's and those of the groups with a unit, in the order of their owners,
and each leads to its unit. The observer is told of the start, of the scan, of each group, of the
problems that the host holds, and of the counts in the report. -/
theorem execute_accounts (config : GeneratorConfig) (earlier : List Command) (c : Compilation)
    (k : Cancellation) (report : PassReport)
    (hdone : ((after { config } earlier).execute c k).result = .ok report) :
    let call := (after { config } earlier).execute c k
    let host := call.delivery
    let keyed := Group.keyed c.scan.candidates
    ∃ events, config.eventsName? = some events ∧
      report.units = host.keys ∧
      host.keys = Marker.key :: (PassOutput.emittedGroups events keyed).map (·.2) ∧
      List.Forall₂ (fun u p => u.key = p.2 ∧ SourceUnit.Augments u p.1 events)
        host.units.tail (PassOutput.emittedGroups events keyed) ∧
      (keyed.map (·.1.owner)).Pairwise (fun a b => a.compare b = .lt) ∧
      (∀ u ∈ host.units, host.unit? u.key = some u) ∧
      report.diagnostics = host.diagnostics.length ∧
      report.errors = host.errors.length ∧
      call.events =
        .passStart c.files.length
          :: .scanned c.scan.candidates.length (c.scan.candidates.map (·.owner)).dedup.length
          :: keyed.filterMap (Group.event? events)
        ++ host.diagnostics.map .reported
        ++ [.passFinish report.units.length report.diagnostics] := by
  intro call host keyed
  obtain ⟨events, hevents, hcall, rfl⟩ := execute_after_eq_ok hdone
  have hhost : host = (PassOutput.ofCompilation c events).delivery Marker.registered :=
    congrArg Call.delivery hcall
  refine ⟨events, hevents, rfl, ?_, ?_, Group.keyed_owners_pairwise_lt _, ?_, rfl, rfl, ?_⟩
  · rw [hhost, Delivery.keys, PassOutput.delivery, List.map_cons, PassOutput.keys_units]
    rfl
  · rw [hhost]
    exact PassOutput.units_eq c events
  · intro u hu
    refine Delivery.unit?_of_mem ?_ hu
    rw [hhost]
    exact PassOutput.keys_nodup c events
  · rw [show call.events = _ from congrArg Call.events hcall, delivered, eventsOf_moments,
      Delivery.events, ← hhost]
    simp [call, host, keyed, Delivery.report, Delivery.keys]

/-- A pass after a set-up over the types of `mixedSources`. -/
theorem execute_accounts_mixed :
    ∃ c d₁ d₂ d₃, Compilation.ofSources mixedSources = .ok c ∧
      let call := (after { config := {} } [.setUp]).execute c {}
      let host := call.delivery
      call.result = .ok ⟨[Marker.key, "Ok_Classes_g"], 3, 3⟩ ∧
      host.keys = [Marker.key, "Ok_Classes_g"] ∧ host.diagnostics = [d₁, d₂, d₃] ∧
      host.errors.length = 3 ∧ (∀ u ∈ host.units, host.unit? u.key = some u) ∧
      ∃ told, call.events = .passStart 2 :: .scanned 4 3 :: told
        ++ [.reported d₁, .reported d₂, .reported d₃] ++ [.passFinish 2 3] := by
  obtain ⟨c, name, hc, hname, hmixed⟩ := Compilation.exists_mixed
  obtain ⟨unit, d₁, d₂, d₃, -, -, hwhole, hdelivery, hresult⟩ :=
    execute_of_isMixed hname hmixed Marker.registered
  rw [← after_setUp] at hwhole hdelivery hresult
  obtain ⟨events, -, hkeys, -, -, -, hunits, -, herrors, hevents⟩ :=
    execute_accounts {} [.setUp] c {} _ hresult
  obtain ⟨hstart, hrest⟩ := List.cons.inj (hwhole.symm.trans hevents)
  rw [← hstart, ← (List.cons.inj hrest).1, hdelivery] at hevents
  exact ⟨c, d₁, d₂, d₃, hc, hresult, hkeys.symm, congrArg Delivery.diagnostics hdelivery,
    herrors.symm, hunits, _, hevents⟩

end Generator

end Observable
