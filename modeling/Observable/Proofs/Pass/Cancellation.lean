import Observable.Proofs.Output.Survival
import Observable.Proofs.Pass.Run
/-! A pass delivers everything or nothing, whatever the moment at which it is cancelled. -/
namespace Observable

/-- Events that come before the delivery of a pass. -/
def PassEvent.precedesDelivery : PassEvent → Bool
  | passStart .. | scanned .. | unitEmitted .. | unitSkipped .. => true
  | _ => false

/-- The observer cancels a pass at an event and at none before it. -/
def Cancellation.FirstAt (k : Cancellation) (seen : List PassEvent) (e : PassEvent) : Prop :=
  k.cancelsAt seen e = true ∧ ∀ a b c, seen = a ++ b :: c → k.cancelsAt a b = false

/-- The observer cancels a pass at none of its events. -/
def Cancellation.Never (k : Cancellation) (events : List PassEvent) : Prop :=
  ∀ seen e rest, events = seen ++ e :: rest → k.cancelsAt seen e = false

/-- An element of an appended list is in its first or in its second part. -/
theorem split_append {α : Type} {xs ys as bs : List α} {x : α} (h : xs ++ ys = as ++ x :: bs) :
    (∃ cs, xs = as ++ x :: cs) ∨ ∃ cs, as = xs ++ cs ∧ ys = cs ++ x :: bs := by
  rcases List.append_eq_append_iff.mp h with ⟨cs, has, hys⟩ | ⟨cs, hxs, hcs⟩
  · exact .inr ⟨cs, has, hys⟩
  · cases cs with
    | nil => exact .inr ⟨[], by simpa using hxs.symm, by simpa using hcs.symm⟩
    | cons y cs =>
      rw [List.cons_append, List.cons.injEq] at hcs
      exact .inl ⟨cs, by rw [hxs, hcs.1]⟩

namespace GroupOutcome

theorem guarded_moments {ns : List Moment} (o : GroupOutcome) (hn : Moment.Guarded ns) :
    Moment.Guarded (o.moments ++ .check :: ns) := by
  cases o with
  | skipped key ds => exact .event hn
  | emitted unit n ds => exact .check (.event hn)
  | rejected ds => exact .check (.check hn)

theorem precedesDelivery_of_mem {o : GroupOutcome} {e : PassEvent}
    (h : e ∈ Moment.eventsOf o.moments) : e.precedesDelivery = true := by
  cases o <;> simp_all [moments, PassEvent.precedesDelivery]

end GroupOutcome

theorem Delivery.not_precedesDelivery_of_mem {d : Delivery} {e : PassEvent} (h : e ∈ d.events) :
    e.precedesDelivery = false ∧ e ≠ .passCancelled := by
  simp only [events, List.mem_append, List.mem_map, List.mem_singleton] at h
  rcases h with ⟨problem, -, rfl⟩ | rfl <;> exact ⟨rfl, by simp⟩

/-- The moments of some groups and of the check after them begin with a check. -/
theorem GroupOutcome.guarded_flatMap (os : List GroupOutcome) :
    ∃ ms, os.flatMap (fun g => .check :: g.moments) ++ [.check] = .check :: ms
      ∧ Moment.Guarded ms := by
  induction os with
  | nil => exact ⟨[], rfl, .nil⟩
  | cons o os ih =>
    obtain ⟨ms, hms, hguarded⟩ := ih
    refine ⟨o.moments ++ .check :: ms, ?_, guarded_moments o hguarded⟩
    rw [List.flatMap_cons, List.append_assoc, hms, List.cons_append]

namespace Generator

theorem guarded_moments (c : Compilation) (events : Token) :
    Moment.Guarded (moments c events) := by
  obtain ⟨ms, hms, hguarded⟩ :=
    GroupOutcome.guarded_flatMap (PassOutput.ofCompilation c events).outcomes
  rw [moments, PassOutput.moments, hms]
  exact .event (.event hguarded)

theorem precedesDelivery_of_mem_moments {c : Compilation} {events : Token} {e : PassEvent}
    (h : e ∈ Moment.eventsOf (moments c events)) : e.precedesDelivery = true := by
  simp only [moments, PassOutput.moments, Moment.eventsOf_event, Moment.eventsOf_check,
    Moment.eventsOf_append, Moment.eventsOf_nil, List.append_nil, List.mem_cons] at h
  rcases h with rfl | rfl | h
  · rfl
  · rfl
  · obtain ⟨m, hm, he⟩ := List.mem_filterMap.mp h
    obtain ⟨o, -, ho⟩ := List.mem_flatMap.mp hm
    rcases List.mem_cons.mp ho with rfl | ho
    · cases he
    · exact GroupOutcome.precedesDelivery_of_mem (List.mem_filterMap.mpr ⟨m, ho, he⟩)

variable {g : Generator} {c : Compilation} {events : Token} {marker : SourceUnit}

/-- A pass that is cancelled at none of its events before the delivery delivers everything. -/
theorem execute_of_never (h : g.prepare c = .ok (events, marker)) {k : Cancellation}
    (hbefore : k.before = false) (hk : k.Never (Moment.eventsOf (moments c events))) :
    g.execute c k = g.delivered (Moment.eventsOf (moments c events)) marker
      (PassOutput.ofCompilation c events) := by
  have hquiet := Moment.replay_of_quiet k { cancelled := k.before } (moments c events) hbefore
    (by simpa [Cancellation.Never] using hk)
  simpa [hquiet] using execute_eq h k

/-- A pass that is cancelled at an event before the delivery delivers nothing. -/
theorem execute_of_firstAt (h : g.prepare c = .ok (events, marker)) {k : Cancellation}
    (hbefore : k.before = false) {seen rest : List PassEvent} {e : PassEvent}
    (hsplit : Moment.eventsOf (moments c events) = seen ++ e :: rest) (hk : k.FirstAt seen e) :
    g.execute c k = g.stopped (seen ++ [e]) := by
  have hstop := Moment.replay_of_cancelsAt k { cancelled := k.before } (guarded_moments c events)
    hbefore hsplit (by simpa using hk.2) (by simpa using hk.1)
  simpa [hstop] using execute_eq h k

/-- A pass that is cancelled before it begins stops after its first event. -/
theorem execute_of_before (h : g.prepare c = .ok (events, marker)) {k : Cancellation}
    (hbefore : k.before = true) : g.execute c k = g.stopped [.passStart c.files.length] := by
  have hstop : Moment.replay k { cancelled := k.before } (moments c events)
      = (Progress.record { cancelled := k.before } k (.passStart c.files.length), false) := by
    simp [moments, PassOutput.moments, Moment.replay, Progress.record, hbefore]
  simpa [hstop, Progress.record] using execute_eq h k

/-- A generator in use holds the unit of the marker. -/
theorem exists_marker (hg : g.state ≠ .uninitialized) :
    ∃ marker, g.stage.marker? = some marker := by
  rw [state] at hg
  cases hstage : g.stage with
  | fresh => exact absurd (by rw [hstage]; rfl) hg
  | registered marker => exact ⟨marker, rfl⟩
  | used marker => exact ⟨marker, rfl⟩

theorem exists_prepare (hg : g.state ≠ .uninitialized) (hevents : g.config.eventsName?.isSome)
    (hroot : c.rootBinds Marker.name = false) :
    ∃ events marker, g.prepare c = .ok (events, marker) := by
  obtain ⟨events, hevents⟩ := Option.isSome_iff_exists.mp hevents
  obtain ⟨marker, hmarker⟩ := exists_marker hg
  exact ⟨events, marker, by simp [prepare, hg, hevents, hroot, hmarker]⟩

/-- A pass that may begin delivers all or nothing. Nothing cancels `whole`, and it delivers. A pass
that is cancelled beforehand stops after the first event of `whole`, and one that is cancelled at an
event before the delivery stops after that event: the host receives nothing, the generator stays as
it is, and the last event tells of the cancellation. A pass that is first cancelled during the
delivery, or at none of its events, is `whole`. -/
theorem execute_all_or_nothing (g : Generator) (c : Compilation) (k : Cancellation)
    (hg : g.state ≠ .uninitialized) (hevents : g.config.eventsName?.isSome)
    (hroot : c.rootBinds Marker.name = false) :
    let whole := g.execute c {}
    (∃ report, whole.result = .ok report) ∧ .passCancelled ∉ whole.events ∧
    whole.events.head? = some (.passStart c.files.length) ∧
    (k.before = true → g.execute c k = g.stopped [.passStart c.files.length]) ∧
    (k.before = false →
      (∀ seen e rest, whole.events = seen ++ e :: rest → k.FirstAt seen e →
        g.execute c k = if e.precedesDelivery then g.stopped (seen ++ [e]) else whole) ∧
      (k.Never whole.events → g.execute c k = whole)) := by
  intro whole
  obtain ⟨events, marker, h⟩ := exists_prepare hg hevents hroot
  let early := Moment.eventsOf (moments c events)
  let o := PassOutput.ofCompilation c events
  let late := (o.delivery marker).events
  have hwhole : whole = g.delivered early marker o :=
    execute_of_never h (k := {}) rfl fun _ _ _ _ => rfl
  have hsplit : whole.events = early ++ late := by rw [hwhole]; rfl
  refine ⟨⟨(o.delivery marker).report, by rw [hwhole]; rfl⟩, ?_, by rw [hsplit]; rfl,
    execute_of_before h, ?_⟩
  · rw [hsplit, List.mem_append]
    rintro (hmem | hmem)
    · exact absurd (precedesDelivery_of_mem_moments hmem) (by decide)
    · exact (Delivery.not_precedesDelivery_of_mem hmem).2 rfl
  · intro hbefore
    refine ⟨?_, ?_⟩
    · intro seen e rest hseen hfirst
      rw [hsplit] at hseen
      rcases split_append hseen with ⟨left, hearly⟩ | ⟨begun, hbegun, hlate⟩
      · rw [precedesDelivery_of_mem_moments (show e ∈ early by simp [hearly]), if_pos rfl]
        exact execute_of_firstAt h hbefore hearly hfirst
      · -- the events before the delivery all come before this one
        have hnever : k.Never early := by
          intro a b d hearly
          exact hfirst.2 a b (d ++ begun) (by rw [hbegun, hearly]; simp)
        have hmem : e ∈ late := by simp [hlate]
        rw [(Delivery.not_precedesDelivery_of_mem hmem).1, hwhole]
        exact execute_of_never h hbefore hnever
    · intro hnever
      rw [hwhole]
      refine execute_of_never h hbefore fun seen e rest hseen => ?_
      exact hnever seen e (rest ++ late) (by simp [hsplit, early, hseen])

/-- A pass over the types of `mixedSources`. -/
theorem execute_of_isMixed {config : GeneratorConfig} {c : Compilation} {events : Token}
    (hevents : config.eventsName? = some events) (h : c.isMixed events = true)
    (marker : SourceUnit) :
    let call := ({ config, stage := .registered marker } : Generator).execute c {}
    ∃ unit d₁ d₂ d₃, unit.key = "Ok_Classes_g" ∧
      [d₁, d₂, d₃].map (·.code) = [.malformedName, .malformedName, .resolution] ∧
      call.events = [.passStart 2, .scanned 4 3, .unitEmitted "Ok_Classes_g" 1,
        .unitSkipped "Skip_Classes_g", .unitSkipped "Fail_Classes_g", .reported d₁, .reported d₂,
        .reported d₃, .passFinish 2 3] ∧
      call.delivery = ⟨[marker, unit], [d₁, d₂, d₃]⟩ ∧
      call.result = .ok ⟨[marker.key, "Ok_Classes_g"], 3, 3⟩ := by
  intro call
  obtain ⟨p, q, r, unit, d₁, d₂, d₃, -, -, -, -, hkey, hcodes, houtput, hroot, hfiles, hscanned⟩ :=
    Compilation.output_of_isMixed h hevents
  have hprepare : prepare { config, stage := .registered marker } c = .ok (events, marker) := by
    simp [prepare, state, Stage.state, hevents, hroot, Stage.marker?]
  have hmoments : Moment.eventsOf (moments c events) = [.passStart 2, .scanned 4 3,
      .unitEmitted "Ok_Classes_g" 1, .unitSkipped "Skip_Classes_g",
      .unitSkipped "Fail_Classes_g"] := by
    rw [moments, PassOutput.moments, houtput, hfiles, hscanned, ← hkey]
    rfl
  have hcall := execute_of_never hprepare (k := {}) rfl fun _ _ _ _ => rfl
  rw [hmoments, houtput] at hcall
  refine ⟨unit, d₁, d₂, d₃, hkey, hcodes, congrArg Call.events hcall, congrArg Call.delivery hcall,
    (congrArg Call.result hcall).trans ?_⟩
  simp only [List.map_cons, List.map_nil, List.cons.injEq, and_true] at hcodes
  obtain ⟨h₁, h₂, h₃⟩ := hcodes
  simp [delivered, PassOutput.delivery, Delivery.report, Delivery.errors, Delivery.keys, hkey,
    PassOutput.diagnostics, PassOutput.units, GroupOutcome.unit?, GroupOutcome.diagnostics,
    Diagnostic.isError, Diagnostic.severity, h₁, h₂, h₃, DiagnosticCode.severity]

/-- A pass over such sources, cancelled at the second of the three types. -/
theorem execute_skipped_stops :
    let g : Generator := { config := {}, stage := .registered ⟨Marker.key, none, ""⟩ }
    let k : Cancellation := { during := (· = .unitSkipped "Skip_Classes_g") }
    ∃ c, Compilation.ofSources mixedSources = .ok c ∧
      (g.execute c {}).delivery.keys = [Marker.key, "Ok_Classes_g"] ∧
      g.execute c k = g.stopped [.passStart 2, .scanned 4 3, .unitEmitted "Ok_Classes_g" 1,
        .unitSkipped "Skip_Classes_g"] := by
  intro g k
  obtain ⟨c, events, hc, hevents, hmixed⟩ := Compilation.exists_mixed
  obtain ⟨-, -, -, -, -, -, -, -, -, -, -, -, -, -, hroot, -⟩ :=
    Compilation.output_of_isMixed hmixed hevents
  obtain ⟨unit, d₁, d₂, d₃, hkey, -, hwhole, hdelivery, -⟩ :=
    execute_of_isMixed hevents hmixed ⟨Marker.key, none, ""⟩
  have h := execute_all_or_nothing g c k (by decide) (Option.isSome_of_eq_some hevents) hroot
  let seen : List PassEvent := [.passStart 2, .scanned 4 3, .unitEmitted "Ok_Classes_g" 1]
  refine ⟨c, hc, ?_, (h.2.2.2.2 rfl).1 seen _ _ hwhole ⟨by decide, fun a b d hseen => ?_⟩⟩
  · rw [hdelivery, ← hkey]
    rfl
  · have hquiet : ∀ e ∈ seen, k.during e = false := by decide
    rw [Cancellation.cancelsAt, hquiet b (hseen ▸ List.mem_append_right a List.mem_cons_self)]
    rfl

end Generator

end Observable
