import Mathlib.Data.List.ReduceOption
import Observable.Pass.Process
import Observable.Proofs.Output.Definition
import Observable.Proofs.Pass.Cancellation
/-! A generator does not remember its passes: what a call gives depends on the set-up alone, and not
on what else happens in the process. -/
namespace Observable

/-- What the observer has received is what the pass began with and events of its moments. -/
theorem Moment.mem_of_mem_replay {k : Cancellation} {p : Progress} {ms : List Moment}
    {e : PassEvent} (h : e ∈ (replay k p ms).1.events) : e ∈ p.events ∨ e ∈ eventsOf ms := by
  induction ms generalizing p with
  | nil => exact .inl h
  | cons m ms ih =>
    cases m with
    | event d =>
      rcases ih h with h | h
      · simp only [Progress.record, List.mem_append, List.mem_singleton] at h
        rw [eventsOf_event, List.mem_cons]
        tauto
      · exact .inr (List.mem_cons_of_mem d h)
    | check =>
      rw [replay] at h
      split at h
      · exact .inl h
      · exact ih h

namespace Generator

variable {g g' : Generator}

theorem state_eq_uninitialized_iff : g.state = .uninitialized ↔ g.stage.marker? = none := by
  rw [state]
  cases g.stage <;> simp [Stage.state, Stage.marker?]

/-- What a pass needs is told by the configuration and the marker's unit. -/
theorem prepare_congr (hconfig : g.config = g'.config)
    (hmarker : g.stage.marker? = g'.stage.marker?) (c : Compilation) :
    g.prepare c = g'.prepare c := by
  simp only [prepare, state_eq_uninitialized_iff, hconfig, hmarker]

/-- A pass refuses to begin for want of a set-up exactly before the set-up: a generator in use finds
the marker's unit. -/
theorem prepare_eq_notInitialized {c : Compilation} :
    g.prepare c = .error .notInitialized ↔ g.state = .uninitialized := by
  rw [prepare]
  by_cases hfresh : g.state = .uninitialized
  · simp [hfresh]
  · obtain ⟨marker, hmarker⟩ := exists_marker hfresh
    simp only [hfresh, if_false, iff_false, hmarker]
    split
    · simp
    · split <;> simp

theorem marker?_of_prepare {c : Compilation} {events : Token} {marker : SourceUnit}
    (h : g.prepare c = .ok (events, marker)) : g.stage.marker? = some marker := by
  unfold prepare at h
  split at h
  · cases h
  · split at h
    · cases h
    · split at h
      · cases h
      · split at h
        · rename_i hmarker
          cases h
          exact hmarker
        · cases h

/-- A pass that fails changes neither the generator nor the host, and any other uses the marker's
unit of the generator. No pass registers the marker. -/
theorem execute_cases (g : Generator) (c : Compilation) (k : Cancellation) :
    let call := g.execute c k
    PassEvent.markerRegistered ∉ call.events ∧
    ((∃ e, call.result = .error e ∧ call.generator = g ∧ call.delivery = {} ∧
        (e = .notInitialized ↔ g.state = .uninitialized)) ∨
      ∃ report marker, call.result = .ok report ∧ g.stage.marker? = some marker ∧
        call.generator = { g with stage := .used marker }) := by
  intro call
  cases h : g.prepare c with
  | error e =>
    have hcall : call = { generator := g, result := .error e } := by
      simp only [call, execute, h]
    rw [hcall]
    refine ⟨List.not_mem_nil, .inl ⟨e, rfl, rfl, rfl, ?_⟩⟩
    rw [← prepare_eq_notInitialized (c := c), h, Except.error.injEq]
  | ok prepared =>
    obtain ⟨events, marker⟩ := prepared
    have hready : g.state ≠ .uninitialized := by
      intro hfresh
      rw [prepare_eq_notInitialized.mpr hfresh] at h
      cases h
    have hseen : PassEvent.markerRegistered ∉
        (Moment.replay k { cancelled := k.before } (moments c events)).1.events := by
      intro hmem
      rcases Moment.mem_of_mem_replay hmem with hmem | hmem
      · cases hmem
      · exact absurd (precedesDelivery_of_mem_moments hmem) (by decide)
    have hcall := execute_eq h k
    dsimp only at hcall
    rw [show call = _ from hcall]
    split
    · refine ⟨fun hmem => ?_, .inr ⟨_, marker, rfl, marker?_of_prepare h, rfl⟩⟩
      rcases List.mem_append.mp hmem with hmem | hmem
      · exact hseen hmem
      · simp [Delivery.events] at hmem
    · exact ⟨by simpa [stopped] using hseen, .inl ⟨.cancelled, rfl, rfl, rfl, by simp [hready]⟩⟩

/-- Generators with one configuration and one marker's unit reply alike. -/
theorem perform_execute_congr (hconfig : g.config = g'.config)
    (hmarker : g.stage.marker? = g'.stage.marker?) (c : Compilation) (k : Cancellation) :
    (g.perform (.execute c k)).2 = (g'.perform (.execute c k)).2 := by
  simp only [perform, execute, prepare_congr hconfig hmarker c]
  cases g'.prepare c <;> rfl

/-- A set-up registers the marker the first time and does nothing after that. -/
theorem perform_setUp (g : Generator) :
    g.perform .setUp =
      if g.state = .uninitialized then
        ({ g with stage := .registered Marker.registered },
          { events := [.markerRegistered], result := .ok none })
      else (g, { result := .ok none }) := by
  simp only [perform, setUp, Marker.unit_eq]
  by_cases hfresh : g.state = .uninitialized
  · simp only [hfresh, ne_eq, not_true_eq_false, if_false, if_true]
    rfl
  · simp only [hfresh, ne_eq, not_false_eq_true, if_true, if_false]
    rfl

theorem after_setUp (config : GeneratorConfig) :
    after { config } [.setUp] = { config, stage := .registered Marker.registered } := by
  rw [after, List.foldl_cons, List.foldl_nil, perform_setUp]
  rfl

/-- A generator moves on by one state at most. -/
theorem state_perform (g : Generator) (command : Command) :
    let g' := (g.perform command).1
    g'.state = g.state ∨ (g.state = .uninitialized ∧ g'.state = .initialized) ∨
      (g.state = .initialized ∧ g'.state = .executed) := by
  cases command with
  | setUp =>
    rw [perform_setUp]
    split
    · rename_i hfresh
      exact .inr (.inl ⟨hfresh, rfl⟩)
    · exact .inl rfl
  | execute c k =>
    rcases (execute_cases g c k).2 with ⟨e, -, hsame, -⟩ | ⟨report, marker, -, hmarker, hused⟩
    · exact .inl (congrArg state hsame)
    · have hstate : (g.execute c k).generator.state = .executed := by
        rw [hused]
        rfl
      rw [state]
      cases hstage : g.stage with
      | fresh =>
        rw [hstage] at hmarker
        cases hmarker
      | registered _ => exact .inr (.inr ⟨rfl, hstate⟩)
      | used _ => exact .inl hstate

/-- A generator has run a pass when a pass delivers. -/
theorem state_perform_eq_executed (g : Generator) (command : Command) :
    (g.perform command).1.state = .executed ↔
      g.state = .executed ∨ ∃ report, (g.perform command).2.result = .ok (some report) := by
  cases command with
  | setUp =>
    have hnew : ({ g with stage := .registered Marker.registered } : Generator).state
        = .initialized := rfl
    rw [perform_setUp]
    split
    · rename_i hfresh
      simp [hnew, hfresh]
    · simp
  | execute c k =>
    rcases (execute_cases g c k).2 with ⟨e, herror, hsame, -⟩ | ⟨report, marker, hok, -, hused⟩
    · simp [perform, herror, hsame, Except.map]
    · simp [perform, hok, hused, Except.map, state, Stage.state]

theorem config_perform (g : Generator) (command : Command) :
    (g.perform command).1.config = g.config := by
  cases command with
  | setUp =>
    rw [perform_setUp]
    split <;> rfl
  | execute c k =>
    rcases (execute_cases g c k).2 with ⟨e, -, hsame, -⟩ | ⟨report, marker, -, -, hused⟩
    · exact congrArg config hsame
    · change (g.execute c k).generator.config = g.config
      rw [hused]

theorem marker?_perform (g : Generator) (command : Command) :
    (g.perform command).1.stage.marker? =
      if command.isSetUp then some (g.stage.marker?.getD Marker.registered)
      else g.stage.marker? := by
  cases command with
  | setUp =>
    rw [perform_setUp]
    by_cases hfresh : g.state = .uninitialized
    · rw [if_pos hfresh, state_eq_uninitialized_iff.mp hfresh]
      rfl
    · obtain ⟨marker, hmarker⟩ := exists_marker hfresh
      rw [if_neg hfresh]
      simp [Command.isSetUp, hmarker]
  | execute c k =>
    rcases (execute_cases g c k).2 with ⟨e, -, hsame, -⟩ | ⟨report, marker, -, hmarker, hused⟩
    · exact congrArg (·.stage.marker?) hsame
    · exact (congrArg (·.stage.marker?) hused).trans hmarker.symm

theorem config_after (g : Generator) (commands : List Command) :
    (g.after commands).config = g.config := by
  induction commands generalizing g with
  | nil => rfl
  | cons command commands ih => exact (ih _).trans (config_perform g command)

/-- The marker's unit is there when the generator was set up, whatever else it did. -/
theorem marker?_after (g : Generator) (commands : List Command) :
    (g.after commands).stage.marker? =
      if commands.any (·.isSetUp) then some (g.stage.marker?.getD Marker.registered)
      else g.stage.marker? := by
  induction commands generalizing g with
  | nil => rfl
  | cons command commands ih =>
    rw [show g.after (command :: commands) = (g.perform command).1.after commands from rfl, ih,
      marker?_perform]
    cases command <;> simp [Command.isSetUp]

theorem state_after_eq_uninitialized (config : GeneratorConfig) (commands : List Command) :
    (after { config } commands).state = .uninitialized ↔ commands.any (·.isSetUp) = false := by
  rw [state_eq_uninitialized_iff, marker?_after]
  cases commands.any (·.isSetUp) <;> simp [Stage.marker?]

/-- The marker is registered once in the life of a generator. -/
theorem count_markerRegistered (g : Generator) (commands : List Command) :
    ((g.run commands).flatMap (·.2.events)).count .markerRegistered =
      if g.state = .uninitialized ∧ commands.any (·.isSetUp) = true then 1 else 0 := by
  induction commands generalizing g with
  | nil => simp [run]
  | cons command commands ih =>
    rw [run, List.flatMap_cons, List.count_append, ih]
    cases command with
    | setUp =>
      have hnew : ({ g with stage := .registered Marker.registered } : Generator).state
          = .initialized := rfl
      rw [perform_setUp]
      by_cases hfresh : g.state = .uninitialized
      · simp [hfresh, hnew, Command.isSetUp]
      · simp [hfresh]
    | execute c k =>
      obtain ⟨hnone, hcases⟩ := execute_cases g c k
      have hcount : (g.perform (.execute c k)).2.events.count .markerRegistered = 0 :=
        List.count_eq_zero.mpr hnone
      have hstate : (g.perform (.execute c k)).1.state = .uninitialized ↔
          g.state = .uninitialized := by
        rw [state_eq_uninitialized_iff, state_eq_uninitialized_iff, marker?_perform]
        rfl
      simp only [hcount, hstate, Command.isSetUp, List.any_cons, Bool.false_or, Nat.zero_add]

end Generator

namespace Registry

/-- Registering the marker leads to one registry, whoever was the first. -/
theorem register_eq {r : Registry} (h : ∀ text, r.text? = some text → text = Marker.text) :
    r.register = .ok ⟨some Marker.text⟩ := by
  obtain ⟨text?⟩ := r
  cases text? with
  | none =>
    rw [register, Marker.canonical_definition]
    rfl
  | some text =>
    obtain rfl := h text rfl
    rfl

end Registry

namespace Process

/-- A generator in a process and one on its own are equally far: the registry holds the marker's
unit if the generator does, and nothing else. -/
structure Matches (p : Process) (g : Generator) : Prop where
  config : p.config = g.config
  state : p.state = g.state
  registry : ∀ text, p.registry.text? = some text → text = Marker.text
  marker : g.stage.marker? = if g.state = .uninitialized then none else p.registry.marker?

variable {p : Process} {g : Generator}

theorem Matches.prepare (h : p.Matches g) (c : Compilation) : p.prepare c = g.prepare c := by
  by_cases hfresh : g.state = .uninitialized
  · simp only [Process.prepare, Generator.prepare, h.state, hfresh, if_true]
  · cases hevents : g.config.eventsName? <;> cases hmarker : p.registry.marker? <;>
      simp only [Process.prepare, Generator.prepare, h.config, h.state, h.marker, hfresh, if_false,
        hevents, hmarker]

theorem Matches.setUpOther (h : p.Matches g) : p.setUpOther.Matches g := by
  have hother : p.setUpOther = { p with registry := ⟨some Marker.text⟩ } := by
    simp only [Process.setUpOther, Registry.register_eq h.registry]
  rw [hother]
  refine ⟨h.config, h.state, fun text htext => (Option.some.inj htext).symm, ?_⟩
  rw [h.marker]
  split
  · rfl
  · rename_i hready
    obtain ⟨marker, hmarker⟩ := Generator.exists_marker hready
    rw [h.marker, if_neg hready, Registry.marker?] at hmarker
    obtain ⟨text, htext, -⟩ := Option.map_eq_some_iff.mp hmarker
    rw [Registry.marker?, htext, h.registry text htext]
    rfl

/-- A call has the same reply, and leaves both equally far. -/
theorem Matches.perform (h : p.Matches g) (command : Command) :
    (p.perform command).2 = (g.perform command).2 ∧
      (p.perform command).1.Matches (g.perform command).1 := by
  cases command with
  | setUp =>
    rw [Generator.perform_setUp]
    by_cases hfresh : g.state = .uninitialized
    · have hperform : p.perform .setUp =
          ({ p with registry := ⟨some Marker.text⟩, state := .initialized },
            { events := [.markerRegistered], result := .ok none }) := by
        simp only [Process.perform, h.state, hfresh, ne_eq, not_true_eq_false, if_false,
          Registry.register_eq h.registry]
      rw [hperform, if_pos hfresh]
      exact ⟨rfl, h.config, rfl, fun text htext => (Option.some.inj htext).symm, rfl⟩
    · have hperform : p.perform .setUp = (p, { result := .ok none }) := by
        simp only [Process.perform, h.state, hfresh, ne_eq, not_false_eq_true, if_true]
      rw [hperform, if_neg hfresh]
      exact ⟨rfl, h⟩
  | execute c k =>
    cases hprepare : g.prepare c with
    | error e =>
      simp only [Process.perform, Generator.perform, Generator.execute, h.prepare c, hprepare]
      exact ⟨rfl, h⟩
    | ok prepared =>
      obtain ⟨events, marker⟩ := prepared
      have hmarker := Generator.marker?_of_prepare hprepare
      have hready : g.state ≠ .uninitialized := by
        rw [ne_eq, Generator.state_eq_uninitialized_iff, hmarker]
        simp
      simp only [Process.perform, Generator.perform, Generator.execute, h.prepare c, hprepare]
      rcases (Pass.whole k c events marker).run.run { cancelled := k.before } with ⟨e | report, q⟩
      · exact ⟨rfl, h⟩
      · refine ⟨rfl, h.config, rfl, h.registry, ?_⟩
        rw [h.marker, if_neg hready] at hmarker
        exact hmarker.symm

/-- Nothing that happens in the process shows in the replies of a generator. -/
theorem Matches.run (h : p.Matches g) (steps : List (Option Command)) :
    p.run steps = g.run steps.reduceOption := by
  induction steps generalizing p g with
  | nil => rfl
  | cons step steps ih =>
    cases step with
    | none =>
      rw [List.reduceOption_cons_of_none]
      exact ih h.setUpOther
    | some command =>
      obtain ⟨hreply, hmatches⟩ := h.perform command
      rw [List.reduceOption_cons_of_some]
      simp only [Process.run, Generator.run, hreply, hmatches.state, ih hmatches]

end Process

namespace Generator

/-- Calls on a generator in any order, with set-ups of other generators of its process in between.
A reply tells nothing of earlier passes: it is that of a generator that did nothing before but a
set-up, if there was one. The state moves on by one at most, and it is the last one from the first
pass that delivers; a call that fails changes neither the generator nor the host. A set-up succeeds,
and the first one registers the marker; a pass lacks a set-up exactly when there was none. -/
theorem run_forgets (config : GeneratorConfig) :
    (∀ steps : List (Option Command),
      Process.run { config } steps = run { config } steps.reduceOption) ∧
    (∀ commands, ((run { config } commands).flatMap (·.2.events)).count .markerRegistered ≤ 1) ∧
    ∀ earlier next,
      let g := after { config } earlier
      let ready := earlier.any (·.isSetUp)
      let g' := (g.perform next).1
      let reply := (g.perform next).2
      (g.state = .uninitialized ↔ ready = false) ∧
      (g'.state = g.state ∨ (g.state = .uninitialized ∧ g'.state = .initialized) ∨
        (g.state = .initialized ∧ g'.state = .executed)) ∧
      (g'.state = .executed ↔ g.state = .executed ∨ ∃ report, reply.result = .ok (some report)) ∧
      (∀ e, reply.result = .error e → g' = g ∧ reply.delivery = {}) ∧
      match next with
      | .setUp =>
        reply = { events := if ready then [] else [.markerRegistered], result := .ok none }
      | .execute c k =>
        reply = ((after { config } (if ready then [.setUp] else [])).perform (.execute c k)).2 ∧
        .markerRegistered ∉ reply.events ∧
        (reply.result = .error .notInitialized ↔ ready = false) := by
  have hmatches : Process.Matches { config } { config } :=
    ⟨rfl, rfl, fun text htext => absurd htext (by simp), rfl⟩
  refine ⟨fun steps => hmatches.run steps, fun commands => ?_, fun earlier next => ?_⟩
  · rw [count_markerRegistered]
    split <;> simp
  · intro g ready g' reply
    have hfresh : g.state = .uninitialized ↔ ready = false :=
      state_after_eq_uninitialized config earlier
    refine ⟨hfresh, state_perform g next, state_perform_eq_executed g next, ?_, ?_⟩
    · intro e he
      cases next with
      | setUp =>
        simp only [reply, perform_setUp] at he
        split at he <;> cases he
      | execute c k =>
        rcases (execute_cases g c k).2 with ⟨_, -, hsame, hhost, -⟩ | ⟨report, _, hok, -⟩
        · exact ⟨hsame, hhost⟩
        · simp [reply, perform, hok, Except.map] at he
    · cases next with
      | setUp =>
        simp only [reply, perform_setUp, hfresh]
        cases ready <;> rfl
      | execute c k =>
        obtain ⟨hnone, hcases⟩ := execute_cases g c k
        refine ⟨perform_execute_congr ?_ ?_ c k, hnone, ?_⟩
        · rw [config_after, config_after]
        · rw [marker?_after, marker?_after]
          change (if ready then _ else _) = _
          cases ready <;> rfl
        · rcases hcases with ⟨e, herror, -, -, he⟩ | ⟨report, marker, hok, hmarker, -⟩
          · simp [reply, perform, herror, Except.map, he, hfresh]
          · have hready : ready ≠ false := by
              rw [ne_eq, ← hfresh, state_eq_uninitialized_iff, hmarker]
              simp
            simp [reply, perform, hok, Except.map, hready]

end Generator

end Observable
