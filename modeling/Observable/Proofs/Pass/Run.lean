import Observable.Proofs.Output.Canonical
import Observable.Proofs.Pass.Trace
/-! A pass in closed form: what it makes of a group is the same whenever the pass is cancelled, and
all its steps before the delivery are a replay of one trace. -/
namespace Observable

namespace Output

/-- Asking a pass that stays as it is amounts to asking once. -/
theorem canonicalUnless_isCancelled (key text : String) (p : Progress) :
    (canonicalUnless Pass.isCancelled key text).run.run p
      = (.ok (canonical key text p.cancelled), p) := by
  unfold canonical canonicalUnless
  rcases p with ⟨_ | _, events, delivery⟩
  · cases hread : readUnit key text with
    | error e => rfl
    | ok file =>
      cases hagain : readUnit key (layout file) with
      | error e => simp only [hagain]; rfl
      | ok again => simp only [hagain]; rfl
  · rfl

end Output

theorem Emission.key_of_unit {g : Group} {key : String} {events : Token} {u : SourceUnit}
    (h : (Emission.ofGroup g key events).unit = some u) : u.key = key := by
  simp only [Emission.ofGroup] at h
  split at h
  · cases h
  · split at h <;> cases h
    rfl

namespace GroupOutcome

/-- What becomes of a group under a key, with the events in a field of a given name. -/
def ofGroup (events : Token) (g : Group) (key : String) : GroupOutcome :=
  let emission := Emission.ofGroup g key events
  match emission.unit with
  | none => skipped key emission.diagnostics
  | some unit =>
    match Output.canonical key unit.body false with
    | .ok body => emitted { unit with body } emission.properties emission.diagnostics
    | .error e => rejected (emission.diagnostics ++ [unreadable key e])

/-- The moments that a group's outcome takes after the check in front of it. -/
def moments : GroupOutcome → List Moment
  | skipped key _ => [.event (.unitSkipped key)]
  | emitted unit properties _ => [.check, .event (.unitEmitted unit.key properties)]
  | rejected _ => [.check]

end GroupOutcome

namespace PassOutput

/-- What a pass makes of a crate, with the events in a field of a given name. -/
def ofCompilation (c : Compilation) (events : Token) : PassOutput :=
  let groups := Group.ofCandidates c.scan.candidates
  { found := c.scan.diagnostics
    outcomes := (groups.zip (Group.keys groups)).map fun (g, key) =>
      GroupOutcome.ofGroup events g key }

/-- The event that a crate was scanned. -/
def scannedEvent (c : Compilation) : PassEvent :=
  let groups := Group.ofCandidates c.scan.candidates
  .scanned (groups.flatMap Group.fields).length groups.length

/-- The moments of a pass between its start and its delivery. -/
def moments (c : Compilation) (o : PassOutput) : List Moment :=
  .check :: .event (scannedEvent c)
    :: (o.outcomes.flatMap (fun g => .check :: g.moments) ++ [.check])

end PassOutput

namespace Pass

theorem run_bind {α β : Type} (m : Pass α) (f : α → Pass β) (p : Progress) :
    (m >>= f).run.run p = match m.run.run p with
      | (.ok a, q) => (f a).run.run q
      | (.error e, q) => (.error e, q) := by
  simp only [ExceptT.run_bind, StateT.run_bind]
  rcases m.run.run p with ⟨_ | _, q⟩ <;> rfl

theorem run_tryCatch {α : Type} (m : Pass α) (f : GenerateError → Pass α) (p : Progress) :
    (tryCatch m f).run.run p = match m.run.run p with
      | (.ok a, q) => (.ok a, q)
      | (.error e, q) => (f e).run.run q := by
  simp only [ExceptT.run_tryCatch, StateT.run_bind]
  rcases m.run.run p with ⟨_ | _, q⟩ <;> rfl

/-- Steps that do nothing but record events and ask whether the pass is cancelled, and that lead to
a value when it is not. -/
def Follows {α : Type} (k : Cancellation) (m : Pass α) (ms : List Moment) (a : α) : Prop :=
  ∀ p, m.run.run p =
    (if (Moment.replay k p ms).2 then .ok a else .error .cancelled, (Moment.replay k p ms).1)

variable {α β : Type} {k : Cancellation}

theorem follows_pure (a : α) : Follows k (pure a) [] a := fun _ => rfl

theorem follows_bind {m : Pass α} {f : α → Pass β} {ms ns : List Moment} {a : α} {b : β}
    (hm : Follows k m ms a) (hf : Follows k (f a) ns b) : Follows k (m >>= f) (ms ++ ns) b := by
  intro p
  rw [Moment.replay_append, run_bind, hm p]
  by_cases h : (Moment.replay k p ms).2
  · simp only [h, if_true]
    exact hf _
  · simp only [h, if_false, Bool.false_eq_true]

theorem follows_record (e : PassEvent) : Follows k (record k e) [.event e] () := fun _ => rfl

theorem follows_checkpoint : Follows k checkpoint [.check] () := by
  intro p
  rcases p with ⟨_ | _, events, delivery⟩ <;> rfl

/-- Laying a unit out is a check and then a step that is never cancelled. -/
theorem follows_canonical {f : Except Output.CanonicalError String → Pass β} {ns : List Moment}
    {b : β} (key text : String) (hcancelled : f (.error .cancelled) = throw .cancelled)
    (hf : Follows k (f (Output.canonical key text false)) ns b) :
    Follows k (Output.canonicalUnless isCancelled key text >>= f) (.check :: ns) b := by
  intro p
  have hrun : (Output.canonicalUnless isCancelled key text >>= f).run.run p
      = (f (Output.canonical key text p.cancelled)).run.run p := by
    rw [run_bind, Output.canonicalUnless_isCancelled]
  rw [hrun]
  cases hp : p.cancelled with
  | true =>
    rw [Output.canonical_cancelled, hcancelled]
    simp only [Moment.replay, hp, if_true]
    rfl
  | false =>
    rw [hf p]
    simp only [Moment.replay, hp, Bool.false_eq_true, if_false]

/-- A group gives the same outcome under any cancellation that lets it come to an end. -/
theorem follows_unit (events : Token) (g : Group) (key : String) :
    Follows k (unit k events g key) (GroupOutcome.ofGroup events g key).moments
      (GroupOutcome.ofGroup events g key) := by
  simp only [unit, GroupOutcome.ofGroup]
  cases hunit : (Emission.ofGroup g key events).unit with
  | none => exact follows_bind (follows_record _) (follows_pure _)
  | some u =>
    have hkey : u.key = key := Emission.key_of_unit hunit
    cases hbody : Output.canonical key u.body false with
    | ok body =>
      simp only [hbody]
      refine follows_canonical key u.body ?_ ?_
      · rfl
      · simp only [hbody]
        rw [← hkey]
        exact follows_bind (follows_record _) (follows_pure _)
    | error e =>
      obtain ⟨s, rfl⟩ := Output.canonical_live_error hbody
      simp only [hbody]
      refine follows_canonical key u.body ?_ ?_
      · rfl
      · simp only [hbody]
        exact follows_pure _

/-- The units of some groups, each behind a check. -/
theorem follows_units (events : Token) (gs : List (Group × String)) :
    Follows k (units k events gs)
      (gs.flatMap fun g => .check :: (GroupOutcome.ofGroup events g.1 g.2).moments)
      (gs.map fun g => GroupOutcome.ofGroup events g.1 g.2) := by
  induction gs with
  | nil => exact follows_pure _
  | cons g gs ih =>
    rw [List.flatMap_cons, List.map_cons, List.cons_append]
    refine follows_bind follows_checkpoint ?_
    refine follows_bind (follows_unit events g.1 g.2) ?_
    rw [← List.append_nil (gs.flatMap _)]
    exact follows_bind ih (follows_pure _)

/-- Before the delivery a pass has the output that nothing cancels, or is cancelled. -/
theorem follows_output (c : Compilation) (events : Token) :
    Follows k (output k c events) (PassOutput.moments c (PassOutput.ofCompilation c events))
      (PassOutput.ofCompilation c events) := by
  simp only [output, PassOutput.moments, PassOutput.ofCompilation, List.flatMap_map]
  refine follows_bind follows_checkpoint ?_
  refine follows_bind (follows_record _) ?_
  refine follows_bind (follows_units events _) ?_
  exact follows_bind follows_checkpoint (follows_pure _)

end Pass

/-- What a host receives of an output, the marker's unit first. -/
def PassOutput.delivery (o : PassOutput) (marker : SourceUnit) : Delivery :=
  ⟨marker :: o.units, o.diagnostics⟩

namespace Delivery

/-- The summary of a delivery. -/
def report (d : Delivery) : PassReport :=
  { units := d.keys, diagnostics := d.diagnostics.length, errors := d.errors.length }

/-- The events of a delivery. -/
def events (d : Delivery) : List PassEvent :=
  d.diagnostics.map .reported ++ [.passFinish d.units.length d.diagnostics.length]

end Delivery

namespace Pass

variable (k : Cancellation)

theorem reportProblems_run (r : PassReport) (ds : List Diagnostic) (p : Progress) :
    ∃ q, (reportProblems k r ds).run.run p
        = (.ok { r with
              diagnostics := r.diagnostics + ds.length
              errors := r.errors + (ds.filter (·.isError)).length }, q)
      ∧ q.events = p.events ++ ds.map .reported
      ∧ q.delivery = ⟨p.delivery.units, p.delivery.diagnostics ++ ds⟩ := by
  induction ds generalizing r p with
  | nil => exact ⟨p, rfl, by simp, by simp⟩
  | cons d ds ih =>
    let p' := { p.record k (.reported d) with delivery := p.delivery.addProblem d }
    obtain ⟨q, hrun, hevents, hdelivery⟩ := ih (r.countProblem d) p'
    refine ⟨q, ?_, ?_, ?_⟩
    · change (reportProblems k (r.countProblem d) ds).run.run p' = _
      rw [hrun]
      cases hd : d.isError <;>
        simp [PassReport.countProblem, hd, Nat.add_assoc, Nat.add_comm 1]
    · rw [hevents]
      simp [p', Progress.record]
    · rw [hdelivery]
      simp [p', Delivery.addProblem]

theorem addUnits_run (r : PassReport) (us : List SourceUnit) (p : Progress) :
    (addUnits r us).run.run p
      = (.ok { r with units := r.units ++ us.map (·.key) },
          { p with delivery := ⟨p.delivery.units ++ us, p.delivery.diagnostics⟩ }) := by
  induction us generalizing r p with
  | nil => simp [addUnits]; rfl
  | cons u us ih =>
    change (addUnits (r.listUnit u) us).run.run { p with delivery := p.delivery.addUnit u } = _
    rw [ih]
    simp [PassReport.listUnit, Delivery.addUnit]

/-- A delivery cannot be stopped. -/
theorem deliver_run (marker : SourceUnit) (o : PassOutput) (p : Progress) (hp : p.delivery = {}) :
    ∃ q, (deliver k marker o).run.run p = (.ok (o.delivery marker).report, q)
      ∧ q.events = p.events ++ (o.delivery marker).events ∧ q.delivery = o.delivery marker := by
  obtain ⟨q, hrun, hevents, hdelivery⟩ := reportProblems_run k {} o.diagnostics p
  let r := q.record k (.passFinish (o.delivery marker).units.length o.diagnostics.length)
  refine ⟨{ r with delivery := o.delivery marker }, ?_, ?_, rfl⟩
  · rw [deliver, run_bind, hrun]
    dsimp only
    rw [run_bind, addUnits_run, hdelivery, hp]
    simp [r, PassOutput.delivery, Delivery.report, Delivery.keys, Delivery.errors]
    rfl
  · simp [r, Progress.record, hevents, Delivery.events, PassOutput.delivery]

end Pass

namespace Generator

/-- A call that leaves the generator and the host as they were, after some events. -/
def stopped (g : Generator) (seen : List PassEvent) : Call PassReport :=
  { generator := g, events := seen ++ [.passCancelled], result := .error .cancelled }

/-- A call that delivers an output after some events. -/
def delivered (g : Generator) (seen : List PassEvent) (marker : SourceUnit) (o : PassOutput) :
    Call PassReport :=
  { generator := { g with stage := .used marker }, events := seen ++ (o.delivery marker).events
    delivery := o.delivery marker, result := .ok (o.delivery marker).report }

/-- The moments of a pass from its start to its delivery. -/
def moments (c : Compilation) (events : Token) : List Moment :=
  .event (.passStart c.files.length) :: PassOutput.moments c (PassOutput.ofCompilation c events)

/-- A pass replays its moments; it delivers what it has made if it comes through all of them, and
nothing if it does not. -/
theorem execute_eq {g : Generator} {c : Compilation} {events : Token} {marker : SourceUnit}
    (h : g.prepare c = .ok (events, marker)) (k : Cancellation) :
    let replayed := Moment.replay k { cancelled := k.before } (moments c events)
    g.execute c k =
      if replayed.2 then
        g.delivered replayed.1.events marker (PassOutput.ofCompilation c events)
      else g.stopped replayed.1.events := by
  intro replayed
  let o := PassOutput.ofCompilation c events
  let p := Progress.record { cancelled := k.before } k (.passStart c.files.length)
  have hdelivery : replayed.1.delivery = {} := Moment.replay_delivery k _ _
  have hrun : (Pass.whole k c events marker).run.run { cancelled := k.before } =
      match (Pass.output k c events).run.run p with
      | (.ok o, q) => (Pass.deliver k marker o).run.run q
      | (.error e, q) => (.error e, q.record k .passCancelled) := by
    rw [Pass.whole, Pass.run_bind]
    change StateT.run (ExceptT.run (tryCatch _ _ >>= fun o => Pass.deliver k marker o)) p = _
    rw [Pass.run_bind, Pass.run_tryCatch]
    rcases (Pass.output k c events).run.run p with ⟨_ | _, q⟩ <;> rfl
  have houtput : (Pass.output k c events).run.run p
      = (if replayed.2 then .ok o else .error .cancelled, replayed.1) :=
    Pass.follows_output c events p
  rw [houtput] at hrun
  by_cases hdone : replayed.2
  · obtain ⟨q, hdeliver, hevents, hhost⟩ := Pass.deliver_run k marker o replayed.1 hdelivery
    simp only [hdone, if_true, hdeliver] at hrun
    simp only [execute, h, hrun, hdone, if_true, delivered, hevents, hhost]
    rfl
  · simp only [hdone, if_false, Bool.false_eq_true] at hrun
    simp only [execute, h, hrun, hdone, if_false, Bool.false_eq_true, stopped]
    simp [Progress.record, hdelivery]

end Generator

end Observable
