import Observable.Pass.Generator
/-! The trace of a pass: what its observer receives and when it is asked whether it is cancelled.
A pass under any cancellation is a replay of the trace of the pass that nothing cancels. -/
namespace Observable

/-- A moment of a pass: the observer receives an event, or the pass stops if it is cancelled. -/
inductive Moment where
  | event (e : PassEvent)
  | check
deriving DecidableEq, Repr

namespace Moment

/-- The event of a moment. -/
def event? : Moment → Option PassEvent
  | event e => some e
  | check => none

/-- The events of some moments. -/
def eventsOf (ms : List Moment) : List PassEvent := ms.filterMap event?

@[simp] theorem eventsOf_nil : eventsOf [] = [] := rfl

@[simp] theorem eventsOf_event (e : PassEvent) (ms : List Moment) :
    eventsOf (.event e :: ms) = e :: eventsOf ms := rfl

@[simp] theorem eventsOf_check (ms : List Moment) : eventsOf (.check :: ms) = eventsOf ms := rfl

@[simp] theorem eventsOf_append (ms ns : List Moment) :
    eventsOf (ms ++ ns) = eventsOf ms ++ eventsOf ns := List.filterMap_append

/-- How far a pass comes through some moments, and whether it comes through all of them. -/
def replay (k : Cancellation) : Progress → List Moment → Progress × Bool
  | p, [] => (p, true)
  | p, .event e :: ms => replay k (p.record k e) ms
  | p, .check :: ms => if p.cancelled then (p, false) else replay k p ms

theorem replay_append (k : Cancellation) (p : Progress) (ms ns : List Moment) :
    replay k p (ms ++ ns) =
      if (replay k p ms).2 then replay k (replay k p ms).1 ns else replay k p ms := by
  induction ms generalizing p with
  | nil => simp [replay]
  | cons m ms ih =>
    cases m with
    | event e => exact ih (p.record k e)
    | check =>
      by_cases hp : p.cancelled
      · simp [replay, hp]
      · simpa [replay, hp] using ih p

theorem replay_delivery (k : Cancellation) (p : Progress) (ms : List Moment) :
    (replay k p ms).1.delivery = p.delivery := by
  induction ms generalizing p with
  | nil => rfl
  | cons m ms ih =>
    cases m with
    | event e => simp only [replay, ih, Progress.record]
    | check =>
      simp only [replay]
      split
      · rfl
      · exact ih p

/-- A pass that is never cancelled comes through all its moments. -/
theorem replay_of_quiet (k : Cancellation) (p : Progress) (ms : List Moment)
    (hp : p.cancelled = false)
    (hk : ∀ seen e rest, eventsOf ms = seen ++ e :: rest →
    k.cancelsAt (p.events ++ seen) e = false) :
    replay k p ms = ({ p with events := p.events ++ eventsOf ms }, true) := by
  induction ms generalizing p with
  | nil => simp [replay]
  | cons m ms ih =>
    cases m with
    | event e =>
      have he : k.cancelsAt p.events e = false := by simpa using hk [] e (eventsOf ms) rfl
      have hrest : ∀ seen e' rest, eventsOf ms = seen ++ e' :: rest →
          k.cancelsAt ((p.record k e).events ++ seen) e' = false := by
        intro seen e' rest h
        simpa [Progress.record] using hk (e :: seen) e' rest (by simp [h])
      rw [replay, ih (p.record k e) (by simp [Progress.record, hp, he]) hrest]
      simp [Progress.record, hp, he]
    | check =>
      rw [replay, if_neg (by simp [hp]), ih p hp hk, eventsOf_check]

/-- Moments in which a check comes after every event and before the next one. -/
inductive Guarded : List Moment → Prop where
  | nil : Guarded []
  | check {ms : List Moment} : Guarded ms → Guarded (.check :: ms)
  | event {e : PassEvent} {ms : List Moment} : Guarded ms → Guarded (.event e :: .check :: ms)

/-- A pass that is cancelled at an event stops at the check that follows. -/
theorem replay_of_cancelsAt (k : Cancellation) (p : Progress) {ms : List Moment} (hm : Guarded ms)
    (hp : p.cancelled = false) {seen rest : List PassEvent} {e : PassEvent}
    (hms : eventsOf ms = seen ++ e :: rest)
    (hseen : ∀ a b c, seen = a ++ b :: c → k.cancelsAt (p.events ++ a) b = false)
    (he : k.cancelsAt (p.events ++ seen) e = true) :
    replay k p ms = ({ p with cancelled := true, events := p.events ++ seen ++ [e] }, false) := by
  induction hm generalizing p seen with
  | nil => simp at hms
  | check _ ih => rw [replay, if_neg (by simp [hp]), ih p hp hms hseen he]
  | @event d ms _ ih =>
    cases seen with
    | nil =>
      obtain ⟨rfl, -⟩ := List.cons.inj hms
      have he' : k.cancelsAt p.events d = true := by simpa using he
      simp [replay, Progress.record, he']
    | cons d' seen =>
      obtain ⟨rfl, hrest⟩ := List.cons.inj hms
      have hms' : eventsOf ms = seen ++ e :: rest := hrest
      have hd : k.cancelsAt p.events d = false := by simpa using hseen [] d seen rfl
      have hp' : (p.record k d).cancelled = false := by simp [Progress.record, hp, hd]
      have hseen' : ∀ a b c, seen = a ++ b :: c →
          k.cancelsAt ((p.record k d).events ++ a) b = false := by
        intro a b c h
        simpa [Progress.record] using hseen (d :: a) b c (by simp [h])
      have he' : k.cancelsAt ((p.record k d).events ++ seen) e = true := by
        simpa [Progress.record] using he
      rw [replay, replay, if_neg (by simp [hp']), ih (p.record k d) hp' hms' hseen' he']
      simp [Progress.record, List.append_assoc]

end Moment
end Observable
