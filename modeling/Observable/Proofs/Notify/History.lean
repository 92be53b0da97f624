import Mathlib.Algebra.Group.Nat.Defs
import Mathlib.Data.List.Induction
import Mathlib.Data.List.Nodup
import Mathlib.Logic.Function.Iterate
import Observable.Notify.ChangeEvent
/-! The history of an event: which subscriptions are live after some calls. The event knows these
and no others, and a call does what it has to do for them. -/
namespace Observable

/-- A call on an event. -/
inductive EventCall (α : Type) where
  | subscribe (listener : α)
  | unsubscribe (id : SubscriptionId)
  | publish
  | clear
deriving Repr

namespace EventCall

variable {α : Type}

def isSubscribe : EventCall α → Bool
  | subscribe _ => true
  | _ => false

def isPublish : EventCall α → Bool
  | publish => true
  | _ => false

/-- Whether a call ends a subscription that was made before it. -/
def ends (id : SubscriptionId) : EventCall α → Bool
  | unsubscribe other => other = id
  | clear => true
  | _ => false

end EventCall

/-- What a call gives to its caller. -/
inductive EventReply (β : Type) where
  | subscribed (id : SubscriptionId)
  | unsubscribed (found : Bool)
  | published (results : List β)
  | cleared
deriving Repr

/-- The subscription that a call has made. -/
def EventReply.id? {β : Type} : EventReply β → Option SubscriptionId
  | subscribed id => some id
  | _ => none

namespace ChangeEvent

variable {α β : Type}

/-- The event after a call, and what the call gives; a listener that is called changes and gives a
result. -/
def perform (call : α → α × β) (e : ChangeEvent α) : EventCall α → ChangeEvent α × EventReply β
  | .subscribe listener =>
    let (e, id) := e.subscribe listener
    (e, .subscribed id)
  | .unsubscribe id =>
    let (e, found) := e.unsubscribe id
    (e, .unsubscribed found)
  | .publish =>
    let (e, results) := e.publish call
    (e, .published results)
  | .clear => (e.clear, .cleared)

/-- An event after some calls. -/
def after (call : α → α × β) (e : ChangeEvent α) (calls : List (EventCall α)) : ChangeEvent α :=
  calls.foldl (fun e next => (e.perform call next).1) e

/-- What some calls give, one after another. -/
def run (call : α → α × β) (e : ChangeEvent α) : List (EventCall α) → List (EventReply β)
  | [] => []
  | next :: rest =>
    let (e, reply) := e.perform call next
    reply :: run call e rest

end ChangeEvent

/-- A subscription that was made in a history of calls, with the calls after it. -/
structure PastSubscription (α : Type) where
  id : SubscriptionId
  listener : α
  later : List (EventCall α)

namespace PastSubscription

variable {α β : Type}

/-- The subscriptions of a history; each has the number of those before it, from a number on. -/
def ofCalls (count : Nat) : List (EventCall α) → List (PastSubscription α)
  | [] => []
  | .subscribe listener :: later => ⟨⟨.ofNat count⟩, listener, later⟩ :: ofCalls (count + 1) later
  | _ :: later => ofCalls count later

/-- Whether no later call ends a subscription. -/
def isLive (s : PastSubscription α) : Bool := !s.later.any (·.ends s.id)

/-- The number of the calls of a listener that is live all the time. -/
def heard (s : PastSubscription α) : Nat := s.later.countP (·.isPublish)

/-- The listener after its calls. -/
def listenerNow (call : α → α × β) (s : PastSubscription α) : α :=
  (fun listener => (call listener).1)^[s.heard] s.listener

/-- The subscriptions that are live after some calls, in the order in which they were made. -/
def live (calls : List (EventCall α)) : List (PastSubscription α) := (ofCalls 0 calls).filter isLive

/-- The subscription in a history that goes on. -/
def followedBy (s : PastSubscription α) (more : List (EventCall α)) : PastSubscription α :=
  { s with later := s.later ++ more }

/-- The number that the next subscription gets. -/
def nextId (calls : List (EventCall α)) : SubscriptionId := ⟨.ofNat (calls.countP (·.isSubscribe))⟩

theorem ofCalls_append (count : Nat) (earlier more : List (EventCall α)) :
    ofCalls count (earlier ++ more) = (ofCalls count earlier).map (·.followedBy more)
      ++ ofCalls (count + earlier.countP (·.isSubscribe)) more := by
  induction earlier generalizing count with
  | nil => rfl
  | cons call earlier ih =>
    cases call with
    | subscribe listener =>
      have hcount : count + 1 + earlier.countP (·.isSubscribe)
          = count + (EventCall.subscribe listener :: earlier).countP (·.isSubscribe) := by
        rw [List.countP_cons_of_pos (by rfl)]
        omega
      rw [List.cons_append, ofCalls, ih, ofCalls, List.map_cons, List.cons_append, hcount]
      rfl
    | _ => exact ih count

theorem isLive_followedBy (s : PastSubscription α) (more : List (EventCall α)) :
    (s.followedBy more).isLive = (s.isLive && !more.any (·.ends s.id)) := by
  simp [isLive, followedBy]

theorem heard_followedBy (s : PastSubscription α) (next : EventCall α) :
    (s.followedBy [next]).heard = s.heard + if next.isPublish then 1 else 0 := by
  simp [heard, followedBy, List.countP_append, List.countP_singleton]

theorem listenerNow_followedBy (call : α → α × β) (s : PastSubscription α) (next : EventCall α) :
    (s.followedBy [next]).listenerNow call
      = if next.isPublish then (call (s.listenerNow call)).1 else s.listenerNow call := by
  rw [listenerNow, heard_followedBy]
  split
  · rw [Function.iterate_succ_apply']
    rfl
  · rfl

theorem filter_isLive_followedBy (subscriptions : List (PastSubscription α))
    (more : List (EventCall α)) :
    (subscriptions.map (·.followedBy more)).filter isLive
      = ((subscriptions.filter isLive).filter fun s => !more.any (·.ends s.id)).map
          (·.followedBy more) := by
  rw [List.filter_map, List.filter_filter]
  congr 2
  funext s
  rw [Function.comp_apply, isLive_followedBy, Bool.and_comm]

/-- The subscriptions that are live after one more call. -/
theorem live_concat (calls : List (EventCall α)) (next : EventCall α) :
    live (calls ++ [next])
      = ((live calls).filter fun s => !next.ends s.id).map (·.followedBy [next]) ++
        match next with
        | .subscribe listener => [⟨nextId calls, listener, []⟩]
        | _ => [] := by
  rw [live, ofCalls_append, List.filter_append, filter_isLive_followedBy]
  cases next <;> simp [live, nextId, isLive, ofCalls]

/-- A call of `clear` ends all subscriptions before it. -/
theorem live_of_cleared (before after : List (EventCall α)) :
    live (before ++ .clear :: after)
      = (ofCalls (before.countP (·.isSubscribe)) after).filter isLive := by
  rw [live, ofCalls_append, List.filter_append, filter_isLive_followedBy, Nat.zero_add]
  simp [EventCall.ends, ofCalls]

/-- The numbers of the subscriptions of a history go up one by one. -/
theorem map_id_ofCalls (count : Nat) (calls : List (EventCall α)) :
    (ofCalls count calls).map (·.id)
      = (List.range' count (calls.countP (·.isSubscribe))).map fun n => ⟨.ofNat n⟩ := by
  induction calls generalizing count with
  | nil => rfl
  | cons call calls ih =>
    cases call with
    | subscribe listener =>
      rw [ofCalls, List.map_cons, ih, List.countP_cons_of_pos (by rfl), List.range'_succ,
        List.map_cons]
    | _ => exact ih count

/-- No number is given twice before they run out. -/
theorem ids_nodup {calls : List (EventCall α)} (h : calls.countP (·.isSubscribe) < 2 ^ 64) :
    ((ofCalls 0 calls).map (·.id)).Nodup := by
  rw [map_id_ofCalls]
  refine List.Nodup.map_on ?_ List.nodup_range'
  intro n hn m hm heq
  rw [List.mem_range'_1] at hn hm
  have hnumber : UInt64.ofNat n = UInt64.ofNat m := congrArg SubscriptionId.number heq
  have hnat := congrArg UInt64.toNat hnumber
  rw [UInt64.toNat_ofNat', UInt64.toNat_ofNat', Nat.mod_eq_of_lt (by omega),
    Nat.mod_eq_of_lt (by omega)] at hnat
  exact hnat

/-- The entry of an event for a subscription that is live. -/
def entry (call : α → α × β) (s : PastSubscription α) : Subscription α := ⟨s.id, s.listenerNow call⟩

theorem entry_followedBy (call : α → α × β) (s : PastSubscription α) (next : EventCall α) :
    entry call (s.followedBy [next]) = ⟨s.id,
      if next.isPublish then (call (s.listenerNow call)).1 else s.listenerNow call⟩ := by
  rw [entry, listenerNow_followedBy]
  rfl

end PastSubscription

namespace ChangeEvent

variable {α β : Type}

open PastSubscription hiding id listener

theorem after_concat (call : α → α × β) (e : ChangeEvent α) (calls : List (EventCall α))
    (next : EventCall α) :
    after call e (calls ++ [next]) = ((after call e calls).perform call next).1 := by
  simp [after]

/-- An event knows the subscriptions that are live, each with its listener as its calls have left
it, and the number of the next one. -/
theorem after_eq (call : α → α × β) (calls : List (EventCall α)) :
    after call {} calls
      = { subscriptions := (live calls).map (entry call), next := (nextId calls).number } := by
  induction calls using List.reverseRecOn with
  | nil => rfl
  | append_singleton calls next ih =>
    have hcount : (nextId (calls ++ [next])).number
        = (nextId calls).number + if next.isSubscribe then 1 else 0 := by
      simp only [nextId, List.countP_append, List.countP_singleton]
      split <;> simp
    have hentries : ∀ subscriptions : List (PastSubscription α), next.isPublish = false →
        (subscriptions.map (·.followedBy [next])).map (entry call)
          = subscriptions.map (entry call) := by
      intro subscriptions hnext
      rw [List.map_map]
      refine List.map_congr_left fun s _ => ?_
      rw [Function.comp_apply, entry_followedBy, hnext]
      rfl
    rw [after_concat, ih, live_concat, hcount]
    cases next with
    | subscribe listener =>
      rw [List.map_append, hentries _ rfl]
      simp [perform, subscribe, EventCall.ends, EventCall.isSubscribe, entry, listenerNow, heard]
    | unsubscribe id =>
      rw [List.append_nil, hentries _ rfl]
      have hkept :
          (live calls).filter (fun s => !(EventCall.unsubscribe id : EventCall α).ends s.id)
          = (live calls).filter fun s => s.id ≠ id := by
        simp [EventCall.ends, eq_comm]
      rw [hkept]
      simp only [perform, unsubscribe, List.filter_map, EventCall.isSubscribe, Bool.false_eq_true,
        if_false, UInt64.add_zero]
      rfl
    | publish =>
      have hcalled : (live calls).map (entry call ∘ (·.followedBy [.publish]))
          = (live calls).map fun s => ⟨s.id, (call (s.listenerNow call)).1⟩ :=
        List.map_congr_left fun s _ => entry_followedBy call s .publish
      simp [perform, publish, EventCall.ends, EventCall.isSubscribe, hcalled]
      simp [entry]
    | clear => simp [perform, clear, EventCall.ends, EventCall.isSubscribe]

theorem run_append (call : α → α × β) (e : ChangeEvent α) (earlier later : List (EventCall α)) :
    run call e (earlier ++ later)
      = run call e earlier ++ run call (after call e earlier) later := by
  induction earlier generalizing e with
  | nil => rfl
  | cons next earlier ih => exact congrArg _ (ih _)

theorem length_run (call : α → α × β) (e : ChangeEvent α) (calls : List (EventCall α)) :
    (run call e calls).length = calls.length := by
  induction calls generalizing e with
  | nil => rfl
  | cons next calls ih => exact congrArg (· + 1) (ih _)

/-- The numbers that are given are those of the subscriptions of the history. -/
theorem ids_run (call : α → α × β) {e : ChangeEvent α} {count : Nat} (he : e.next = .ofNat count)
    (calls : List (EventCall α)) :
    (run call e calls).filterMap (·.id?) = (ofCalls count calls).map (·.id) := by
  induction calls generalizing e count with
  | nil => rfl
  | cons next calls ih =>
    cases next with
    | subscribe listener =>
      have hnext : (e.perform call (.subscribe listener)).1.next = .ofNat (count + 1) := by
        simp [perform, subscribe, he]
      rw [run, List.filterMap_cons_some (by rfl), ih hnext, ofCalls, List.map_cons, he]
    | _ => exact ih he

/-- Of the subscriptions that are live one at most has a given number. -/
theorem exists_split_of_mem_live {calls : List (EventCall α)}
    (hcount : calls.countP (·.isSubscribe) < 2 ^ 64) {s : PastSubscription α}
    (hs : s ∈ live calls) :
    ∃ before after, live calls = before ++ s :: after ∧
      (live calls).filter (fun other => other.id ≠ s.id) = before ++ after := by
  obtain ⟨before, after, hsplit⟩ := List.append_of_mem hs
  refine ⟨before, after, hsplit, ?_⟩
  have hnodup : ((live calls).map (·.id)).Nodup :=
    (ids_nodup hcount).sublist (List.filter_sublist.map _)
  rw [hsplit, List.map_append, List.map_cons, List.nodup_middle, List.nodup_cons,
    ← List.map_append] at hnodup
  have hother : ∀ other ∈ before ++ after, other.id ≠ s.id := by
    rintro other hmem heq
    exact hnodup.1 (heq ▸ List.mem_map_of_mem hmem)
  rw [hsplit, List.filter_append, List.filter_cons_of_neg (by simp), ← List.filter_append,
    List.filter_eq_self]
  exact fun other hmem => by simpa using hother other hmem

/-- A number that was given before a call of `clear` is that of no later subscription. -/
theorem ne_of_cleared {before after : List (EventCall α)}
    (hcount : (before ++ .clear :: after).countP (·.isSubscribe) < 2 ^ 64) {id : SubscriptionId}
    (hid : id ∈ (ofCalls 0 before).map (·.id)) :
    ∀ s ∈ live (before ++ .clear :: after), s.id ≠ id := by
  have hnodup := ids_nodup hcount
  rw [ofCalls_append, List.map_append, List.map_map, List.nodup_append] at hnodup
  intro s hs heq
  rw [live_of_cleared] at hs
  have hlater :
      s.id ∈ (ofCalls (0 + before.countP (·.isSubscribe)) (.clear :: after)).map (·.id) := by
    rw [Nat.zero_add]
    exact List.mem_map_of_mem (List.mem_filter.mp hs).1
  exact hnodup.2.2 id hid s.id hlater heq.symm

theorem perform_unsubscribe (call : α → α × β) {earlier : List (EventCall α)}
    (hcount : earlier.countP (·.isSubscribe) < 2 ^ 64) (id : SubscriptionId) :
    let e := after call {} earlier
    let reply := (e.perform call (.unsubscribe id)).2
    let e' := (e.perform call (.unsubscribe id)).1
    (reply = .unsubscribed true ∧ ∃ front s back, live earlier = front ++ s :: back ∧ s.id = id ∧
      e'.subscriptions = (front ++ back).map (entry call)) ∨
    (reply = .unsubscribed false ∧ (∀ s ∈ live earlier, s.id ≠ id) ∧ e' = e) := by
  intro e reply e'
  have hkept : e.subscriptions.filter (fun s => s.id ≠ id)
      = ((live earlier).filter fun s => s.id ≠ id).map (entry call) := by
    simp only [e, after_eq, List.filter_map]
    rfl
  have hreply : reply = .unsubscribed (decide
      ((e.subscriptions.filter fun s => s.id ≠ id).length ≠ e.subscriptions.length)) := rfl
  have he' : e' = { e with subscriptions := e.subscriptions.filter fun s => s.id ≠ id } := rfl
  have hlength : e.subscriptions.length = (live earlier).length := by
    simp only [e, after_eq, List.length_map]
  rw [hkept, List.length_map, hlength] at hreply
  rw [hkept] at he'
  by_cases hfound : ∃ s ∈ live earlier, s.id = id
  · obtain ⟨s, hs, rfl⟩ := hfound
    obtain ⟨front, back, hsplit, hrest⟩ := exists_split_of_mem_live hcount hs
    refine .inl ⟨?_, front, s, back, hsplit, rfl, by rw [he', hrest]⟩
    rw [hreply, hrest, hsplit]
    simp
  · have hnone : ∀ s ∈ live earlier, s.id ≠ id := fun s hs heq => hfound ⟨s, hs, heq⟩
    have hall : (live earlier).filter (fun s => s.id ≠ id) = live earlier :=
      List.filter_eq_self.mpr fun s hs => decide_eq_true (hnone s hs)
    rw [hall] at hreply he'
    refine .inr ⟨by simp [hreply], hnone, ?_⟩
    rw [he']
    simp only [e, after_eq]

/-- What an event does in a history of calls. The numbers that it gives are those of the
subscriptions of the history, all different. At any time it holds the subscriptions that are live in
their order, and counts them. A publication calls their listeners, each once and after as many calls
as there were publications since it subscribed. An unsubscription removes the one live subscription
of the number, if there is one, and tells so; there is none for a number that was given before all
were cleared. -/
theorem run_live (call : α → α × β) (calls : List (EventCall α))
    (hcount : calls.countP (·.isSubscribe) < 2 ^ 64) :
    let replies := run call {} calls
    replies.filterMap (·.id?) = (ofCalls 0 calls).map (·.id) ∧
    ((ofCalls 0 calls).map (·.id)).Nodup ∧
    (∀ earlier later, calls = earlier ++ later →
      let e := after call {} earlier
      e.subscriptions = (live earlier).map (entry call) ∧
      e.length = (live earlier).length ∧ e.isEmpty = (live earlier).isEmpty) ∧
    (∀ earlier next later, calls = earlier ++ next :: later →
      let e := after call {} earlier
      let e' := after call {} (earlier ++ [next])
      ∃ reply, replies[earlier.length]? = some reply ∧
        match next with
        | .subscribe _ => reply = .subscribed (nextId earlier)
        | .unsubscribe id =>
          (reply = .unsubscribed true ∧ ∃ front s back, live earlier = front ++ s :: back ∧
            s.id = id ∧ e'.subscriptions = (front ++ back).map (entry call)) ∨
          (reply = .unsubscribed false ∧ (∀ s ∈ live earlier, s.id ≠ id) ∧ e' = e)
        | .publish => reply = .published ((live earlier).map fun s => (call (s.listenerNow call)).2)
        | .clear => reply = .cleared ∧ e'.subscriptions = []) ∧
    ∀ before between id later, calls = before ++ .clear :: between ++ .unsubscribe id :: later →
      id ∈ (run call {} before).filterMap (·.id?) →
        replies[(before ++ .clear :: between).length]? = some (.unsubscribed false) := by
  intro replies
  have hearlier : ∀ {earlier later : List (EventCall α)}, calls = earlier ++ later →
      earlier.countP (·.isSubscribe) < 2 ^ 64 := by
    rintro earlier later rfl
    rw [List.countP_append] at hcount
    omega
  have hreply : ∀ {earlier next later}, calls = earlier ++ next :: later →
      replies[earlier.length]? = some ((after call {} earlier).perform call next).2 := by
    rintro earlier next later rfl
    have hlength := length_run call {} earlier
    simp only [replies, run_append]
    rw [← hlength, List.getElem?_append_right (Nat.le_refl _), Nat.sub_self]
    rfl
  have hids : ∀ calls : List (EventCall α),
      (run call {} calls).filterMap (·.id?) = (ofCalls 0 calls).map (·.id) := ids_run call rfl
  refine ⟨hids calls, ids_nodup hcount, ?_, ?_, ?_⟩
  · intro earlier later hcalls e
    have he : e.subscriptions = (live earlier).map (entry call) := by simp only [e, after_eq]
    refine ⟨he, ?_, ?_⟩
    · rw [length, he, List.length_map]
    · rw [isEmpty, he, List.isEmpty_map]
  · intro earlier next later hcalls e e'
    refine ⟨_, hreply hcalls, ?_⟩
    have he' : e' = (e.perform call next).1 := after_concat call {} earlier next
    cases next with
    | subscribe listener => simp only [after_eq, perform, subscribe]
    | unsubscribe id => exact he' ▸ perform_unsubscribe call (hearlier hcalls) id
    | publish => simp [after_eq, perform, publish, entry]
    | clear => exact ⟨rfl, by rw [he']; rfl⟩
  · intro before between id later hcalls hid
    rw [hreply hcalls]
    have hnone := ne_of_cleared (hearlier hcalls) (hids before ▸ hid)
    rcases perform_unsubscribe call (hearlier hcalls) id with
      ⟨-, _, s, _, hsplit, heq, -⟩ | ⟨hfalse, -⟩
    · exact absurd heq (hnone s (by rw [hsplit]; simp))
    · rw [hfalse]

/-- Two subscriptions, of which the first one ends and is asked to end again when all are
cleared. -/
theorem run_live_cleared :
    let calls : List (EventCall Nat) :=
      [.subscribe 0, .subscribe 10, .publish, .clear, .subscribe 20,
      .publish, .unsubscribe ⟨0⟩]
    (run (fun n => (n + 1, n)) {} calls)[6]? = some (.unsubscribed false) := by
  intro calls
  obtain ⟨-, -, -, -, hstale⟩ := run_live (fun n : Nat => (n + 1, n)) calls (by decide)
  exact hstale [.subscribe 0, .subscribe 10, .publish] [.subscribe 20, .publish]
    ⟨0⟩ [] rfl (by decide)

end ChangeEvent

end Observable
