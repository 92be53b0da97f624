/-! An event that listeners subscribe to. -/
namespace Observable

/-- What identifies a subscription to an event. -/
structure SubscriptionId where
  number : UInt64
deriving DecidableEq, Repr, Inhabited

def SubscriptionId.debugText (id : SubscriptionId) : String :=
  "SubscriptionId(" ++ toString id.number ++ ")"

/-- A subscription with the listener that it calls. -/
structure Subscription (α : Type) where
  id : SubscriptionId
  listener : α
deriving Repr

/-- The listeners of an event in the order of their subscriptions; the next subscription gets the
next number, whatever was unsubscribed before. -/
structure ChangeEvent (α : Type) where
  subscriptions : List (Subscription α) := []
  next : UInt64 := 0
deriving Repr

namespace ChangeEvent

variable {α : Type}

def subscribe (e : ChangeEvent α) (listener : α) : ChangeEvent α × SubscriptionId :=
  let id : SubscriptionId := ⟨e.next⟩
  ({ subscriptions := e.subscriptions ++ [⟨id, listener⟩], next := e.next + 1 }, id)

/-- Removes the listener of a subscription, and tells whether there was one. -/
def unsubscribe (e : ChangeEvent α) (id : SubscriptionId) : ChangeEvent α × Bool :=
  let kept := e.subscriptions.filter fun s => s.id ≠ id
  ({ e with subscriptions := kept }, kept.length ≠ e.subscriptions.length)

/-- Calls every listener in the order of the subscriptions: the listeners after their calls, and
what the calls gave. -/
def publish {β : Type} (e : ChangeEvent α) (call : α → α × β) : ChangeEvent α × List β :=
  let called := e.subscriptions.map fun s => (s.id, call s.listener)
  ({ e with subscriptions := called.map fun (id, listener, _) => ⟨id, listener⟩ },
    called.map fun (_, _, result) => result)

def clear (e : ChangeEvent α) : ChangeEvent α := { e with subscriptions := [] }

def length (e : ChangeEvent α) : Nat := e.subscriptions.length

def isEmpty (e : ChangeEvent α) : Bool := e.subscriptions.isEmpty

def debugText (e : ChangeEvent α) : String :=
  "ChangeEvent \x7b listeners: " ++ toString e.length ++ " \x7d"

end ChangeEvent

end Observable
