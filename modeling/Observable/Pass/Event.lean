import Observable.Diagnostic
/-! What happens during a pass, as its observer sees it, and when the observer stops it. -/
namespace Observable

/-- Something that happens during a pass. -/
inductive PassEvent where
  | markerRegistered
  | passStart (files : Nat)
  | scanned (candidates groups : Nat)
  | unitEmitted (key : String) (properties : Nat)
  | unitSkipped (key : String)
  | reported (diagnostic : Diagnostic)
  | passFinish (units diagnostics : Nat)
  | passCancelled
deriving DecidableEq, Repr, Inhabited

def PassEvent.display : PassEvent → String
  | markerRegistered => "marker definition registered"
  | passStart files => "pass start: " ++ toString files ++ " file(s)"
  | scanned candidates groups =>
    "scanned " ++ toString candidates ++ " candidate(s) in " ++ toString groups ++ " type(s)"
  | unitEmitted key properties =>
    "emitted " ++ key ++ " with " ++ toString properties ++ " propert(ies)"
  | unitSkipped key => "skipped " ++ key ++ ": no valid properties"
  | reported d => d.display
  | passFinish units diagnostics =>
    "pass finish: " ++ toString units ++ " unit(s), " ++ toString diagnostics
      ++ " diagnostic(s)"
  | passCancelled => "pass cancelled"

/-- When a pass is cancelled: before it begins, or by its observer while it receives an event, be
it for what the event is or for all that came before it. -/
structure Cancellation where
  before : Bool := false
  during : PassEvent → Bool := fun _ => false
  after : List PassEvent → Bool := fun _ => false

/-- Whether the observer cancels a pass at an event, given the events of the pass before it. -/
def Cancellation.cancelsAt (k : Cancellation) (seen : List PassEvent) (e : PassEvent) : Bool :=
  k.during e || k.after (seen ++ [e])

end Observable
