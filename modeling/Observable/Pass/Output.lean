import Observable.Field.Scan
import Observable.Pass.Progress
/-! What a pass makes of a crate before anything is delivered. -/
namespace Observable

/-- What became of a group: its unit, the number of its properties, and its problems. -/
inductive GroupOutcome where
  | skipped (key : String) (diagnostics : List Diagnostic)
  | emitted (unit : SourceUnit) (properties : Nat) (diagnostics : List Diagnostic)
  | rejected (diagnostics : List Diagnostic)
deriving Repr, Inhabited

namespace GroupOutcome

/-- The unit of a group, if it has one. -/
def unit? : GroupOutcome → Option SourceUnit
  | emitted unit _ _ => some unit
  | _ => none

def diagnostics : GroupOutcome → List Diagnostic
  | skipped _ ds => ds
  | emitted _ _ ds => ds
  | rejected ds => ds

/-- The problem of a unit that cannot be laid out. -/
def unreadable (key : String) (e : Output.CanonicalError) : Diagnostic :=
  { code := .badSyntax, message := e.message, unit := some key }

end GroupOutcome

/-- What a pass has made of a crate: the problems of the scan, and what became of each group. -/
structure PassOutput where
  found : List Diagnostic
  outcomes : List GroupOutcome
deriving Repr, Inhabited

namespace PassOutput

def units (o : PassOutput) : List SourceUnit := o.outcomes.filterMap GroupOutcome.unit?

def diagnostics (o : PassOutput) : List Diagnostic :=
  o.found ++ o.outcomes.flatMap GroupOutcome.diagnostics

end PassOutput

namespace Pass

/-- Makes the unit of a group under a key. A unit that cannot be laid out is no event. -/
def unit (k : Cancellation) (events : Token) (g : Group) (key : String) : Pass GroupOutcome := do
  let emission := Emission.ofGroup g key events
  match emission.unit with
  | none =>
    record k (.unitSkipped key)
    return .skipped key emission.diagnostics
  | some unit =>
    match ← Output.canonicalUnless isCancelled key unit.body with
    | .ok body =>
      record k (.unitEmitted key emission.properties)
      return .emitted { unit with body } emission.properties emission.diagnostics
    | .error .cancelled => throw .cancelled
    | .error e => return .rejected (emission.diagnostics ++ [GroupOutcome.unreadable key e])

/-- Makes the units of groups in order, each under its key, unless the pass is cancelled. -/
def units (k : Cancellation) (events : Token) : List (Group × String) → Pass (List GroupOutcome)
  | [] => return []
  | (g, key) :: rest => do
    checkpoint
    let outcome ← unit k events g key
    return outcome :: (← units k events rest)

/-- Scans a crate, groups what is found and makes the units; the events are in a field of a given
name. -/
def output (k : Cancellation) (c : Compilation) (events : Token) : Pass PassOutput := do
  checkpoint
  let findings := c.scan
  let groups := Group.ofCandidates findings.candidates
  record k (.scanned (groups.flatMap Group.fields).length groups.length)
  let outcomes ← units k events (groups.zip (Group.keys groups))
  checkpoint
  return { found := findings.diagnostics, outcomes }

end Pass

end Observable
