import Observable.Text.Position
import Observable.Toml.Value
/-! The line of a text that a problem is about, shown with marks under the part in question. -/
namespace Observable.Toml

/-- A line of a text and a part of it: the place where the part starts, the line itself, and the
number of marks under the part. -/
structure Excerpt where
  place : Position
  line : String
  marks : Nat
deriving DecidableEq, Repr, Inhabited

namespace Excerpt

/-- The line of a text in which a part starts; there is a mark for each byte of the part, at least
one, and none behind the line. -/
def ofSpan (text : List Char) (span : Span) : Excerpt :=
  let place := Position.start.after (text.take span.start)
  let line := String.ofList ((text.splitOn '\n').getD (place.line - 1) [])
  let part := String.ofList ((text.take span.stop).drop span.start)
  { place, line
    marks := max 1 (min part.utf8ByteSize (line.utf8ByteSize - (place.column - 1))) }

def repeated (c : Char) (n : Nat) : String := String.ofList (List.replicate n c)

def report (e : Excerpt) (message : String) : String :=
  let number := toString e.place.line
  let margin := repeated ' ' (number.length + 1)
  "TOML parse error at line " ++ number ++ ", column " ++ toString e.place.column ++ "\n"
    ++ margin ++ "|\n"
    ++ number ++ " | " ++ e.line ++ "\n"
    ++ margin ++ "|" ++ repeated ' ' e.place.column ++ repeated '^' e.marks ++ "\n"
    ++ message ++ "\n"

end Excerpt

end Observable.Toml
