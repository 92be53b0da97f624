/-! What a layout writes: words and the gaps between them. -/
namespace Observable.Layout

/-- A piece of output: a word, a single space, or line breaks followed by an indent. -/
inductive Atom where
  | word (text : String)
  | space
  | breaks (lines indent : Nat)
deriving DecidableEq, Repr

namespace Atom

def indentWidth : Nat := 4

def text : Atom → String
  | word t => t
  | space => " "
  | breaks lines indent =>
    String.ofList (List.replicate lines '\n' ++ List.replicate (indentWidth * indent) ' ')

end Atom

def textOf (atoms : List Atom) : String := String.join (atoms.map Atom.text)

/-- Whether the text of some pieces, the last one first, is empty. -/
def writesNothing (atoms : List Atom) : Bool := atoms.all fun a => a.text.isEmpty

/-- Whether the text of some pieces, the last one first, is empty or ends with a line break. -/
def endsLine : List Atom → Bool
  | [] => true
  | a :: rest =>
    match a.text.toList.getLast? with
    | some c => c = '\n'
    | none => endsLine rest

end Observable.Layout
