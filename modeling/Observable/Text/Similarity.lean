/-! How alike two words are: the Jaro measure, raised for a common beginning. -/
namespace Observable.Text.Similarity

/-- A row of characters with marks for those that are matched. -/
abbrev Marked := List (Char × Bool)

/-- Marks the first free occurrence of a character in a window of positions, if there is one. -/
def mark (c : Char) (low high : Nat) : Nat → Marked → Option Marked
  | _, [] => none
  | j, (d, used) :: rest =>
    if low ≤ j && j < high && c = d && !used then some ((d, true) :: rest)
    else (mark c low high (j + 1) rest).map ((d, used) :: ·)

/-- Matches characters in order, each with a free equal one not further away than the range; the
matched ones are kept. -/
def matching (range : Nat) : Nat → List Char → Marked → List Char × Marked
  | _, [], b => ([], b)
  | i, c :: rest, b =>
    match mark c (i - range) (i + range + 1) 0 b with
    | some b =>
      let (found, b) := matching range (i + 1) rest b
      (c :: found, b)
    | none => matching range (i + 1) rest b

/-- The matched characters of two words, each in the order of its word. -/
def matched (a b : List Char) : List Char × List Char :=
  let (found, marked) := matching (max a.length b.length / 2 - 1) 0 a (b.map (·, false))
  (found, (marked.filter (·.2)).map (·.1))

/-- Half the number of matched characters that stand in another order. -/
def transpositions (a b : List Char) : Nat := ((a.zip b).filter fun (c, d) => c ≠ d).length / 2

/-- A fraction. -/
structure Ratio where
  num : Nat
  den : Nat
deriving Repr

def Ratio.above (r : Ratio) (tenths : Nat) : Bool := tenths * r.den < 10 * r.num

/-- The Jaro measure: the mean of the matched parts of both words and of the matched characters
that keep their order. -/
def jaro (a b : List Char) : Ratio :=
  if a.isEmpty && b.isEmpty then ⟨1, 1⟩
  else
    let (x, y) := matched a b
    let m := x.length
    if m = 0 then ⟨0, 1⟩
    else ⟨m * m * b.length + m * m * a.length + (m - transpositions x y) * a.length * b.length,
      3 * a.length * b.length * m⟩

/-- The number of characters, at most four, that two words begin with. -/
def commonStart (a b : List Char) : Nat :=
  ((a.take 4).zip b).takeWhile (fun (c, d) => c = d) |>.length

/-- The Jaro measure, raised by a tenth of what it lacks for each common character at the start
when it is above seven tenths. -/
def measure (a b : List Char) : Ratio :=
  let r := jaro a b
  if r.above 7 then ⟨10 * r.num + commonStart a b * (r.den - r.num), 10 * r.den⟩ else r

/-- Whether two words are so alike that one may be meant for the other. -/
def alike (a b : String) : Bool := (measure a.toList b.toList).above 8

end Observable.Text.Similarity
