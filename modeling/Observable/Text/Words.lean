import Observable.Text.Case
import Observable.Text.Printable
/-! Splitting a name into words, and its spelling in lower case with underscores. -/
namespace Observable.Text

/-- The Unicode class SpacingMark of marks that stay with the letter before them. -/
def spacingMarkRanges : List CodeRange := codeRanges [
    "903 93B 93E-940 949-94C 94E-94F 982-983 9BF-9C0 9C7-9C8 9CB-9CC A03 A3E-A40 A83 ABE-AC0",
    "AC9 ACB-ACC B02-B03 B40 B47-B48 B4B-B4C BBF BC1-BC2 BC6-BC8 BCA-BCC C01-C03 C41-C44",
    "C82-C83 CBE CC0-CC1 CC3-CC4 CC7-CC8 CCA-CCB CF3 D02-D03 D3F-D40 D46-D48 D4A-D4C D82-D83",
    "DD0-DD1 DD8-DDE DF2-DF3 E33 EB3 F3E-F3F F7F 1031 103B-103C 1056-1057 1084 1715 1734 17B6",
    "17BE-17C5 17C7-17C8 1923-1926 1929-192B 1930-1931 1933-1938 1A19-1A1A 1A55 1A57",
    "1A6D-1A72 1B04 1B3B 1B3D-1B41 1B43-1B44 1B82 1BA1 1BA6-1BA7 1BAA 1BE7 1BEA-1BEC 1BEE",
    "1BF2-1BF3 1C24-1C2B 1C34-1C35 1CE1 1CF7 A823-A824 A827 A880-A881 A8B4-A8C3 A952-A953",
    "A983 A9B4-A9B5 A9BA-A9BB A9BE-A9C0 AA2F-AA30 AA33-AA34 AA4D AAEB AAEE-AAEF AAF5",
    "ABE3-ABE4 ABE6-ABE7 ABE9-ABEA ABEC 11000 11002 11082 110B0-110B2 110B7-110B8 1112C",
    "11145-11146 11182 111B3-111B5 111BF-111C0 111CE 1122C-1122E 11232-11233 11235",
    "112E0-112E2 11302-11303 1133F 11341-11344 11347-11348 1134B-1134D 11362-11363",
    "11435-11437 11440-11441 11445 114B1-114B2 114B9 114BB-114BC 114BE 114C1 115B0-115B1",
    "115B8-115BB 115BE 11630-11632 1163B-1163C 1163E 116AC 116AE-116AF 116B6 11726",
    "1182C-1182E 11838 11931-11935 11937-11938 1193D 11940 11942 119D1-119D3 119DC-119DF",
    "119E4 11A39 11A57-11A58 11A97 11C2F 11C3E 11CA9 11CB1 11CB4 11D8A-11D8E 11D93-11D94",
    "11D96 11EF5-11EF6 11F03 11F34-11F35 11F3E-11F3F 11F41 16F51-16F87 16FF0-16FF1 1D166",
    "1D16D"]

/-- The Unicode class Prepend of marks that stay with the letter after them. -/
def prependRanges : List CodeRange := codeRanges [
    "600-605 6DD 70F 890-891 8E2 D4E 110BD 110CD 111C2-111C3 1193F 11941 11A3A 11A84-11A89",
    "11D46 11F02"]

/-- The Unicode class Control, after which and before which a letter always ends. -/
def controlRanges : List CodeRange := codeRanges [
    "80-9F AD 61C 180E 200B 200E-200F 2028-202E 2060-206F FEFF FFF0-FFFB 13430-1343F",
    "1BCA0-1BCA3 1D173-1D17A E0000-E001F E0080-E00FF E01F0-E0FFF"]

def isControl (c : Char) : Bool :=
  if c.toNat < 128 then c.toNat < 32 || c.toNat == 127 else inRanges controlRanges c

/-- Marks that stay with the letter before them. -/
def isSpacingMark (c : Char) : Bool := 128 ≤ c.toNat && inRanges spacingMarkRanges c

/-- Marks that stay with the letter after them. -/
def isPrepend (c : Char) : Bool := 128 ≤ c.toNat && inRanges prependRanges c

/-- Whether a character belongs to the same letter as the one before it. -/
def joinsLetter (before c : Char) : Bool :=
  !isControl before && !isControl c &&
    (isExtend c || c == '\u200d' || isSpacingMark c || isPrepend before)

/-- The letters of a text: each base character with the marks that belong to it. -/
def letters : List Char → List (List Char)
  | [] => []
  | c :: rest =>
    match letters rest, rest with
    | l :: ls, d :: _ => if joinsLetter c d then (c :: l) :: ls else [c] :: l :: ls
    | ls, _ => [c] :: ls

/-- A letter with two cases that is in lower case. -/
def isLowerLetter (l : List Char) : Bool := upperText l != lowerText l && l == lowerText l

/-- A letter with two cases that is in upper case. -/
def isUpperLetter (l : List Char) : Bool := upperText l != lowerText l && l == upperText l

def isDigitLetter (l : List Char) : Bool := l.all Char.isDigit

/-- Letters that separate words and belong to none. -/
def isSeparator (l : List Char) : Bool := l == ['_'] || l == ['-'] || l == [' ']

/-- Whether a word ends between two letters; the third letter tells the last capital of an
acronym from the first of the next word. -/
def endsWord (a b : List Char) (c : Option (List Char)) : Bool :=
  (isLowerLetter a && isUpperLetter b) ||
  (isUpperLetter a && isUpperLetter b && c.any isLowerLetter) ||
  (isLowerLetter a && isDigitLetter b) || (isUpperLetter a && isDigitLetter b) ||
  (isDigitLetter a && isLowerLetter b) || (isDigitLetter a && isUpperLetter b)

/-- Puts a letter in front of the first word. -/
def consLetter (l : List Char) : List (List Char) → List (List Char)
  | [] => [l]
  | w :: ws => (l ++ w) :: ws

/-- The words of a row of letters; two separators in a row enclose an empty word. -/
def splitWords : List (List Char) → List (List Char)
  | [] => [[]]
  | [a] => if isSeparator a then [[], []] else [a]
  | a :: b :: rest =>
    if isSeparator a then [] :: splitWords (b :: rest)
    else if endsWord a b rest.head? then a :: splitWords (b :: rest)
    else consLetter a (splitWords (b :: rest))

def nameWords (text : List Char) : List (List Char) := splitWords (letters text)

/-- The words of a name in lower case, joined by underscores. -/
def snakeCase (text : List Char) : List Char :=
  if text.isEmpty then [] else ['_'].intercalate ((nameWords text).map lowerText)

end Observable.Text
