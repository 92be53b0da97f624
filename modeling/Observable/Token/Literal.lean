import Observable.Text.Identifier
/-! The text of literals: strings with their escapes, raw strings, characters and numbers. -/
namespace Observable.Literal

/-- The three families of quoted text, which differ in the characters and escapes they admit. -/
inductive Family where
  | text
  | bytes
  | terminated
deriving DecidableEq, Repr

/-- What has been read of an escape sequence or of a line break. -/
inductive Escape where
  | plain
  | lineBreak
  | backslash
  | hex
  | hexTail (high : Nat)
  | unicodeOpen
  | unicode (value digits : Nat)
  | blank
  | blankBreak
deriving DecidableEq, Repr

def isHexDigit (c : Char) : Bool :=
  c.isDigit || ('a' ≤ c && c ≤ 'f') || ('A' ≤ c && c ≤ 'F')

/-- The character that a simple escape stands for. -/
def simpleEscape (family : Family) (c : Char) : Option Char :=
  match c with
  | 'n' => some '\n'
  | 'r' => some '\r'
  | 't' => some '\t'
  | '\\' => some '\\'
  | '\'' => some '\''
  | '"' => some '"'
  | '0' => if family = .terminated then none else some '\x00'
  | _ => none

/-- Whether a character may stand for itself between the quotes. -/
def admits (family : Family) (c : Char) : Bool :=
  match family with
  | .text => true
  | .bytes => c.toNat < 128
  | .terminated => c ≠ '\x00'

def isScalar (n : Nat) : Bool := n < 0xD800 || (0xDFFF < n && n < 0x110000)

/-- Whether the value of an escape is admitted. -/
def admitsValue (family : Family) (n : Nat) : Bool := family ≠ .terminated || n ≠ 0

private def stepPlain (family : Family) (c : Char) : Option (Escape × List Char) :=
  if c = '\\' then some (.backslash, [])
  else if c = '\r' then some (.lineBreak, [])
  else if admits family c then some (.plain, [c])
  else none

/-- One more character between the quotes: the new state and the characters it stands for. -/
def step (family : Family) : Escape → Char → Option (Escape × List Char)
  | .plain, c => stepPlain family c
  | .lineBreak, c => if c = '\n' then some (.plain, ['\n']) else none
  | .backslash, c =>
    match simpleEscape family c with
    | some d => some (.plain, [d])
    | none =>
      if c = 'x' then some (.hex, [])
      else if c = 'u' && family ≠ .bytes then some (.unicodeOpen, [])
      else if c = '\n' then some (.blank, [])
      else if c = '\r' then some (.blankBreak, [])
      else none
  | .hex, c =>
    if isHexDigit c && (family ≠ .text || c.toNat ≤ '7'.toNat) then
      some (.hexTail (Text.hexDigitValue c), [])
    else none
  | .hexTail high, c =>
    let value := 16 * high + Text.hexDigitValue c
    if isHexDigit c && admitsValue family value then some (.plain, [Char.ofNat value]) else none
  | .unicodeOpen, c => if c = '\x7b' then some (.unicode 0 0, []) else none
  | .unicode value digits, c =>
    if c = '_' && digits ≠ 0 then some (.unicode value digits, [])
    else if c = '\x7d' && digits ≠ 0 then
      if isScalar value && admitsValue family value then some (.plain, [Char.ofNat value]) else none
    else if isHexDigit c && digits < 6 then
      some (.unicode (16 * value + Text.hexDigitValue c) (digits + 1), [])
    else none
  | .blank, c =>
    if c = ' ' || c = '\t' || c = '\n' then some (.blank, [])
    else if c = '\r' then some (.blankBreak, [])
    else stepPlain family c
  | .blankBreak, c => if c = '\n' then some (.blank, []) else none

/-- Reads quoted text up to its closing quote: the value, and what follows the quote. -/
def readQuoted (family : Family) : Escape → List Char → Option (List Char × List Char)
  | _, [] => none
  | state, c :: rest =>
    if c = '"' && (state = .plain || state = .blank) then some ([], rest)
    else
      match step family state c with
      | none => none
      | some (state', out) =>
        (readQuoted family state' rest).map fun (value, tail) => (out ++ value, tail)

/-- Reads raw text up to a quote followed by the given number of pound signs. -/
def readRaw (family : Family) (pounds : Nat) : List Char → Option (List Char × List Char)
  | [] => none
  | '"' :: rest =>
    if (List.replicate pounds '#').isPrefixOf rest then some ([], rest.drop pounds)
    else (readRaw family pounds rest).map fun (value, tail) => ('"' :: value, tail)
  | '\r' :: '\n' :: rest =>
    (readRaw family pounds rest).map fun (value, tail) => ('\r' :: '\n' :: value, tail)
  | c :: rest =>
    if c ≠ '\r' && admits family c then
      (readRaw family pounds rest).map fun (value, tail) => (c :: value, tail)
    else none

/-- Reads the opening of a raw string, then its text. -/
def readPounds (family : Family) (text : List Char) : Option (List Char × List Char) :=
  let pounds := (text.takeWhile (· == '#')).length
  match text.drop pounds with
  | '"' :: rest => if pounds ≤ 255 then readRaw family pounds rest else none
  | _ => none

/-- Drops an identifier from the front of a text, if there is one. -/
def dropIdent (text : List Char) : List Char :=
  match text with
  | c :: rest => if Text.isIdentStart c then rest.dropWhile Text.isIdentContinue else text
  | [] => []

/-- Reads one character between single quotes; any character but a backslash stands for
itself. -/
def readCharBody (family : Family) : List Char → Option (List Char)
  | '\\' :: rest => readEscape .backslash rest
  | c :: '\'' :: rest => if admits family c then some rest else none
  | _ => none
where
  /-- Reads the rest of an escape and the closing quote. -/
  readEscape : Escape → List Char → Option (List Char)
    | _, [] => none
    | state, c :: rest =>
      if state = .plain then if c = '\'' then some rest else none
      else
        match step family state c with
        | some (.blank, _) => none
        | some (.blankBreak, _) => none
        | some (state', _) => readEscape state' rest
        | none => none

/-- Reads an exponent: optional sign, digits and underscores, at least one digit. -/
def readExponent : Bool → Bool → List Char → Option (List Char)
  | _, digits, [] => if digits then some [] else none
  | sign, digits, c :: rest =>
    if c = '+' || c = '-' then
      if digits then some (c :: rest) else if sign then none else readExponent true false rest
    else if c.isDigit then readExponent sign true rest
    else if c = '_' then readExponent sign digits rest
    else if digits then some (c :: rest) else none

/-- Reads the digits, point and exponent of a decimal number; `none` when there is neither point
nor exponent, or when the point belongs to what follows. -/
def readDecimal : Bool → List Char → Option (List Char)
  | point, [] => if point then some [] else none
  | point, c :: rest =>
    if c.isDigit || c = '_' then readDecimal point rest
    else if c = '.' then
      if point then some (c :: rest)
      else if rest.head?.any fun d => d = '.' || Text.isIdentStart d then none
      else readDecimal true rest
    else if c = 'e' || c = 'E' then
      match readExponent false false rest with
      | some tail => some tail
      | none => if point then some (c :: rest) else none
    else if point then some (c :: rest) else none

/-- Drops the digits of a number in the given base; the flag tells whether one was seen. -/
def readDigits (base : Nat) : Bool → List Char → Option (List Char)
  | seen, [] => if seen then some [] else none
  | seen, c :: rest =>
    if c.isDigit then
      if Text.hexDigitValue c < base then readDigits base true rest else none
    else if c = '_' then if !seen && base = 10 then none else readDigits base seen rest
    else if isHexDigit c && Text.hexDigitValue c < base then readDigits base true rest
    else if seen then some (c :: rest) else none

/-- The base that a number announces, and its digits. -/
def splitBase : List Char → Nat × List Char
  | '0' :: 'x' :: rest => (16, rest)
  | '0' :: 'o' :: rest => (8, rest)
  | '0' :: 'b' :: rest => (2, rest)
  | text => (10, text)

/-- Drops the suffix of a number; no identifier character may follow it. -/
def closeNumber (text : List Char) : Option (List Char) :=
  let rest := dropIdent text
  if rest.head?.any Text.isIdentContinue then none else some rest

/-- Reads a number: what follows it. -/
def readNumber (text : List Char) : Option (List Char) :=
  let decimal := if text.head?.any Char.isDigit then (readDecimal false text).bind closeNumber
                 else none
  match decimal with
  | some rest => some rest
  | none =>
    let (base, digits) := splitBase text
    if text.head?.any Char.isDigit then (readDigits base false digits).bind closeNumber else none

/-- Reads one literal from the front of a text: what follows it. -/
def read (text : List Char) : Option (List Char) :=
  let quoted (found : Option (List Char × List Char)) := found.map fun (_, rest) => dropIdent rest
  match text with
  | '"' :: rest => quoted (readQuoted .text .plain rest)
  | 'r' :: rest => quoted (readPounds .text rest)
  | 'b' :: '"' :: rest => quoted (readQuoted .bytes .plain rest)
  | 'b' :: 'r' :: rest => quoted (readPounds .bytes rest)
  | 'b' :: '\'' :: rest => (readCharBody .bytes rest).map dropIdent
  | 'c' :: '"' :: rest => quoted (readQuoted .terminated .plain rest)
  | 'c' :: 'r' :: rest => quoted (readPounds .terminated rest)
  | '\'' :: rest => (readCharBody .text rest).map dropIdent
  | _ => readNumber text

/-- What a literal is. -/
inductive Form where
  | string (value : List Char)
  | byteString
  | byte
  | terminatedString
  | character
  | integer (value : Nat) (suffix : List Char)
  | decimal
  | other
deriving DecidableEq, Repr

/-- The value of the digits of an integer in a base, and the suffix after them. -/
def integerValue (base : Nat) : Nat → List Char → Nat × List Char
  | value, [] => (value, [])
  | value, c :: rest =>
    if c = '_' then integerValue base value rest
    else if c.isDigit || (10 < base && isHexDigit c) then
      integerValue base (base * value + Text.hexDigitValue c) rest
    else (value, c :: rest)

/-- What a number is: a point or an exponent makes it decimal. -/
def numberForm (text : List Char) : Form :=
  match (if text.head?.any Char.isDigit then readDecimal false text else none) with
  | some _ => .decimal
  | none =>
    let (base, digits) := splitBase text
    let (value, suffix) := integerValue base 0 digits
    .integer value suffix

/-- What the text of a literal is, whatever its sign. -/
def form (text : List Char) : Form :=
  match text with
  | '"' :: rest => match readQuoted .text .plain rest with
    | some (value, _) => .string value
    | none => .other
  | 'r' :: rest => match readPounds .text rest with
    | some (value, _) => .string value
    | none => .other
  | 'b' :: '\'' :: _ => .byte
  | 'b' :: _ => .byteString
  | 'c' :: _ => .terminatedString
  | '\'' :: _ => .character
  | '-' :: rest => numberForm rest
  | c :: _ => if c.isDigit then numberForm text else .other
  | [] => .other

def stringValue? (text : List Char) : Option (List Char) :=
  match form text with
  | .string value => some value
  | _ => none

end Observable.Literal
