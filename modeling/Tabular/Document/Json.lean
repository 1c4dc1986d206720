import Tabular.Document

/-!
# JSON text

Reading follows the strict grammar: no comments, no trailing commas, no leading
zeros, no control characters in texts. A number without fraction and exponent is a
whole number if it fits in 64 bits, else a double; one past the largest double is
invalid, and so is a text with half a character. Every reader answers what it read
and the rest of the text, or no rest if the text breaks off there.
-/
namespace Tabular.Json

def isSpace (c : Char) : Bool := c == ' ' || c == '\n' || c == '\t' || c == '\r'

def skipSpace (cs : List Char) : List Char := cs.dropWhile isSpace

def hexDigit? (c : Char) : Option Nat :=
  if '0' ≤ c ∧ c ≤ '9' then some (c.toNat - 48)
  else if 'a' ≤ c ∧ c ≤ 'f' then some (c.toNat - 87)
  else if 'A' ≤ c ∧ c ≤ 'F' then some (c.toNat - 55)
  else none

def readHex? : Nat → Nat → List Char → Option (Nat × List Char)
  | 0, value, cs => some (value, cs)
  | n + 1, value, c :: rest => do
    let digit ← hexDigit? c
    readHex? n (16 * value + digit) rest
  | _ + 1, _, [] => none

/-- A character written as `u` and four digits, or as two such halves. Half a
character is read as none. -/
def readCodePoint? (cs : List Char) : Option (Option Char × List Char) := do
  let (unit, rest) ← readHex? 4 0 cs
  if 0xdc00 ≤ unit ∧ unit ≤ 0xdfff then return (none, rest)
  else if 0xd800 ≤ unit ∧ unit ≤ 0xdbff then
    match rest with
    | '\\' :: 'u' :: after =>
      let (low, after) ← readHex? 4 0 after
      if 0xdc00 ≤ low ∧ low ≤ 0xdfff then
        return (some (Char.ofNat (0x10000 + (unit - 0xd800) * 0x400 + (low - 0xdc00))), after)
      else return (none, rest)
    | _ => return (none, rest)
  else return (some (Char.ofNat unit), rest)

def escape? (c : Char) : Option Char :=
  match c with
  | '\x22' => some '\x22'
  | '\\' => some '\\'
  | '/' => some '/'
  | 'b' => some '\x08'
  | 'f' => some '\x0c'
  | 'n' => some '\n'
  | 'r' => some '\r'
  | 't' => some '\t'
  | _ => none

/-- The characters of a text after its opening quote, half ones as none. Each step
reads at least one character, so as much fuel as there are characters is enough. -/
def readChars? : Nat → List Char → Option (List (Option Char) × List Char)
  | _, '\x22' :: rest => some ([], rest)
  | fuel + 1, '\\' :: 'u' :: rest => do
    let (c?, rest) ← readCodePoint? rest
    let (cs, rest) ← readChars? fuel rest
    return (c? :: cs, rest)
  | fuel + 1, '\\' :: e :: rest => do
    let c ← escape? e
    let (cs, rest) ← readChars? fuel rest
    return (some c :: cs, rest)
  | fuel + 1, c :: rest =>
    if c = '\\' ∨ c.toNat < 32 then none
    else do
      let (cs, rest) ← readChars? fuel rest
      return (some c :: cs, rest)
  | _, _ => none

/-- A text after its opening quote; it has no value if a character is half. -/
def readText? (fuel : Nat) (cs : List Char) : Option (Option String × List Char) :=
  (readChars? fuel cs).map fun (cs, rest) => ((cs.mapM id).map String.ofList, rest)

/-- The fraction of a number, if one stands here: a point and digits. -/
def readFraction? : List Char → Option (List Char × List Char)
  | '.' :: rest =>
    let digits := rest.takeWhile Number.isDigit
    if digits.isEmpty then none else some (digits, rest.drop digits.length)
  | cs => some ([], cs)

/-- The exponent of a number, if one stands here; its letter needs digits. -/
def readExponent? : List Char → Option (Option Int × List Char)
  | e :: rest =>
    if e = 'e' ∨ e = 'E' then
      let (negative, rest) := Number.readSign rest
      let digits := rest.takeWhile Number.isDigit
      if digits.isEmpty then none
      else
        let size : Int := Number.digitsValue digits
        some (some (if negative then -size else size), rest.drop digits.length)
    else some (none, e :: rest)
  | [] => some (none, [])

/-- Digits behind those of a significand, as long as it fits in 64 bits, and how many of
them are left. -/
def extend (significand : Nat) : List Char → Nat × Nat
  | [] => (significand, 0)
  | c :: rest =>
    let extended := 10 * significand + Number.digitsValue [c]
    if extended < Number.twoTo 64 then extend extended rest else (significand, rest.length + 1)

/-- A power of ten up to the last one that a double holds, rounded to it. -/
def powerOfTen (n : Nat) : Float := (Number.Decimal.mk false 1 n).toFloat

/-- The exponent of the last power of ten. -/
def lastPower : Nat := 308

/-- A double divided so many times by the last power of ten. -/
def divideByLast : Nat → Float → Float
  | 0, x => x
  | n + 1, x => if x == 0.0 then x else divideByLast n (x / powerOfTen lastPower)

/-- A significand times a power of ten, unless that is far too large. The double is not
always the nearest: the significand is rounded first, and then the product or quotient. -/
def scale? (significand : Nat) (exponent : Int) : Option Float :=
  let x := Document.intToFloat significand
  if exponent < 0 then
    let steps := (exponent.natAbs - 1) / lastPower
    some (divideByLast steps x / powerOfTen (exponent.natAbs - steps * lastPower))
  else if significand = 0 then some x
  else if exponent ≤ lastPower then some (x * powerOfTen exponent.toNat)
  else none

/-- The double for the digits before and after a point and an exponent, unless it is past
the largest one. Digits that do not fit in 64 bits any more count for their place only. -/
def doubleOf (negative : Bool) (whole fraction : List Char) (exponent : Int) : Document :=
  let (significand, places) := extend 0 whole
  let (significand, ignored) := extend significand fraction
  match scale? significand (exponent + places - (fraction.length - ignored)) with
  | some x => if x.isFinite then .float (if negative then -x else x) else .invalid
  | none => .invalid

/-- A whole number as it is kept: exact in 64 bits, else as a double. Negative zero is a
double. -/
def wholeNumber (negative : Bool) (digits : List Char) : Document :=
  let n := Number.digitsValue digits
  if !negative && n < Number.twoTo 64 then .int n
  else if negative && 0 < n && n ≤ Number.twoTo 63 then .int (-n)
  else doubleOf negative digits [] 0

def readNumber? (cs : List Char) : Option (Document × List Char) := do
  let (negative, cs) := match cs with
    | '-' :: rest => (true, rest)
    | cs => (false, cs)
  let whole := cs.takeWhile Number.isDigit
  if whole.isEmpty || (whole.head? == some '0' && 1 < whole.length) then none
  else
    let (fraction, rest) ← readFraction? (cs.drop whole.length)
    let (exponent?, rest) ← readExponent? rest
    if fraction.isEmpty && exponent?.isNone then return (wholeNumber negative whole, rest)
    else return (doubleOf negative whole fraction (exponent?.getD 0), rest)

def readWord? (word : String) (value : Document) (cs : List Char) :
    Option (Document × List Char) :=
  if word.toList.isPrefixOf cs then some (value, cs.drop word.length) else none

def readScalar? (fuel : Nat) (cs : List Char) : Option (Document × List Char) :=
  match cs with
  | '\x22' :: rest => (readText? fuel rest).map fun
    | (some s, rest) => (.text s, rest)
    | (none, rest) => (.invalid, rest)
  | 'n' :: _ => readWord? "null" .null cs
  | 't' :: _ => readWord? "true" (.bool true) cs
  | 'f' :: _ => readWord? "false" (.bool false) cs
  | _ => readNumber? cs

mutual

/-- A value, with white space in front. Each call reads a character or passes on to
one that does, so twice as much fuel as there are characters is enough, also for the
texts inside. -/
def readValue (fuel : Nat) (cs : List Char) : Document × Option (List Char) :=
  match fuel with
  | 0 => (.cut, none)
  | fuel + 1 =>
    match skipSpace cs with
    | '[' :: rest =>
      match skipSpace rest with
      | ']' :: rest => (.list [], some rest)
      | rest =>
        let (items, rest?) := readItems fuel rest
        (.list items, rest?)
    | '\x7b' :: rest =>
      match skipSpace rest with
      | '\x7d' :: rest => (.record [], some rest)
      | rest =>
        let (fields, rest?) := readFields fuel rest
        (.record fields, rest?)
    | cs =>
      match readScalar? fuel cs with
      | some (value, rest) => (value, some rest)
      | none => (.cut, none)

def readItems (fuel : Nat) (cs : List Char) : List Document × Option (List Char) :=
  match fuel with
  | 0 => ([.cut], none)
  | fuel + 1 =>
    match readValue fuel cs with
    | (item, none) => ([item], none)
    | (item, some rest) =>
      match skipSpace rest with
      | ']' :: rest => ([item], some rest)
      | ',' :: rest =>
        let (items, rest?) := readItems fuel rest
        (item :: items, rest?)
      | _ => ([item, .cut], none)

def readFields (fuel : Nat) (cs : List Char) :
    List (String × Document) × Option (List Char) :=
  match fuel with
  | 0 => ([("", .cut)], none)
  | fuel + 1 =>
    match skipSpace cs with
    | '\x22' :: rest =>
      match readText? fuel rest with
      | none => ([("", .cut)], none)
      | some (none, _) => ([("", .cut)], none)
      | some (some name, rest) =>
        match skipSpace rest with
        | ':' :: rest =>
          match readValue fuel rest with
          | (value, none) => ([(name, value)], none)
          | (value, some rest) =>
            match skipSpace rest with
            | '\x7d' :: rest => ([(name, value)], some rest)
            | ',' :: rest =>
              let (fields, rest?) := readFields fuel rest
              ((name, value) :: fields, rest?)
            | _ => ([(name, value), ("", .cut)], none)
        | _ => ([(name, .cut)], none)
    | _ => ([("", .cut)], none)

end

/-- The document at the head of a text, whatever follows it. -/
def readHead (text : String) : Document × Option (List Char) :=
  let cs := text.toList
  readValue (2 * cs.length + 1) cs

/-- The document that a whole text holds; `cut` if anything follows it. -/
def read (text : String) : Document :=
  match readHead text with
  | (document, some rest) => if (skipSpace rest).isEmpty then document else .cut
  | (document, none) => document

/-- A digit of a hexadecimal number, in lower case. -/
def hexChar (n : Nat) : Char := if n < 10 then Char.ofNat (48 + n) else Char.ofNat (87 + n)

def quoteChar (c : Char) : List Char :=
  if c = '\x22' then ['\\', '\x22']
  else if c = '\\' then ['\\', '\\']
  else if c = '\x08' then ['\\', 'b']
  else if c = '\t' then ['\\', 't']
  else if c = '\n' then ['\\', 'n']
  else if c = '\x0c' then ['\\', 'f']
  else if c = '\r' then ['\\', 'r']
  else if c.toNat < 32 then
    ['\\', 'u', '0', '0', hexChar (c.toNat / 16), hexChar (c.toNat % 16)]
  else [c]

def quote (s : String) : String :=
  String.ofList ('\x22' :: s.toList.flatMap quoteChar ++ ['\x22'])

/-- A scalar; a double that is not finite is null. -/
def scalar : Document → String
  | .bool b => if b then "true" else "false"
  | .int i => toString i
  | .float x => (Number.exchange? x).getD "null"
  | .text s => quote s
  | .plain s => quote s
  | _ => "null"

mutual

def compact : Document → String
  | .list items => "[" ++ ",".intercalate (compactItems items) ++ "]"
  | .record fields => "\x7b" ++ ",".intercalate (compactFields fields) ++ "\x7d"
  | document => scalar document

def compactItems : List Document → List String
  | [] => []
  | item :: rest => compact item :: compactItems rest

def compactFields : List (String × Document) → List String
  | [] => []
  | (name, value) :: rest => (quote name ++ ":" ++ compact value) :: compactFields rest

end

def newline (indent : String) : String := "\n" ++ indent

mutual

/-- A document on indented lines, two spaces deeper inside each bracket. -/
def pretty (indent : String) : Document → String
  | .list items =>
    if items.isEmpty then "[]"
    else
      let inner := newline (indent ++ "  ")
      "[" ++ inner ++ ("," ++ inner).intercalate (prettyItems (indent ++ "  ") items) ++
        newline indent ++ "]"
  | .record fields =>
    if fields.isEmpty then "\x7b\x7d"
    else
      let inner := newline (indent ++ "  ")
      "\x7b" ++ inner ++ ("," ++ inner).intercalate (prettyFields (indent ++ "  ") fields) ++
        newline indent ++ "\x7d"
  | document => scalar document

def prettyItems (indent : String) : List Document → List String
  | [] => []
  | item :: rest => pretty indent item :: prettyItems indent rest

def prettyFields (indent : String) : List (String × Document) → List String
  | [] => []
  | (name, value) :: rest =>
    (quote name ++ ": " ++ pretty indent value) :: prettyFields indent rest

end

end Tabular.Json
