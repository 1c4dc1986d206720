import Tabular.Calendar
import Tabular.Number.Decimal

/-!
# Instants

The calendar that the program runs with. Its moments are instants, which compare by
day, second and nanosecond; a leap second is a second with more than a billion
nanoseconds. Days are counted from 1970-01-01. A form is read field by field: a field
may have fewer digits than it is wide and white space in front.
-/
namespace Tabular

/-- A point in time: days since 1970-01-01, seconds of the day and nanoseconds. -/
structure Instant where
  day : Int
  second : Nat
  nanosecond : Nat
  deriving DecidableEq

namespace Instant

instance : Ord Instant where
  compare := compareLex (compareOn day) (compareLex (compareOn second) (compareOn nanosecond))

instance : Std.TransOrd Instant :=
  inferInstanceAs (Std.TransCmp
    (compareLex (compareOn day) (compareLex (compareOn second) (compareOn nanosecond))))

def isLeapYear (year : Int) : Bool :=
  year % 4 == 0 && (year % 100 != 0 || year % 400 == 0)

def daysInMonth (year : Int) (month : Nat) : Nat :=
  if month = 2 then (if isLeapYear year then 29 else 28)
  else if month = 4 ∨ month = 6 ∨ month = 9 ∨ month = 11 then 30
  else 31

/-- Days from the first day of March of year 0 to the first of a month, counting
years from March. -/
def dayNumber (year : Int) (month day : Nat) : Int :=
  let shifted : Int := if month ≤ 2 then year - 1 else year
  let fromMarch := (month + 9) % 12
  shifted * 365 + shifted / 4 - shifted / 100 + shifted / 400 +
    ((153 * fromMarch + 2) / 5 + day - 1 : Nat) - 719468

/-- The day of a date, if it is in the calendar and in range. -/
def dayOf? (year : Int) (month day : Nat) : Option Int :=
  if -262143 ≤ year ∧ year ≤ 262142 ∧ 1 ≤ month ∧ month ≤ 12 ∧ 1 ≤ day ∧
      day ≤ daysInMonth year month then
    some (dayNumber year month day)
  else none

/-- The instant of a date and a time of day in UTC. Second 60 is a leap second. -/
def ofParts? (year : Int) (month day hour minute second nanosecond : Nat) : Option Instant := do
  let days ← dayOf? year month day
  if hour < 24 ∧ minute < 60 ∧ second ≤ 60 then
    let leap := second = 60
    some ⟨days, hour * 3600 + minute * 60 + (if leap then 59 else second),
      if leap then 1000000000 + nanosecond else nanosecond⟩
  else none

/-- An instant some seconds earlier; a leap second stays one. -/
def minusSeconds (i : Instant) (seconds : Int) : Instant :=
  let shifted : Int := i.second - seconds
  ⟨i.day + shifted / 86400, (shifted % 86400).toNat, i.nanosecond⟩

/-- Between `least` and `most` digits at the head of a text. -/
def readDigits? (least most : Nat) (cs : List Char) : Option (Nat × List Char) :=
  let digits := (cs.take most).takeWhile Number.isDigit
  if digits.length < least then none
  else some (Number.digitsValue digits, cs.drop digits.length)

def readChar? (c : Char) : List Char → Option (List Char)
  | head :: rest => if head = c then some rest else none
  | [] => none

/-- A field of a loose form: white space and then one or two digits. -/
def readField? (cs : List Char) : Option (Nat × List Char) :=
  readDigits? 1 2 (cs.dropWhile Text.isBlank)

/-- The year of a loose form: white space and then up to four digits, or a sign and
any number of them. -/
def readYear? (cs : List Char) : Option (Int × List Char) :=
  match cs.dropWhile Text.isBlank with
  | '-' :: rest => (readDigits? 1 rest.length rest).map fun (n, rest) => (-(n : Int), rest)
  | '+' :: rest => (readDigits? 1 rest.length rest).map fun (n, rest) => ((n : Int), rest)
  | rest => (readDigits? 1 4 rest).map fun (n, rest) => ((n : Int), rest)

/-- The fields that a form has given a value. -/
structure Fields where
  year? : Option Int := none
  month? : Option Nat := none
  day? : Option Nat := none
  hour? : Option Nat := none
  minute? : Option Nat := none
  second? : Option Nat := none

/-- The field that a letter of a form stands for. -/
def readNext? (letter : Char) (fields : Fields) (cs : List Char) :
    Option (Fields × List Char) :=
  match letter with
  | 'Y' => (readYear? cs).map fun (n, rest) => ({ fields with year? := some n }, rest)
  | 'm' => (readField? cs).map fun (n, rest) => ({ fields with month? := some n }, rest)
  | 'd' => (readField? cs).map fun (n, rest) => ({ fields with day? := some n }, rest)
  | 'H' => (readField? cs).map fun (n, rest) => ({ fields with hour? := some n }, rest)
  | 'M' => (readField? cs).map fun (n, rest) => ({ fields with minute? := some n }, rest)
  | 'S' => (readField? cs).map fun (n, rest) => ({ fields with second? := some n }, rest)
  | _ => none

/-- A whole text in a form, of which a blank stands for any white space and may be
missing. -/
def readForm? : List Char → Fields → List Char → Option Fields
  | '%' :: letter :: form, fields, cs => do
    let (fields, rest) ← readNext? letter fields cs
    readForm? form fields rest
  | ' ' :: form, fields, cs => readForm? form fields (cs.dropWhile Text.isBlank)
  | c :: form, fields, cs => do readForm? form fields (← readChar? c cs)
  | [], fields, cs => if cs.isEmpty then some fields else none

/-- A date in a form. -/
def readDay? (form text : String) : Option Int := do
  let fields ← readForm? form.toList {} text.toList
  dayOf? (← fields.year?) (← fields.month?) (← fields.day?)

/-- A date and a time in a form. -/
def readLocal? (form text : String) : Option Instant := do
  let fields ← readForm? form.toList {} text.toList
  ofParts? (← fields.year?) (← fields.month?) (← fields.day?) (← fields.hour?)
    (← fields.minute?) (← fields.second?) 0

/-- A fraction of a second after its point, in nanoseconds; digits past the ninth
are dropped. -/
def readFraction? (cs : List Char) : Option (Nat × List Char) :=
  let digits := cs.takeWhile Number.isDigit
  if digits.isEmpty then none
  else
    let kept := digits.take 9
    some (Number.digitsValue kept * Number.tenTo (9 - kept.length), cs.drop digits.length)

/-- An offset from UTC at the end of a text, in seconds: `Z`, or a sign, two digits
of hours, a colon and two digits of minutes, less than a day in all. -/
def readOffset? (cs : List Char) : Option Int := do
  match cs with
  | ['Z'] => some 0
  | ['z'] => some 0
  | sign :: rest =>
    let negative ← if sign = '+' then some false
      else if sign = '-' ∨ sign = '−' then some true else none
    let (hours, rest) ← readDigits? 2 2 rest
    let (minutes, rest) ← readDigits? 2 2 (← readChar? ':' rest)
    let seconds : Int := hours * 3600 + minutes * 60
    if rest.isEmpty ∧ minutes < 60 ∧ hours < 24 then
      some (if negative then -seconds else seconds)
    else none
  | [] => none

/-- A date and time with an offset, in the strict form of RFC 3339. -/
def readStamped? (cs : List Char) : Option Instant := do
  let (year, rest) ← readDigits? 4 4 cs
  let (month, rest) ← readDigits? 2 2 (← readChar? '-' rest)
  let (day, rest) ← readDigits? 2 2 (← readChar? '-' rest)
  let rest ← match rest with
    | c :: rest => if c = 'T' ∨ c = 't' ∨ c = ' ' then some rest else none
    | [] => none
  let (hour, rest) ← readDigits? 2 2 rest
  let (minute, rest) ← readDigits? 2 2 (← readChar? ':' rest)
  let (second, rest) ← readDigits? 2 2 (← readChar? ':' rest)
  let (nanosecond, rest) ← match rest with
    | '.' :: rest => readFraction? rest
    | rest => some (0, rest)
  let offset ← readOffset? rest
  let instant ← ofParts? year month day hour minute second nanosecond
  return instant.minusSeconds offset

/-- An instant of a day, which is no leap second. -/
def ofDay? (day : Int) (hour minute second : Nat) : Option Instant :=
  if hour < 24 ∧ minute < 60 ∧ second < 60 then
    some ⟨day, hour * 3600 + minute * 60 + second, 0⟩
  else none

end Instant

instance Instant.calendar : Calendar where
  Moment := Instant
  Day := Int
  chronological := inferInstance
  stamp? text := Instant.readStamped? text.toList
  moment? := Instant.readLocal?
  day? := Instant.readDay?
  at? := Instant.ofDay?

instance : Std.TransOrd (@Calendar.Moment Instant.calendar) :=
  inferInstanceAs (Std.TransOrd Instant)

end Tabular
