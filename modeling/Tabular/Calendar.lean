import Tabular.Text.Case

/-!
# Dates and times in text

A calendar reads dates and times that are written in a given form, and tells which of
two comes first. `Calendar.read?` tries the forms in which tables hold dates, one after
the other: a date and time with an offset from UTC, a date and time without one, a date,
and a year with a month. Without an offset a text means UTC.
-/
namespace Tabular

/-- The operations of a calendar. A form names the fields of a date and a time, as
`%Y-%m-%d` does. -/
class Calendar where
  /-- A date and a time of day, in UTC. -/
  Moment : Type
  /-- A date. -/
  Day : Type
  chronological : Ord Moment
  /-- A date and time with an offset, in the form of RFC 3339, moved to UTC. -/
  stamp? (text : String) : Option Moment
  moment? (form text : String) : Option Moment
  day? (form text : String) : Option Day
  /-- A time on a day, if the day has it. -/
  at? (day : Day) (hour minute second : Nat) : Option Moment

namespace Calendar

variable [Calendar]

instance : Ord Moment := chronological

/-- The forms of a date and a time without an offset. -/
def momentForms : List String := ["%Y-%m-%dT%H:%M:%S", "%Y-%m-%d %H:%M:%S"]

def dayForm : String := "%Y-%m-%d"

/-- The start of a day. -/
def midnight? (day : Day) : Option Moment := at? day 0 0 0

/-- The moment a text denotes. Seven bytes of text may also be a year and a month. -/
def read? (text : String) : Option Moment :=
  let trimmed := Text.trim text
  (stamp? trimmed).or <| (momentForms.findSome? (moment? · trimmed)).or <|
    match day? dayForm trimmed with
    | some day => midnight? day
    | none =>
      if trimmed.utf8ByteSize = 7 then (day? dayForm (trimmed ++ "-01")).bind midnight?
      else none

end Calendar
end Tabular
