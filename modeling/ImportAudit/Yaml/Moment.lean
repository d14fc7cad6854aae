import ImportAudit.Yaml.Fault

/-! Dates and times of day. -/
namespace ImportAudit.Yaml

structure Date where
  year : Nat
  month : Nat
  day : Nat
deriving DecidableEq, Repr

/-- A time of day; `offset` is how many minutes the clock is ahead of universal time. -/
structure Clock where
  hour : Nat
  minute : Nat
  second : Nat
  microsecond : Nat
  offset : Option Int
deriving DecidableEq, Repr

namespace Date

def isLeap (year : Nat) : Bool := year % 4 == 0 && (year % 100 != 0 || year % 400 == 0)

def daysIn (year month : Nat) : Nat :=
  if month = 2 then if isLeap year then 29 else 28
  else if month = 4 ∨ month = 6 ∨ month = 9 ∨ month = 11 then 30
  else 31

def check (date : Date) : Except Fault Date :=
  if date.year = 0 then .error (.badMoment "year 0 is out of range")
  else if date.month = 0 ∨ 12 < date.month then .error (.badMoment "month must be in 1..12")
  else if date.day = 0 ∨ daysIn date.year date.month < date.day then
    .error (.badMoment "day is out of range for month")
  else .ok date

/-- Days since the start of the calendar. -/
def ordinal (date : Date) : Nat :=
  let before := date.year - 1
  (List.range (date.month - 1)).foldl (fun days month => days + daysIn date.year (month + 1))
    (before * 365 + before / 4 - before / 100 + before / 400 + date.day)

end Date

/-- A length of time in minutes, as it is written in a message: whole days, which may be negative, and
seconds, which may not. -/
def renderMinutes (minutes : Int) : String :=
  let days := (minutes * 60).fdiv 86400
  let seconds := (minutes * 60).fmod 86400
  let parts :=
    (if days = 0 then [] else ["days=" ++ toString days]) ++
    (if seconds = 0 then [] else ["seconds=" ++ toString seconds])
  "datetime.timedelta(" ++ (if parts.isEmpty then "0" else ", ".intercalate parts) ++ ")"

/-- An offset is less than a day either way. -/
def checkOffset (offset : Int) : Except Fault Int :=
  if offset.natAbs < 1440 then .ok offset
  else .error (.badMoment ("offset must be a timedelta strictly between -timedelta(hours=24) and " ++
    "timedelta(hours=24), not " ++ renderMinutes offset ++ "."))

namespace Clock

def check (clock : Clock) : Except Fault Clock :=
  if 23 < clock.hour then .error (.badMoment "hour must be in 0..23")
  else if 59 < clock.minute then .error (.badMoment "minute must be in 0..59")
  else if 59 < clock.second then .error (.badMoment "second must be in 0..59")
  else .ok clock

end Clock

/-- Microseconds since the start of the calendar, by universal time where the offset is known. -/
def instant (date : Date) (clock : Clock) : Int :=
  let minutes : Int := (date.ordinal * 24 + clock.hour) * 60 + clock.minute - clock.offset.getD 0
  (minutes * 60 + clock.second) * 1000000 + clock.microsecond

end ImportAudit.Yaml
