import FragmentRouting.Text.Digit

/-!
# Dates, times and durations
-/

namespace FragmentRouting

open Text (padded)

/-- A calendar day. -/
structure Date where
  year : Nat
  month : Nat
  day : Nat
  deriving DecidableEq, Repr

/-- A time of day. -/
structure Clock where
  hour : Nat
  minute : Nat
  second : Nat := 0
  microsecond : Nat := 0
  deriving DecidableEq, Repr

/-- A day and a time of day, and the minutes by which local time runs ahead of universal time
where they are known. -/
structure DateTime where
  date : Date
  clock : Clock
  offset : Option Int := none
  deriving DecidableEq, Repr

/-- A length of time in whole seconds. -/
structure Duration where
  seconds : Int
  deriving DecidableEq, Repr

/-- Four digits of the year, two of the month and two of the day. -/
def Date.text (d : Date) : String :=
  padded 4 d.year ++ "-" ++ padded 2 d.month ++ "-" ++ padded 2 d.day

/-- Hours, minutes and seconds, and six digits of microseconds unless there are none. -/
def Clock.text (c : Clock) : String :=
  padded 2 c.hour ++ ":" ++ padded 2 c.minute ++ ":" ++ padded 2 c.second
    ++ if c.microsecond = 0 then "" else "." ++ padded 6 c.microsecond

/-- A sign, hours and minutes. -/
def offsetText (minutes : Int) : String :=
  (if minutes < 0 then "-" else "+") ++ padded 2 (minutes.natAbs / 60) ++ ":"
    ++ padded 2 (minutes.natAbs % 60)

/-- The day and the time with `separator` between them, and the offset if it is known. -/
def DateTime.textWith (separator : String) (t : DateTime) : String :=
  t.date.text ++ separator ++ t.clock.text ++ (t.offset.map offsetText).getD ""

/-- The whole days of a duration, rounded down. -/
def Duration.days (d : Duration) : Int :=
  d.seconds.fdiv 86400

/-- The seconds beyond the whole days. -/
def Duration.rest (d : Duration) : Nat :=
  (d.seconds.fmod 86400).toNat

/-- The days, unless there are none, and then hours, minutes and seconds. -/
def Duration.text (d : Duration) : String :=
  let days :=
    if d.days = 0 then ""
    else toString d.days ++ (if d.days.natAbs = 1 then " day, " else " days, ")
  days ++ toString (d.rest / 3600) ++ ":" ++ padded 2 (d.rest / 60 % 60) ++ ":"
    ++ padded 2 (d.rest % 60)

end FragmentRouting
