/-!
Moments: calendar dates, times of day and both together, possibly with an offset from universal
time.
-/

namespace Prosaic

structure CalendarDate where
  year : Nat
  month : Nat
  day : Nat
  deriving DecidableEq, Repr, Inhabited

structure TimeOfDay where
  hour : Nat
  minute : Nat
  second : Nat
  microsecond : Nat
  deriving DecidableEq, Repr, Inhabited

inductive Moment
  | date (d : CalendarDate)
  | time (t : TimeOfDay)
  /-- The offset is in minutes. -/
  | dateTime (d : CalendarDate) (t : TimeOfDay) (offset : Option Int)
  deriving DecidableEq, Repr, Inhabited

/-! ### The calendar -/

namespace CalendarDate

def isLeap (year : Nat) : Bool := year % 4 = 0 && (year % 100 ≠ 0 || year % 400 = 0)

def daysIn (year month : Nat) : Nat :=
  if month = 2 then if isLeap year then 29 else 28
  else if month = 4 || month = 6 || month = 9 || month = 11 then 30
  else 31

/-- Whether there is such a day; years count from one. -/
def isValid (d : CalendarDate) : Bool :=
  1 ≤ d.year && 1 ≤ d.month && d.month ≤ 12 && 1 ≤ d.day && d.day ≤ daysIn d.year d.month

end CalendarDate

/-! ### Text -/

def zeroPadded (width n : Nat) : String :=
  let digits := toString n
  String.ofList (List.replicate (width - digits.length) '0') ++ digits

def CalendarDate.text (d : CalendarDate) : String :=
  zeroPadded 4 d.year ++ "-" ++ zeroPadded 2 d.month ++ "-" ++ zeroPadded 2 d.day

/-- Microseconds are written only if there are any. -/
def TimeOfDay.text (t : TimeOfDay) : String :=
  let clock := zeroPadded 2 t.hour ++ ":" ++ zeroPadded 2 t.minute ++ ":" ++ zeroPadded 2 t.second
  if t.microsecond = 0 then clock else clock ++ "." ++ zeroPadded 6 t.microsecond

def offsetText (minutes : Int) : String :=
  (if minutes < 0 then "-" else "+") ++ zeroPadded 2 (minutes.natAbs / 60) ++ ":"
    ++ zeroPadded 2 (minutes.natAbs % 60)

namespace Moment

def text : Moment → String
  | date d => d.text
  | time t => t.text
  | dateTime d t none => d.text ++ " " ++ t.text
  | dateTime d t (some offset) => d.text ++ " " ++ t.text ++ offsetText offset

def kind : Moment → String
  | date _ => "datetime.date"
  | time _ => "datetime.time"
  | dateTime .. => "datetime.datetime"

def dateParts (d : CalendarDate) : List String :=
  [toString d.year, toString d.month, toString d.day]

/-- The parts of a time; zeros at its end are left out, hour and minute apart. -/
def timeParts (t : TimeOfDay) : List String :=
  let minutes := [toString t.hour, toString t.minute]
  if t.microsecond ≠ 0 then minutes ++ [toString t.second, toString t.microsecond]
  else if t.second ≠ 0 then minutes ++ [toString t.second]
  else minutes

/-- An offset is shown in days and seconds, of which the seconds are not negative. -/
def offsetParts : Option Int → List String
  | none => []
  | some offset =>
    let zone :=
      if offset = 0 then "datetime.timezone.utc"
      else if offset < 0 then
        "datetime.timezone(datetime.timedelta(days=-1, seconds="
          ++ toString (86400 + 60 * offset) ++ "))"
      else "datetime.timezone(datetime.timedelta(seconds=" ++ toString (60 * offset) ++ "))"
    ["tzinfo=" ++ zone]

def parts : Moment → List String
  | date d => dateParts d
  | time t => timeParts t
  | dateTime d t offset => dateParts d ++ timeParts t ++ offsetParts offset

def shown (m : Moment) : String := m.kind ++ "(" ++ ", ".intercalate m.parts ++ ")"

end Moment

end Prosaic
