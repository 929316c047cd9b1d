import EntitySql.Decimal.Reading

/-! Dates and times of day without a zone, as they stand in the proleptic
Gregorian calendar. -/

namespace EntitySql

structure Date where
  year : Nat
  month : Nat
  day : Nat
  deriving DecidableEq, Repr, Inhabited

namespace Date

def isLeapYear (year : Nat) : Bool :=
  year % 4 == 0 && (year % 100 != 0 || year % 400 == 0)

def daysInMonth (year month : Nat) : Nat :=
  match month with
  | 2 => if isLeapYear year then 29 else 28
  | 4 | 6 | 9 | 11 => 30
  | _ => 31

def isValid (date : Date) : Bool :=
  1 ≤ date.month && date.month ≤ 12 &&
    1 ≤ date.day && date.day ≤ daysInMonth date.year date.month

end Date

/-- A point in time. A nanosecond count of a whole second or more marks a leap
second, which is written as second 60. -/
structure Timestamp where
  date : Date
  hour : Nat
  minute : Nat
  second : Nat
  nanosecond : Nat
  deriving DecidableEq, Repr, Inhabited

def nanosecondsPerSecond : Nat := 1000000000

namespace Timestamp

def isValid (timestamp : Timestamp) : Bool :=
  timestamp.date.isValid && timestamp.hour < 24 && timestamp.minute < 60 &&
    timestamp.second < 60 &&
    (timestamp.nanosecond < nanosecondsPerSecond ||
      (timestamp.second == 59 && timestamp.nanosecond < 2 * nanosecondsPerSecond))

end Timestamp

/-! Fields are padded with zeros to a fixed width. A year of five digits is
marked by a plus sign. -/

def padded (width value : Nat) : String :=
  let text := toString value
  String.ofList (List.replicate (width - text.length) '0') ++ text

def Date.text (date : Date) : String :=
  let year := if date.year > 9999 then "+" ++ toString date.year else padded 4 date.year
  year ++ "-" ++ padded 2 date.month ++ "-" ++ padded 2 date.day

namespace Timestamp

/-- The fraction of the second to the millisecond, microsecond or nanosecond,
whichever loses nothing; none for a whole second. -/
def fractionText (timestamp : Timestamp) : String :=
  let nanosecond := timestamp.nanosecond % nanosecondsPerSecond
  if nanosecond = 0 then
    ""
  else if nanosecond % 1000000 = 0 then
    "." ++ padded 3 (nanosecond / 1000000)
  else if nanosecond % 1000 = 0 then
    "." ++ padded 6 (nanosecond / 1000)
  else
    "." ++ padded 9 nanosecond

def timeText (timestamp : Timestamp) : String :=
  let second := timestamp.second + timestamp.nanosecond / nanosecondsPerSecond
  padded 2 timestamp.hour ++ ":" ++ padded 2 timestamp.minute ++ ":" ++ padded 2 second ++
    timestamp.fractionText

def textWith (separator : String) (timestamp : Timestamp) : String :=
  timestamp.date.text ++ separator ++ timestamp.timeText

end Timestamp

/-! Reading takes the form `YYYY-MM-DDTHH:MM:SS` with an optional fraction of
one to nine digits; second 60 is a leap second. -/

def readFraction? : List Char → Option Nat
  | [] => some 0
  | '.' :: digits =>
      if digits.length ≤ 9 then
        (readNatural? digits).map (· * Nat.pow 10 (9 - digits.length))
      else
        none
  | _ => none

def Timestamp.read? (text : String) : Option Timestamp :=
  match text.toList with
  | y₁ :: y₂ :: y₃ :: y₄ :: '-' :: m₁ :: m₂ :: '-' :: d₁ :: d₂ :: 'T' ::
      h₁ :: h₂ :: ':' :: n₁ :: n₂ :: ':' :: s₁ :: s₂ :: fraction => do
      let date : Date :=
        { year := ← readNatural? [y₁, y₂, y₃, y₄]
          month := ← readNatural? [m₁, m₂]
          day := ← readNatural? [d₁, d₂] }
      let second ← readNatural? [s₁, s₂]
      let timestamp : Timestamp :=
        { date
          hour := ← readNatural? [h₁, h₂]
          minute := ← readNatural? [n₁, n₂]
          second := if second = 60 then 59 else second
          nanosecond := (← readFraction? fraction) +
            if second = 60 then nanosecondsPerSecond else 0 }
      if timestamp.isValid then some timestamp else none
  | _ => none

end EntitySql
