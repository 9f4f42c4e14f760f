import SourceHistory.Text.Decimal
import SourceHistory.Time.Calendar

namespace SourceHistory.Time

open Text

/-- Seconds since 1970-01-01T00:00:00Z, and nanoseconds, which exceed 10^9 within a leap second. -/
structure Instant where
  seconds : Int
  nanos : Nat
  deriving DecidableEq, Repr

namespace Instant

/-- The representable years are -262143 to 262142. -/
def minSeconds : Int := -8334601228800

def maxSeconds : Int := 8210266876799

def inRange (seconds : Int) : Bool := minSeconds ≤ seconds && seconds ≤ maxSeconds

def ofSeconds? (seconds : Int) : Option Instant :=
  if inRange seconds then some ⟨seconds, 0⟩ else none

def date (t : Instant) : Date := .ofDays (t.seconds / 86400)

def secondOfDay (t : Instant) : Nat := (t.seconds % 86400).toNat

/-- A year: four digits, or a sign and at least four digits. -/
def yearText (year : Int) : List Char :=
  if 0 ≤ year ∧ year ≤ 9999 then padded 4 year.toNat
  else (if year < 0 then '-' else '+') :: padded 4 year.natAbs

def dateText (d : Date) : List Char :=
  yearText d.year ++ '-' :: padded 2 d.month ++ '-' :: padded 2 d.day

/-- A fraction of a second with the fewest of 0, 3, 6 and 9 digits that are exact. -/
def fractionText (nanos : Nat) : List Char :=
  if nanos = 0 then []
  else if nanos % 1000000 = 0 then '.' :: padded 3 (nanos / 1000000)
  else if nanos % 1000 = 0 then '.' :: padded 6 (nanos / 1000)
  else '.' :: padded 9 nanos

/-- A time of day; a leap second is shown as second 60. -/
def timeText (t : Instant) : List Char :=
  let s := t.secondOfDay
  padded 2 (s / 3600) ++ ':' :: padded 2 (s / 60 % 60) ++
    ':' :: padded 2 (s % 60 + t.nanos / 1000000000) ++ fractionText (t.nanos % 1000000000)

/-- The form of RFC 3339, as in `1970-01-01T00:00:00Z`. -/
def rfc3339 (t : Instant) : String :=
  String.ofList (dateText t.date ++ 'T' :: t.timeText ++ ['Z'])

/-- The form for messages, as in `1970-01-01 00:00:00 UTC`. -/
def display (t : Instant) : String :=
  String.ofList (dateText t.date ++ ' ' :: t.timeText ++ [' ', 'U', 'T', 'C'])

end Instant

end SourceHistory.Time
