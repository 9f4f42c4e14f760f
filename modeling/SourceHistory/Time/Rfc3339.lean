import SourceHistory.Text.Blank
import SourceHistory.Time.Instant

namespace SourceHistory.Time

open Text

/-- A number of one to `width` digits at the start of a text, and what follows it. -/
def scanNumber (width : Nat) (s : List Char) : Option (Nat × List Char) :=
  let digits := (s.take width).takeWhile Char.isDigit
  (natural? digits).map fun n => (n, s.drop digits.length)

def scanField (width : Nat) (s : List Char) : Option (Nat × List Char) :=
  scanNumber width (trimStart s)

/-- A year: up to four digits, or a sign and any number of digits. -/
def scanYear (s : List Char) : Option (Int × List Char) :=
  match trimStart s with
  | '-' :: s => (scanNumber s.length s).map fun (n, rest) => (-(n : Int), rest)
  | '+' :: s => (scanNumber s.length s).map fun (n, rest) => ((n : Int), rest)
  | s => (scanNumber 4 s).map fun (n, rest) => ((n : Int), rest)

/-- What follows the separator `c`, before which blanks may stand. -/
def scanMark (c : Char) (s : List Char) : Option (List Char) :=
  match trimStart s with
  | c' :: rest => if c' = c then some rest else none
  | [] => none

/-- The nanoseconds of an optional fraction, and what follows it; digits after the ninth do not
count. -/
def scanNanos : List Char → Option (Nat × List Char)
  | '.' :: s =>
    (scanNumber 9 s).map fun (n, rest) =>
      (n * Nat.pow 10 (9 - (s.length - rest.length)), rest.dropWhile Char.isDigit)
  | s => some (0, s)

def scanPair : List Char → Option (Nat × List Char)
  | a :: b :: rest => (natural? [a, b]).map fun n => (n, rest)
  | _ => none

def scanOffsetTime (s : List Char) : Option (Nat × List Char) := do
  let (hours, s) ← scanPair s
  let (minutes, s) ← scanPair (s.dropWhile fun c => c = ':' || isBlank c)
  if minutes < 60 then some (hours * 3600 + minutes * 60, s) else none

def scanOffset (s : List Char) : Option (Int × List Char) :=
  match s with
  | c :: rest =>
    if c = 'Z' ∨ c = 'z' then some (0, rest)
    else if c = '+' then (scanOffsetTime rest).map fun (n, rest) => ((n : Int), rest)
    else if c = '-' ∨ c = '\u2212' then
      (scanOffsetTime rest).map fun (n, rest) => (-(n : Int), rest)
    else if (s.take 3).map Char.toUpper = ['U', 'T', 'C'] then some (0, s.drop 3)
    else none
  | [] => none

def scanDate (s : List Char) : Option (Date × List Char) := do
  let (year, s) ← scanYear s
  let s ← scanMark '-' s
  let (month, s) ← scanField 2 s
  let s ← scanMark '-' s
  let (day, s) ← scanField 2 s
  return (⟨year, month, day⟩, s)

def scanTime (s : List Char) : Option (Nat × Nat × List Char) := do
  let (hour, s) ← scanField 2 s
  let s ← scanMark ':' s
  let (minute, s) ← scanField 2 s
  let s ← scanMark ':' s
  let (second, s) ← scanField 2 s
  let (nanos, s) ← scanNanos s
  if hour < 24 ∧ minute < 60 then
    if second < 60 then some (hour * 3600 + minute * 60 + second, nanos, s)
    else if second = 60 then some (hour * 3600 + minute * 60 + 59, nanos + 1000000000, s)
    else none
  else none

def isTimeMark (c : Char) : Bool := c = 'T' || c = 't' || c = ' '

def isYear (year : Int) : Bool := -262143 ≤ year && year ≤ 262142

/-- The form of RFC 3339, taken generously: blanks may stand before a number or a separator, numbers
may lack their leading zeros, a year with a sign may have any number of digits, a blank may stand
for the `T`, and `UTC` for the `Z`. A second of 60 is a leap second. -/
def Instant.parse? (text : String) : Option Instant := do
  let (date, s) ← scanDate text.toList
  match s with
  | [] => none
  | mark :: s =>
    if isTimeMark mark then
      let (seconds, nanos, s) ← scanTime s
      let (offset, s) ← scanOffset (trimStart s)
      let total := date.toDays * 86400 + seconds - offset
      if date.isValid ∧ isYear date.year ∧ offset.natAbs < 86400 ∧ Instant.inRange total ∧
          trimStart s = [] then
        some ⟨total, nanos⟩
      else none
    else none

end SourceHistory.Time
