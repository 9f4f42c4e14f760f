import SourceHistory.Text.Decimal

namespace SourceHistory.Json

open Text

/-- A number literal as written: sign, digits before and after the point, exponent. -/
structure Numeral where
  negative : Bool
  whole : List Char
  fraction : List Char
  exponent? : Option Int
  deriving DecidableEq, Repr

namespace Numeral

def ofNat (n : Nat) : Numeral := ⟨false, decimal n, [], none⟩

def ofInt (n : Int) : Numeral := ⟨n < 0, decimal n.natAbs, [], none⟩

/-- The natural number below 2^64 that the literal is, if it has neither a sign nor a fraction nor
an exponent. -/
def natural64? (n : Numeral) : Option Nat :=
  if n.negative || !n.fraction.isEmpty || n.exponent?.isSome then none
  else (natural? n.whole).filter (· < Nat.pow 2 64)

/-- `n` rounded to 53 significant bits, to the even neighbour from halfway. -/
def roundTo53 (n : Nat) : Nat :=
  let unit := Nat.pow 2 (n.log2 - 52)
  let quotient := n / unit
  let double := 2 * (n % unit)
  if double > unit || (double = unit && quotient % 2 = 1) then (quotient + 1) * unit
  else quotient * unit

/-- Takes digits into a significand below 2^64 as long as they fit; `shift` changes the exponent for
each digit that is taken, `skipped` for each that is not. -/
def takeDigits (shift skipped : Int) : (significand : Nat) → (exponent : Int) → (full : Bool) →
    List Char → Nat × Int
  | significand, exponent, _, [] => (significand, exponent)
  | significand, exponent, full, c :: cs =>
    let next := significand * 10 + (c.toNat - '0'.toNat)
    if full || next ≥ Nat.pow 2 64 then
      takeDigits shift skipped significand (exponent + skipped) true cs
    else takeDigits shift skipped next (exponent + shift) false cs

/-- The significand of at most 64 bits and the power of ten that stand for the literal. -/
def scaled (n : Numeral) : Nat × Int :=
  let (significand, exponent) := takeDigits 0 1 0 0 false n.whole
  let (significand, exponent) := takeDigits (-1) 0 significand exponent false n.fraction
  (significand, exponent + n.exponent?.getD 0)

/-- Whether significand and power of ten, each rounded to 53 bits, have a product below the numbers
that round to infinity. -/
def fitsDouble (n : Numeral) : Bool :=
  let (significand, exponent) := n.scaled
  significand = 0 || exponent < 0 ||
    (exponent ≤ 308 &&
      roundTo53 significand * roundTo53 (Nat.pow 10 exponent.toNat) <
        Nat.pow 2 1024 - Nat.pow 2 970)

def render (n : Numeral) : List Char :=
  (if n.negative then ['-'] else []) ++ n.whole ++
    (if n.fraction.isEmpty then [] else '.' :: n.fraction) ++
    match n.exponent? with
    | none => []
    | some e => 'e' :: (if e < 0 then ['-'] else []) ++ decimal e.natAbs

end Numeral

end SourceHistory.Json
