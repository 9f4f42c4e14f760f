namespace SourceHistory.Text

def decimal (n : Nat) : List Char := Nat.toDigits 10 n

def padded (width n : Nat) : List Char :=
  List.replicate (width - (decimal n).length) '0' ++ decimal n

def digitValue? (base : Nat) (c : Char) : Option Nat :=
  let value? :=
    if '0' ≤ c ∧ c ≤ '9' then some (c.toNat - '0'.toNat)
    else if 'a' ≤ c ∧ c ≤ 'f' then some (c.toNat - 'a'.toNat + 10)
    else if 'A' ≤ c ∧ c ≤ 'F' then some (c.toNat - 'A'.toNat + 10)
    else none
  value?.filter (· < base)

/-- The number that digits in base `base` continue from `value`. -/
def numeralFrom? (base value : Nat) : List Char → Option Nat
  | [] => some value
  | c :: cs => (digitValue? base c).bind fun d => numeralFrom? base (value * base + d) cs

def natural? (s : List Char) : Option Nat :=
  if s.isEmpty then none else numeralFrom? 10 0 s

def isInt64 (n : Int) : Bool := -0x8000000000000000 ≤ n ∧ n < 0x8000000000000000

/-- The signed 64-bit integer that `s` stands for: a sign is optional, and only ASCII digits
count. -/
def int64? (s : List Char) : Option Int :=
  let value? : Option Int :=
    match s with
    | '-' :: digits => (natural? digits).map fun n => -(n : Int)
    | '+' :: digits => (natural? digits).map fun n => (n : Int)
    | digits => (natural? digits).map fun n => (n : Int)
  value?.filter isInt64

end SourceHistory.Text
