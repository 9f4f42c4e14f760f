import SourceHistory.Text.Decimal
import SourceHistory.Time.Calendar
import SourceHistory.Toml.Basic

namespace SourceHistory.Toml

open Text

abbrev Scan := StateT (List Char) Option

def char (c : Char) : Scan Unit := do
  match ← get with
  | c' :: rest => if c' = c then set rest else failure
  | [] => failure

def oneOf (cs : List Char) : Scan Char := do
  match ← get with
  | c :: rest => if c ∈ cs then set rest; return c else failure
  | [] => failure

def word (cs : List Char) : Scan Unit := cs.forM char

def run (p : Char → Bool) : Scan (List Char) :=
  modifyGet fun s => (s.takeWhile p, s.dropWhile p)

def run1 (p : Char → Bool) : Scan (List Char) := do
  let cs ← run p
  if cs.isEmpty then failure else return cs

def blanks : Scan Unit := do
  let _ ← run fun c => c = ' ' || c = '\t'

def newline : Scan Unit := char '\n' <|> word ['\r', '\n']

def atEnd : Scan Unit := do
  unless (← get).isEmpty do failure

/-- Characters that may stand anywhere: the tab, printable ASCII, and all beyond ASCII. -/
def isPlain (c : Char) : Bool := c = '\t' || (0x20 ≤ c.toNat && c.toNat ≠ 0x7f)

def comment : Scan Unit := do
  char '#'
  let _ ← run isPlain

def lineRest : Scan Unit := do
  blanks
  comment <|> pure ()
  newline <|> atEnd

/-- The character of an escape, and the number of characters after the backslash that it takes. -/
def escape? : List Char → Option (Char × Nat)
  | 'b' :: _ => some ('\x08', 1)
  | 't' :: _ => some ('\t', 1)
  | 'n' :: _ => some ('\n', 1)
  | 'f' :: _ => some ('\x0c', 1)
  | 'r' :: _ => some ('\r', 1)
  | '"' :: _ => some ('"', 1)
  | '\\' :: _ => some ('\\', 1)
  | 'u' :: cs => (scalar? 4 cs).map fun c => (c, 5)
  | 'U' :: cs => (scalar? 8 cs).map fun c => (c, 9)
  | _ => none
where
  scalar? (width : Nat) (cs : List Char) : Option Char :=
    if cs.length < width then none
    else (numeralFrom? 16 0 (cs.take width)).bind fun n =>
      if n.isValidChar then some (Char.ofNat n) else none

/-- What follows a backslash that ends a line: the next characters that are neither blanks nor line
ends. -/
def afterLineContinuation? (cs : List Char) : Option (List Char) :=
  match cs.dropWhile fun c => c = ' ' || c = '\t' with
  | '\n' :: rest => some (skip rest)
  | '\r' :: '\n' :: rest => some (skip rest)
  | _ => none
where
  skip : List Char → List Char
    | '\r' :: '\n' :: rest => skip rest
    | c :: rest => if c = ' ' || c = '\t' || c = '\n' then skip rest else c :: rest
    | [] => []

def basicBody : Nat → List Char → Option (List Char × List Char)
  | 0, _ => none
  | _ + 1, [] => none
  | fuel + 1, c :: cs =>
    if c = '"' then some ([], cs)
    else if c = '\\' then do
      let (c, width) ← escape? cs
      let (text, rest) ← basicBody fuel (cs.drop width)
      return (c :: text, rest)
    else if isPlain c then do
      let (text, rest) ← basicBody fuel cs
      return (c :: text, rest)
    else none

def literalBody : List Char → Option (List Char × List Char)
  | [] => none
  | c :: cs =>
    if c = '\'' then some ([], cs)
    else if isPlain c then (literalBody cs).map fun (text, rest) => (c :: text, rest)
    else none

/-- The text of a string over several lines up to three closing quotes, and what follows. Up to two
more quotes before the closing ones belong to the text. In a literal one backslashes are text. -/
def multilineBody (quote : Char) (literal : Bool) : Nat → List Char → Option (List Char × List Char)
  | 0, _ => none
  | _ + 1, [] => none
  | fuel + 1, c :: cs =>
    if c = quote then
      let count := ((c :: cs).takeWhile (· = quote)).length
      if 3 ≤ count then
        let kept := min (count - 3) 2
        some (List.replicate kept quote, (c :: cs).drop (kept + 3))
      else do
        let (text, rest) ← multilineBody quote literal fuel ((c :: cs).drop count)
        return (List.replicate count quote ++ text, rest)
    else if c = '\\' && !literal then
      match afterLineContinuation? cs with
      | some rest => multilineBody quote literal fuel rest
      | none => do
        let (c, width) ← escape? cs
        let (text, rest) ← multilineBody quote literal fuel (cs.drop width)
        return (c :: text, rest)
    else if c = '\r' then
      match cs with
      | '\n' :: cs => do
        let (text, rest) ← multilineBody quote literal fuel cs
        return ('\n' :: text, rest)
      | _ => none
    else if c = '\n' || isPlain c then do
      let (text, rest) ← multilineBody quote literal fuel cs
      return (c :: text, rest)
    else none

/-- Runs a function on the text that is left, with its length as a bound on the recursion. -/
def bounded {α : Type} (body : Nat → List Char → Option (α × List Char)) : Scan α :=
  fun s => body (s.length + 1) s

def basicString : Scan String := do
  char '"'
  return String.ofList (← bounded basicBody)

def literalString : Scan String := do
  char '\''
  return String.ofList (← (fun s => literalBody s : Scan (List Char)))

def multilineString (quote : Char) (literal : Bool) : Scan String := do
  word [quote, quote, quote]
  newline <|> pure ()
  return String.ofList (← bounded (multilineBody quote literal))

def string : Scan String :=
  multilineString '"' false <|> basicString <|> multilineString '\'' true <|> literalString

def isBareKey (c : Char) : Bool := c.isAlphanum || c = '_' || c = '-'

def simpleKey : Scan String :=
  basicString <|> literalString <|> (return String.ofList (← run1 isBareKey))

def keyParts : Nat → Scan (List String)
  | 0 => failure
  | fuel + 1 => do
    blanks
    let part ← simpleKey
    blanks
    (do char '.'; return part :: (← keyParts fuel)) <|> return [part]

/-- The greatest depth of keys and values plus one. -/
def depthLimit : Nat := 80

def key : Scan (List String) := keyParts (depthLimit - 1)

/-- Digits in base `base`, with single underscores between digits. -/
def digitRun (base : Nat) : Scan (List Char) := do
  let cs ← run fun c => c = '_' || (digitValue? base c).isSome
  if cs.isEmpty || cs.head? = some '_' || cs.getLast? = some '_' || hasDouble cs then failure
  return cs.filter (· ≠ '_')
where
  hasDouble : List Char → Bool
    | '_' :: '_' :: _ => true
    | _ :: cs => hasDouble cs
    | [] => false

def sign : Scan Bool := (do char '-'; return true) <|> (do char '+'; return false) <|> return false

def wholeDigits : Scan (List Char) := do
  let cs ← digitRun 10
  if cs.head? = some '0' && cs.length ≠ 1 then failure
  return cs

def basedInteger (mark : Char) (base : Nat) : Scan Int := do
  word ['0', mark]
  match numeralFrom? base 0 (← digitRun base) with
  | some n => return n
  | none => failure

def decimalInteger : Scan Int := do
  let negative ← sign
  match natural? (← wholeDigits) with
  | some n => return if negative then -(n : Int) else n
  | none => failure

def integer : Scan Int := do
  let n ← basedInteger 'x' 16 <|> basedInteger 'o' 8 <|> basedInteger 'b' 2 <|> decimalInteger
  if isInt64 n then return n else failure

/-- Whether the decimal number with these digits and this power of ten is beyond the range of a
double-precision number. -/
def isTooLarge (digits : List Char) (exponent : Int) : Bool :=
  let significant := digits.dropWhile (· = '0')
  let size : Int := significant.length + exponent
  if significant.isEmpty || size < 300 then false
  else if 320 < size then true
  else
    let value := (numeralFrom? 10 0 significant).getD 0
    let limit := Nat.pow 2 1024 - Nat.pow 2 970
    if 0 ≤ exponent then limit ≤ value * Nat.pow 10 exponent.toNat
    else limit * Nat.pow 10 exponent.natAbs ≤ value

def fraction : Scan (List Char) := do
  char '.'
  digitRun 10

def exponent : Scan Int := do
  let _ ← oneOf ['e', 'E']
  let negative ← sign
  match natural? (← digitRun 10) with
  | some n => return if negative then -(n : Int) else n
  | none => failure

def decimalFloat : Scan Unit := do
  let negative ← sign
  let whole ← wholeDigits
  let part ← some <$> fraction <|> return none
  let power ← if part.isSome then exponent <|> return 0 else exponent
  let digits := whole ++ part.getD []
  if !negative && isTooLarge digits (power - (part.getD []).length) then failure

def float : Scan Unit :=
  decimalFloat <|> do
    let _ ← sign
    word ['i', 'n', 'f'] <|> word ['n', 'a', 'n']

def digitField (width lo hi : Nat) : Scan Nat := do
  let s ← get
  match natural? (s.take width) with
  | some n =>
    if width ≤ s.length && lo ≤ n && n ≤ hi then set (s.drop width); return n else failure
  | none => failure

def fullDate : Scan Unit := do
  let year ← digitField 4 0 9999
  char '-'
  let month ← digitField 2 1 12
  char '-'
  let day ← digitField 2 1 31
  unless (⟨year, month, day⟩ : Time.Date).isValid do failure

def partialTime : Scan Unit := do
  let _ ← digitField 2 0 23
  char ':'
  let _ ← digitField 2 0 59
  char ':'
  let _ ← digitField 2 0 60
  (do char '.'; let _ ← run1 Char.isDigit) <|> pure ()

def timeOffset : Scan Unit :=
  (do let _ ← oneOf ['Z', 'z']) <|> do
    let _ ← oneOf ['+', '-']
    let _ ← digitField 2 0 23
    char ':'
    let _ ← digitField 2 0 59

def datetime : Scan Unit :=
  (do
    fullDate
    (do
      let _ ← oneOf ['T', 't', ' ']
      partialTime
      timeOffset <|> pure ()) <|> pure ()) <|> partialTime

end SourceHistory.Toml
