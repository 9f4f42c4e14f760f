import SourceHistory.Json.Basic

namespace SourceHistory.Json

open Text

/-- Text that forms no token ends the list of tokens with `broken`. -/
inductive Token where
  | openArray
  | closeArray
  | openObject
  | closeObject
  | comma
  | colon
  | null
  | bool (value : Bool)
  | number (literal : Numeral)
  | string (text : Option String)
  | broken

/-- A piece of a string: a character as it stands, or the code unit of a hexadecimal escape. -/
inductive Piece where
  | char (c : Char)
  | unit (value : Nat)

def escaped? (c : Char) : Option Char :=
  if c = '"' ∨ c = '\\' ∨ c = '/' then some c
  else if c = 'b' then some '\x08'
  else if c = 'f' then some '\x0c'
  else if c = 'n' then some '\n'
  else if c = 'r' then some '\r'
  else if c = 't' then some '\t'
  else none

def unit? (a b c d : Char) : Option Nat := numeralFrom? 16 0 [a, b, c, d]

/-- The pieces of a string and the text after it; the opening quote was read. -/
def scanPieces : List Char → Option (List Piece × List Char)
  | [] => none
  | c :: cs =>
    if c = '"' then some ([], cs)
    else if c = '\\' then
      match cs with
      | [] => none
      | e :: cs =>
        if e = 'u' then
          match cs with
          | h₁ :: h₂ :: h₃ :: h₄ :: cs =>
            match unit? h₁ h₂ h₃ h₄, scanPieces cs with
            | some value, some (pieces, rest) => some (.unit value :: pieces, rest)
            | _, _ => none
          | _ => none
        else
          match escaped? e, scanPieces cs with
          | some c, some (pieces, rest) => some (.char c :: pieces, rest)
          | _, _ => none
    else if c.toNat < 0x20 then none
    else
      match scanPieces cs with
      | some (pieces, rest) => some (.char c :: pieces, rest)
      | none => none

def isHighSurrogate (n : Nat) : Bool := 0xd800 ≤ n && n < 0xdc00

def isLowSurrogate (n : Nat) : Bool := 0xdc00 ≤ n && n < 0xe000

/-- The text of pieces; two escapes in a row may make up a surrogate pair. -/
def joinPieces : List Piece → Option (List Char)
  | [] => some []
  | .char c :: pieces => (joinPieces pieces).map (c :: ·)
  | .unit high :: .unit low :: pieces =>
    if isHighSurrogate high then
      if isLowSurrogate low then
        (joinPieces pieces).map
          (Char.ofNat (0x10000 + (high - 0xd800) * 0x400 + (low - 0xdc00)) :: ·)
      else none
    else if isLowSurrogate high then none
    else (joinPieces (.unit low :: pieces)).map (Char.ofNat high :: ·)
  | .unit value :: pieces =>
    if isHighSurrogate value || isLowSurrogate value then none
    else (joinPieces pieces).map (Char.ofNat value :: ·)

def digits (s : List Char) : List Char := s.takeWhile Char.isDigit

def afterDigits (s : List Char) : List Char := s.dropWhile Char.isDigit

def scanFraction : List Char → Option (List Char × List Char)
  | [] => some ([], [])
  | c :: s =>
    if c = '.' then if digits s = [] then none else some (digits s, afterDigits s)
    else some ([], c :: s)

def scanExponentDigits (negative : Bool) (s : List Char) : Option (Option Int × List Char) :=
  (natural? (digits s)).map fun n => (some (if negative then -(n : Int) else n), afterDigits s)

def scanSignedExponent : List Char → Option (Option Int × List Char)
  | [] => none
  | c :: s =>
    if c = '-' then scanExponentDigits true s
    else if c = '+' then scanExponentDigits false s
    else scanExponentDigits false (c :: s)

def scanExponent : List Char → Option (Option Int × List Char)
  | [] => some (none, [])
  | c :: s => if c = 'e' ∨ c = 'E' then scanSignedExponent s else some (none, c :: s)

/-- Whether digits can stand before the point: at least one, and a zero in front stands alone. -/
def isWhole (ds : List Char) : Bool := ds ≠ [] && (ds.head? ≠ some '0' || ds = ['0'])

def scanUnsigned (negative : Bool) (s : List Char) : Option (Numeral × List Char) :=
  if isWhole (digits s) then
    (scanFraction (afterDigits s)).bind fun fraction =>
      (scanExponent fraction.2).map fun exponent =>
        (⟨negative, digits s, fraction.1, exponent.1⟩, exponent.2)
  else none

def mark? (c : Char) : Option Token :=
  if c = '[' then some .openArray
  else if c = ']' then some .closeArray
  else if c = '\x7b' then some .openObject
  else if c = '\x7d' then some .closeObject
  else if c = ',' then some .comma
  else if c = ':' then some .colon
  else none

def afterWord? : (word s : List Char) → Option (List Char)
  | [], s => some s
  | _ :: _, [] => none
  | w :: word, c :: s => if w = c then afterWord? word s else none

/-- The word of JSON that starts with a letter, without that letter, and its token. -/
def word? (c : Char) : Option (List Char × Token) :=
  if c = 'n' then some (['u', 'l', 'l'], .null)
  else if c = 't' then some (['r', 'u', 'e'], .bool true)
  else if c = 'f' then some (['a', 'l', 's', 'e'], .bool false)
  else none

def scanToken (c : Char) (cs : List Char) : Option (Token × List Char) :=
  match mark? c, word? c with
  | some token, _ => some (token, cs)
  | none, some (word, token) => (afterWord? word cs).map fun rest => (token, rest)
  | none, none =>
    if c = '"' then
      (scanPieces cs).map fun found =>
        (.string ((joinPieces found.1).map String.ofList), found.2)
    else if c = '-' then (scanUnsigned true cs).map fun found => (.number found.1, found.2)
    else if c.isDigit then
      (scanUnsigned false (c :: cs)).map fun found => (.number found.1, found.2)
    else none

def isSpace (c : Char) : Bool := c = ' ' || c = '\t' || c = '\n' || c = '\r'

theorem scanPieces_length {s rest : List Char} {found : List Piece}
    (h : scanPieces s = some (found, rest)) : rest.length < s.length := by
  fun_induction scanPieces s generalizing found <;> grind [List.length_cons]

theorem length_afterDigits_le (s : List Char) : (afterDigits s).length ≤ s.length :=
  (List.dropWhile_sublist _).length_le

theorem length_digits_add (s : List Char) :
    (digits s).length + (afterDigits s).length = s.length := by
  rw [← List.length_append, digits, afterDigits, List.takeWhile_append_dropWhile]

theorem scanFraction_length {s : List Char} {found : List Char × List Char}
    (h : scanFraction s = some found) : found.2.length ≤ s.length := by
  fun_cases scanFraction s <;> grind [scanFraction, length_afterDigits_le]

theorem scanExponent_length {s : List Char} {found : Option Int × List Char}
    (h : scanExponent s = some found) : found.2.length ≤ s.length := by
  have key : ∀ {negative t}, scanExponentDigits negative t = some found →
      found.2.length ≤ t.length := by
    intro negative t ht
    obtain ⟨n, -, rfl⟩ := Option.map_eq_some_iff.1 ht
    exact length_afterDigits_le t
  fun_cases scanExponent s
  · grind [scanExponent]
  · next c t hc =>
    fun_cases scanSignedExponent t <;> grind [scanExponent, scanSignedExponent]
  · grind [scanExponent]

theorem scanUnsigned_length {negative : Bool} {s : List Char} {found : Numeral × List Char}
    (h : scanUnsigned negative s = some found) : found.2.length < s.length := by
  unfold scanUnsigned at h
  split at h
  · next hwhole =>
    obtain ⟨fraction, hfraction, h⟩ := Option.bind_eq_some_iff.1 h
    obtain ⟨exponent, hexponent, rfl⟩ := Option.map_eq_some_iff.1 h
    have := scanFraction_length hfraction
    have := scanExponent_length hexponent
    have := length_digits_add s
    have : (digits s).length ≠ 0 := by
      intro h0
      simp [isWhole, List.eq_nil_of_length_eq_zero h0] at hwhole
    simp only
    omega
  · simp at h

theorem afterWord?_length {word s rest : List Char} (h : afterWord? word s = some rest) :
    rest.length ≤ s.length := by
  fun_induction afterWord? word s <;> grind

/-- A token takes up at least its first character. -/
theorem scanToken_length {c : Char} {cs : List Char} {found : Token × List Char}
    (h : scanToken c cs = some found) : found.2.length < (c :: cs).length := by
  unfold scanToken at h
  simp only [List.length_cons]
  split at h
  · rw [← Option.some.inj h]
    simp
  · obtain ⟨rest, hrest, rfl⟩ := Option.map_eq_some_iff.1 h
    exact Nat.lt_succ_of_le (afterWord?_length hrest)
  · split at h
    · obtain ⟨rest, hrest, rfl⟩ := Option.map_eq_some_iff.1 h
      exact Nat.lt_succ_of_lt (scanPieces_length hrest)
    · split at h
      · obtain ⟨rest, hrest, rfl⟩ := Option.map_eq_some_iff.1 h
        exact Nat.lt_succ_of_lt (scanUnsigned_length hrest)
      · split at h
        · obtain ⟨rest, hrest, rfl⟩ := Option.map_eq_some_iff.1 h
          exact scanUnsigned_length hrest
        · simp at h

def tokens : (s : List Char) → List Token
  | [] => []
  | c :: cs =>
    if isSpace c then tokens cs
    else
      match _h : scanToken c cs with
      | some found => found.1 :: tokens found.2
      | none => [.broken]
termination_by s => s.length
decreasing_by
  · simp
  · exact scanToken_length _h

end SourceHistory.Json
