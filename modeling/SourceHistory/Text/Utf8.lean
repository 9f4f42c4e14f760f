namespace SourceHistory.Text

/-- Where bytes stop being UTF-8: the index of the first byte of the faulty sequence, and its
length, or `none` if the bytes end inside a sequence that could go on. -/
structure Utf8Fault where
  index : Nat
  length? : Option Nat
  deriving DecidableEq, Repr

def Utf8Fault.message : Utf8Fault → String
  | ⟨index, some length⟩ => s!"invalid utf-8 sequence of {length} bytes from index {index}"
  | ⟨index, none⟩ => s!"incomplete utf-8 byte sequence from index {index}"

/-- What the bytes from one place on start with: a character, a faulty sequence, or a sequence that
the end cuts off. `more` counts the bytes after the first one. -/
inductive Utf8Step where
  | char (c : Char) (more : Nat)
  | faulty (more : Nat)
  | cutOff

def continuation? (lo hi b : UInt8) : Option Nat :=
  if lo ≤ b ∧ b ≤ hi then some (b.toNat % 64) else none

/-- The bounds for the byte after the lead byte `b`, which exclude overlong forms, surrogates and
numbers above U+10FFFF. -/
def secondBounds (b : UInt8) : UInt8 × UInt8 :=
  if b = 0xe0 then (0xa0, 0xbf)
  else if b = 0xed then (0x80, 0x9f)
  else if b = 0xf0 then (0x90, 0xbf)
  else if b = 0xf4 then (0x80, 0x8f)
  else (0x80, 0xbf)

/-- Reads the continuation bytes that a lead byte asks for: `wanted` are still missing, `seen` were
read, and `value` is the number so far. -/
def continueUtf8 (value seen : Nat) : (wanted : Nat) → (bounds : UInt8 × UInt8) →
    List UInt8 → Utf8Step
  | 0, _, _ => .char (Char.ofNat value) seen
  | _ + 1, _, [] => .cutOff
  | wanted + 1, bounds, b :: bs =>
    match continuation? bounds.1 bounds.2 b with
    | some low => continueUtf8 (value * 64 + low) (seen + 1) wanted (0x80, 0xbf) bs
    | none => .faulty seen

def stepUtf8 (b : UInt8) (bs : List UInt8) : Utf8Step :=
  if b < 0x80 then .char (Char.ofNat b.toNat) 0
  else if 0xc2 ≤ b ∧ b ≤ 0xdf then continueUtf8 (b.toNat % 32) 0 1 (secondBounds b) bs
  else if 0xe0 ≤ b ∧ b ≤ 0xef then continueUtf8 (b.toNat % 16) 0 2 (secondBounds b) bs
  else if 0xf0 ≤ b ∧ b ≤ 0xf4 then continueUtf8 (b.toNat % 8) 0 3 (secondBounds b) bs
  else .faulty 0

def charsOfUtf8 (index : Nat) : (bytes : List UInt8) → Except Utf8Fault (List Char)
  | [] => .ok []
  | b :: bs =>
    match stepUtf8 b bs with
    | .char c more => (charsOfUtf8 (index + more + 1) (bs.drop more)).map (c :: ·)
    | .faulty more => .error ⟨index, some (more + 1)⟩
    | .cutOff => .error ⟨index, none⟩
termination_by bytes => bytes.length
decreasing_by simp only [List.length_drop, List.length_cons]; omega

/-- Decodes after the table of well-formed UTF-8: no overlong forms, no surrogates, nothing above
U+10FFFF. -/
def decodeUtf8 (bytes : List UInt8) : Except Utf8Fault String :=
  (charsOfUtf8 0 bytes).map String.ofList

/-- The text of `bytes` with U+FFFD in place of each faulty sequence. -/
def repairUtf8 : (bytes : List UInt8) → List Char
  | [] => []
  | b :: bs =>
    match stepUtf8 b bs with
    | .char c more => c :: repairUtf8 (bs.drop more)
    | .faulty more => '\ufffd' :: repairUtf8 (bs.drop more)
    | .cutOff => ['\ufffd']
termination_by bytes => bytes.length
decreasing_by all_goals (simp only [List.length_drop, List.length_cons]; omega)

end SourceHistory.Text
