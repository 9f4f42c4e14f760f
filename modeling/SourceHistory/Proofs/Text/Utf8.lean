import Mathlib.Data.List.Basic
import Mathlib.Tactic.SplitIfs
import SourceHistory.Proofs.Attempt
import SourceHistory.Text.Utf8

namespace SourceHistory.Text

variable {c : Char} {b : UInt8} {bs tail rest bytes : List UInt8} {bounds : UInt8 × UInt8}
  {value seen wanted more index : Nat}

/-- Bytes that may follow a lead byte: only the first one has bounds of its own. -/
def Continues : (bounds : UInt8 × UInt8) → List UInt8 → Prop
  | _, [] => True
  | bounds, b :: bs =>
    bounds.1.toNat ≤ b.toNat ∧ b.toNat ≤ bounds.2.toNat ∧ Continues (0x80, 0xbf) bs

def extend (value : Nat) (tail : List UInt8) : Nat :=
  tail.foldl (fun value b => value * 64 + b.toNat % 64) value

theorem continuation?_eq_some_iff {lo hi : UInt8} {low : Nat} :
    continuation? lo hi b = some low ↔
      lo.toNat ≤ b.toNat ∧ b.toNat ≤ hi.toNat ∧ low = b.toNat % 64 := by
  rw [continuation?, Option.ite_none_right_eq_some, UInt8.le_iff_toNat_le, UInt8.le_iff_toNat_le,
    Option.some.injEq, and_assoc, eq_comm (a := low)]

theorem continueUtf8_eq_char_iff :
    continueUtf8 value seen wanted bounds bs = .char c more ↔
      ∃ tail rest, bs = tail ++ rest ∧ tail.length = wanted ∧ Continues bounds tail ∧
        c = Char.ofNat (extend value tail) ∧ more = seen + wanted := by
  induction wanted generalizing value seen bounds bs with
  | zero =>
    rw [continueUtf8]
    constructor
    · intro h
      obtain ⟨rfl, rfl⟩ := Utf8Step.char.inj h
      exact ⟨[], bs, rfl, rfl, trivial, rfl, rfl⟩
    · rintro ⟨tail, rest, rfl, htail, -, rfl, rfl⟩
      rw [List.eq_nil_of_length_eq_zero htail]
      rfl
  | succ wanted ih =>
    cases bs with
    | nil =>
      simp only [continueUtf8, reduceCtorEq, false_iff]
      rintro ⟨tail, rest, happ, htail, -⟩
      obtain ⟨rfl, -⟩ := List.nil_eq_append_iff.1 happ
      cases htail
    | cons b bs =>
      rw [continueUtf8]
      cases hb : continuation? bounds.1 bounds.2 b with
      | none =>
        simp only [reduceCtorEq, false_iff]
        rintro ⟨tail, rest, happ, htail, hbounds, -⟩
        cases tail with
        | nil => cases htail
        | cons b' tail =>
          obtain ⟨rfl, -⟩ := List.cons.inj happ
          rw [continuation?_eq_some_iff.2 ⟨hbounds.1, hbounds.2.1, rfl⟩] at hb
          cases hb
      | some low =>
        obtain ⟨hlo, hhi, rfl⟩ := continuation?_eq_some_iff.1 hb
        simp only [ih]
        constructor
        · rintro ⟨tail, rest, rfl, rfl, hbounds, rfl, rfl⟩
          exact ⟨b :: tail, rest, rfl, rfl, ⟨hlo, hhi, hbounds⟩, rfl, by omega⟩
        · rintro ⟨tail, rest, happ, htail, hbounds, rfl, rfl⟩
          cases tail with
          | nil => cases htail
          | cons b' tail =>
            obtain ⟨rfl, rfl⟩ := List.cons.inj happ
            exact ⟨tail, rest, rfl, Nat.succ.inj htail, hbounds.2.2, rfl, by omega⟩

theorem continueUtf8_of_extend (hb : Continues bounds tail) (hv : extend value tail = c.toNat) :
    continueUtf8 value 0 tail.length bounds (tail ++ rest) = .char c tail.length := by
  have hc : c = Char.ofNat (extend value tail) := by rw [hv, Char.ofNat_toNat]
  exact continueUtf8_eq_char_iff.2 ⟨tail, rest, rfl, rfl, hb, hc, (Nat.zero_add _).symm⟩

theorem continues_secondBounds_iff {b₁ : UInt8} :
    Continues (secondBounds b) (b₁ :: tail) ↔
      0x80 ≤ b₁.toNat ∧ b₁.toNat ≤ 0xbf ∧ (b.toNat = 0xe0 → 0xa0 ≤ b₁.toNat) ∧
        (b.toNat = 0xed → b₁.toNat ≤ 0x9f) ∧ (b.toNat = 0xf0 → 0x90 ≤ b₁.toNat) ∧
          (b.toNat = 0xf4 → b₁.toNat ≤ 0x8f) ∧ Continues (0x80, 0xbf) tail := by
  simp only [Continues, secondBounds, ← UInt8.toNat_inj, UInt8.reduceToNat]
  split_ifs <;> simp only [UInt8.reduceToNat] <;> grind

/-- The numbers of the bytes that encode the character with the number `v`. -/
def utf8Numbers (v : Nat) : List Nat :=
  if v ≤ 0x7f then [v]
  else if v ≤ 0x7ff then [v / 64 + 192, v % 64 + 128]
  else if v ≤ 0xffff then [v / 4096 + 224, v / 64 % 64 + 128, v % 64 + 128]
  else [v / 262144 + 240, v / 4096 % 64 + 128, v / 64 % 64 + 128, v % 64 + 128]

theorem map_toNat_utf8EncodeChar (c : Char) :
    (String.utf8EncodeChar c).map UInt8.toNat = utf8Numbers c.toNat := by
  have hvalid : c.val.toNat.isValidChar := c.valid
  rw [String.utf8EncodeChar, utf8Numbers]
  simp only [Char.toNat]
  split_ifs <;>
    simp only [List.map_cons, List.map_nil, UInt8.toNat_ofNat', List.cons.injEq, and_true] <;> omega

theorem utf8EncodeChar_eq_iff :
    String.utf8EncodeChar c = bs ↔ utf8Numbers c.toNat = bs.map UInt8.toNat := by
  rw [← map_toNat_utf8EncodeChar]
  exact (List.map_injective_iff.2 fun _ _ => UInt8.toNat_inj.1).eq_iff.symm

theorem utf8EncodeChar_ofNat {n : Nat} (h : n.isValidChar)
    (hn : utf8Numbers n = bs.map UInt8.toNat) : String.utf8EncodeChar (Char.ofNat n) = bs := by
  have hnat : (Char.ofNat n).toNat = n := by
    rw [Char.ofNat, dif_pos h]
    rfl
  rw [utf8EncodeChar_eq_iff, hnat, hn]

/-- A character is read off its own bytes, whatever follows them. -/
theorem stepUtf8_of_encode (h : String.utf8EncodeChar c = b :: tail) :
    stepUtf8 b (tail ++ rest) = .char c tail.length := by
  have hvalid : c.toNat.isValidChar := c.valid
  rw [utf8EncodeChar_eq_iff, utf8Numbers] at h
  simp only [stepUtf8, UInt8.lt_iff_toNat_lt, UInt8.le_iff_toNat_le, UInt8.reduceToNat]
  split_ifs at h
  · obtain ⟨hb, htail⟩ := List.cons.inj h
    rw [List.map_eq_nil_iff.1 htail.symm, if_pos (by omega), ← hb, Char.ofNat_toNat]
    rfl
  · rcases tail with - | ⟨b₁, - | ⟨b₂, tail⟩⟩ <;> simp at h
    rw [if_neg (by omega), if_pos (by omega)]
    have hbounds : Continues (secondBounds b) [b₁] := by
      rw [continues_secondBounds_iff]
      simp only [Continues, and_true]
      omega
    refine continueUtf8_of_extend hbounds ?_
    simp only [extend, List.foldl]
    omega
  · rcases tail with - | ⟨b₁, - | ⟨b₂, - | ⟨b₃, tail⟩⟩⟩ <;> simp at h
    rw [if_neg (by omega), if_neg (by omega), if_pos (by omega)]
    have hbounds : Continues (secondBounds b) [b₁, b₂] := by
      rw [continues_secondBounds_iff]
      simp only [Continues, UInt8.reduceToNat, and_true]
      omega
    refine continueUtf8_of_extend hbounds ?_
    simp only [extend, List.foldl]
    omega
  · rcases tail with - | ⟨b₁, - | ⟨b₂, - | ⟨b₃, - | ⟨b₄, tail⟩⟩⟩⟩ <;> simp at h
    rw [if_neg (by omega), if_neg (by omega), if_neg (by omega), if_pos (by omega)]
    have hbounds : Continues (secondBounds b) [b₁, b₂, b₃] := by
      rw [continues_secondBounds_iff]
      simp only [Continues, UInt8.reduceToNat, and_true]
      omega
    refine continueUtf8_of_extend hbounds ?_
    simp only [extend, List.foldl]
    omega

theorem encode_of_stepUtf8 (h : stepUtf8 b bs = .char c more) :
    ∃ tail rest, bs = tail ++ rest ∧ tail.length = more ∧ String.utf8EncodeChar c = b :: tail := by
  simp only [stepUtf8, UInt8.lt_iff_toNat_lt, UInt8.le_iff_toNat_le, UInt8.reduceToNat] at h
  split_ifs at h
  · obtain ⟨rfl, rfl⟩ := Utf8Step.char.inj h
    refine ⟨[], bs, rfl, rfl, utf8EncodeChar_ofNat (by omega) ?_⟩
    rw [utf8Numbers, if_pos (by omega)]
    rfl
  · obtain ⟨tail, rest, rfl, hl, hbounds, rfl, rfl⟩ := continueUtf8_eq_char_iff.1 h
    obtain ⟨b₁, rfl⟩ := List.length_eq_one_iff.1 hl
    rw [continues_secondBounds_iff] at hbounds
    refine ⟨[b₁], rest, rfl, rfl, ?_⟩
    simp only [extend, List.foldl]
    refine utf8EncodeChar_ofNat (by omega) ?_
    rw [utf8Numbers, if_neg (by omega), if_pos (by omega)]
    simp only [List.map_cons, List.map_nil, List.cons.injEq, and_true]
    omega
  · obtain ⟨tail, rest, rfl, hl, hbounds, rfl, rfl⟩ := continueUtf8_eq_char_iff.1 h
    obtain ⟨b₁, b₂, rfl⟩ := List.length_eq_two.1 hl
    rw [continues_secondBounds_iff] at hbounds
    simp only [Continues, UInt8.reduceToNat] at hbounds
    refine ⟨[b₁, b₂], rest, rfl, rfl, ?_⟩
    simp only [extend, List.foldl]
    refine utf8EncodeChar_ofNat (by omega) ?_
    rw [utf8Numbers, if_neg (by omega), if_neg (by omega), if_pos (by omega)]
    simp only [List.map_cons, List.map_nil, List.cons.injEq, and_true]
    omega
  · obtain ⟨tail, rest, rfl, hl, hbounds, rfl, rfl⟩ := continueUtf8_eq_char_iff.1 h
    obtain ⟨b₁, b₂, b₃, rfl⟩ := List.length_eq_three.1 hl
    rw [continues_secondBounds_iff] at hbounds
    simp only [Continues, UInt8.reduceToNat] at hbounds
    refine ⟨[b₁, b₂, b₃], rest, rfl, rfl, ?_⟩
    simp only [extend, List.foldl]
    refine utf8EncodeChar_ofNat (by omega) ?_
    rw [utf8Numbers, if_neg (by omega), if_neg (by omega), if_neg (by omega)]
    simp only [List.map_cons, List.map_nil, List.cons.injEq, and_true]
    omega

theorem charsOfUtf8_eq_ok_iff {cs : List Char} :
    charsOfUtf8 index bytes = .ok cs ↔ bytes = cs.flatMap String.utf8EncodeChar := by
  constructor
  · intro h
    induction index, bytes using charsOfUtf8.induct generalizing cs with
    | case1 index =>
      rw [charsOfUtf8] at h
      obtain rfl := Except.ok.inj h
      rfl
    | case2 index b bs c more hstep ih =>
      rw [charsOfUtf8, hstep] at h
      obtain ⟨cs, hcs, rfl⟩ := map_eq_ok_iff.1 h
      obtain ⟨tail, rest, rfl, rfl, hc⟩ := encode_of_stepUtf8 hstep
      rw [List.drop_left] at ih hcs
      rw [List.flatMap_cons, ← ih hcs, hc, List.cons_append]
    | case3 index b bs more hstep => simp [charsOfUtf8, hstep] at h
    | case4 index b bs hstep => simp [charsOfUtf8, hstep] at h
  · rintro rfl
    induction cs generalizing index with
    | nil => rw [List.flatMap_nil, charsOfUtf8]
    | cons c cs ih =>
      obtain ⟨b, tail, hc⟩ := List.exists_cons_of_ne_nil (@String.utf8EncodeChar_ne_nil c)
      rw [List.flatMap_cons, hc, List.cons_append, charsOfUtf8, stepUtf8_of_encode hc]
      simp only [List.drop_left, ih]
      rfl

/-- Text is decoded from its own encoding and from no other bytes. -/
theorem decodeUtf8_eq_ok_iff {s : String} :
    decodeUtf8 bytes = .ok s ↔ bytes = s.toUTF8.data.toList := by
  have hencode : s.toUTF8.data.toList = s.toList.flatMap String.utf8EncodeChar := by
    rw [String.toUTF8_eq_toByteArray, ← String.utf8Encode_toList, List.utf8Encode,
      List.toList_data_toByteArray]
  rw [hencode, ← @charsOfUtf8_eq_ok_iff bytes 0, decodeUtf8, map_eq_ok_iff]
  constructor
  · rintro ⟨cs, hcs, rfl⟩
    rwa [String.toList_ofList]
  · intro hcs
    exact ⟨s.toList, hcs, String.ofList_toList⟩

/-- What decodes is not changed by the repair of faulty sequences. -/
theorem repairUtf8_of_charsOfUtf8 {cs : List Char} (h : charsOfUtf8 index bytes = .ok cs) :
    repairUtf8 bytes = cs := by
  rw [charsOfUtf8_eq_ok_iff] at h
  induction cs generalizing bytes with
  | nil => rw [h, List.flatMap_nil, repairUtf8]
  | cons c cs ih =>
    obtain ⟨b, tail, hc⟩ := List.exists_cons_of_ne_nil (@String.utf8EncodeChar_ne_nil c)
    rw [h, List.flatMap_cons, hc, List.cons_append, repairUtf8, stepUtf8_of_encode hc]
    simp only [List.drop_left, ih]

end SourceHistory.Text
