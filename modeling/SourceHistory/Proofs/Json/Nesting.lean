import SourceHistory.Proofs.Json.Reader

namespace SourceHistory.Json

open Text

variable {j : Json} {items : List Json} {fields : List (String × Json)} {n room : Nat}

theorem takeDigits_of_numeralFrom? {value : Nat} {cs : List Char} (exponent : Int) (hn : n < 2 ^ 64)
    (h : numeralFrom? 10 value cs = some n) :
    Numeral.takeDigits 0 1 value exponent false cs = (n, exponent) := by
  induction cs generalizing value with
  | nil =>
    cases h
    rfl
  | cons c cs ih =>
    obtain ⟨d, hd, hrest⟩ := Option.bind_eq_some_iff.1 h
    have hfits : ¬ value * 10 + (c.toNat - '0'.toNat) ≥ Nat.pow 2 64 := by
      rw [toNat_of_digitValue? hd]
      exact Nat.not_le.2 (Nat.lt_of_le_of_lt (le_of_numeralFrom? hrest) hn)
    simp only [Numeral.takeDigits, hfits, decide_false, Bool.or_self, Bool.false_eq_true, if_false,
      Int.add_zero]
    apply ih
    rw [toNat_of_digitValue? hd]
    exact hrest

theorem roundTo53_le (hn : n ≠ 0) : Numeral.roundTo53 n ≤ 2 * n := by
  have hunit : Nat.pow 2 (n.log2 - 52) ≤ n :=
    Nat.le_trans (Nat.pow_le_pow_right (by decide) (Nat.sub_le _ _)) (Nat.log2_self_le hn)
  have hquotient := Nat.div_mul_le_self n (Nat.pow 2 (n.log2 - 52))
  simp only [Numeral.roundTo53]
  split_ifs
  · rw [Nat.add_mul, Nat.one_mul]
    omega
  · omega

theorem fitsDouble_ofNat (hn : n < 2 ^ 64) : (Numeral.ofNat n).fitsDouble = true := by
  have hscaled : (Numeral.ofNat n).scaled = (n, 0) := by
    simp [Numeral.scaled, Numeral.ofNat, takeDigits_of_numeralFrom? 0 hn (numeralFrom?_decimal n),
      Numeral.takeDigits]
  have hone : Numeral.roundTo53 (Nat.pow 10 (0 : Int).toNat) = 1 := by decide
  have hbound : 2 * 2 ^ 64 < Nat.pow 2 1024 - Nat.pow 2 970 := by decide +kernel
  by_cases hzero : n = 0
  · simp only [Numeral.fitsDouble, hscaled]
    simp only [hzero, decide_true, Bool.true_or]
  · have hround : Numeral.roundTo53 n * 1 < Nat.pow 2 1024 - Nat.pow 2 970 := by
      calc Numeral.roundTo53 n * 1 ≤ 2 * n := by rw [Nat.mul_one]; exact roundTo53_le hzero
        _ ≤ 2 * 2 ^ 64 := Nat.mul_le_mul_left 2 (Nat.le_of_lt hn)
        _ < Nat.pow 2 1024 - Nat.pow 2 970 := hbound
    simp only [Numeral.fitsDouble, hscaled, hone, decide_eq_true hround, Bool.and_true]
    exact Bool.or_eq_true_iff.2 (Or.inr rfl)

mutual

/-- The greatest number of arrays and objects of a document that are open at once. -/
def nesting : Json → Nat
  | array items => itemsNesting items + 1
  | object fields => fieldsNesting fields + 1
  | _ => 0

def itemsNesting : List Json → Nat
  | [] => 0
  | item :: items => max (nesting item) (itemsNesting items)

def fieldsNesting : List (Option String × Json) → Nat
  | [] => 0
  | (_, value) :: fields => max (nesting value) (fieldsNesting fields)

end

theorem itemsNesting_le_iff : itemsNesting items ≤ n ↔ ∀ j ∈ items, j.nesting ≤ n := by
  induction items with
  | nil => simp [itemsNesting]
  | cons item items ih => rw [itemsNesting, Nat.max_le, ih, List.forall_mem_cons]

theorem fieldsNesting_le_iff {fields : List (Option String × Json)} :
    fieldsNesting fields ≤ n ↔ ∀ field ∈ fields, field.2.nesting ≤ n := by
  induction fields with
  | nil => simp [fieldsNesting]
  | cons field fields ih => rw [fieldsNesting, Nat.max_le, ih, List.forall_mem_cons]

theorem nesting_of_mem_items {item : Json} (h : item ∈ items) :
    item.nesting < (array items).nesting := by
  rw [nesting, Nat.lt_succ_iff]
  exact itemsNesting_le_iff.1 (Nat.le_refl _) item h

theorem nesting_of_mem_fields {fields : List (Option String × Json)} {field : Option String × Json}
    (h : field ∈ fields) : field.2.nesting < (object fields).nesting := by
  rw [nesting, Nat.lt_succ_iff]
  exact fieldsNesting_le_iff.1 (Nat.le_refl _) field h

theorem nesting_array_le_iff :
    (array items).nesting ≤ n ↔ 0 < n ∧ ∀ j ∈ items, j.nesting ≤ n - 1 := by
  rw [← itemsNesting_le_iff, nesting]
  omega

theorem nesting_record_le_iff :
    (record fields).nesting ≤ n ↔ 0 < n ∧ ∀ field ∈ fields, field.2.nesting ≤ n - 1 := by
  have hkeyed : (∀ field ∈ keyed fields, field.2.nesting ≤ n - 1) ↔
      ∀ field ∈ fields, field.2.nesting ≤ n - 1 := List.forall_mem_map
  rw [← hkeyed, ← fieldsNesting_le_iff, record_eq, nesting]
  omega

theorem allSound_iff : allSound room items = true ↔ ∀ j ∈ items, j.isSound room = true := by
  induction items with
  | nil => simp [allSound]
  | cons item items ih => rw [allSound, Bool.and_eq_true, ih, List.forall_mem_cons]

theorem fieldsSound_iff :
    fieldsSound room (keyed fields) = true ↔ ∀ field ∈ fields, field.2.isSound room = true := by
  induction fields with
  | nil => simp [keyed, fieldsSound]
  | cons field fields ih =>
    rw [List.forall_mem_cons, ← ih]
    simp [keyed, fieldsSound]

/-- A plain document can be read in full if there is room for its nesting. -/
theorem Plain.isSound_of_nesting_le (hj : Plain j) (hroom : j.nesting ≤ room) :
    j.isSound room = true := by
  induction hj generalizing room with
  | text s => rfl
  | nat hn =>
    rw [Json.nat, isSound]
    exact fitsDouble_ofNat hn
  | array _ ih =>
    obtain ⟨hpos, hitems⟩ := nesting_array_le_iff.1 hroom
    rw [isSound, Bool.and_eq_true, allSound_iff]
    exact ⟨decide_eq_true hpos, fun j hj => ih j hj (hitems j hj)⟩
  | record _ ih =>
    obtain ⟨hpos, hfields⟩ := nesting_record_le_iff.1 hroom
    rw [record_eq, isSound, Bool.and_eq_true, fieldsSound_iff]
    exact ⟨decide_eq_true hpos, fun field hf => ih field hf (hfields field hf)⟩

mutual

/-- Reading in full needs room for the nesting. -/
theorem nesting_le_of_isSound : {room : Nat} → {j : Json} → j.isSound room = true →
    j.nesting ≤ room
  | room, .array items, h => by
    obtain ⟨hroom, hitems⟩ := Bool.and_eq_true_iff.1 h
    have hpos : 0 < room := of_decide_eq_true hroom
    have hle : itemsNesting items ≤ room - 1 := itemsNesting_le_of_allSound hitems
    rw [nesting]
    omega
  | room, .object fields, h => by
    obtain ⟨hroom, hfields⟩ := Bool.and_eq_true_iff.1 h
    have hpos : 0 < room := of_decide_eq_true hroom
    have hle : fieldsNesting fields ≤ room - 1 := fieldsNesting_le_of_fieldsSound hfields
    rw [nesting]
    omega
  | _, .null, _ | _, .bool _, _ | _, .number _, _ | _, .string _, _ | _, .broken, _ => Nat.zero_le _

theorem itemsNesting_le_of_allSound : {room : Nat} → {items : List Json} →
    allSound room items = true → itemsNesting items ≤ room
  | _, [], _ => Nat.zero_le _
  | _, _ :: _, h => by
    obtain ⟨hitem, hitems⟩ := Bool.and_eq_true_iff.1 h
    exact Nat.max_le.2 ⟨nesting_le_of_isSound hitem, itemsNesting_le_of_allSound hitems⟩

theorem fieldsNesting_le_of_fieldsSound : {room : Nat} → {fields : List (Option String × Json)} →
    fieldsSound room fields = true → fieldsNesting fields ≤ room
  | _, [], _ => Nat.zero_le _
  | _, (_, _) :: _, h => by
    obtain ⟨hfield, hfields⟩ := Bool.and_eq_true_iff.1 h
    obtain ⟨-, hvalue⟩ := Bool.and_eq_true_iff.1 hfield
    exact Nat.max_le.2 ⟨nesting_le_of_isSound hvalue, fieldsNesting_le_of_fieldsSound hfields⟩

end

end SourceHistory.Json
