import SourceHistory.Codec.Basic
import SourceHistory.Proofs.Attempt
import SourceHistory.Proofs.Collections
import SourceHistory.Proofs.Json.Nesting

namespace SourceHistory.Codec

open Json (keyed Plain)

variable {α σ : Type} {j : Json} {items : List Json} {fields : List (String × Json)}

theorem construct_eq_ok_iff {result : Except Error α} {x : α} :
    construct result = .ok x ↔ result = .ok x := by
  cases result <;> simp [construct]

theorem required_eq_ok_iff {slot : Option α} {x : α} : required slot = .ok x ↔ slot = some x := by
  cases slot <;> simp [required]

theorem readItems_map {read : Json → Decoded α} {toJson : α → Json} {xs : List α}
    (h : ∀ x ∈ xs, read (toJson x) = .ok x) : readItems read (.array (xs.map toJson)) = .ok xs := by
  rw [readItems]
  induction xs with
  | nil => rfl
  | cons x xs ih =>
    obtain ⟨hx, hxs⟩ := List.forall_mem_cons.1 h
    rw [List.map_cons, List.mapM_cons, hx, ih hxs]
    rfl

theorem readText_text (s : String) : readText (.text s) = .ok s := rfl

theorem readTexts_map (ss : List String) : readTexts (.array (ss.map .text)) = .ok ss :=
  readItems_map fun _ _ => rfl

theorem readNames_map (set : NameSet) : readNames (.array (set.toList.map .text)) = .ok set := by
  rw [readNames, readTexts_map]
  exact congrArg Except.ok (NameSet.ofList_toList set)

theorem readNatural_nat {n : Nat} (hn : n < 2 ^ 64) : readNatural (.nat n) = .ok n := by
  have hnatural : (Json.Numeral.ofNat n).natural64? = some n := by
    simpa [Json.Numeral.natural64?, Json.Numeral.ofNat, Text.natural?_decimal] using hn
  simp [Json.nat, readNatural, hnatural]

theorem readRecord_record (names : List String) (state : σ)
    (step : σ → String → Json → Option (Decoded σ)) (fields : List (String × Json)) :
    readRecord names state step (.record fields) = readFields step state (keyed fields) := rfl

/-- A field whose slot was empty so far; `hstep` says which slot its key stands for. -/
theorem readFields_field (step : σ → String → Json → Option (Decoded σ)) (key : String)
    (put : Option α → σ) {read : Json → Decoded α} {value : α} (hread : read j = .ok value)
    (hstep : step (put none) key j = some (do return put (← once none (read j)))) :
    readFields step (put none) (keyed ((key, j) :: fields)) =
      readFields step (put (some value)) (keyed fields) := by
  change readFields step (put none) ((some key, j) :: keyed fields) = _
  rw [readFields, hstep, hread]
  rfl

/-- What a field that is left out if there are no `xs` puts into its slot. -/
def slot {β : Type} (xs : List β) (value : α) : Option α := if xs.isEmpty then none else some value

theorem readFields_optionalField {β : Type} (step : σ → String → Json → Option (Decoded σ))
    (key : String) (put : Option α → σ) {read : Json → Decoded α} {toJson : β → Json} {xs : List β}
    {value : α} (hread : read (.array (xs.map toJson)) = .ok value)
    (hstep : step (put none) key (.array (xs.map toJson)) =
      some (do return put (← once none (read (.array (xs.map toJson)))))) :
    readFields step (put none) (keyed (optionalField key (xs.map toJson) ++ fields)) =
      readFields step (put (slot xs value)) (keyed fields) := by
  cases xs with
  | nil => rfl
  | cons x xs => exact readFields_field step key put hread hstep

@[simp]
theorem getD_slot_self (xs : List α) : (slot xs xs).getD [] = xs := by
  cases xs <;> rfl

@[simp]
theorem getD_slot_toList (set : NameSet) : (slot set.toList set).getD ∅ = set := by
  rw [slot]
  split
  · next h =>
    have hempty : set = ∅ := by
      simpa [List.isEmpty_iff] using h
    exact hempty.symm
  · rfl

theorem forall_mem_optionalField {P : String × Json → Prop} {key : String} :
    (∀ field ∈ optionalField key items, P field) ↔ (items ≠ [] → P (key, .array items)) := by
  cases items <;> simp [optionalField]

theorem plain_array_map {f : α → Json} {xs : List α} (h : ∀ x ∈ xs, Plain (f x)) :
    Plain (.array (xs.map f)) := by
  apply Plain.array
  intro j hj
  obtain ⟨x, hx, rfl⟩ := List.mem_map.1 hj
  exact h x hx

theorem plain_texts (ss : List String) : Plain (.array (ss.map .text)) :=
  plain_array_map fun s _ => Plain.text s

theorem splitTag_record {key tag : String} {tags : List String} {i : Nat} (place : Place)
    (htag : tags.idxOf? tag = some i) (hkeys : ∀ field ∈ fields, field.1 ≠ key) :
    splitTag place key tags (.record ((key, .text tag) :: fields)) = .ok (i, .record fields) := by
  have hsome : ∀ field ∈ keyed fields, field.1 ≠ some key := by
    intro field hfield
    obtain ⟨⟨name, value⟩, hmem, rfl⟩ := List.mem_map.1 hfield
    exact fun hc => hkeys _ hmem (Option.some.inj hc)
  have hfound : ((some key, Json.text tag) :: keyed fields).filter
      (fun field => field.1 = some key) = [(some key, .text tag)] := by
    simpa using hsome
  have hothers : ((some key, Json.text tag) :: keyed fields).filter
      (fun field => field.1 ≠ some key) = keyed fields := by
    simpa using hsome
  have hread : readTag place tags (.text tag) = .ok i := by
    cases place <;> simp [Json.text, readTag, htag, required]
  change splitTag place key tags (.object ((some key, .text tag) :: keyed fields)) = _
  simp only [splitTag, hfound, hread, hothers]
  rfl

theorem check_outer {depth : Nat} (hj : Plain j) (hroom : j.nesting ≤ maxDepth - depth) :
    (Place.outer depth).check j = .ok () := by
  rw [Place.check, if_pos (hj.isSound_of_nesting_le hroom)]

theorem decode_compact {read : Json → Decoded α} {x : α} (hj : Plain j) (hread : read j = .ok x) :
    decode read j.compact = .ok x := by
  rw [decode, hj.read_compact, hread]
  rfl

end SourceHistory.Codec
