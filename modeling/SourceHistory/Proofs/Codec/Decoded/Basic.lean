import SourceHistory.Proofs.Codec.Basic

namespace SourceHistory

namespace Codec

variable {α σ : Type} {j record value : Json} {read : Json → Decoded α} {x : α}

theorem exists_of_readItems {xs : List α} (h : readItems read j = .ok xs) :
    0 < j.nesting ∧ ∀ x ∈ xs, ∃ item : Json, item.nesting < j.nesting ∧ read item = .ok x := by
  cases j with
  | array items =>
    refine ⟨Nat.succ_pos _, fun x hx => ?_⟩
    obtain ⟨item, hitem, hread⟩ := exists_of_mem_of_mapM_eq_ok h hx
    exact ⟨item, Json.nesting_of_mem_items hitem, hread⟩
  | _ => cases h

theorem nesting_texts_le (texts : List String) : (Json.array (texts.map .text)).nesting ≤ 1 :=
  Json.nesting_array_le_iff.2 ⟨Nat.one_pos, List.forall_mem_map.2 fun _ _ => Nat.le_refl 0⟩

theorem nesting_pos_of_readTexts {texts : List String} (h : readTexts j = .ok texts) :
    0 < j.nesting := (exists_of_readItems h).1

theorem nesting_pos_of_readNames {names : NameSet} (h : readNames j = .ok names) :
    0 < j.nesting := by
  obtain ⟨_, htexts, -⟩ := bind_eq_ok_iff.1 h
  exact nesting_pos_of_readTexts htexts

theorem lt_of_readNatural {n : Nat} (h : readNatural j = .ok n) : n < 2 ^ 64 := by
  cases j with
  | number literal =>
    rw [readNatural] at h
    cases hn : literal.natural64? with
    | none => simp [hn] at h
    | some m =>
      obtain rfl : m = n := by simpa [hn] using h
      rw [Json.Numeral.natural64?] at hn
      split_ifs at hn
      exact of_decide_eq_true (Option.filter_eq_some_iff.1 hn).2
  | _ => cases h

/-- What a field that was taken put into its slot. -/
theorem exists_of_once {put : Option α → σ} {slot : Option α} {state : σ}
    (h : some (do return put (← once slot (read j)) : Decoded σ) = some (.ok state)) :
    ∃ x, read j = .ok x ∧ put (some x) = state := by
  obtain ⟨slot', hslot, hstate⟩ := bind_eq_ok_iff.1 (Option.some.inj h)
  obtain rfl := pure_eq_ok_iff.1 hstate
  cases slot with
  | some _ => cases hslot
  | none =>
    cases hx : read j with
    | error _ => simp [once, hx, Except.map] at hslot
    | ok x =>
      obtain rfl : some x = slot' := by simpa [once, hx, Except.map] using hslot
      exact ⟨x, rfl, rfl⟩

theorem nesting_of_recordFields {names : List String} {fields : List (Option String × Json)}
    {name : String} (h : recordFields names j = .ok fields) (hm : (some name, value) ∈ fields) :
    value.nesting < j.nesting := by
  cases j with
  | object fields' =>
    obtain rfl := Except.ok.inj h
    exact Json.nesting_of_mem_fields hm
  | array items =>
    obtain rfl := Except.ok.inj h
    rcases List.mem_append.1 hm with hm | hm
    · obtain ⟨⟨_, item⟩, hzip, hpair⟩ := List.mem_map.1 hm
      cases hpair
      exact Json.nesting_of_mem_items (List.of_mem_zip hzip).2
    · split at hm <;> simp at hm
  | _ => cases h

theorem readFields_invariant {P : σ → Prop} {step : σ → String → Json → Option (Decoded σ)}
    {initial result : σ} {fields : List (Option String × Json)}
    (h : readFields step initial fields = .ok result) (hinitial : P initial)
    (hstep : ∀ {state next : σ} {name : String} {value : Json}, (some name, value) ∈ fields →
      step state name value = some (.ok next) → P state → P next) : P result := by
  induction fields generalizing initial with
  | nil =>
    obtain rfl := Except.ok.inj h
    exact hinitial
  | cons field fields ih =>
    have hrest {state next : σ} {name : String} {value : Json} (hm : (some name, value) ∈ fields) :=
      @hstep state next name value (List.mem_cons_of_mem field hm)
    obtain ⟨_ | name, value⟩ := field
    · cases h
    · rw [readFields] at h
      split at h
      · next taken htaken =>
        obtain ⟨next, rfl, h⟩ := bind_eq_ok_iff.1 h
        exact ih h (hstep List.mem_cons_self htaken hinitial) hrest
      · split_ifs at h
        exact ih h hinitial hrest

/-- What holds at first and is kept by every field that is taken holds of the decoded record. -/
theorem readRecord_invariant {P : σ → Prop} {names : List String}
    {step : σ → String → Json → Option (Decoded σ)} {initial result : σ}
    (h : readRecord names initial step j = .ok result) (hinitial : P initial)
    (hstep : ∀ {state next : σ} {name : String} {value : Json}, value.nesting < j.nesting →
      step state name value = some (.ok next) → P state → P next) : P result := by
  obtain ⟨fields, hfields, h⟩ := bind_eq_ok_iff.1 h
  exact readFields_invariant h hinitial fun hm => hstep (nesting_of_recordFields hfields hm)

theorem nesting_pos_of_readRecord {names : List String}
    {step : σ → String → Json → Option (Decoded σ)} {initial result : σ}
    (h : readRecord names initial step j = .ok result) : 0 < j.nesting := by
  obtain ⟨fields, hfields, -⟩ := bind_eq_ok_iff.1 h
  cases j with
  | object => exact Nat.succ_pos _
  | array => exact Nat.succ_pos _
  | _ => cases hfields

theorem nesting_of_splitTag {place : Place} {key : String} {tags : List String} {i : Nat}
    (h : splitTag place key tags j = .ok (i, record)) : record.nesting ≤ j.nesting := by
  cases j with
  | object fields =>
    rw [splitTag] at h
    split at h
    · obtain ⟨_, -, h⟩ := bind_eq_ok_iff.1 h
      obtain ⟨-, rfl⟩ := Prod.mk.inj (pure_eq_ok_iff.1 h)
      rw [Json.nesting, Json.nesting, Nat.add_le_add_iff_right, Json.fieldsNesting_le_iff]
      intro field hfield
      exact Json.fieldsNesting_le_iff.1 (Nat.le_refl _) field (List.mem_of_mem_filter hfield)
    · cases h
  | array items =>
    cases items with
    | nil => cases h
    | cons tag items =>
      obtain ⟨_, -, h⟩ := bind_eq_ok_iff.1 h
      obtain ⟨-, rfl⟩ := Prod.mk.inj (pure_eq_ok_iff.1 h)
      rw [Json.nesting, Json.nesting, Nat.add_le_add_iff_right]
      exact Nat.le_max_right _ _
  | _ => cases h

theorem exists_of_decode {text : String} (h : decode read text = .ok x) : ∃ j, read j = .ok x := by
  obtain ⟨y, hread, h⟩ := bind_eq_ok_iff.1 h
  split_ifs at h
  obtain rfl := Except.ok.inj h
  exact ⟨_, hread⟩

end Codec

end SourceHistory
