import Mathlib.Data.List.Perm.Basic
import SourceHistory.Attempt

namespace SourceHistory

theorem bind_eq_ok_iff {ε α β : Type} {a : Except ε α} {f : α → Except ε β} {b : β} :
    (a >>= f) = .ok b ↔ ∃ x, a = .ok x ∧ f x = .ok b := by
  cases a <;> simp [bind, Except.bind]

theorem check_bind_eq_ok_iff {ε β : Type} {a : Except ε Unit} {f : Unit → Except ε β} {b : β} :
    (a >>= f) = .ok b ↔ a = .ok () ∧ f () = .ok b := by
  cases a <;> simp [bind, Except.bind]

theorem bind_eq_error_iff {ε α β : Type} {a : Except ε α} {f : α → Except ε β} {e : ε} :
    (a >>= f) = .error e ↔ a = .error e ∨ ∃ x, a = .ok x ∧ f x = .error e := by
  cases a <;> simp [bind, Except.bind]

theorem pure_eq_ok_iff {ε α : Type} {a b : α} : (pure a : Except ε α) = .ok b ↔ a = b := by
  simp [pure, Except.pure]

theorem throw_eq_error {ε α : Type} (e : ε) : (throw e : Except ε α) = .error e := rfl

theorem map_eq_ok_iff {ε α β : Type} {f : α → β} {a : Except ε α} {b : β} :
    a.map f = .ok b ↔ ∃ x, a = .ok x ∧ f x = b := by
  cases a <;> simp [Except.map]

theorem toOption_eq_some_iff {ε α : Type} {a : Except ε α} {x : α} :
    a.toOption = some x ↔ a = .ok x := by
  cases a <;> simp [Except.toOption]

theorem foldlM_cons_of_ok {ε α σ : Type} {f : σ → α → Except ε σ} {a : α} {as : List α} {s t : σ}
    (h : f s a = .ok t) : (a :: as).foldlM f s = as.foldlM f t := by
  rw [List.foldlM_cons, h]
  rfl

theorem foldlM_append_of_ok {ε α σ : Type} {f : σ → α → Except ε σ} {as bs : List α} {s t : σ}
    (h : as.foldlM f s = .ok t) : (as ++ bs).foldlM f s = bs.foldlM f t := by
  rw [List.foldlM_append, h]
  rfl

theorem exists_mapM {ε α β : Type} {f : α → Except ε β} {R : α → β → Prop} {as : List α}
    (h : ∀ a ∈ as, ∃ b, f a = .ok b ∧ R a b) :
    ∃ bs, as.mapM f = .ok bs ∧ List.Forall₂ R as bs := by
  induction as with
  | nil => exact ⟨[], rfl, .nil⟩
  | cons a as ih =>
    obtain ⟨⟨b, hb, hr⟩, h⟩ := List.forall_mem_cons.1 h
    obtain ⟨bs, hbs, hrs⟩ := ih h
    refine ⟨b :: bs, ?_, .cons hr hrs⟩
    rw [List.mapM_cons, hb, hbs]
    rfl

theorem mapM_eq_ok_iff {ε α β : Type} {f : α → Except ε β} {as : List α} {bs : List β} :
    as.mapM f = .ok bs ↔ List.Forall₂ (fun a b => f a = .ok b) as bs := by
  induction as generalizing bs with
  | nil => rw [List.mapM_nil, pure_eq_ok_iff, List.forall₂_nil_left_iff, eq_comm]
  | cons a as ih =>
    simp only [List.mapM_cons, bind_eq_ok_iff, pure_eq_ok_iff, ih, List.forall₂_cons_left_iff]
    grind

/-- In another order the same computations go through, with their results in that order. -/
theorem exists_mapM_of_perm {ε α β : Type} {f : α → Except ε β} {as as' : List α} {bs : List β}
    (hp : as.Perm as') (h : as.mapM f = .ok bs) : ∃ bs', as'.mapM f = .ok bs' ∧ bs.Perm bs' := by
  obtain ⟨bs', hbs', hperm⟩ := List.perm_comp_forall₂ hp.symm (mapM_eq_ok_iff.1 h)
  exact ⟨bs', mapM_eq_ok_iff.2 hbs', hperm.symm⟩

theorem mapM_eq_ok_of_replace {ε α β : Type} {f : α → Except ε β} {before after : List α} {a a' : α}
    {bs : List β} (ha : ∀ b, f a = .ok b → f a' = .ok b)
    (h : (before ++ a :: after).mapM f = .ok bs) : (before ++ a' :: after).mapM f = .ok bs := by
  induction before generalizing bs with
  | nil =>
    rw [List.nil_append, List.mapM_cons] at h ⊢
    obtain ⟨b, hb, hrest⟩ := bind_eq_ok_iff.1 h
    exact bind_eq_ok_iff.2 ⟨b, ha b hb, hrest⟩
  | cons x before ih =>
    rw [List.cons_append, List.mapM_cons] at h ⊢
    obtain ⟨b, hb, h⟩ := bind_eq_ok_iff.1 h
    obtain ⟨rest, hrest, hbs⟩ := bind_eq_ok_iff.1 h
    exact bind_eq_ok_iff.2 ⟨b, hb, bind_eq_ok_iff.2 ⟨rest, ih hrest, hbs⟩⟩

theorem exists_of_mem_of_mapM_eq_ok {ε α β : Type} {f : α → Except ε β} {as : List α} {bs : List β}
    {b : β} (h : as.mapM f = .ok bs) (hb : b ∈ bs) : ∃ a ∈ as, f a = .ok b := by
  obtain ⟨i, hi, rfl⟩ := List.getElem_of_mem hb
  have hall := mapM_eq_ok_iff.1 h
  have hi' : i < as.length := hall.length_eq ▸ hi
  exact ⟨as[i], List.getElem_mem hi', hall.get hi' hi⟩

theorem exists_of_mapM_eq_ok {ε α β : Type} {f : α → Except ε β} {as : List α} {bs : List β} {a : α}
    (h : as.mapM f = .ok bs) (ha : a ∈ as) : ∃ b, f a = .ok b := by
  obtain ⟨i, hi, rfl⟩ := List.getElem_of_mem ha
  have hall := mapM_eq_ok_iff.1 h
  exact ⟨_, hall.get hi (hall.length_eq ▸ hi)⟩

theorem exists_of_mapM_eq_error {ε α β : Type} {f : α → Except ε β} {as : List α} {e : ε}
    (h : as.mapM f = .error e) : ∃ a ∈ as, f a = .error e := by
  induction as with
  | nil => cases h
  | cons a as ih =>
    rw [List.mapM_cons] at h
    rcases bind_eq_error_iff.1 h with ha | ⟨b, -, h⟩
    · exact ⟨a, List.mem_cons_self, ha⟩
    · rcases bind_eq_error_iff.1 h with hs | ⟨bs, -, h⟩
      · obtain ⟨x, hx, hfx⟩ := ih hs
        exact ⟨x, List.mem_cons_of_mem a hx, hfx⟩
      · cases h

namespace Attempt

variable {σ : Type}

@[simp]
theorem state_done (s : σ) : (done s).state = s := rfl

@[simp]
theorem error?_done (s : σ) : (done s).error? = none := rfl

@[simp]
theorem state_failed (s : σ) (e : Error) : (failed s e).state = s := rfl

@[simp]
theorem error?_failed (s : σ) (e : Error) : (failed s e).error? = some e := rfl

@[simp]
theorem succeeded_done (s : σ) : (done s).succeeded = true := rfl

@[simp]
theorem succeeded_failed (s : σ) (e : Error) : (failed s e).succeeded = false := rfl

@[simp]
theorem toExcept_done (s : σ) : (done s).toExcept = .ok s := rfl

@[simp]
theorem toExcept_failed (s : σ) (e : Error) : (failed s e).toExcept = .error e := rfl

theorem eq_done_of_succeeded {a : Attempt σ} (h : a.succeeded = true) : a = done a.state := by
  obtain ⟨state, error?⟩ := a
  cases error? with
  | none => rfl
  | some error => cases h

end Attempt

end SourceHistory
