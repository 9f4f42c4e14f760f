import Mathlib.Algebra.Group.Nat.Defs
import Mathlib.Tactic.SplitIfs
import SourceHistory.Text.Decimal

namespace SourceHistory.Text

theorem digitValue?_digitChar {base d : Nat} (hbase : base ≤ 16) (hd : d < base) :
    digitValue? base (Nat.digitChar d) = some d := by
  have hvalue : ∀ d < 16, digitValue? 16 (Nat.digitChar d) = some d := by decide
  have h16 := hvalue d (Nat.lt_of_lt_of_le hd hbase)
  simp only [digitValue?, Option.filter_eq_some_iff] at h16 ⊢
  exact ⟨h16.1, by simpa using hd⟩

theorem toNat_of_digitValue? {c : Char} {d : Nat} (h : digitValue? 10 c = some d) :
    c.toNat - '0'.toNat = d := by
  simp only [digitValue?, Option.filter_eq_some_iff, decide_eq_true_eq] at h
  obtain ⟨hvalue, hlt⟩ := h
  -- letters stand for ten and more, which `hlt` excludes
  split_ifs at hvalue
  · exact Option.some.inj hvalue
  · have hd := Option.some.inj hvalue
    omega
  · have hd := Option.some.inj hvalue
    omega

theorem numeralFrom?_append (base value : Nat) (cs ds : List Char) :
    numeralFrom? base value (cs ++ ds) =
      (numeralFrom? base value cs).bind fun next => numeralFrom? base next ds := by
  induction cs generalizing value with
  | nil => rfl
  | cons c cs ih =>
    simp only [List.cons_append, numeralFrom?, Option.bind_assoc]
    congr 1
    funext d
    exact ih (value * base + d)

theorem le_of_numeralFrom? {value n : Nat} {cs : List Char} (h : numeralFrom? 10 value cs = some n) :
    value ≤ n := by
  induction cs generalizing value with
  | nil => exact Nat.le_of_eq (Option.some.inj h)
  | cons c cs ih =>
    obtain ⟨d, -, hrest⟩ := Option.bind_eq_some_iff.1 h
    have hle := ih hrest
    omega

theorem numeralFrom?_decimal (n : Nat) : numeralFrom? 10 0 (decimal n) = some n := by
  induction n using Nat.strongRecOn with
  | ind n ih =>
    by_cases hn : n < 10
    · rw [decimal, Nat.toDigits_of_lt_base hn]
      simp [numeralFrom?, digitValue?_digitChar (by decide) hn]
    · have hle : 10 ≤ n := Nat.le_of_not_lt hn
      have hhead := ih (n / 10) (by omega)
      rw [decimal] at hhead
      rw [decimal, Nat.toDigits_of_base_le (by decide) hle, numeralFrom?_append, hhead]
      have hmod : n % 10 < 10 := Nat.mod_lt n (by decide)
      have hsum : n / 10 * 10 + n % 10 = n := by omega
      simp [numeralFrom?, digitValue?_digitChar (by decide) hmod, hsum]

theorem decimal_ne_nil (n : Nat) : decimal n ≠ [] := Nat.toDigits_ne_nil

theorem isDigit_of_mem_decimal {n : Nat} {c : Char} (hc : c ∈ decimal n) : c.isDigit = true :=
  Nat.isDigit_of_mem_toDigits (by decide) (by decide) hc

theorem not_mem_decimal {c : Char} (hc : c.isDigit = false) (n : Nat) : c ∉ decimal n := by
  intro hm
  rw [isDigit_of_mem_decimal hm] at hc
  cases hc

theorem natural?_decimal (n : Nat) : natural? (decimal n) = some n := by
  rw [natural?, numeralFrom?_decimal, if_neg]
  simpa using decimal_ne_nil n

theorem int64?_decimal {n : Nat} (h : n < 0x8000000000000000) :
    int64? (decimal n) = some (n : Int) := by
  have hfits : isInt64 n = true := by
    simp [isInt64]
    omega
  obtain ⟨c, cs, hcs⟩ := List.exists_cons_of_ne_nil (decimal_ne_nil n)
  have hdigit : c.isDigit = true := isDigit_of_mem_decimal (hcs ▸ List.mem_cons_self)
  have hvalue := natural?_decimal n
  rw [hcs] at hvalue ⊢
  -- a digit is no sign
  have hminus : c ≠ '-' := by
    rintro rfl
    cases hdigit
  have hplus : c ≠ '+' := by
    rintro rfl
    cases hdigit
  simp [int64?, hvalue, hfits, hminus, hplus]

theorem head?_decimal {n : Nat} (h : (decimal n).head? = some '0') : n = 0 := by
  induction n using Nat.strongRecOn with
  | ind n ih =>
    by_cases hn : n < 10
    · rw [decimal, Nat.toDigits_of_lt_base hn] at h
      exact Nat.digitChar_eq_zero.1 (Option.some.inj h)
    · have hle : 10 ≤ n := Nat.le_of_not_lt hn
      obtain ⟨c, cs, hcs⟩ := List.exists_cons_of_ne_nil (decimal_ne_nil (n / 10))
      have hzero : n / 10 = 0 := by
        apply ih (n / 10) (by omega)
        rw [decimal, Nat.toDigits_of_base_le (by decide) hle] at h
        rw [decimal] at hcs ⊢
        rw [hcs] at h ⊢
        exact h
      omega

end SourceHistory.Text
