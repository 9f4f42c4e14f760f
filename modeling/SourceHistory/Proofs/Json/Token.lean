import SourceHistory.Json.Printer
import SourceHistory.Json.Token
import SourceHistory.Proofs.Text.Decimal

namespace SourceHistory.Json

open Text

variable {c : Char} {cs rest : List Char} {token : Token}

theorem tokens_cons (hspace : isSpace c = false) (hscan : scanToken c cs = some (token, rest)) :
    tokens (c :: cs) = token :: tokens rest := by
  rw [tokens]
  simp only [hspace, Bool.false_eq_true, if_false]
  split
  · next found hfound =>
    rw [hscan, Option.some.injEq] at hfound
    rw [← hfound]
  · next hnone =>
    rw [hscan] at hnone
    cases hnone

theorem tokens_mark (hspace : isSpace c = false) (hmark : mark? c = some token) (cs : List Char) :
    tokens (c :: cs) = token :: tokens cs := by
  apply tokens_cons hspace
  simp only [scanToken, hmark]

/-- How a printed character comes back from the scanner. -/
def pieceOf (c : Char) : Piece :=
  if c.toNat < 0x20 ∧ c ≠ '\x08' ∧ c ≠ '\x0c' ∧ c ≠ '\n' ∧ c ≠ '\r' ∧ c ≠ '\t' then .unit c.toNat
  else .char c

theorem unit?_digitChar {n : Nat} (hn : n < 256) :
    unit? '0' '0' (Nat.digitChar (n / 16)) (Nat.digitChar (n % 16)) = some n := by
  have hhigh : digitValue? 16 (Nat.digitChar (n / 16)) = some (n / 16) :=
    digitValue?_digitChar (Nat.le_refl 16) (by omega)
  have hlow : digitValue? 16 (Nat.digitChar (n % 16)) = some (n % 16) :=
    digitValue?_digitChar (Nat.le_refl 16) (by omega)
  have hzero : digitValue? 16 '0' = some 0 := by decide
  have hsum : n / 16 * 16 + n % 16 = n := by omega
  simp [unit?, numeralFrom?, hzero, hhigh, hlow, hsum]

theorem scanPieces_letter {e d : Char} {pieces : List Piece} (hu : e ≠ 'u')
    (he : escaped? e = some d) (hscan : scanPieces cs = some (pieces, rest)) :
    scanPieces ('\\' :: e :: cs) = some (.char d :: pieces, rest) := by
  rw [scanPieces.eq_def]
  simp [hu, he, hscan]

theorem scanPieces_hex {h₁ h₂ h₃ h₄ : Char} {n : Nat} {pieces : List Piece}
    (hn : unit? h₁ h₂ h₃ h₄ = some n) (hscan : scanPieces cs = some (pieces, rest)) :
    scanPieces ('\\' :: 'u' :: h₁ :: h₂ :: h₃ :: h₄ :: cs) = some (.unit n :: pieces, rest) := by
  rw [scanPieces.eq_def]
  simp [hn, hscan]

theorem scanPieces_char {pieces : List Piece} (hq : c ≠ '"') (hs : c ≠ '\\')
    (hcontrol : ¬ c.toNat < 0x20) (hscan : scanPieces cs = some (pieces, rest)) :
    scanPieces (c :: cs) = some (.char c :: pieces, rest) := by
  rw [scanPieces.eq_def]
  simp [hq, hs, hcontrol, hscan]

theorem scanPieces_escape {pieces : List Piece} (hscan : scanPieces cs = some (pieces, rest)) :
    scanPieces (escape c ++ cs) = some (pieceOf c :: pieces, rest) := by
  rw [escape]
  split_ifs with hquote hb hf hn hr ht hcontrol
  · rcases hquote with rfl | rfl <;> exact scanPieces_letter (by decide) (by decide) hscan
  · subst hb
    exact scanPieces_letter (by decide) (by decide) hscan
  · subst hf
    exact scanPieces_letter (by decide) (by decide) hscan
  · subst hn
    exact scanPieces_letter (by decide) (by decide) hscan
  · subst hr
    exact scanPieces_letter (by decide) (by decide) hscan
  · subst ht
    exact scanPieces_letter (by decide) (by decide) hscan
  · rw [pieceOf, if_pos ⟨hcontrol, hb, hf, hn, hr, ht⟩]
    exact scanPieces_hex (unit?_digitChar (by omega)) hscan
  · obtain ⟨hq, hs⟩ := not_or.1 hquote
    rw [pieceOf, if_neg fun hc => hcontrol hc.1]
    exact scanPieces_char hq hs hcontrol hscan

theorem scanPieces_flatMap_escape (cs rest : List Char) :
    scanPieces (cs.flatMap escape ++ '"' :: rest) = some (cs.map pieceOf, rest) := by
  induction cs with
  | nil =>
    rw [scanPieces.eq_def]
    simp
  | cons c cs ih =>
    rw [List.flatMap_cons, List.append_assoc, scanPieces_escape ih, List.map_cons]

theorem joinPieces_unit {n : Nat} (hn : n < 0xd800) (pieces : List Piece) :
    joinPieces (.unit n :: pieces) = (joinPieces pieces).map (Char.ofNat n :: ·) := by
  have hhigh : isHighSurrogate n = false := by simp [isHighSurrogate]; omega
  have hlow : isLowSurrogate n = false := by simp [isLowSurrogate]; omega
  cases pieces with
  | nil => simp [joinPieces, hhigh, hlow]
  | cons piece pieces => cases piece <;> simp [joinPieces, hhigh, hlow]

theorem joinPieces_map_pieceOf (cs : List Char) : joinPieces (cs.map pieceOf) = some cs := by
  induction cs with
  | nil => rfl
  | cons c cs ih =>
    rw [List.map_cons, pieceOf]
    split_ifs with hcontrol
    · rw [joinPieces_unit (by omega), ih, Option.map_some, Char.ofNat_toNat]
    · simp [joinPieces, ih]

theorem tokens_quote (s : String) (rest : List Char) :
    tokens (quote s ++ rest) = .string (some s) :: tokens rest := by
  have hscan : scanToken '"' (s.toList.flatMap escape ++ '"' :: rest) =
      some (.string (some s), rest) := by
    simp [scanToken, mark?, word?, scanPieces_flatMap_escape, joinPieces_map_pieceOf]
  have htext : quote s ++ rest = '"' :: (s.toList.flatMap escape ++ '"' :: rest) := by
    simp [quote]
  rw [htext, tokens_cons (by decide) hscan]

/-- Text after a value: its end, or a comma or a closing bracket. -/
def Follows (rest : List Char) : Prop :=
  ∀ c ∈ rest.head?, c = ',' ∨ c = ']' ∨ c = '\x7d'

theorem follows_nil : Follows [] := nofun

theorem follows_cons (hc : c = ',' ∨ c = ']' ∨ c = '\x7d') (cs : List Char) : Follows (c :: cs) := by
  intro d hd
  cases hd
  exact hc

theorem Follows.digits (h : Follows rest) : digits rest = [] ∧ afterDigits rest = rest := by
  cases rest with
  | nil => exact ⟨rfl, rfl⟩
  | cons c cs => rcases h c rfl with rfl | rfl | rfl <;> exact ⟨rfl, rfl⟩

theorem Follows.scanFraction (h : Follows rest) : scanFraction rest = some ([], rest) := by
  cases rest with
  | nil => rfl
  | cons c cs => rcases h c rfl with rfl | rfl | rfl <;> rfl

theorem Follows.scanExponent (h : Follows rest) : scanExponent rest = some (none, rest) := by
  cases rest with
  | nil => rfl
  | cons c cs => rcases h c rfl with rfl | rfl | rfl <;> rfl

theorem isWhole_decimal (n : Nat) : isWhole (decimal n) = true := by
  by_cases hn : n = 0
  · subst hn
    decide
  · have hhead : (decimal n).head? ≠ some '0' := fun hc => hn (head?_decimal hc)
    simp [isWhole, decimal_ne_nil n, hhead]

theorem scanUnsigned_decimal (n : Nat) (h : Follows rest) :
    scanUnsigned false (decimal n ++ rest) = some (.ofNat n, rest) := by
  have hall : ∀ c ∈ decimal n, c.isDigit = true := fun c hc => isDigit_of_mem_decimal hc
  have hdigits : digits (decimal n ++ rest) = decimal n := by
    have hend : rest.takeWhile Char.isDigit = [] := h.digits.1
    rw [digits, List.takeWhile_append_of_pos hall, hend, List.append_nil]
  have hafter : afterDigits (decimal n ++ rest) = rest := by
    rw [afterDigits, List.dropWhile_append_of_pos hall]
    exact h.digits.2
  simp [scanUnsigned, hdigits, hafter, isWhole_decimal, h.scanFraction, h.scanExponent, Numeral.ofNat]

theorem scanToken_digit (hc : c.isDigit = true) :
    scanToken c cs =
      (scanUnsigned false (c :: cs)).map fun found => (.number found.1, found.2) := by
  have hne : ∀ d : Char, d.isDigit = false → c ≠ d := by
    rintro d hd rfl
    rw [hc] at hd
    cases hd
  have hmark : mark? c = none := by simp [mark?, hne]
  have hword : word? c = none := by simp [word?, hne]
  simp [scanToken, hmark, hword, hne, hc]

theorem tokens_decimal (n : Nat) (h : Follows rest) :
    tokens (decimal n ++ rest) = .number (.ofNat n) :: tokens rest := by
  obtain ⟨c, cs, hcs⟩ := List.exists_cons_of_ne_nil (decimal_ne_nil n)
  have hc : c.isDigit = true := isDigit_of_mem_decimal (hcs ▸ List.mem_cons_self)
  have hspace : isSpace c = false := by
    simp only [isSpace, Bool.or_eq_false_iff, decide_eq_false_iff_not]
    refine ⟨⟨⟨?_, ?_⟩, ?_⟩, ?_⟩ <;> rintro rfl <;> revert hc <;> decide
  have hscan := scanUnsigned_decimal n h
  rw [hcs, List.cons_append] at hscan ⊢
  apply tokens_cons hspace
  rw [scanToken_digit hc, hscan]
  rfl

end SourceHistory.Json
