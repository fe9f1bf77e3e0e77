import Mathlib
import Staging.Text.Digits

namespace Staging.Bytes

theorem isDigit_digit {d : Nat} (h : d < 10) : isDigit (digit d) = true := by
  revert d
  decide

theorem digitValue_digit {d : Nat} (h : d < 10) : digitValue (digit d) = d := by
  revert d
  decide

theorem exists_digit {b : UInt8} (h : isDigit b = true) : ∃ d < 10, b = digit d := by
  obtain ⟨hl, hg⟩ : Ascii.zero ≤ b ∧ b ≤ Ascii.nine := by simpa [isDigit] using h
  have hl : 48 ≤ b.toNat := hl
  have hg : b.toNat ≤ 57 := hg
  refine ⟨b.toNat - 48, by omega, UInt8.toNat_inj.mp ?_⟩
  have hz : Ascii.zero.toNat = 48 := rfl
  simp only [digit, UInt8.toNat_add, UInt8.toNat_ofNat', Nat.toUInt8_eq, hz]
  omega

theorem digitsValue_append_singleton (b : Bytes) (d : UInt8) :
    digitsValue (b ++ [d]) = 10 * digitsValue b + digitValue d := by
  simp [digitsValue]

theorem digitsUpTo_ne_nil (fuel n : Nat) : digitsUpTo fuel n ≠ [] := by
  cases fuel with
  | zero => simp [digitsUpTo]
  | succ fuel =>
    rw [digitsUpTo]
    split_ifs <;> simp

theorem isDigit_of_mem_digitsUpTo {fuel n : Nat} : ∀ d ∈ digitsUpTo fuel n, isDigit d = true := by
  induction fuel generalizing n with
  | zero =>
    intro d hd
    rw [List.mem_singleton.mp hd]
    exact isDigit_digit (by omega)
  | succ fuel ih =>
    intro d hd
    rw [digitsUpTo] at hd
    split_ifs at hd with hn
    · rw [List.mem_singleton.mp hd]
      exact isDigit_digit hn
    · rcases List.mem_append.mp hd with hd | hd
      · exact ih d hd
      · rw [List.mem_singleton.mp hd]
        exact isDigit_digit (by omega)

theorem digitsValue_digitsUpTo {fuel n : Nat} (h : n ≤ fuel) :
    digitsValue (digitsUpTo fuel n) = n := by
  induction fuel generalizing n with
  | zero =>
    obtain rfl : n = 0 := by omega
    rfl
  | succ fuel ih =>
    rw [digitsUpTo]
    split_ifs with hn
    · simp [digitsValue, digitValue_digit hn]
    · rw [digitsValue_append_singleton, ih (by omega), digitValue_digit (by omega)]
      omega

theorem head?_digitsUpTo {fuel n : Nat} (h : n ≤ fuel) (hn : 0 < n) :
    (digitsUpTo fuel n).head? ≠ some Ascii.zero := by
  induction fuel generalizing n with
  | zero => omega
  | succ fuel ih =>
    rw [digitsUpTo]
    split_ifs with hten
    · have hd : ∀ m < 10, 0 < m → [digit m].head? ≠ some Ascii.zero := by decide
      exact hd n hten hn
    · have htail := ih (n := n / 10) (by omega) (by omega)
      rwa [List.head?_append_of_ne_nil _ (digitsUpTo_ne_nil fuel (n / 10))]

theorem length_digitsUpTo_le {fuel n w : Nat} (h : n < 10 ^ (w + 1)) :
    (digitsUpTo fuel n).length ≤ w + 1 := by
  induction fuel generalizing n w with
  | zero => simp [digitsUpTo]
  | succ fuel ih =>
    rw [digitsUpTo]
    split_ifs with hn
    · simp
    · cases w with
      | zero => omega
      | succ w =>
        have hlen := ih (n := n / 10) (w := w) (by rw [pow_succ] at h; omega)
        rw [List.length_append, List.length_singleton]
        omega

theorem ofNat_ne_nil (n : Nat) : ofNat n ≠ [] := digitsUpTo_ne_nil n n

theorem isDigit_of_mem_ofNat {n : Nat} : ∀ d ∈ ofNat n, isDigit d = true :=
  isDigit_of_mem_digitsUpTo

theorem digitsValue_ofNat (n : Nat) : digitsValue (ofNat n) = n :=
  digitsValue_digitsUpTo (Nat.le_refl n)

theorem head?_ofNat {n : Nat} (h : (ofNat n).head? = some Ascii.zero) : (ofNat n).length = 1 := by
  rcases Nat.eq_zero_or_pos n with rfl | hn
  · rfl
  · exact absurd h (head?_digitsUpTo (Nat.le_refl n) hn)

theorem digitsValue_replicate_append (k : Nat) (b : Bytes) :
    digitsValue (List.replicate k Ascii.zero ++ b) = digitsValue b := by
  induction k with
  | zero => rfl
  | succ k ih =>
    rw [List.replicate_succ, List.cons_append, ← ih]
    rfl

theorem isDigit_of_mem_ofNatPadded {w n : Nat} : ∀ d ∈ ofNatPadded w n, isDigit d = true := by
  intro d hd
  rcases List.mem_append.mp hd with hd | hd
  · rw [List.eq_of_mem_replicate hd]
    rfl
  · exact isDigit_of_mem_ofNat d hd

theorem digitsValue_ofNatPadded (w n : Nat) : digitsValue (ofNatPadded w n) = n := by
  rw [ofNatPadded, digitsValue_replicate_append, digitsValue_ofNat]

theorem length_ofNatPadded {w n : Nat} (hw : 0 < w) (h : n < 10 ^ w) :
    (ofNatPadded w n).length = w := by
  obtain ⟨v, rfl⟩ : ∃ v, w = v + 1 := ⟨w - 1, by omega⟩
  have hlen : (ofNat n).length ≤ v + 1 := length_digitsUpTo_le h
  simp only [ofNatPadded, List.length_append, List.length_replicate]
  omega

theorem ofNatPadded_ne_nil (w n : Nat) : ofNatPadded w n ≠ [] := by
  simp [ofNatPadded, ofNat_ne_nil]

end Staging.Bytes
