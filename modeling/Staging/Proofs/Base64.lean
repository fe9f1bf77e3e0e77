import Mathlib
import Staging.Text.Base64
import Staging.Proofs.Text

namespace Staging.Base64

theorem value?_letter {n : Nat} (h : n < 64) : value? (letter n) = some n := by
  revert n
  decide +kernel

theorem forall_letter {P : UInt8 → Prop} (h : ∀ n < 64, P (letter n)) (n : Nat) : P (letter n) := by
  by_cases hn : n < 64
  · exact h n hn
  · have hlast : letter n = letter 63 := by
      rw [letter, if_neg (by omega), if_neg (by omega), if_neg (by omega), if_neg (by omega)]
      rfl
    rw [hlast]
    exact h 63 (by decide)

theorem letter_ne_pad (n : Nat) : letter n ≠ pad :=
  forall_letter (P := (· ≠ pad)) (by decide +kernel) n

theorem letter_lt (n : Nat) : letter n < 128 := forall_letter (P := (· < 128)) (by decide +kernel) n

theorem toUInt8_eq {a : UInt8} {n : Nat} (h : n = a.toNat) : n.toUInt8 = a := by
  subst h
  exact UInt8.ofNat_toNat

theorem bytes_of_digits (a b c : UInt8) :
    let n := a.toNat * 65536 + b.toNat * 256 + c.toNat
    (n / 262144 * 4 + n / 4096 % 64 / 16).toUInt8 = a ∧
      (n / 4096 % 64 % 16 * 16 + n / 64 % 64 / 4).toUInt8 = b ∧
        (n / 64 % 64 % 4 * 64 + n % 64).toUInt8 = c := by
  have ha := a.toNat_lt
  have hb := b.toNat_lt
  have hc := c.toNat_lt
  intro n
  refine ⟨toUInt8_eq ?_, toUInt8_eq ?_, toUInt8_eq ?_⟩ <;> omega

theorem decode?_group {p q r s : UInt8} {i j k l : Nat} (hp : value? p = some i)
    (hq : value? q = some j) (hr : value? r = some k) (hs : value? s = some l) (hpad : s ≠ pad)
    (t : Bytes) :
    decode? (p :: q :: r :: s :: t) = (decode? t).map fun rest =>
      (i * 4 + j / 16).toUInt8 :: (j % 16 * 16 + k / 4).toUInt8 :: (k % 4 * 64 + l).toUInt8 :: rest := by
  cases t with
  | nil => simp [decode?, decodeLast, hp, hq, hr, hs, hpad]
  | cons x t =>
    simp only [decode?, hp, hq, hr, hs, Option.bind_eq_bind, Option.bind_some]
    cases decode? (x :: t) <;> rfl

theorem decode?_pair {p q r : UInt8} {i j k : Nat} (hp : value? p = some i)
    (hq : value? q = some j) (hr : value? r = some k) (hpad : r ≠ pad) (hk : k % 4 = 0) :
    decode? [p, q, r, pad] = some [(i * 4 + j / 16).toUInt8, (j % 16 * 16 + k / 4).toUInt8] := by
  simp only [decode?, decodeLast, hp, hq, hr, Option.bind_eq_bind, Option.bind_some, if_true,
    if_neg hpad, if_pos hk]

theorem decode?_single {p q : UInt8} {i j : Nat} (hp : value? p = some i) (hq : value? q = some j)
    (hj : j % 16 = 0) : decode? [p, q, pad, pad] = some [(i * 4 + j / 16).toUInt8] := by
  simp only [decode?, decodeLast, hp, hq, Option.bind_eq_bind, Option.bind_some, if_true, if_pos hj]

theorem decode?_encode (b : Bytes) : decode? (encode b) = some b := by
  fun_induction encode b with
  | case1 a b c t n ih =>
    have hn : n < 16777216 := by
      have := a.toNat_lt
      have := b.toNat_lt
      have := c.toNat_lt
      omega
    obtain ⟨ha, hb, hc⟩ := bytes_of_digits a b c
    rw [decode?_group (value?_letter (by omega)) (value?_letter (by omega)) (value?_letter (by omega))
      (value?_letter (by omega)) (letter_ne_pad _), ih]
    simp only [Option.map_some, n, ha, hb, hc]
  | case2 a b n =>
    have ha := a.toNat_lt
    have hb := b.toNat_lt
    rw [decode?_pair (value?_letter (by omega)) (value?_letter (by omega)) (value?_letter (by omega))
      (letter_ne_pad _) (by omega), toUInt8_eq (a := a) (by omega), toUInt8_eq (a := b) (by omega)]
  | case3 a n =>
    have ha := a.toNat_lt
    rw [decode?_single (value?_letter (by omega)) (value?_letter (by omega)) (by omega),
      toUInt8_eq (a := a) (by omega)]
  | case4 => rfl

theorem eq_pad_or_letter_of_mem_encode {b : Bytes} {c : UInt8} (h : c ∈ encode b) :
    c = pad ∨ ∃ n, c = letter n := by
  fun_induction encode b with
  | case1 x y z t n ih =>
    simp only [List.mem_cons] at h
    rcases h with rfl | rfl | rfl | rfl | h
    · exact Or.inr ⟨_, rfl⟩
    · exact Or.inr ⟨_, rfl⟩
    · exact Or.inr ⟨_, rfl⟩
    · exact Or.inr ⟨_, rfl⟩
    · exact ih h
  | case2 x y n =>
    simp only [List.mem_cons, List.not_mem_nil, or_false] at h
    rcases h with rfl | rfl | rfl | rfl
    · exact Or.inr ⟨_, rfl⟩
    · exact Or.inr ⟨_, rfl⟩
    · exact Or.inr ⟨_, rfl⟩
    · exact Or.inl rfl
  | case3 x n =>
    simp only [List.mem_cons, List.not_mem_nil, or_false] at h
    rcases h with rfl | rfl | rfl | rfl
    · exact Or.inr ⟨_, rfl⟩
    · exact Or.inr ⟨_, rfl⟩
    · exact Or.inl rfl
    · exact Or.inl rfl
  | case4 => cases h

theorem ascii_of_mem_encode {b : Bytes} {c : UInt8} (h : c ∈ encode b) : c < 128 := by
  rcases eq_pad_or_letter_of_mem_encode h with rfl | ⟨n, rfl⟩
  · decide
  · exact letter_lt n

end Staging.Base64
