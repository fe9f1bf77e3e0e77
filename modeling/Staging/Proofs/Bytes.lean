import Mathlib
import Staging.Bytes

namespace Staging.Bytes

theorem base64_lt {v w : Nat} (h : v < w) (hw : w < 0x200000) :
    v / 262144 % 8 < w / 262144 % 8 ∨ v / 262144 % 8 = w / 262144 % 8 ∧
      (v / 4096 % 64 < w / 4096 % 64 ∨ v / 4096 % 64 = w / 4096 % 64 ∧
        (v / 64 % 64 < w / 64 % 64 ∨ v / 64 % 64 = w / 64 % 64 ∧ v % 64 < w % 64)) := by
  have step {m n : Nat} (h : m < n) : m / 64 < n / 64 ∨ m / 64 = n / 64 ∧ m % 64 < n % 64 := by
    omega
  have digits (n : Nat) : n / 4096 = n / 64 / 64 ∧ n / 262144 = n / 64 / 64 / 64 := by omega
  rw [(digits v).1, (digits v).2, (digits w).1, (digits w).2]
  have htop {n : Nat} (h : n < 0x200000) : n / 64 / 64 / 64 % 8 = n / 64 / 64 / 64 := by omega
  rw [htop hw, htop (h.trans hw)]
  rcases step h with h₁ | ⟨h₁, h₁'⟩
  · rcases step h₁ with h₂ | ⟨h₂, h₂'⟩
    · rcases step h₂ with h₃ | ⟨h₃, h₃'⟩
      · exact Or.inl h₃
      · exact Or.inr ⟨h₃, Or.inl h₃'⟩
    · rw [h₂]
      exact Or.inr ⟨rfl, Or.inr ⟨rfl, Or.inl h₂'⟩⟩
  · rw [h₁]
    exact Or.inr ⟨rfl, Or.inr ⟨rfl, Or.inr ⟨rfl, h₁'⟩⟩⟩

theorem utf8EncodeChar_append_lt {c d : Char} (h : c < d) (x y : Bytes) :
    String.utf8EncodeChar c ++ x < String.utf8EncodeChar d ++ y := by
  have hv : c.val.toNat < d.val.toNat := h
  have hd : d.val.toNat < 0x110000 := by
    have := d.valid
    simp only [UInt32.isValidChar, Nat.isValidChar] at this
    omega
  have hbase := base64_lt hv (by omega)
  simp only [String.utf8EncodeChar]
  split_ifs <;>
    simp only [List.cons_append, List.nil_append, List.cons_lt_cons_iff, UInt8.lt_iff_toNat_lt,
      ← UInt8.toNat_inj, UInt8.toNat_ofNat', Nat.reducePow] <;>
    simp (disch := omega) only [Nat.mod_eq_of_lt (b := 256)] <;>
    omega

theorem ofString_eq_flatMap (s : String) : ofString s = s.toList.flatMap String.utf8EncodeChar := by
  rw [ofString, ← String.utf8Encode_toList, List.utf8Encode]
  simp

theorem flatMap_utf8EncodeChar_lt {l m : List Char} (h : l < m) :
    l.flatMap String.utf8EncodeChar < m.flatMap String.utf8EncodeChar := by
  induction l generalizing m with
  | nil =>
    cases m with
    | nil => exact absurd h (lt_irrefl _)
    | cons d m => 
      cases he : String.utf8EncodeChar d with
      | nil => exact absurd he String.utf8EncodeChar_ne_nil
      | cons b r => simp [he]
  | cons c l ih =>
    cases m with
    | nil => exact absurd h (by simp)
    | cons d m =>
      rcases List.cons_lt_cons_iff.mp h with hcd | ⟨rfl, hlm⟩
      · exact utf8EncodeChar_append_lt hcd _ _
      · exact List.append_left_lt (ih hlm)

theorem ofString_lt_ofString {s t : String} : ofString s < ofString t ↔ s < t := by
  have mono {s t : String} (h : s < t) : ofString s < ofString t := by
    rw [ofString_eq_flatMap, ofString_eq_flatMap]
    exact flatMap_utf8EncodeChar_lt h
  constructor
  · intro h
    rcases Std.lt_trichotomy s t with hst | rfl | hts
    · exact hst
    · exact absurd h Std.lt_irrefl
    · exact absurd (Std.lt_trans h (mono hts)) Std.lt_irrefl
  · exact mono

theorem startsWith_iff {b start : Bytes} : b.startsWith start = true ↔ ∃ r, b = start ++ r := by
  simp only [startsWith, Option.isSome_iff_exists, dropStart?_eq_some_iff]

@[simp] theorem startsWith_append (start r : Bytes) : (start ++ r).startsWith start = true :=
  startsWith_iff.mpr ⟨r, rfl⟩

theorem append_lt_append_iff {start x y : Bytes} : start ++ x < start ++ y ↔ x < y := by
  induction start with
  | nil => rfl
  | cons b r ih => simp [ih]

theorem le_of_startsWith {b start : Bytes} (h : b.startsWith start = true) : start ≤ b := by
  obtain ⟨r, rfl⟩ := startsWith_iff.mp h
  exact List.le_append_left

theorem startsWith_of_le {b c start : Bytes} (hb : start ≤ b) (hbc : b ≤ c)
    (hc : c.startsWith start = true) : b.startsWith start = true := by
  obtain ⟨r, rfl⟩ := startsWith_iff.mp hc
  induction start generalizing b with
  | nil => exact startsWith_append [] b
  | cons x start ih =>
    cases b with
    | nil => simp at hb
    | cons y b =>
      rw [List.cons_append] at hbc
      have hxy : x = y := by
        have h₁ := List.left_le_left_of_cons_le_cons hb
        have h₂ := List.left_le_left_of_cons_le_cons hbc
        exact UInt8.le_antisymm h₁ h₂
      subst hxy
      obtain ⟨r', rfl⟩ := startsWith_iff.mp
        (ih (List.le_of_cons_le_cons hb) (List.le_of_cons_le_cons hbc) (startsWith_append start r))
      exact startsWith_append (x :: start) r'

end Staging.Bytes
