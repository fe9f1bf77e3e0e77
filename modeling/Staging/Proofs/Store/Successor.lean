import Mathlib
import Staging.Store.Table
import Staging.Proofs.Bytes

namespace Staging.Bytes

variable {start u : Bytes}

theorem lt_or_eq_greatest (b : UInt8) : b < 255 ∨ b = 255 := by
  have hb := b.toNat_lt
  rw [UInt8.lt_iff_toNat_lt, ← UInt8.toNat_inj]
  simp only [UInt8.reduceToNat]
  omega

theorem raised_le_iff {x y : UInt8} (hx : x < 255) : x + 1 ≤ y ↔ x < y := by
  have hn : x.toNat < 255 := UInt8.lt_iff_toNat_lt.mp hx
  rw [UInt8.le_iff_toNat_le, UInt8.lt_iff_toNat_lt, UInt8.toNat_add, UInt8.toNat_one]
  omega

theorem lt_raised {x : UInt8} (hx : x < 255) : x < x + 1 := (raised_le_iff hx).mp UInt8.le_rfl

theorem eq_of_lt_raised {x y : UInt8} (hx : x < 255) (hxy : x ≤ y) (hy : y < x + 1) :
    x = y := by
  apply UInt8.le_antisymm hxy
  apply Std.not_lt.mp
  intro hlt
  exact Std.lt_irrefl (Std.lt_of_lt_of_le hy ((raised_le_iff hx).mpr hlt))

theorem lt_greatest_cons (r : Bytes) : r < 255 :: r := by
  induction r with
  | nil => simp
  | cons c r ih =>
    apply List.cons_lt_cons_iff.mpr
    rcases lt_or_eq_greatest c with hc | rfl
    · exact Or.inl hc
    · exact Or.inr ⟨rfl, ih⟩

@[simp] theorem startsWith_self (start : Bytes) : start.startsWith start = true :=
  startsWith_iff.mpr ⟨[], by simp⟩

theorem startsWith_concat_of_between {b : UInt8} (hb : b < 255) (hle : start ++ [b] ≤ u)
    (hlt : u < start ++ [b + 1]) : u.startsWith (start ++ [b]) = true := by
  have hs : u.startsWith start = true :=
    startsWith_of_le (Std.le_trans List.le_append_left hle) (Std.le_of_lt hlt)
      (startsWith_append start [b + 1])
  obtain ⟨r, rfl⟩ := startsWith_iff.mp hs
  rw [← Std.not_lt, append_lt_append_iff, Std.not_lt] at hle
  rw [append_lt_append_iff] at hlt
  cases r with
  | nil => simp at hle
  | cons c r =>
    have hbc : b ≤ c := List.left_le_left_of_cons_le_cons hle
    have hcb : c < b + 1 := by simpa [List.cons_lt_cons_iff] using hlt
    obtain rfl := eq_of_lt_raised hb hbc hcb
    exact startsWith_iff.mpr ⟨r, by simp⟩

def AboveAll (u start : Bytes) : Prop := ∀ k : Bytes, k.startsWith start = true → k < u

theorem not_aboveAll_nil (u : Bytes) : ¬ u.AboveAll [] := fun h =>
  Std.lt_irrefl (h u (startsWith_append [] u))

theorem aboveAll_concat {b : UInt8} (hb : b < 255) :
    u.AboveAll (start ++ [b]) ↔ start ++ [b + 1] ≤ u := by
  constructor
  · intro h
    have hle : start ++ [b] ≤ u := Std.le_of_lt (h _ (startsWith_self _))
    apply Std.not_lt.mp
    intro hlt
    exact Std.lt_irrefl (h u (startsWith_concat_of_between hb hle hlt))
  · intro hle k hk
    obtain ⟨r, rfl⟩ := startsWith_iff.mp hk
    have hlt : start ++ ([b] ++ r) < start ++ [b + 1] := by
      apply append_lt_append_iff.mpr
      exact List.cons_lt_cons_iff.mpr (Or.inl (lt_raised hb))
    rw [List.append_assoc]
    exact Std.lt_of_lt_of_le hlt hle

theorem aboveAll_concat_greatest : u.AboveAll (start ++ [255]) ↔ u.AboveAll start := by
  constructor
  · intro h k hk
    obtain ⟨r, rfl⟩ := startsWith_iff.mp hk
    have hlt : start ++ r < start ++ [255] ++ r := by
      rw [List.append_assoc]
      exact append_lt_append_iff.mpr (lt_greatest_cons r)
    exact Std.lt_trans hlt (h _ (startsWith_append _ r))
  · intro h k hk
    obtain ⟨r, rfl⟩ := startsWith_iff.mp hk
    apply h
    rw [List.append_assoc]
    exact startsWith_append start _

@[simp] theorem successor?_nil : successor? [] = none := rfl

theorem successor?_concat (start : Bytes) (b : UInt8) :
    successor? (start ++ [b]) = if b < 255 then some (start ++ [b + 1]) else start.successor? := by
  simp only [successor?, List.reverse_append, List.reverse_singleton, List.singleton_append,
    successorReversed]
  split_ifs <;> simp

theorem aboveAll_iff : u.AboveAll start ↔ ∃ v, start.successor? = some v ∧ v ≤ u := by
  -- the last byte is taken off first, as in the search for the successor
  induction start using List.reverseRecOn with
  | nil => simp [not_aboveAll_nil]
  | append_singleton start b ih =>
    rw [successor?_concat]
    rcases lt_or_eq_greatest b with hb | rfl
    · simp [hb, aboveAll_concat hb]
    · rw [if_neg Std.lt_irrefl, aboveAll_concat_greatest, ih]

theorem aboveAll_successor (h : start.successor? = some u) : u.AboveAll start :=
  aboveAll_iff.mpr ⟨u, h, Std.le_refl u⟩

theorem lt_successor {b start u : Bytes} (hu : start.successor? = some u)
    (h : b.startsWith start = true) : b < u := aboveAll_successor hu b h

theorem successor?_eq_some_iff :
    start.successor? = some u ↔ IsLeast {v : Bytes | v.AboveAll start} u := by
  constructor
  · intro hu
    refine ⟨aboveAll_successor hu, ?_⟩
    intro v hv
    obtain ⟨w, hw, hle⟩ := aboveAll_iff.mp hv
    rw [hu] at hw
    exact Option.some.inj hw ▸ hle
  · rintro ⟨hu, hleast⟩
    obtain ⟨v, hv, hle⟩ := aboveAll_iff.mp hu
    rw [hv, Std.le_antisymm hle (hleast (aboveAll_successor hv))]

theorem successor?_eq_none_iff : start.successor? = none ↔ ¬ ∃ u : Bytes, u.AboveAll start := by
  simp only [aboveAll_iff, Option.eq_none_iff_forall_ne_some]
  constructor
  · rintro hnone ⟨u, v, hv, -⟩
    exact hnone v hv
  · intro hno v hv
    exact hno ⟨v, v, hv, Std.le_refl v⟩

theorem successor?_eq_none_iff_all :
    start.successor? = none ↔ start.all (· = 255) = true := by
  induction start using List.reverseRecOn with
  | nil => simp
  | append_singleton start b ih =>
    rw [successor?_concat]
    rcases lt_or_eq_greatest b with hb | rfl
    · have hne : b ≠ 255 := Std.ne_of_lt hb
      simp [hb, hne]
    · rw [if_neg Std.lt_irrefl, ih]
      simp

theorem startsWith_iff_between {k : Bytes} :
    k.startsWith start = true ↔ start ≤ k ∧ start.successor?.all (k < ·) = true := by
  constructor
  · intro hk
    refine ⟨le_of_startsWith hk, ?_⟩
    cases hu : start.successor? with
    | none => rfl
    | some u => simpa using lt_successor hu hk
  · rintro ⟨hle, hlt⟩
    by_contra hk
    -- what begins with the start stands together, so `k` is below all of it or above all of it
    have habove : k.AboveAll start := by
      intro c hc
      apply Std.not_le.mp
      intro hkc
      exact hk (startsWith_of_le hle hkc hc)
    obtain ⟨u, hu, huk⟩ := aboveAll_iff.mp habove
    have hku : k < u := by simpa [hu] using hlt
    exact Std.lt_irrefl (Std.lt_of_lt_of_le hku huk)

theorem successor?_delimits (start : Bytes) :
    (∀ k : Bytes, k.startsWith start = true ↔
      start ≤ k ∧ start.successor?.all (k < ·) = true) ∧
    (∀ u, start.successor? = some u ↔ IsLeast {v : Bytes | v.AboveAll start} u) ∧
    (start.successor? = none ↔ ¬ ∃ u : Bytes, u.AboveAll start) ∧
    (start.successor? = none ↔ start.all (· = 255) = true) :=
  ⟨fun _ => startsWith_iff_between, fun _ => successor?_eq_some_iff, successor?_eq_none_iff,
    successor?_eq_none_iff_all⟩

example : successor? [97, 98, 255] = some [97, 99] := by decide

end Staging.Bytes
