import Mathlib
import Staging.Text.Characters
import Staging.Proofs.Bytes

namespace Staging

namespace Bytes

theorem utf8EncodeChar_of_lt {c : Char} (h : c.toNat < 128) :
    String.utf8EncodeChar c = [UInt8.ofNat c.toNat] :=
  if_pos (Nat.le_of_lt_succ h)

theorem le_of_mem_utf8EncodeChar {c : Char} (h : 128 ≤ c.toNat) {b : UInt8}
    (hb : b ∈ String.utf8EncodeChar c) : 128 ≤ b := by
  have hc : c.val.toNat = c.toNat := rfl
  rw [UInt8.le_iff_toNat_le]
  simp only [String.utf8EncodeChar, hc, if_neg (Nat.not_le.mpr h)] at hb
  split_ifs at hb <;> simp only [List.mem_cons, List.not_mem_nil, or_false] at hb
  · rcases hb with rfl | rfl <;> simp <;> omega
  · rcases hb with rfl | rfl | rfl <;> simp <;> omega
  · rcases hb with rfl | rfl | rfl | rfl <;> simp <;> omega

theorem utf8EncodeChar_ascii {b : UInt8} (h : b < 128) :
    String.utf8EncodeChar (Char.ofNat b.toNat) = [b] := by
  have hb : b.toNat < 128 := h
  have hc : (Char.ofNat b.toNat).toNat = b.toNat := by
    rw [Char.toNat_ofNat, if_pos (Or.inl (by omega))]
  rw [utf8EncodeChar_of_lt (by omega), hc, UInt8.ofNat_toNat]

theorem ofString_asciiChars {b : Bytes} (h : ∀ c ∈ b, c < 128) :
    ofString (String.ofList b.asciiChars) = b := by
  rw [ofString_eq_flatMap, String.toList_ofList, asciiChars]
  induction b with
  | nil => rfl
  | cons c r ih =>
    rw [List.map_cons, List.flatMap_cons, utf8EncodeChar_ascii (h c List.mem_cons_self),
      ih (fun d hd => h d (List.mem_cons_of_mem c hd)), List.singleton_append]

def IsText (b : Bytes) : Prop := ∃ s, ofString s = b

theorem isText_nil : IsText [] := ⟨"", by decide⟩

theorem isText_utf8EncodeChar (c : Char) : IsText (String.utf8EncodeChar c) :=
  ⟨String.ofList [c], by rw [ofString_eq_flatMap, String.toList_ofList, List.flatMap_singleton]⟩

theorem isText_ascii {b : Bytes} (h : ∀ c ∈ b, c < 128) : IsText b := ⟨_, ofString_asciiChars h⟩

theorem IsText.append {a b : Bytes} (ha : IsText a) (hb : IsText b) : IsText (a ++ b) := by
  obtain ⟨s, rfl⟩ := ha
  obtain ⟨t, rfl⟩ := hb
  exact ⟨s ++ t, ofString_append s t⟩

theorem isText_flatMap {f : Char → Bytes} (hf : ∀ c, IsText (f c)) (l : List Char) :
    IsText (l.flatMap f) := by
  induction l with
  | nil => exact isText_nil
  | cons c r ih => exact (hf c).append ih

end Bytes

namespace Text

theorem trimStart_eq_nil_iff {cs : List Char} : trimStart cs = [] ↔ ∀ c ∈ cs, isBlank c = true :=
  List.dropWhile_eq_nil_iff

theorem trim_eq_empty_iff {s : String} : trim s = "" ↔ ∀ c ∈ s.toList, isBlank c = true := by
  have hback : trimStart (trimStart s.toList).reverse = [] ↔ trimStart s.toList = [] := by
    constructor
    · intro h
      cases hs : trimStart s.toList with
      | nil => rfl
      | cons c r =>
        -- what is left begins with a character that is not blank
        have hc : isBlank c = false := by
          have := List.head?_dropWhile_not isBlank s.toList
          rw [show s.toList.dropWhile isBlank = c :: r from hs] at this
          simpa using this
        have hall := trimStart_eq_nil_iff.mp h c (by simp [hs])
        rw [hc] at hall
        cases hall
    · intro h
      rw [h]
      rfl
  rw [trim, ← trimStart_eq_nil_iff, ← hback, ← String.toList_inj]
  simp

theorem mem_utf8EncodeChar_of_isBlank {c : Char} (h : isBlank c = true) {b : UInt8}
    (hb : b ∈ String.utf8EncodeChar c) : (9 ≤ b ∧ b ≤ 13) ∨ b = 32 ∨ 128 ≤ b := by
  by_cases hc : c.toNat < 128
  · rw [Bytes.utf8EncodeChar_of_lt hc, List.mem_singleton] at hb
    subst hb
    simp only [isBlank, Bool.or_eq_true, Bool.and_eq_true, decide_eq_true_eq] at h
    have hn : 9 ≤ c.toNat ∧ c.toNat ≤ 13 ∨ c.toNat = 32 := by omega
    rcases hn with ⟨hl, hu⟩ | hn
    · left
      simp only [UInt8.le_iff_toNat_le, UInt8.toNat_ofNat', Nat.reducePow]
      constructor <;> simp <;> omega
    · right
      left
      rw [hn]
      rfl
  · exact Or.inr (Or.inr (Bytes.le_of_mem_utf8EncodeChar (by omega) hb))

theorem mem_ofString_of_trim_eq_empty {s : String} (h : trim s = "") {b : UInt8}
    (hb : b ∈ Bytes.ofString s) : (9 ≤ b ∧ b ≤ 13) ∨ b = 32 ∨ 128 ≤ b := by
  rw [Bytes.ofString_eq_flatMap, List.mem_flatMap] at hb
  obtain ⟨c, hc, hb⟩ := hb
  exact mem_utf8EncodeChar_of_isBlank (trim_eq_empty_iff.mp h c hc) hb

end Text

end Staging
