import Mathlib
import Staging.Json.Token
import Staging.Proofs.Text

namespace Staging.Json

theorem codeUnit?_hexDigit {n : Nat} (h : n < 256) :
    codeUnit? Ascii.zero Ascii.zero (hexDigit (n / 16)) (hexDigit (n % 16)) = some n := by
  revert n
  decide +kernel

theorem encodeCodePoint_control {n : Nat} (h : n < 32) : encodeCodePoint n = [n.toUInt8] := by
  revert n
  decide +kernel

theorem TextScan.prepend_nil (x : TextScan) : x.prepend [] = x := by
  rcases x with ⟨_ | c, rest⟩ | _ <;> rfl

theorem TextScan.prepend_prepend (a b : Bytes) (x : TextScan) :
    (x.prepend b).prepend a = x.prepend (a ++ b) := by
  rcases x with ⟨_ | c, rest⟩ | _ <;> simp [TextScan.prepend]

theorem scanText_quote (r : Bytes) : scanText (Ascii.quote :: r) = .closed (.ok []) r := by
  rw [scanText.eq_def]
  exact if_pos rfl

theorem scanText_unescape {e c : UInt8} (h : unescape? e = some c) (r : Bytes) :
    scanText (Ascii.backslash :: e :: r) = (scanText r).prepend [c] := by
  have he : e ≠ Ascii.lowerU := by
    rintro rfl
    cases h
  rw [scanText.eq_def]
  simp only [if_neg (by decide : Ascii.backslash ≠ Ascii.quote), if_neg he, h, if_true]

theorem scanText_control {b : UInt8} (h : b < Ascii.space) (r : Bytes) :
    scanText (Ascii.backslash :: Ascii.lowerU :: Ascii.zero :: Ascii.zero ::
      hexDigit (b.toNat / 16) :: hexDigit (b.toNat % 16) :: r) = (scanText r).prepend [b] := by
  have hb : b.toNat < 32 := h
  have hu : codeUnit? Ascii.zero Ascii.zero (hexDigit (b.toNat / 16)) (hexDigit (b.toNat % 16)) =
      some b.toNat := codeUnit?_hexDigit (by omega)
  have ht : isTrail b.toNat = false := by
    simp only [isTrail, Bool.and_eq_false_iff, decide_eq_false_iff_not]
    omega
  have hl : isLead b.toNat = false := by
    simp only [isLead, Bool.and_eq_false_iff, decide_eq_false_iff_not]
    omega
  rw [scanText.eq_def]
  simp [(by decide : Ascii.backslash ≠ Ascii.quote), hu, ht, hl, encodeCodePoint_control hb]

theorem scanText_plain {b : UInt8} (hq : b ≠ Ascii.quote) (hb : b ≠ Ascii.backslash)
    (hs : ¬ b < Ascii.space) (r : Bytes) : scanText (b :: r) = (scanText r).prepend [b] := by
  rw [scanText.eq_def]
  simp only [if_neg hq, if_neg hb, if_neg hs]

theorem scanText_escape (b : UInt8) (r : Bytes) :
    scanText (escape b ++ r) = (scanText r).prepend [b] := by
  unfold escape
  split_ifs with hq hb h₁ h₂ h₃ h₄ h₅ hs
  · exact scanText_unescape (by rw [hq]; decide) r
  · exact scanText_unescape (by rw [hb]; decide) r
  · exact scanText_unescape (by rw [h₁]; decide) r
  · exact scanText_unescape (by rw [h₂]; decide) r
  · exact scanText_unescape (by rw [h₃]; decide) r
  · exact scanText_unescape (by rw [h₄]; decide) r
  · exact scanText_unescape (by rw [h₅]; decide) r
  · exact scanText_control hs r
  · exact scanText_plain hq hb hs r

theorem scanText_flatMap_escape (b r : Bytes) :
    scanText (b.flatMap escape ++ r) = (scanText r).prepend b := by
  induction b with
  | nil => exact (TextScan.prepend_nil _).symm
  | cons x b ih =>
    rw [List.flatMap_cons, List.append_assoc, scanText_escape, ih, TextScan.prepend_prepend,
      List.singleton_append]

theorem scanText_renderText (s : String) (r : Bytes) :
    scanText ((Bytes.ofString s).flatMap escape ++ Ascii.quote :: r) =
      .closed (.ok (Bytes.ofString s)) r := by
  rw [scanText_flatMap_escape, scanText_quote, TextScan.prepend, List.append_nil]

theorem nextToken?_renderText (s : String) (r : Bytes) :
    nextToken? (renderText s ++ r) = some (.text (.ok s), r) := by
  have hr : renderText s ++ r =
      Ascii.quote :: ((Bytes.ofString s).flatMap escape ++ Ascii.quote :: r) := by
    simp [renderText]
  have hq (b : Bytes) : nextToken? (Ascii.quote :: b) = some (textToken (scanText b)) := rfl
  rw [hr, hq, scanText_renderText, textToken, Bytes.toString?_ofString]

theorem hexDigit_printable {n : Nat} (h : n < 16) : Ascii.space ≤ hexDigit n ∧ hexDigit n < 128 := by
  revert n
  decide

theorem escape_cases (b : UInt8) :
    escape b = [b] ∧ Ascii.space ≤ b ∨ b < 128 ∧ ∀ c ∈ escape b, Ascii.space ≤ c ∧ c < 128 := by
  unfold escape
  split_ifs with h h h h h h h hs
  · exact Or.inr ⟨by rw [h]; decide, by decide +kernel⟩
  · exact Or.inr ⟨by rw [h]; decide, by decide +kernel⟩
  · exact Or.inr ⟨by rw [h]; decide, by decide +kernel⟩
  · exact Or.inr ⟨by rw [h]; decide, by decide +kernel⟩
  · exact Or.inr ⟨by rw [h]; decide, by decide +kernel⟩
  · exact Or.inr ⟨by rw [h]; decide, by decide +kernel⟩
  · exact Or.inr ⟨by rw [h]; decide, by decide +kernel⟩
  · have hb : b.toNat < 32 := hs
    refine Or.inr ⟨Nat.lt_trans hb (by decide), fun c hc => ?_⟩
    simp only [List.mem_cons, List.not_mem_nil, or_false] at hc
    rcases hc with rfl | rfl | rfl | rfl | rfl | rfl
    · decide
    · decide
    · decide
    · decide
    · exact hexDigit_printable (by omega)
    · exact hexDigit_printable (by omega)
  · exact Or.inl ⟨rfl, UInt8.not_lt.mp hs⟩

theorem space_le_of_mem_escape {b c : UInt8} (h : c ∈ escape b) : Ascii.space ≤ c := by
  rcases escape_cases b with ⟨he, hb⟩ | ⟨-, hall⟩
  · rw [he, List.mem_singleton] at h
    rwa [h]
  · exact (hall c h).1

theorem isText_flatMap_escape (s : String) : Bytes.IsText ((Bytes.ofString s).flatMap escape) := by
  rw [Bytes.ofString_eq_flatMap, List.flatMap_assoc]
  apply Bytes.isText_flatMap
  intro c
  by_cases hc : c.toNat < 128
  · have hb : UInt8.ofNat c.toNat < 128 := by
      rw [UInt8.lt_iff_toNat_lt, UInt8.toNat_ofNat']
      exact Nat.lt_of_le_of_lt (Nat.mod_le _ _) hc
    rw [Bytes.utf8EncodeChar_of_lt hc, List.flatMap_singleton]
    apply Bytes.isText_ascii
    intro d hd
    rcases escape_cases (UInt8.ofNat c.toNat) with ⟨he, -⟩ | ⟨-, hall⟩
    · rw [he, List.mem_singleton] at hd
      rwa [hd]
    · exact (hall d hd).2
  · have hsame (b : UInt8) (hb : b ∈ String.utf8EncodeChar c) : escape b = [b] := by
      have hle := Bytes.le_of_mem_utf8EncodeChar (Nat.not_lt.mp hc) hb
      rcases escape_cases b with ⟨he, -⟩ | ⟨hlt, -⟩
      · exact he
      · exact absurd hlt (UInt8.not_lt.mpr hle)
    rw [List.flatMap_congr hsame, List.flatMap_singleton']
    exact Bytes.isText_utf8EncodeChar c

theorem isText_renderText (s : String) : Bytes.IsText (renderText s) := by
  have hquote : Bytes.IsText [Ascii.quote] := ⟨"\"", by decide⟩
  exact (hquote.append (isText_flatMap_escape s)).append hquote

theorem space_le_of_mem_renderText {s : String} {c : UInt8} (h : c ∈ renderText s) :
    Ascii.space ≤ c := by
  rw [renderText, List.mem_append, List.mem_cons, List.mem_singleton] at h
  rcases h with (rfl | h) | rfl
  · decide
  · obtain ⟨b, -, hb⟩ := List.mem_flatMap.mp h
    exact space_le_of_mem_escape hb
  · decide

end Staging.Json
