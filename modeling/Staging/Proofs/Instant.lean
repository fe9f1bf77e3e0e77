import Mathlib
import Staging.Instant.Reader
import Staging.Proofs.Digits

namespace Staging

namespace Bytes

theorem asciiChars_append (b c : Bytes) : asciiChars (b ++ c) = asciiChars b ++ asciiChars c :=
  List.map_append

theorem asciiChars_cons (x : UInt8) (b : Bytes) :
    asciiChars (x :: b) = Char.ofNat x.toNat :: asciiChars b := rfl

theorem length_asciiChars (b : Bytes) : (asciiChars b).length = b.length := List.length_map _

theorem isDigit_char {d : UInt8} (h : isDigit d = true) : (Char.ofNat d.toNat).isDigit = true := by
  obtain ⟨n, hn, rfl⟩ := exists_digit h
  revert n
  decide

theorem toNat_char {d : UInt8} (h : isDigit d = true) :
    (Char.ofNat d.toNat).toNat - 48 = digitValue d := by
  obtain ⟨n, hn, rfl⟩ := exists_digit h
  revert n
  decide

theorem isDigit_of_mem_asciiChars {b : Bytes} (h : ∀ d ∈ b, isDigit d = true) :
    ∀ c ∈ b.asciiChars, c.isDigit = true := by
  intro c hc
  obtain ⟨d, hd, rfl⟩ := List.mem_map.mp hc
  exact isDigit_char (h d hd)

end Bytes

namespace Instant

open Text (trimStart isBlank)

theorem digitsOf_asciiChars {b : Bytes} (h : ∀ d ∈ b, Bytes.isDigit d = true) :
    digitsOf b.asciiChars = Bytes.digitsValue b := by
  induction b using List.reverseRecOn with
  | nil => rfl
  | append_singleton b d ih =>
    have hd := Bytes.toNat_char (h d (by simp))
    have hb := ih (fun x hx => h x (List.mem_append_left _ hx))
    rw [Bytes.digitsValue_append_singleton, ← hb, ← hd]
    simp [digitsOf, Bytes.asciiChars]

def Stops (cs : List Char) : Prop := ∀ c ∈ cs.head?, c.isDigit = false

theorem stops_cons {c : Char} (h : c.isDigit = false) (cs : List Char) : Stops (c :: cs) := by
  rintro d ⟨⟩
  exact h

theorem readDigits?_append {w : Nat} {b : Bytes} {cs : List Char}
    (hb : ∀ d ∈ b, Bytes.isDigit d = true) (hn : b ≠ []) (hw : b.length ≤ w) (hc : Stops cs) :
    readDigits? w (b.asciiChars ++ cs) = some (Bytes.digitsValue b, cs) := by
  have hrest : (cs.take (w - b.length)).takeWhile Char.isDigit = [] := by
    cases cs with
    | nil => simp
    | cons c r =>
      cases w - b.length with
      | zero => rfl
      | succ n => simp [hc c rfl]
  have hds : ((b.asciiChars ++ cs).take w).takeWhile Char.isDigit = b.asciiChars := by
    rw [List.take_append, List.take_of_length_le (by rwa [Bytes.length_asciiChars]),
      List.takeWhile_append_of_pos (Bytes.isDigit_of_mem_asciiChars hb), Bytes.length_asciiChars,
      hrest, List.append_nil]
  have hne : b.asciiChars.isEmpty = false := by
    simpa [Bytes.asciiChars] using hn
  simp only [readDigits?, hds, hne, digitsOf_asciiChars hb, List.drop_left, Bool.false_eq_true,
    if_false]

theorem trimStart_digit {d : UInt8} (h : Bytes.isDigit d = true) (cs : List Char) :
    trimStart (Char.ofNat d.toNat :: cs) = Char.ofNat d.toNat :: cs := by
  obtain ⟨n, hn, rfl⟩ := Bytes.exists_digit h
  interval_cases n <;> rfl

theorem readNumber?_padded {n : Nat} (h : n < 100) {cs : List Char} (hc : Stops cs) :
    readNumber? ((Bytes.ofNatPadded 2 n).asciiChars ++ cs) = some (n, cs) := by
  have hlen := Bytes.length_ofNatPadded (w := 2) (n := n) (by omega) (by omega)
  have hds := Bytes.isDigit_of_mem_ofNatPadded (w := 2) (n := n)
  have htrim : trimStart ((Bytes.ofNatPadded 2 n).asciiChars ++ cs) =
      (Bytes.ofNatPadded 2 n).asciiChars ++ cs := by
    cases hb : Bytes.ofNatPadded 2 n with
    | nil => exact absurd hb (Bytes.ofNatPadded_ne_nil 2 n)
    | cons d r => exact trimStart_digit (hds d (by rw [hb]; exact List.mem_cons_self)) _
  rw [readNumber?, htrim, readDigits?_append hds (Bytes.ofNatPadded_ne_nil 2 n) (by omega) hc,
    Bytes.digitsValue_ofNatPadded]

theorem readYear?_digit {d : UInt8} (h : Bytes.isDigit d = true) (cs : List Char) :
    readYear? (Char.ofNat d.toNat :: cs) =
      (readDigits? 4 (Char.ofNat d.toNat :: cs)).map (fun p => ((p.1 : Int), p.2)) := by
  obtain ⟨n, hn, rfl⟩ := Bytes.exists_digit h
  interval_cases n <;> rfl

theorem readYear?_render (y : Int) {cs : List Char} (hc : Stops cs) :
    readYear? ((renderYear y).asciiChars ++ cs) = some (y, cs) := by
  have hds := Bytes.isDigit_of_mem_ofNatPadded (w := 4) (n := y.natAbs)
  have hne := Bytes.ofNatPadded_ne_nil 4 y.natAbs
  unfold renderYear
  split_ifs with h hneg
  · have hnat : y.toNat = y.natAbs := by omega
    have hlen := Bytes.length_ofNatPadded (w := 4) (n := y.natAbs) (by omega) (by omega)
    have hread := readDigits?_append hds hne (Nat.le_of_eq hlen) hc
    rw [hnat]
    cases hb : Bytes.ofNatPadded 4 y.natAbs with
    | nil => exact absurd hb hne
    | cons d r =>
      have hval := Bytes.digitsValue_ofNatPadded 4 y.natAbs
      rw [hb] at hds hread hval
      have hyear := readYear?_digit (hds d List.mem_cons_self) (Bytes.asciiChars r ++ cs)
      rw [Bytes.asciiChars_cons, List.cons_append] at hread ⊢
      rw [hyear, hread, hval]
      simp only [Option.map_some, Option.some.injEq, Prod.mk.injEq, and_true]
      omega
  · have hread := readDigits?_append (w := ((Bytes.ofNatPadded 4 y.natAbs).asciiChars ++ cs).length)
      hds hne (by simp [Bytes.length_asciiChars]) hc
    have hminus (r : List Char) : readYear? ('-' :: r) =
        (readDigits? r.length r).map (fun p => (-(p.1 : Int), p.2)) := rfl
    change readYear? ('-' :: ((Bytes.ofNatPadded 4 y.natAbs).asciiChars ++ cs)) = _
    rw [hminus, hread, Bytes.digitsValue_ofNatPadded]
    simp only [Option.map_some, Option.some.injEq, Prod.mk.injEq, and_true]
    omega
  · have hread := readDigits?_append (w := ((Bytes.ofNatPadded 4 y.natAbs).asciiChars ++ cs).length)
      hds hne (by simp [Bytes.length_asciiChars]) hc
    have hplus (r : List Char) : readYear? ('+' :: r) =
        (readDigits? r.length r).map (fun p => ((p.1 : Int), p.2)) := rfl
    change readYear? ('+' :: ((Bytes.ofNatPadded 4 y.natAbs).asciiChars ++ cs)) = _
    rw [hplus, hread, Bytes.digitsValue_ofNatPadded]
    simp only [Option.map_some, Option.some.injEq, Prod.mk.injEq, and_true]
    omega

theorem readNano?_padded {w n : Nat} (hw : 0 < w) (hw' : w ≤ 9) (h : n < 10 ^ w) {cs : List Char}
    (hc : Stops cs) : readNano? ('.' :: ((Bytes.ofNatPadded w n).asciiChars ++ cs)) =
      some (n * Nat.pow 10 (9 - w), cs) := by
  have hlen := Bytes.length_ofNatPadded hw h
  have hread := readDigits?_append (w := 9) (Bytes.isDigit_of_mem_ofNatPadded (w := w) (n := n))
    (Bytes.ofNatPadded_ne_nil w n) (by omega) hc
  have hrest : cs.dropWhile Char.isDigit = cs := by
    cases cs with
    | nil => rfl
    | cons c r => rw [List.dropWhile_cons_of_neg (by simp [hc c rfl])]
  rw [readNano?, hread, Bytes.digitsValue_ofNatPadded]
  simp [Bytes.length_asciiChars, hlen, hrest]

theorem readNano?_scaled {w n k : Nat} (hw : 0 < w) (hw' : w ≤ 9) (hk : Nat.pow 10 (9 - w) = k)
    (h : n / k < 10 ^ w) (hn : n % k = 0) {cs : List Char} (hc : Stops cs) :
    readNano? ('.' :: ((Bytes.ofNatPadded w (n / k)).asciiChars ++ cs)) = some (n, cs) := by
  rw [readNano?_padded hw hw' h hc, hk, Nat.div_mul_cancel (Nat.dvd_of_mod_eq_zero hn)]

theorem readNano?_render {n : Nat} (h : n < 1000000000) {cs : List Char} (hc : Stops cs)
    (hpoint : cs.head? ≠ some '.') :
    readNano? ((renderNano n).asciiChars ++ cs) = some (n, cs) := by
  unfold renderNano
  split_ifs with h₀ h₆ h₃
  · rw [h₀]
    change readNano? cs = some (0, cs)
    unfold readNano?
    split
    · exact absurd rfl hpoint
    · rfl
  · exact readNano?_scaled (w := 3) (k := 1000000) (by omega) (by omega) rfl (by omega) h₆ hc
  · exact readNano?_scaled (w := 6) (k := 1000) (by omega) (by omega) rfl (by omega) h₃ hc
  · refine (readNano?_padded (w := 9) (by omega) (by omega) (by omega) hc).trans ?_
    rw [show Nat.pow 10 (9 - 9) = 1 from rfl, Nat.mul_one]

theorem ofParts?_parts (t : Instant) :
    ofParts? t.year t.month t.day t.hour t.minute t.second t.nano = some t := by
  rw [ofParts?, dif_pos t.isDate, dif_pos t.isTime]

theorem daysIn_le (year : Int) (month : Nat) : daysIn year month ≤ 31 := by
  unfold daysIn
  split
  · split_ifs <;> omega
  all_goals omega

theorem ofLocal?_zero (t : Instant) : ofLocal? t 0 = some t := by
  obtain ⟨hh, hm, -, -⟩ := t.isTime
  have hlow : ¬ (60 * t.hour + t.minute : Int) - 0 < 0 := by omega
  have hhigh : ¬ 1440 ≤ (60 * t.hour + t.minute : Int) - 0 := by omega
  have hhour : ((60 * t.hour + t.minute : Int) - 0).toNat / 60 = t.hour := by omega
  have hminute : ((60 * t.hour + t.minute : Int) - 0).toNat % 60 = t.minute := by omega
  simp only [ofLocal?, if_neg hlow, if_neg hhigh, hhour, hminute]
  exact ofParts?_parts t

theorem asciiChars_renderClock (t : Instant) (cs : List Char) :
    (renderClock t).asciiChars ++ cs = (renderYear t.year).asciiChars ++ '-' ::
      ((Bytes.ofNatPadded 2 t.month).asciiChars ++ '-' ::
        ((Bytes.ofNatPadded 2 t.day).asciiChars ++ 'T' ::
          ((Bytes.ofNatPadded 2 t.hour).asciiChars ++ ':' ::
            ((Bytes.ofNatPadded 2 t.minute).asciiChars ++ ':' ::
              ((Bytes.ofNatPadded 2 t.second).asciiChars ++
                ((renderNano t.nano).asciiChars ++ cs)))))) := by
  rw [renderClock]
  simp only [Bytes.asciiChars_append, Bytes.asciiChars_cons, List.append_assoc, List.cons_append]
  rfl

theorem stops_renderNano (n : Nat) {cs : List Char} (hc : Stops cs) :
    Stops ((renderNano n).asciiChars ++ cs) := by
  unfold renderNano
  split_ifs
  · exact hc
  all_goals exact stops_cons (by decide) _

theorem bind_of_eq_some {α β : Type} {x : Option α} {a : α} {f : α → Option β} {b : Option β}
    (hx : x = some a) (hf : f a = b) : (x >>= f) = b := by
  rw [hx]
  exact hf

theorem read?_render (t : Instant) : read? t.render = some t := by
  obtain ⟨-, hmonth, hmonth', hday, hday'⟩ := t.isDate
  obtain ⟨hhour, hminute, hsecond, hnano⟩ := t.isTime
  have hdays := daysIn_le t.year t.month
  have hdash : ∀ cs, readMark? '-' ('-' :: cs) = some cs := fun cs => rfl
  have hcolon : ∀ cs, readMark? ':' (':' :: cs) = some cs := fun cs => rfl
  have hoffset : readOffset? (trimStart ['Z']) = some (0, []) := rfl
  have hend : (trimStart []).isEmpty = true := rfl
  have hz : Stops ['Z'] := stops_cons (by decide) []
  rw [read?, render, String.toList_ofList, asciiChars_renderClock]
  apply bind_of_eq_some (readYear?_render t.year (stops_cons (c := '-') (by decide) _))
  apply bind_of_eq_some (hdash _)
  apply bind_of_eq_some
    (readNumber?_padded (show t.month < 100 by omega) (stops_cons (c := '-') (by decide) _))
  apply bind_of_eq_some (hdash _)
  apply bind_of_eq_some
    (readNumber?_padded (show t.day < 100 by omega) (stops_cons (c := 'T') (by decide) _))
  apply bind_of_eq_some
    (readNumber?_padded (show t.hour < 100 by omega) (stops_cons (c := ':') (by decide) _))
  apply bind_of_eq_some (hcolon _)
  apply bind_of_eq_some
    (readNumber?_padded (show t.minute < 100 by omega) (stops_cons (c := ':') (by decide) _))
  apply bind_of_eq_some (hcolon _)
  apply bind_of_eq_some
    (readNumber?_padded (show t.second < 100 by omega) (stops_renderNano t.nano hz))
  apply bind_of_eq_some (readNano?_render hnano hz (by decide))
  apply bind_of_eq_some hoffset
  apply bind_of_eq_some (ofParts?_parts t)
  exact (if_pos hend).trans (ofLocal?_zero t)

theorem readTwo?_pair {a b : UInt8} (h : ∀ d ∈ [a, b], Bytes.isDigit d = true) (cs : List Char) :
    readTwo? (Bytes.asciiChars [a, b] ++ cs) = some (Bytes.digitsValue [a, b], cs) := by
  have ha := Bytes.isDigit_char (h a (by simp))
  have hb := Bytes.isDigit_char (h b (by simp))
  have hvalue := digitsOf_asciiChars h
  simp only [Bytes.asciiChars, List.map_cons, List.map_nil] at hvalue
  simp only [Bytes.asciiChars, List.map_cons, List.map_nil, List.cons_append, List.nil_append,
    readTwo?, ha, hb, Bool.and_self, if_true, hvalue]

theorem readTwo?_padded {n : Nat} (h : n < 100) (cs : List Char) :
    readTwo? ((Bytes.ofNatPadded 2 n).asciiChars ++ cs) = some (n, cs) := by
  have hlen := Bytes.length_ofNatPadded (w := 2) (n := n) (by omega) (by omega)
  have hds := Bytes.isDigit_of_mem_ofNatPadded (w := 2) (n := n)
  have hvalue := Bytes.digitsValue_ofNatPadded 2 n
  obtain ⟨a, b, hb⟩ := List.length_eq_two.mp hlen
  rw [hb] at hds hvalue ⊢
  rw [readTwo?_pair hds, hvalue]

theorem readFour?_padded {n : Nat} (h : n < 10000) (cs : List Char) :
    readFour? ((Bytes.ofNatPadded 4 n).asciiChars ++ cs) = some (n, cs) := by
  have hlen := Bytes.length_ofNatPadded (w := 4) (n := n) (by omega) (by omega)
  have hds := Bytes.isDigit_of_mem_ofNatPadded (w := 4) (n := n)
  have hvalue := Bytes.digitsValue_ofNatPadded 4 n
  obtain ⟨a, b, c, d, hb⟩ : ∃ a b c d, Bytes.ofNatPadded 4 n = [a, b] ++ [c, d] := by
    match hl : Bytes.ofNatPadded 4 n, hlen with
    | [a, b, c, d], _ => exact ⟨a, b, c, d, rfl⟩
  rw [hb] at hds hvalue ⊢
  have hfirst := readTwo?_pair (fun x hx => hds x (List.mem_append_left _ hx))
    (Bytes.asciiChars [c, d] ++ cs)
  have hlast := readTwo?_pair (fun x hx => hds x (List.mem_append_right _ hx)) cs
  have hsum : 100 * Bytes.digitsValue [a, b] + Bytes.digitsValue [c, d] = n := by
    rw [← hvalue]
    simp only [Bytes.digitsValue, List.foldl_cons, List.foldl_nil, List.cons_append, List.nil_append]
    omega
  rw [readFour?, Bytes.asciiChars_append, List.append_assoc]
  apply bind_of_eq_some hfirst
  apply bind_of_eq_some hlast
  rw [← hsum]
  rfl

theorem isUtcText_renderWithOffset {t : Instant} (h : 0 ≤ t.year) (h' : t.year ≤ 9999) :
    isUtcText t.renderWithOffset = true := by
  obtain ⟨-, hmonth, hmonth', hday, hday'⟩ := t.isDate
  obtain ⟨hhour, hminute, hsecond, hnano⟩ := t.isTime
  have hdays := daysIn_le t.year t.month
  have hplus : Stops "+00:00".toList := stops_cons (c := '+') (by decide) _
  have hdash : ∀ cs, dropChar? '-' ('-' :: cs) = some cs := fun cs => rfl
  have hcolon : ∀ cs, dropChar? ':' (':' :: cs) = some cs := fun cs => rfl
  have hread : readStrict? t.renderWithOffset = some (t, 0) := by
    have hyear : renderYear t.year = Bytes.ofNatPadded 4 t.year.toNat := if_pos ⟨h, h'⟩
    have hparts : ofParts? t.year.toNat t.month t.day t.hour t.minute t.second t.nano = some t := by
      rw [Int.toNat_of_nonneg h, ofParts?_parts]
    rw [readStrict?, renderWithOffset, String.toList_ofList, asciiChars_renderClock, hyear]
    apply bind_of_eq_some (readFour?_padded (by omega) _)
    apply bind_of_eq_some (hdash _)
    apply bind_of_eq_some (readTwo?_padded (show t.month < 100 by omega) _)
    apply bind_of_eq_some (hdash _)
    apply bind_of_eq_some (readTwo?_padded (show t.day < 100 by omega) _)
    apply bind_of_eq_some (readTwo?_padded (show t.hour < 100 by omega) _)
    apply bind_of_eq_some (hcolon _)
    apply bind_of_eq_some (readTwo?_padded (show t.minute < 100 by omega) _)
    apply bind_of_eq_some (hcolon _)
    apply bind_of_eq_some (readTwo?_padded (show t.second < 100 by omega) _)
    apply bind_of_eq_some (readNano?_render hnano hplus (by decide))
    apply bind_of_eq_some (show readStrictOffset? "+00:00".toList = some 0 by decide)
    apply bind_of_eq_some hparts
    rfl
  rw [isUtcText, hread]
  rfl

end Instant

end Staging
