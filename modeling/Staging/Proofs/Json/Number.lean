import Mathlib
import Staging.Json.Token
import Staging.Proofs.Digits

namespace Staging.Json

def continues (c : UInt8) : Bool :=
  Bytes.isDigit c || c = Ascii.point || c = Ascii.lowerE || c = Ascii.upperE

def Ends (rest : Bytes) : Prop := ∀ c ∈ rest.head?, continues c = false

theorem Ends.not_mem {rest : Bytes} {p : UInt8 → Bool} (h : Ends rest)
    (hp : ∀ c, p c = true → continues c = true) : ∀ c ∈ rest.head?, p c = false := by
  intro c hm
  have hc := h c hm
  cases hpc : p c with
  | false => rfl
  | true => simp [hp c hpc] at hc

theorem takeWhile_append {p : UInt8 → Bool} {rest : Bytes} (h : ∀ c ∈ rest.head?, p c = false)
    (b : Bytes) : (b ++ rest).takeWhile p = b.takeWhile p := by
  induction b with
  | nil =>
    cases rest with
    | nil => rfl
    | cons c r => exact List.takeWhile_cons_of_neg (by simpa using h c rfl)
  | cons x b ih => simp only [List.cons_append, List.takeWhile_cons, ih]

theorem dropWhile_append {p : UInt8 → Bool} {rest : Bytes} (h : ∀ c ∈ rest.head?, p c = false)
    (b : Bytes) : (b ++ rest).dropWhile p = b.dropWhile p ++ rest := by
  induction b with
  | nil =>
    cases rest with
    | nil => rfl
    | cons c r => exact List.dropWhile_cons_of_neg (by simpa using h c rfl)
  | cons x b ih =>
    simp only [List.cons_append, List.dropWhile_cons, ih]
    split_ifs <;> rfl

variable {n : Except Fault Number} {rest q : Bytes}

theorem missingDigit_ne (b r : Bytes) : missingDigit b ≠ (.number n, r) := by
  simp [missingDigit]

theorem Ends.isDigit (hr : Ends rest) : ∀ c ∈ rest.head?, Bytes.isDigit c = false :=
  hr.not_mem (fun c hc => by simp [continues, hc])

theorem digits_append {k : Bytes → Bytes → Token × Bytes}
    (hk : ∀ ds b, k ds b = (.number n, q) → k ds (b ++ rest) = (.number n, q ++ rest))
    (hr : Ends rest) {b : Bytes}
    (h : (if (b.takeWhile Bytes.isDigit).isEmpty then missingDigit (b.dropWhile Bytes.isDigit)
      else k (b.takeWhile Bytes.isDigit) (b.dropWhile Bytes.isDigit)) = (.number n, q)) :
    (if ((b ++ rest).takeWhile Bytes.isDigit).isEmpty then
        missingDigit ((b ++ rest).dropWhile Bytes.isDigit)
      else k ((b ++ rest).takeWhile Bytes.isDigit) ((b ++ rest).dropWhile Bytes.isDigit)) =
        (.number n, q ++ rest) := by
  rw [takeWhile_append hr.isDigit, dropWhile_append hr.isDigit]
  by_cases hd : (b.takeWhile Bytes.isDigit).isEmpty = true
  · rw [if_pos hd] at h
    exact absurd h (missingDigit_ne _ _)
  · rw [if_neg hd] at h ⊢
    exact hk _ _ h

theorem scanExponent_append {negative : Bool} {whole fraction b : Bytes}
    (h : scanExponent negative whole fraction b = (.number n, q)) (hr : Ends rest) :
    scanExponent negative whole fraction (b ++ rest) = (.number n, q ++ rest) := by
  cases b with
  | nil =>
    obtain ⟨hn, rfl⟩ : n = Number.ofSpelling negative whole fraction none ∧ q = [] := by
      simpa [scanExponent, eq_comm] using h
    cases rest with
    | nil => exact h
    | cons c r =>
      have hc : (c = Ascii.lowerE || c = Ascii.upperE) = false :=
        hr.not_mem (p := fun c => c = Ascii.lowerE || c = Ascii.upperE)
          (fun c hc => by simp_all [continues, or_assoc]) c rfl
      rw [hn]
      exact if_neg (by rw [hc]; exact Bool.false_ne_true)
  | cons e r =>
    by_cases he : (e = Ascii.lowerE || e = Ascii.upperE) = true
    · have hne : r ≠ [] := by
        rintro rfl
        simp only [scanExponent, if_pos he] at h
        exact missingDigit_ne _ _ h
      have hsign (c : Prop) [Decidable c] : (if c then r.drop 1 ++ rest else r ++ rest) =
          (if c then r.drop 1 else r) ++ rest := (apply_ite (· ++ rest) c _ _).symm
      simp only [scanExponent, List.cons_append, if_pos he, List.head?_append_of_ne_nil r hne,
        List.drop_append_of_le_length (List.length_pos_iff.mpr hne), hsign] at h ⊢
      refine digits_append (k := fun ds b => (.number (Number.ofSpelling negative whole fraction
        (some (if r.head? = some Ascii.minus then -(Bytes.digitsValue ds : Int)
          else Bytes.digitsValue ds))), b)) ?_ hr ?_
      · intro ds b hb
        obtain ⟨ht, rfl⟩ := Prod.mk.inj hb
        rw [ht]
      · simpa using h
    · simp only [scanExponent, List.cons_append, if_neg he, Prod.mk.injEq] at h ⊢
      exact ⟨h.1, by rw [← h.2, List.cons_append]⟩

def scanFraction (negative : Bool) (whole b : Bytes) : Token × Bytes :=
  if whole.head? = some Ascii.zero && 1 < whole.length then (.broken .malformed, [])
  else match b with
    | p :: r =>
      if p = Ascii.point then
        if (r.takeWhile Bytes.isDigit).isEmpty then missingDigit (r.dropWhile Bytes.isDigit)
        else scanExponent negative whole (r.takeWhile Bytes.isDigit) (r.dropWhile Bytes.isDigit)
      else scanExponent negative whole [] b
    | [] => scanExponent negative whole [] []

theorem scanFraction_append {negative : Bool} {whole b : Bytes}
    (h : scanFraction negative whole b = (.number n, q)) (hr : Ends rest) :
    scanFraction negative whole (b ++ rest) = (.number n, q ++ rest) := by
  by_cases hz : (whole.head? = some Ascii.zero && 1 < whole.length) = true
  · simp only [scanFraction, if_pos hz] at h
    cases h
  · simp only [scanFraction, if_neg hz] at h ⊢
    cases b with
    | nil =>
      cases rest with
      | nil => exact scanExponent_append h hr
      | cons c r =>
        have hc : decide (c = Ascii.point) = false :=
          hr.not_mem (p := fun c => c = Ascii.point) (fun c hc => by simp_all [continues]) c rfl
        exact (if_neg (of_decide_eq_false hc)).trans (scanExponent_append h hr)
    | cons p r =>
      by_cases hp : p = Ascii.point
      · simp only [List.cons_append, if_pos hp] at h ⊢
        exact digits_append (k := scanExponent _ _) (fun ds b hb => scanExponent_append hb hr) hr h
      · simp only [List.cons_append, if_neg hp] at h ⊢
        exact scanExponent_append h hr

def unsigned (b : Bytes) : Bytes := if b.head? = some Ascii.minus then b.drop 1 else b

theorem unsigned_append {b : Bytes} (h : b ≠ []) (r : Bytes) :
    unsigned (b ++ r) = unsigned b ++ r := by
  unfold unsigned
  rw [List.head?_append_of_ne_nil b h, List.drop_append_of_le_length (List.length_pos_iff.mpr h)]
  split_ifs <;> rfl

theorem scanNumber_eq (b : Bytes) :
    scanNumber b =
      if ((unsigned b).takeWhile Bytes.isDigit).isEmpty then
        missingDigit ((unsigned b).dropWhile Bytes.isDigit)
      else scanFraction (b.head? = some Ascii.minus) ((unsigned b).takeWhile Bytes.isDigit)
        ((unsigned b).dropWhile Bytes.isDigit) := rfl

theorem scanNumber_append {b : Bytes} (h : scanNumber b = (.number n, q)) (hr : Ends rest) :
    scanNumber (b ++ rest) = (.number n, q ++ rest) := by
  have hne : b ≠ [] := by
    rintro rfl
    exact missingDigit_ne _ _ h
  rw [scanNumber_eq] at h ⊢
  rw [unsigned_append hne, List.head?_append_of_ne_nil b hne]
  exact digits_append (k := scanFraction _) (fun whole b hb => scanFraction_append hb hr) hr h

theorem Number.ofSpelling_whole {negative : Bool} {whole : Bytes} {i : Int}
    (hv : (if negative then -(Bytes.digitsValue whole : Int) else Bytes.digitsValue whole) = i)
    (hz : ¬ (negative = true ∧ Bytes.digitsValue whole = 0))
    (h : -0x8000000000000000 ≤ i ∧ i < 0x10000000000000000) :
    Number.ofSpelling negative whole [] none = .ok (.int i h) := by
  subst hv
  exact dif_pos ⟨⟨rfl, rfl, hz⟩, h⟩

theorem scanNumber_ofInt (i : Int) (h : -0x8000000000000000 ≤ i ∧ i < 0x10000000000000000) :
    scanNumber (Bytes.ofInt i) = (.number (.ok (.int i h)), []) := by
  have hall := Bytes.isDigit_of_mem_ofNat (n := i.natAbs)
  have hminus : (Bytes.ofNat i.natAbs).head? ≠ some Ascii.minus := by
    intro hm
    cases hall _ (List.mem_of_mem_head? hm)
  have hun : unsigned (Bytes.ofInt i) = Bytes.ofNat i.natAbs := by
    unfold unsigned Bytes.ofInt
    split_ifs <;> simp_all
  have hneg : (Bytes.ofInt i).head? = some Ascii.minus ↔ i < 0 := by
    unfold Bytes.ofInt
    split_ifs <;> simp_all
  have ht : (Bytes.ofNat i.natAbs).takeWhile Bytes.isDigit = Bytes.ofNat i.natAbs :=
    List.takeWhile_eq_self_iff.mpr hall
  have hd : (Bytes.ofNat i.natAbs).dropWhile Bytes.isDigit = [] :=
    List.dropWhile_eq_nil_iff.mpr hall
  have hz : ((Bytes.ofNat i.natAbs).head? = some Ascii.zero &&
      1 < (Bytes.ofNat i.natAbs).length) = false := by
    rw [Bool.and_eq_false_iff, decide_eq_false_iff_not, decide_eq_false_iff_not]
    by_cases hh : (Bytes.ofNat i.natAbs).head? = some Ascii.zero
    · right
      rw [Bytes.head?_ofNat hh]
      exact Nat.lt_irrefl 1
    · exact Or.inl hh
  have hspell : Number.ofSpelling (decide ((Bytes.ofInt i).head? = some Ascii.minus))
      (Bytes.ofNat i.natAbs) [] none = .ok (.int i h) := by
    apply Number.ofSpelling_whole
    · rw [Bytes.digitsValue_ofNat]
      simp only [decide_eq_true_eq, hneg]
      split_ifs <;> omega
    · rw [Bytes.digitsValue_ofNat]
      simp only [decide_eq_true_eq, hneg]
      omega
  rw [scanNumber_eq, hun, ht, hd, if_neg (by simp [Bytes.ofNat_ne_nil]), scanFraction, hz]
  exact congrArg (fun x => (Token.number x, [])) hspell

/-- Numbers that are read as what they were. Not all that are not whole are: the reader rounds
more than once. -/
def Number.Rereads (n : Number) : Prop := scanNumber n.render = (.number (.ok n), [])

theorem Number.rereads_int (i : Int) (h : -0x8000000000000000 ≤ i ∧ i < 0x10000000000000000) :
    (Number.int i h).Rereads := scanNumber_ofInt i h

theorem nextToken?_number {c : UInt8} (h : c = Ascii.minus ∨ Bytes.isDigit c = true) (r : Bytes) :
    nextToken? (c :: r) = some (scanNumber (c :: r)) := by
  rcases h with rfl | h
  · rfl
  · obtain ⟨d, hd, rfl⟩ := Bytes.exists_digit h
    interval_cases d <;> rfl

theorem nextToken?_render {n : Number} (h : n.Rereads) (hr : Ends rest) :
    nextToken? (n.render ++ rest) = some (.number (.ok n), rest) := by
  have hscan := scanNumber_append h hr
  rw [List.nil_append] at hscan
  unfold Number.Rereads at h
  cases hb : n.render with
  | nil =>
    rw [hb] at h
    exact absurd h (missingDigit_ne _ _)
  | cons c r =>
    rw [hb] at h hscan
    have hc : c = Ascii.minus ∨ Bytes.isDigit c = true := by
      by_contra hc
      obtain ⟨hm, hd⟩ := not_or.mp hc
      have hun : unsigned (c :: r) = c :: r := if_neg (by simpa using hm)
      rw [scanNumber_eq, hun, List.takeWhile_cons_of_neg hd] at h
      exact missingDigit_ne _ _ h
    rw [List.cons_append] at hscan ⊢
    rw [nextToken?_number hc, hscan]

end Staging.Json
