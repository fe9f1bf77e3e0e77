import Mathlib
import Staging.Bytes

namespace Staging.Bytes

theorem lines_lineFeed (r : Bytes) : lines (Ascii.lineFeed :: r) = [] :: lines r := by
  cases r <;> rfl

theorem lines_return_lineFeed (r : Bytes) :
    lines (Ascii.carriageReturn :: Ascii.lineFeed :: r) = [] :: lines r := rfl

theorem lines_cons {b : UInt8} {r : Bytes} (hb : b ≠ Ascii.lineFeed)
    (hr : ¬ (b = Ascii.carriageReturn ∧ r.head? = some Ascii.lineFeed)) :
    lines (b :: r) =
      match lines r with
      | [] => [[b]]
      | l :: ls => (b :: l) :: ls := by
  cases r with
  | nil => simp [lines, hb]
  | cons c r =>
    have hc : ¬ (b = Ascii.carriageReturn ∧ c = Ascii.lineFeed) := by simpa using hr
    rw [lines, if_neg hb]
    exact if_neg hc

theorem lines_ne_nil {b : Bytes} (h : b ≠ []) : lines b ≠ [] := by
  fun_induction lines b <;> simp_all

theorem lines_append_lineFeed (p q : Bytes) :
    lines (p ++ Ascii.lineFeed :: q) = lines (p ++ [Ascii.lineFeed]) ++ lines q := by
  induction hn : p.length using Nat.strong_induction_on generalizing p with
  | _ n ih =>
    subst hn
    match p with
    | [] =>
      rw [List.nil_append, List.nil_append, lines_lineFeed, lines_lineFeed]
      rfl
    | b :: r =>
      by_cases hb : b = Ascii.lineFeed
      · subst hb
        rw [List.cons_append, List.cons_append, lines_lineFeed, lines_lineFeed,
          ih r.length (by simp) r rfl, List.cons_append]
      · by_cases hr : b = Ascii.carriageReturn ∧ (r ++ [Ascii.lineFeed]).head? = some Ascii.lineFeed
        · obtain ⟨rfl, hhead⟩ := hr
          cases r with
          | nil => rfl
          | cons c r =>
            obtain rfl : c = Ascii.lineFeed := by simpa using hhead
            simp only [List.cons_append, lines_return_lineFeed]
            rw [ih r.length (by simp) r rfl]
        · have hr' : ¬ (b = Ascii.carriageReturn ∧
              (r ++ Ascii.lineFeed :: q).head? = some Ascii.lineFeed) := by
            simpa [List.head?_append] using hr
          have hne : lines (r ++ [Ascii.lineFeed]) ≠ [] := lines_ne_nil (by simp)
          rw [List.cons_append, List.cons_append, lines_cons hb hr', lines_cons hb hr,
            ih r.length (by simp) r rfl]
          obtain ⟨l, ls, hl⟩ := List.exists_cons_of_ne_nil hne
          rw [hl]
          rfl

theorem lines_of_not_mem {l : Bytes} (h : Ascii.lineFeed ∉ l) (hne : l ≠ []) : lines l = [l] := by
  induction l with
  | nil => exact absurd rfl hne
  | cons b r ih =>
    rw [List.mem_cons, not_or] at h
    have hr : ¬ (b = Ascii.carriageReturn ∧ r.head? = some Ascii.lineFeed) :=
      fun hr => h.2 (List.mem_of_mem_head? hr.2)
    rw [lines_cons (Ne.symm h.1) hr]
    cases r with
    | nil => rfl
    | cons c r => rw [ih h.2 (List.cons_ne_nil c r)]

theorem lines_terminated {l : Bytes} (h : Ascii.lineFeed ∉ l)
    (hl : l.getLast? ≠ some Ascii.carriageReturn) : lines (l ++ [Ascii.lineFeed]) = [l] := by
  induction l with
  | nil => rfl
  | cons b r ih =>
    rw [List.mem_cons, not_or] at h
    cases r with
    | nil =>
      have hb : b ≠ Ascii.carriageReturn := by simpa using hl
      rw [List.singleton_append, lines_cons (Ne.symm h.1) (fun hr => hb hr.1)]
      rfl
    | cons c r =>
      have hr : ¬ (b = Ascii.carriageReturn ∧
          (c :: r ++ [Ascii.lineFeed]).head? = some Ascii.lineFeed) := by
        rintro ⟨-, hc⟩
        obtain rfl : c = Ascii.lineFeed := by simpa using hc
        exact h.2 List.mem_cons_self
      rw [List.cons_append, lines_cons (Ne.symm h.1) hr,
        ih h.2 (by rwa [List.getLast?_cons_cons] at hl)]

theorem lines_flatMap {ls : List Bytes} (h : ∀ l ∈ ls, Ascii.lineFeed ∉ l)
    (hl : ∀ l ∈ ls, l.getLast? ≠ some Ascii.carriageReturn) :
    lines (ls.flatMap (· ++ [Ascii.lineFeed])) = ls := by
  induction ls with
  | nil => rfl
  | cons l ls ih =>
    obtain ⟨hfeed, h⟩ := List.forall_mem_cons.mp h
    obtain ⟨hlast, hl⟩ := List.forall_mem_cons.mp hl
    rw [List.flatMap_cons, List.append_assoc, List.singleton_append, lines_append_lineFeed,
      lines_terminated hfeed hlast, ih h hl, List.singleton_append]

def finished (b : Bytes) : Bytes := b.rdropWhile (· ≠ Ascii.lineFeed)

def unfinished (b : Bytes) : Bytes := b.rtakeWhile (· ≠ Ascii.lineFeed)

theorem finished_append_unfinished (b : Bytes) : b.finished ++ b.unfinished = b :=
  List.rdropWhile_append_rtakeWhile

theorem lineFeed_notMem_unfinished (b : Bytes) : Ascii.lineFeed ∉ b.unfinished := by
  intro h
  simpa using List.mem_rtakeWhile_imp h

theorem finished_eq (b : Bytes) : b.finished = [] ∨ ∃ p, b.finished = p ++ [Ascii.lineFeed] := by
  rcases b.finished.eq_nil_or_concat with h | ⟨p, c, h⟩
  · exact Or.inl h
  · rw [List.concat_eq_append] at h
    have hne : b.finished ≠ [] := by simp [h]
    have hlast := List.rdropWhile_last_not (fun c => decide (c ≠ Ascii.lineFeed)) b hne
    have hget : b.finished.getLast hne = c := by simp [h]
    have hc : c = Ascii.lineFeed := by
      change ¬ decide (b.finished.getLast hne ≠ Ascii.lineFeed) = true at hlast
      rw [hget] at hlast
      simpa using hlast
    exact Or.inr ⟨p, by rw [h, hc]⟩

theorem lines_finished_append (b q : Bytes) : lines (b.finished ++ q) = lines b.finished ++ lines q := by
  rcases b.finished_eq with h | ⟨p, h⟩
  · rw [h]
    rfl
  · rw [h, List.append_assoc, List.singleton_append, lines_append_lineFeed]

theorem lines_eq (b : Bytes) :
    lines b = lines b.finished ++ if b.unfinished = [] then [] else [b.unfinished] := by
  have h := lines_finished_append b b.unfinished
  rw [finished_append_unfinished] at h
  rw [h]
  split_ifs with hu
  · rw [hu]
    rfl
  · rw [lines_of_not_mem b.lineFeed_notMem_unfinished hu]

theorem lines_append_line (b : Bytes) {l : Bytes} (h : Ascii.lineFeed ∉ l) (hne : l ≠ [])
    (hl : l.getLast? ≠ some Ascii.carriageReturn) :
    lines (b ++ (l ++ [Ascii.lineFeed])) = lines b.finished ++ [b.unfinished ++ l] := by
  have hb : b ++ (l ++ [Ascii.lineFeed]) =
      b.finished ++ ((b.unfinished ++ l) ++ [Ascii.lineFeed]) := by
    rw [← List.append_assoc, ← List.append_assoc, ← List.append_assoc, finished_append_unfinished]
  have hlast : (b.unfinished ++ l).getLast? ≠ some Ascii.carriageReturn := by
    rwa [List.getLast?_append_of_ne_nil _ hne]
  rw [hb, lines_finished_append, lines_terminated _ hlast]
  rw [List.mem_append, not_or]
  exact ⟨b.lineFeed_notMem_unfinished, h⟩

theorem unfinished_append_lineFeed (b : Bytes) : (b ++ [Ascii.lineFeed]).unfinished = [] :=
  List.rtakeWhile_concat_neg (· ≠ Ascii.lineFeed) b Ascii.lineFeed (by simp)

end Staging.Bytes
