import Mathlib
import Staging.SortedMap

namespace Staging

namespace Assoc

variable {κ α : Type}

theorem eq_of_mem_iff [LT κ] [LE κ] [Std.LawfulOrderLT κ] [Std.IsPreorder κ] {l m : List (κ × α)}
    (hl : Ascending l) (hm : Ascending m) (h : ∀ p, p ∈ l ↔ p ∈ m) : l = m := by
  have nodup {n : List (κ × α)} (hn : Ascending n) : n.Nodup := by
    refine List.Pairwise.imp ?_ hn
    rintro a b hab rfl
    exact Std.lt_irrefl hab
  refine List.Perm.eq_of_pairwise ?_ hl hm ((List.perm_ext_iff_of_nodup (nodup hl) (nodup hm)).mpr h)
  intro a b _ _ hab hba
  exact absurd (Std.lt_trans hab hba) Std.lt_irrefl

theorem insert_of_lt [LT κ] [LE κ] [DecidableLT κ] [Std.LawfulOrderLT κ] [Std.IsPreorder κ]
    {k : κ} {a : α} {l : List (κ × α)} (h : ∀ p ∈ l, p.1 < k) :
    insert k a l = l ++ [(k, a)] := by
  induction l with
  | nil => rfl
  | cons p r ih =>
    obtain ⟨j, b⟩ := p
    have hj : j < k := h _ List.mem_cons_self
    have hk : ¬ k < j := fun h' => Std.lt_irrefl (Std.lt_trans h' hj)
    rw [insert, if_neg hk, if_pos hj, ih (fun p hp => h p (List.mem_cons_of_mem _ hp))]
    rfl

variable [DecidableEq κ]

theorem mem_of_get? {k : κ} {a : α} {l : List (κ × α)} (h : get? k l = some a) : (k, a) ∈ l := by
  induction l with
  | nil => simp [get?] at h
  | cons p r ih =>
    obtain ⟨j, b⟩ := p
    by_cases hj : j = k
    · have hb : b = a := by simpa only [get?, if_pos hj, Option.some.injEq] using h
      simp [hj, hb]
    · exact List.mem_cons_of_mem _ (ih (by simpa only [get?, if_neg hj] using h))

theorem get?_map {β : Type} (f : α → β) (k : κ) (l : List (κ × α)) :
    get? k (l.map (fun p => (p.1, f p.2))) = (get? k l).map f := by
  induction l with
  | nil => rfl
  | cons p r ih =>
    obtain ⟨j, b⟩ := p
    by_cases hj : j = k
    · simp [get?, hj]
    · simpa only [List.map_cons, get?, if_neg hj] using ih

variable [LT κ] [LE κ] [Std.LawfulOrderLT κ]

theorem get?_of_mem {k : κ} {a : α} {l : List (κ × α)} (hl : Ascending l) (h : (k, a) ∈ l) :
    get? k l = some a := by
  induction l with
  | nil => simp at h
  | cons p r ih =>
    obtain ⟨j, b⟩ := p
    obtain ⟨hjr, hr⟩ := List.pairwise_cons.mp hl
    rcases List.mem_cons.mp h with he | hm
    · cases he
      simp [get?]
    · have hj : j ≠ k := fun e => Std.lt_irrefl (e ▸ hjr _ hm : k < k)
      simpa only [get?, if_neg hj] using ih hr hm

theorem mem_iff_get? {k : κ} {a : α} {l : List (κ × α)} (hl : Ascending l) :
    (k, a) ∈ l ↔ get? k l = some a :=
  ⟨get?_of_mem hl, mem_of_get?⟩

theorem get?_erase {j k : κ} {l : List (κ × α)} (hl : Ascending l) :
    get? j (erase k l) = if j = k then none else get? j l := by
  induction l with
  | nil => simp [erase, get?]
  | cons p r ih =>
    obtain ⟨i, b⟩ := p
    obtain ⟨hir, hr⟩ := List.pairwise_cons.mp hl
    by_cases hi : i = k
    · subst i
      simp only [erase, if_pos]
      by_cases hj : j = k
      · subst j
        cases hg : get? k r with
        | none => simp
        | some a => exact absurd (hir _ (mem_of_get? hg)) Std.lt_irrefl
      · simp [get?, hj, Ne.symm hj]
    · simp only [erase, if_neg hi, get?, ih hr]
      by_cases hij : i = j
      · subst i; simp [hi]
      · simp [hij]

theorem erase_eq_filter {k : κ} {l : List (κ × α)} (hl : Ascending l) :
    erase k l = l.filter (·.1 ≠ k) := by
  induction l with
  | nil => rfl
  | cons p r ih =>
    obtain ⟨j, b⟩ := p
    obtain ⟨hjr, hr⟩ := List.pairwise_cons.mp hl
    by_cases hj : j = k
    · subst hj
      have hrest : ∀ p ∈ r, decide (p.1 ≠ j) = true :=
        fun p hp => decide_eq_true fun e => Std.lt_irrefl (e ▸ hjr p hp : j < j)
      rw [erase, if_pos rfl, List.filter_cons_of_neg (by simp), List.filter_eq_self.mpr hrest]
    · rw [erase, if_neg hj, List.filter_cons_of_pos (by simpa using hj), ih hr]

variable [DecidableLT κ] [Std.IsLinearOrder κ]

theorem get?_insert {j k : κ} {a : α} {l : List (κ × α)} :
    get? j (insert k a l) = if j = k then some a else get? j l := by
  induction l with
  | nil => simp [insert, get?, eq_comm]
  | cons p r ih =>
    obtain ⟨i, b⟩ := p
    rcases Std.lt_trichotomy k i with h | h | h
    · simp only [insert, if_pos h, get?]
      by_cases hj : j = k <;> simp [hj, eq_comm]
    · subst i
      simp only [insert, Std.lt_irrefl, if_false, get?]
      by_cases hj : j = k <;> simp [hj, eq_comm]
    · have hk : ¬ k < i := fun h' => Std.lt_irrefl (Std.lt_trans h h')
      simp only [insert, if_neg hk, if_pos h, get?, ih]
      by_cases hij : i = j
      · subst i
        have hjk : j ≠ k := fun e => Std.lt_irrefl (e ▸ h : k < k)
        simp [hjk]
      · simp [hij]

end Assoc

namespace SortedMap

variable {κ α : Type} [LT κ]

theorem entries_injective {m n : SortedMap κ α} (h : m.entries = n.entries) : m = n := by
  cases m
  cases n
  cases h
  rfl

theorem mem_before [LE κ] [Std.LawfulOrderLT κ] [Std.IsPreorder κ] {m : SortedMap κ α}
    {l r : List (κ × α)} {k : κ} {a : α} (h : m.entries = l ++ (k, a) :: r) {p : κ × α} :
    p ∈ l ↔ p ∈ m.entries ∧ p.1 < k := by
  have hasc := m.ascending
  rw [Assoc.Ascending, h, List.pairwise_append, List.pairwise_cons] at hasc
  obtain ⟨-, ⟨hr, -⟩, hl⟩ := hasc
  rw [h]
  constructor
  · intro hp
    exact ⟨List.mem_append_left _ hp, hl p hp _ List.mem_cons_self⟩
  · rintro ⟨hp, hk⟩
    rcases List.mem_append.mp hp with hp | hp
    · exact hp
    · rcases List.mem_cons.mp hp with rfl | hp
      · exact absurd hk Std.lt_irrefl
      · exact absurd (Std.lt_trans hk (hr p hp)) Std.lt_irrefl

variable [DecidableEq κ]

@[simp] theorem get?_empty (k : κ) : (empty : SortedMap κ α).get? k = none := rfl

theorem get?_mapValues {β : Type} (m : SortedMap κ α) (f : α → β) (k : κ) :
    (m.mapValues f).get? k = (m.get? k).map f :=
  Assoc.get?_map f k m.entries

theorem contains_iff {m : SortedMap κ α} {k : κ} : m.contains k = true ↔ ∃ a, m.get? k = some a :=
  Option.isSome_iff_exists

variable [LE κ] [Std.LawfulOrderLT κ]

theorem mem_entries {m : SortedMap κ α} {k : κ} {a : α} :
    (k, a) ∈ m.entries ↔ m.get? k = some a :=
  Assoc.mem_iff_get? m.ascending

theorem ext_get? [Std.IsPreorder κ] {m n : SortedMap κ α} (h : ∀ k, m.get? k = n.get? k) :
    m = n := by
  apply entries_injective
  apply Assoc.eq_of_mem_iff m.ascending n.ascending
  rintro ⟨k, a⟩
  rw [mem_entries, mem_entries, h]

theorem get?_filter (m : SortedMap κ α) (keep : κ → α → Bool) (k : κ) :
    (m.filter keep).get? k = (m.get? k).filter (keep k) := by
  apply Option.ext
  intro a
  rw [Option.filter_eq_some_iff, ← mem_entries, ← mem_entries]
  exact List.mem_filter

theorem get?_erase (m : SortedMap κ α) (j k : κ) :
    (m.erase k).get? j = if j = k then none else m.get? j :=
  Assoc.get?_erase m.ascending

@[simp] theorem get?_erase_self (m : SortedMap κ α) (k : κ) : (m.erase k).get? k = none := by
  simp [get?_erase]

theorem get?_erase_of_ne {m : SortedMap κ α} {j k : κ} (h : j ≠ k) :
    (m.erase k).get? j = m.get? j := by
  rw [get?_erase, if_neg h]

theorem erase_of_get?_eq_none [Std.IsPreorder κ] {m : SortedMap κ α} {k : κ}
    (h : m.get? k = none) : m.erase k = m := by
  apply ext_get?
  intro j
  rw [get?_erase]
  split_ifs with hj
  · rw [hj, h]
  · rfl

variable [DecidableLT κ] [Std.IsLinearOrder κ]

theorem get?_insert (m : SortedMap κ α) (j k : κ) (a : α) :
    (m.insert k a).get? j = if j = k then some a else m.get? j :=
  Assoc.get?_insert

@[simp] theorem get?_insert_self (m : SortedMap κ α) (k : κ) (a : α) :
    (m.insert k a).get? k = some a := by
  simp [get?_insert]

theorem get?_insert_of_ne {m : SortedMap κ α} {j k : κ} (a : α) (h : j ≠ k) :
    (m.insert k a).get? j = m.get? j := by
  rw [get?_insert, if_neg h]

theorem insert_of_get?_eq_some {m : SortedMap κ α} {k : κ} {a : α} (h : m.get? k = some a) :
    m.insert k a = m := by
  apply ext_get?
  intro j
  rw [get?_insert]
  split_ifs with hj
  · rw [hj, h]
  · rfl

omit [DecidableEq κ] in
theorem entries_foldl_insert {m : SortedMap κ α} {l : List (κ × α)}
    (h : Assoc.Ascending (m.entries ++ l)) :
    (l.foldl (fun m p => m.insert p.1 p.2) m).entries = m.entries ++ l := by
  induction l generalizing m with
  | nil => exact (List.append_nil _).symm
  | cons p r ih =>
    have hlast : ∀ q ∈ m.entries, q.1 < p.1 := fun q hq =>
      (List.pairwise_append.mp h).2.2 q hq p List.mem_cons_self
    have hinsert : (m.insert p.1 p.2).entries = m.entries ++ [p] := Assoc.insert_of_lt hlast
    have hsplit : m.entries ++ p :: r = (m.insert p.1 p.2).entries ++ r := by
      rw [hinsert, List.append_assoc, List.singleton_append]
    rw [hsplit] at h ⊢
    exact ih h

omit [DecidableEq κ] in
theorem ofList_entries (m : SortedMap κ α) : ofList m.entries = m :=
  entries_injective (entries_foldl_insert (m := empty) m.ascending)

end SortedMap

end Staging
