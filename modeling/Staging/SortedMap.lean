namespace Staging

def Assoc.get? {κ α : Type} [DecidableEq κ] (k : κ) : List (κ × α) → Option α
  | [] => none
  | (j, a) :: r => if j = k then some a else get? k r

def Assoc.insert {κ α : Type} [LT κ] [DecidableLT κ] (k : κ) (a : α) :
    List (κ × α) → List (κ × α)
  | [] => [(k, a)]
  | (j, b) :: r =>
    if k < j then (k, a) :: (j, b) :: r
    else if j < k then (j, b) :: insert k a r
    else (k, a) :: r

def Assoc.erase {κ α : Type} [DecidableEq κ] (k : κ) : List (κ × α) → List (κ × α)
  | [] => []
  | (j, b) :: r => if j = k then r else (j, b) :: erase k r

def Assoc.Ascending {κ α : Type} [LT κ] (l : List (κ × α)) : Prop :=
  l.Pairwise (fun a b => a.1 < b.1)

namespace Assoc

variable {κ α : Type}

instance [LT κ] [DecidableLT κ] (l : List (κ × α)) : Decidable (Ascending l) :=
  inferInstanceAs (Decidable (l.Pairwise _))

theorem mem_insert [LT κ] [DecidableLT κ] {k : κ} {a : α} {l : List (κ × α)} {p : κ × α} (h : p ∈ insert k a l) :
    p = (k, a) ∨ p ∈ l := by
  induction l with
  | nil => simpa [insert] using h
  | cons q r ih =>
    obtain ⟨j, b⟩ := q
    simp only [insert] at h
    split at h
    · simpa using h
    · split at h
      · rcases List.mem_cons.1 h with h | h
        · simp [h]
        · rcases ih h with h | h <;> simp [h]
      · rcases List.mem_cons.1 h with h | h <;> simp [h]

theorem mem_of_mem_erase [DecidableEq κ] {k : κ} {l : List (κ × α)} {p : κ × α} (h : p ∈ erase k l) : p ∈ l := by
  induction l with
  | nil => simp [erase] at h
  | cons q r ih =>
    obtain ⟨j, b⟩ := q
    simp only [erase] at h
    split at h
    · exact List.mem_cons_of_mem _ h
    · rcases List.mem_cons.1 h with h | h
      · simp [h]
      · exact List.mem_cons_of_mem _ (ih h)

theorem ascending_erase [LT κ] [DecidableEq κ] {k : κ} {l : List (κ × α)}
    (h : Ascending l) : Ascending (erase k l) := by
  induction l with
  | nil => exact h
  | cons q r ih =>
    obtain ⟨j, b⟩ := q
    obtain ⟨h₁, h₂⟩ := List.pairwise_cons.1 h
    simp only [erase]
    split
    · exact h₂
    · exact List.pairwise_cons.2 ⟨fun p hp => h₁ p (mem_of_mem_erase hp), ih h₂⟩

theorem ascending_insert [LE κ] [LT κ] [DecidableLT κ] [Std.IsLinearOrder κ]
    [Std.LawfulOrderLT κ] {k : κ} {a : α} {l : List (κ × α)} (h : Ascending l) :
    Ascending (insert k a l) := by
  induction l with
  | nil => simp [insert, Ascending]
  | cons q r ih =>
    obtain ⟨j, b⟩ := q
    obtain ⟨h₁, h₂⟩ := List.pairwise_cons.1 h
    simp only [insert]
    split
    · rename_i hk
      refine List.pairwise_cons.2 ⟨fun p hp => ?_, h⟩
      rcases List.mem_cons.1 hp with rfl | hp
      · exact hk
      · exact Std.lt_trans hk (h₁ p hp)
    · rename_i hk
      split
      · rename_i hj
        refine List.pairwise_cons.2 ⟨fun p hp => ?_, ih h₂⟩
        rcases mem_insert hp with rfl | hp
        · exact hj
        · exact h₁ p hp
      · rename_i hj
        have hkj : k = j := by
          rcases Std.lt_trichotomy k j with h | h | h
          · exact absurd h hk
          · exact h
          · exact absurd h hj
        subst hkj
        exact List.pairwise_cons.2 ⟨h₁, h₂⟩

end Assoc

structure SortedMap (κ α : Type) [LT κ] where
  entries : List (κ × α)
  ascending : Assoc.Ascending entries

namespace SortedMap

variable {κ α : Type} [LT κ] [DecidableLT κ] [DecidableEq κ]

instance [DecidableEq α] : DecidableEq (SortedMap κ α) := fun m n =>
  if h : m.entries = n.entries then
    isTrue (by cases m; cases n; cases h; rfl)
  else isFalse (fun e => h (e ▸ rfl))

def empty : SortedMap κ α := ⟨[], List.Pairwise.nil⟩

def size (m : SortedMap κ α) : Nat := m.entries.length

def keys (m : SortedMap κ α) : List κ := m.entries.map (·.1)

def get? (m : SortedMap κ α) (k : κ) : Option α := Assoc.get? k m.entries

def contains (m : SortedMap κ α) (k : κ) : Bool := (m.get? k).isSome

def erase (m : SortedMap κ α) (k : κ) : SortedMap κ α :=
  ⟨Assoc.erase k m.entries, Assoc.ascending_erase m.ascending⟩

def filter (m : SortedMap κ α) (keep : κ → α → Bool) : SortedMap κ α :=
  ⟨m.entries.filter (fun p => keep p.1 p.2), m.ascending.filter _⟩

def mapValues {β : Type} (m : SortedMap κ α) (f : α → β) : SortedMap κ β :=
  ⟨m.entries.map (fun p => (p.1, f p.2)),
    List.pairwise_map.mpr (m.ascending.imp (fun h => h))⟩

variable [LE κ] [Std.IsLinearOrder κ] [Std.LawfulOrderLT κ]

def insert (m : SortedMap κ α) (k : κ) (a : α) : SortedMap κ α :=
  ⟨Assoc.insert k a m.entries, Assoc.ascending_insert m.ascending⟩

def ofList (l : List (κ × α)) : SortedMap κ α :=
  l.foldl (fun m p => m.insert p.1 p.2) empty

end SortedMap

end Staging
