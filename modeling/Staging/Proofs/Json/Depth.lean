import Mathlib
import Staging.Proofs.Json.Reading

namespace Staging.Json

section Except

variable {ε α β : Type}

theorem bind_eq_ok {x : Except ε α} {f : α → Except ε β} {b : β} :
    x >>= f = .ok b ↔ ∃ a, x = .ok a ∧ f a = .ok b := by
  cases x <;> simp [bind, Except.bind]

theorem map_eq_ok {x : Except ε α} {f : α → β} {b : β} :
    f <$> x = .ok b ↔ ∃ a, x = .ok a ∧ f a = b := by
  cases x <;> simp [Functor.map, Except.map]

end Except

theorem depthMembers_le_iff {l : List (String × Json)} {n : Nat} :
    depthMembers l ≤ n ↔ ∀ p ∈ l, p.2.depth ≤ n := by
  induction l with
  | nil => simp [depthMembers]
  | cons p r ih =>
    obtain ⟨k, j⟩ := p
    simp [depthMembers, ih]

theorem depthMembers_insert {k : String} {j : Json} {l : List (String × Json)} {n : Nat}
    (hj : j.depth ≤ n) (hl : depthMembers l ≤ n) : depthMembers (Assoc.insert k j l) ≤ n := by
  rw [depthMembers_le_iff] at hl ⊢
  intro p hp
  rcases Assoc.mem_insert hp with rfl | hp
  · exact hj
  · exact hl p hp

mutual

/-- Of members with one name only the last stays, so sorting may take depth away but adds none. -/
theorem depth_sort (j : Json) : j.sort.depth ≤ j.depth := by
  cases j with
  | null | bool _ | number _ | text _ => exact Nat.le_refl _
  | array items => exact Nat.succ_le_succ (depthItems_sortItems items)
  | object members =>
    exact Nat.succ_le_succ (depthMembers_sortMembers members (Nat.zero_le _) (Nat.le_refl _))

theorem depthItems_sortItems (l : List Json) : depthItems (sortItems l) ≤ depthItems l := by
  cases l with
  | nil => exact Nat.le_refl _
  | cons j r => exact max_le_max (depth_sort j) (depthItems_sortItems r)

theorem depthMembers_sortMembers {sorted : List (String × Json)} {n : Nat}
    (l : List (String × Json)) (hs : depthMembers sorted ≤ n) (hl : depthMembers l ≤ n) :
    depthMembers (sortMembers sorted l) ≤ n := by
  cases l with
  | nil => exact hs
  | cons p r =>
    obtain ⟨k, j⟩ := p
    obtain ⟨hj, hr⟩ := max_le_iff.mp hl
    exact depthMembers_sortMembers r (depthMembers_insert ((depth_sort j).trans hj) hs) hr

end

namespace Spelled

mutual

theorem depth_of_readJson {room : Nat} {s : Spelled} {j : Json} (h : readJson room s = .ok j) :
    j.depth ≤ room := by
  cases s with
  | null | bool _ =>
    cases h
    exact Nat.zero_le _
  | number n =>
    obtain ⟨_, -, rfl⟩ := map_eq_ok.mp h
    exact Nat.zero_le _
  | text s =>
    obtain ⟨_, -, rfl⟩ := map_eq_ok.mp h
    exact Nat.zero_le _
  | broken b => cases h
  | array items cut =>
    cases room with
    | zero => cases h
    | succ room =>
      obtain ⟨js, hi, h⟩ := bind_eq_ok.mp h
      obtain ⟨_, -, h⟩ := bind_eq_ok.mp h
      cases h
      exact Nat.succ_le_succ (depthItems_of_readItems hi)
  | object members cut =>
    cases room with
    | zero => cases h
    | succ room =>
      obtain ⟨js, hm, h⟩ := bind_eq_ok.mp h
      obtain ⟨_, -, h⟩ := bind_eq_ok.mp h
      cases h
      exact Nat.succ_le_succ (depthMembers_of_readMembers hm)

theorem depthItems_of_readItems {room : Nat} {l : List Spelled} {js : List Json}
    (h : readItems room l = .ok js) : depthItems js ≤ room := by
  cases l with
  | nil =>
    cases h
    exact Nat.zero_le _
  | cons v r =>
    obtain ⟨j, hj, h⟩ := bind_eq_ok.mp h
    obtain ⟨js, hr, h⟩ := bind_eq_ok.mp h
    cases h
    exact max_le (depth_of_readJson hj) (depthItems_of_readItems hr)

theorem depthMembers_of_readMembers {room : Nat} {l : List (Name × Spelled)}
    {js : List (String × Json)} (h : readMembers room l = .ok js) : depthMembers js ≤ room := by
  cases l with
  | nil =>
    cases h
    exact Nat.zero_le _
  | cons p r =>
    obtain ⟨k, v⟩ := p
    obtain ⟨k, -, h⟩ := bind_eq_ok.mp h
    obtain ⟨j, hj, h⟩ := bind_eq_ok.mp h
    obtain ⟨js, hr, h⟩ := bind_eq_ok.mp h
    cases h
    exact max_le (depth_of_readJson hj) (depthMembers_of_readMembers hr)

end

theorem depth_of_readPayload {room : Nat} {s : Spelled} {p : Payload}
    (h : readPayload room s = .ok p) : p.json.depth ≤ room := by
  obtain ⟨j, hj, rfl⟩ := map_eq_ok.mp h
  exact (depth_sort j).trans (depth_of_readJson hj)

theorem foldlM_induct {ε σ α : Type} {P : σ → Prop} {step : σ → α → Except ε σ}
    (hstep : ∀ d a d', P d → step d a = .ok d' → P d') {l : List α} {d d' : σ} (hd : P d)
    (h : l.foldlM step d = .ok d') : P d' := by
  induction l generalizing d with
  | nil =>
    cases h
    exact hd
  | cons a r ih =>
    rw [List.foldlM_cons] at h
    obtain ⟨e, he, h⟩ := bind_eq_ok.mp h
    exact ih (hstep d a e hd he) h

theorem forall_of_readMap {α : Type} {P : α → Prop} {value : Spelled → Except Fault α} {s : Spelled}
    {m : SortedMap String α} (hv : ∀ s a, value s = .ok a → P a) (h : readMap value s = .ok m) :
    ∀ p ∈ m.entries, P p.2 := by
  cases s with
  | object members cut =>
    obtain ⟨n, hn, h⟩ := bind_eq_ok.mp h
    obtain ⟨_, -, h⟩ := bind_eq_ok.mp h
    cases h
    refine foldlM_induct (P := fun n => ∀ p ∈ n.entries, P p.2) ?_ (by simp [SortedMap.empty]) hn
    intro d q d' hd hq
    obtain ⟨k, -, hq⟩ := bind_eq_ok.mp hq
    obtain ⟨a, ha, hq⟩ := bind_eq_ok.mp hq
    cases hq
    intro p hp
    rcases Assoc.mem_insert hp with rfl | hp
    · exact hv _ a ha
    · exact hd p hp
  | null | bool _ | number _ | text _ | array _ _ | broken _ => cases h

section Record

variable {σ : Type} {P : σ → Prop} {names : List String}
  {field : σ → String → Spelled → Except Fault σ}

theorem readFields_induct (hf : ∀ d k s d', P d → field d k s = .ok d' → P d') {seen : List String}
    {l : List (Name × Spelled)} {d d' : σ} (hd : P d)
    (h : readFields names field seen d l = .ok d') : P d' := by
  induction l generalizing seen d with
  | nil =>
    cases h
    exact hd
  | cons p r ih =>
    obtain ⟨k, v⟩ := p
    rw [readFields] at h
    obtain ⟨k, -, h⟩ := bind_eq_ok.mp h
    split at h
    · split at h
      · cases h
      · obtain ⟨e, he, h⟩ := bind_eq_ok.mp h
        exact ih (hf d k v e hd he) h
    · obtain ⟨_, -, h⟩ := bind_eq_ok.mp h
      exact ih hd h

theorem readRecord_induct (hf : ∀ d k s d', P d → field d k s = .ok d' → P d') {s : Spelled}
    {d d' : σ} (hd : P d) (h : readRecord names field d s = .ok d') : P d' := by
  cases s with
  | object members cut =>
    obtain ⟨e, he, h⟩ := bind_eq_ok.mp h
    obtain ⟨_, -, h⟩ := bind_eq_ok.mp h
    cases h
    exact readFields_induct hf hd he
  | array items cut =>
    obtain ⟨e, he, h⟩ := bind_eq_ok.mp h
    have hp : P e := foldlM_induct (fun d p d' hd hp => hf d p.1 p.2 d' hd hp) hd he
    split at h
    · cases h
    · obtain ⟨_, -, h⟩ := bind_eq_ok.mp h
      cases h
      exact hp
  | null | bool _ | number _ | text _ | broken _ => cases h

end Record

end Spelled

theorem read_of_decode {α : Type} {read : Spelled → Except Fault α} {b : Bytes} {a : α}
    (h : decode read b = .ok a) : read (Spelled.parse b).1 = .ok a := by
  unfold decode at h
  generalize Spelled.parse b = p at h ⊢
  obtain ⟨s, rest⟩ := p
  obtain ⟨x, hx, h⟩ := bind_eq_ok.mp h
  split at h
  · cases h
    exact hx
  · cases h

end Staging.Json
