import Mathlib
import Staging.Proofs.Json.Parsing

namespace Staging.Json

namespace Spelled

mutual

theorem readJson_spell (room : Nat) (j : Json) :
    readJson room (spell j) = if j.depth ≤ room then .ok j else .error .malformed := by
  cases j with
  | null | bool _ | text _ | number _ => rfl
  | array items =>
    cases room with
    | zero => rfl
    | succ room =>
      have hi := readItems_spellItems room items
      simp only [spell, readJson, hi, depth, Nat.add_le_add_iff_right]
      split_ifs <;> rfl
  | object members =>
    cases room with
    | zero => rfl
    | succ room =>
      have hm := readMembers_spellMembers room members
      simp only [spell, readJson, hm, depth, Nat.add_le_add_iff_right]
      split_ifs <;> rfl

theorem readItems_spellItems (room : Nat) (l : List Json) :
    readItems room (spellItems l) = if depthItems l ≤ room then .ok l else .error .malformed := by
  cases l with
  | nil => simp [spellItems, readItems, depthItems]
  | cons j r =>
    have hj := readJson_spell room j
    have hr := readItems_spellItems room r
    simp only [spellItems, readItems, hj, hr, depthItems, max_le_iff]
    by_cases h₁ : depth j ≤ room <;> by_cases h₂ : depthItems r ≤ room <;> simp [h₁, h₂] <;> rfl

theorem readMembers_spellMembers (room : Nat) (l : List (String × Json)) :
    readMembers room (spellMembers l) =
      if depthMembers l ≤ room then .ok l else .error .malformed := by
  cases l with
  | nil => simp [spellMembers, readMembers, depthMembers]
  | cons m r =>
    obtain ⟨k, j⟩ := m
    have hj := readJson_spell room j
    have hr := readMembers_spellMembers room r
    simp only [spellMembers, readMembers, hj, hr, depthMembers, max_le_iff, Name.read]
    by_cases h₁ : depth j ≤ room <;> by_cases h₂ : depthMembers r ≤ room <;> simp [h₁, h₂] <;> rfl

end

end Spelled

mutual

theorem sort_of_canonical {j : Json} (h : j.Canonical) : j.sort = j := by
  cases j with
  | null | bool _ | text _ | number _ => rfl
  | array items => rw [sort, sortItems_of_canonical h]
  | object members =>
    have hm : sortMembers [] members = [] ++ members := sortMembers_of_canonical h.1 h.2
    rw [sort, hm, List.nil_append]

theorem sortItems_of_canonical {l : List Json} (h : CanonicalItems l) : sortItems l = l := by
  cases l with
  | nil => rfl
  | cons j r => rw [sortItems, sort_of_canonical h.1, sortItems_of_canonical h.2]

theorem sortMembers_of_canonical {sorted l : List (String × Json)}
    (ha : Assoc.Ascending (sorted ++ l)) (h : CanonicalMembers l) :
    sortMembers sorted l = sorted ++ l := by
  cases l with
  | nil => rw [sortMembers, List.append_nil]
  | cons m r =>
    obtain ⟨k, j⟩ := m
    have hk : ∀ p ∈ sorted, p.1 < k := fun p hp =>
      (List.pairwise_append.mp ha).2.2 p hp _ List.mem_cons_self
    rw [sortMembers, sort_of_canonical h.1, Assoc.insert_of_lt hk]
    have hr : sortMembers (sorted ++ [(k, j)]) r = sorted ++ [(k, j)] ++ r :=
      sortMembers_of_canonical (by rwa [← List.append_cons]) h.2
    rw [hr, ← List.append_cons]

end

namespace Spelled

theorem readPayload_spell (room : Nat) (p : Payload) :
    readPayload room (spell p.json) = if p.json.depth ≤ room then .ok p else .error .malformed := by
  have hp : Payload.ofJson p.json = p := by
    obtain ⟨j, h⟩ := p
    simp only [Payload.ofJson, sort_of_canonical h]
  rw [readPayload, readJson_spell]
  split_ifs with h
  · exact congrArg Except.ok hp
  · rfl

variable {α : Type} {value : Spelled → Except Fault α} {write : α → Json} {P : α → Prop}
  [DecidablePred P]

theorem foldlM_insert_spellMembers {l : List (String × α)} {m n : SortedMap String α}
    (h : ∀ p ∈ l, value (spell (write p.2)) = if P p.2 then .ok p.2 else .error .malformed)
    (hn : n.entries = m.entries ++ l) :
    (spellMembers (l.map fun p => (p.1, write p.2))).foldlM (fun m p => do
      let k ← Name.read p.1
      let a ← value p.2
      return m.insert k a) m = if ∀ p ∈ l, P p.2 then .ok n else .error .malformed := by
  induction l generalizing m with
  | nil =>
    rw [List.append_nil] at hn
    rw [SortedMap.entries_injective hn, if_pos (by simp)]
    rfl
  | cons p r ih =>
    obtain ⟨k, a⟩ := p
    have hk : ∀ p ∈ m.entries, p.1 < k := by
      have ha := n.ascending
      rw [hn] at ha
      exact fun p hp => (List.pairwise_append.mp ha).2.2 p hp _ List.mem_cons_self
    have he : (m.insert k a).entries = m.entries ++ [(k, a)] := Assoc.insert_of_lt hk
    have hr := ih (m := m.insert k a) (fun p hp => h p (List.mem_cons_of_mem _ hp))
      (by rw [hn, he, ← List.append_cons])
    have ha := h (k, a) List.mem_cons_self
    by_cases hP : P a
    · rw [if_pos hP] at ha
      simp only [List.map_cons, spellMembers, List.foldlM_cons, ha, List.forall_mem_cons, hP,
        true_and]
      exact hr
    · rw [if_neg hP] at ha
      simp only [List.map_cons, spellMembers, List.foldlM_cons, ha, List.forall_mem_cons, hP,
        false_and, if_false]
      rfl

theorem readMap_spell {m : SortedMap String α}
    (h : ∀ p ∈ m.entries,
      value (spell (write p.2)) = if P p.2 then .ok p.2 else .error .malformed) :
    readMap value (spell (.object (m.entries.map fun p => (p.1, write p.2)))) =
      if ∀ p ∈ m.entries, P p.2 then .ok m else .error .malformed := by
  rw [spell, readMap, foldlM_insert_spellMembers h (n := m) rfl]
  split_ifs <;> rfl

theorem readInt_spell {i least greatest : Int} (h : least ≤ i ∧ i ≤ greatest)
    (hl : -0x8000000000000000 ≤ least) (hg : greatest < 0x10000000000000000) :
    readInt least greatest (spell (.ofInt i)) = .ok i := by
  have hi : -0x8000000000000000 ≤ i ∧ i < 0x10000000000000000 :=
    ⟨hl.trans h.1, h.2.trans_lt hg⟩
  rw [Json.ofInt, dif_pos hi]
  exact if_pos h

section Record

variable {σ : Type} {names : List String} {field : σ → String → Spelled → Except Fault σ}

theorem readFields_named {l : List (String × Spelled)} {seen : List String} {d : σ}
    (hnames : ∀ p ∈ l, p.1 ∈ names) (hseen : ∀ p ∈ l, p.1 ∉ seen) (hl : (l.map (·.1)).Nodup) :
    readFields names field seen d (l.map fun p => (.text p.1, p.2)) =
      l.foldlM (fun d p => field d p.1 p.2) d := by
  induction l generalizing seen d with
  | nil => rfl
  | cons p r ih =>
    obtain ⟨k, v⟩ := p
    obtain ⟨hk, hnames⟩ := List.forall_mem_cons.mp hnames
    obtain ⟨hs, hseen⟩ := List.forall_mem_cons.mp hseen
    obtain ⟨hfresh, hr⟩ := List.nodup_cons.mp hl
    have hseen' : ∀ p ∈ r, p.1 ∉ k :: seen := by
      intro p hp hmem
      rcases List.mem_cons.mp hmem with hpk | hmem
      · exact hfresh (List.mem_map.mpr ⟨p, hp, hpk⟩)
      · exact hseen p hp hmem
    simp only [List.map_cons, readFields, Name.read, bind, Except.bind, if_pos hk, if_neg hs,
      List.foldlM_cons]
    cases field d k v with
    | error f => rfl
    | ok d' => exact ih hnames hseen' hr

theorem spellMembers_eq (l : List (String × Json)) :
    spellMembers l = (l.map fun p => (p.1, spell p.2)).map fun p => (.text p.1, p.2) := by
  induction l with
  | nil => rfl
  | cons p r ih => rw [spellMembers, ih, List.map_cons, List.map_cons]

theorem readRecord_spell {l : List (String × Json)} (hl : l.map (·.1) = names) (hn : names.Nodup)
    (d : σ) :
    readRecord names field d (spell (.object l)) =
      l.foldlM (fun d p => field d p.1 (spell p.2)) d := by
  have hkeys : (l.map fun p => (p.1, spell p.2)).map (·.1) = names := by
    rw [List.map_map]
    exact hl
  have hnames : ∀ p ∈ l.map (fun p => (p.1, spell p.2)), p.1 ∈ names :=
    fun p hp => hkeys ▸ List.mem_map_of_mem hp
  rw [spell, readRecord, spellMembers_eq, readFields_named hnames (by simp) (hkeys ▸ hn),
    List.foldlM_map]
  cases l.foldlM (fun d p => field d p.1 (spell p.2)) d <;> rfl

theorem foldlM_lift {τ α : Type} {put : τ → σ} {step : σ → α → Except Fault σ}
    {step' : τ → α → Except Fault τ} {l : List α}
    (h : ∀ x, ∀ a ∈ l, step (put x) a = put <$> step' x a) (x : τ) :
    l.foldlM step (put x) = put <$> l.foldlM step' x := by
  induction l generalizing x with
  | nil => rfl
  | cons a r ih =>
    obtain ⟨-, hr⟩ := List.forall_mem_cons.mp (h x)
    rw [List.foldlM_cons, List.foldlM_cons, h x a List.mem_cons_self]
    cases step' x a with
    | error f => rfl
    | ok y => exact ih (fun x a ha => h x a (List.mem_cons_of_mem _ ha)) y

end Record

end Spelled

end Staging.Json
