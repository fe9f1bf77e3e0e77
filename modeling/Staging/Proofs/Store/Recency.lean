import Mathlib
import Staging.Proofs.Store.Backends

namespace Staging

/-- Entries in the order of their last writes, oldest first. -/
abbrev Recency := List Entry

namespace Recency

def without (l : Recency) (key : Bytes) : Recency := l.filter (·.1 ≠ key)

def write (l : Recency) : WriteOp → Recency
  | .put key value => l.without key ++ [(key, value)]
  | .delete key => l.without key

def writeAll (l : Recency) (b : Batch) : Recency := b.foldl write l

end Recency

theorem List.rtake_of_length_le {α : Type} {l : List α} {n : Nat} (h : l.length ≤ n) :
    l.rtake n = l := by
  rw [List.rtake, Nat.sub_eq_zero_of_le h, List.drop_zero]

theorem List.rtake_cons_of_le {α : Type} {a : α} {l : List α} {n : Nat} (h : n ≤ l.length) :
    (a :: l).rtake n = l.rtake n := by
  rw [List.rtake, List.rtake, List.length_cons, Nat.succ_sub h, List.drop_succ_cons]

theorem List.length_rtake {α : Type} (l : List α) (n : Nat) : (l.rtake n).length = min n l.length := by
  rw [List.rtake, List.length_drop]
  omega

namespace MemoryStore.Contents

variable {c : Contents}

structure WellFormed (c : Contents) : Prop where
  listed : ∀ {key w}, c.entries.get? key = some w → c.writeOrder.get? w.seq = some key
  held : ∀ {seq key}, c.writeOrder.get? seq = some key →
    ∃ w, c.entries.get? key = some w ∧ w.seq = seq
  below : ∀ {seq key}, c.writeOrder.get? seq = some key → seq < c.nextSeq

def entryOf (c : Contents) (key : Bytes) : Option Entry :=
  (c.entries.get? key).map fun w => (key, w.value)

def recency (c : Contents) : Recency := c.writeOrder.entries.filterMap fun p => c.entryOf p.2

theorem entryOf_eq_some {key : Bytes} {p : Entry} :
    c.entryOf key = some p ↔ p.1 = key ∧ c.toTable.get? key = some p.2 := by
  rw [get?_toTable, entryOf]
  cases hw : c.entries.get? key with
  | none => simp
  | some w =>
    obtain ⟨k, v⟩ := p
    simp [eq_comm]

theorem filter_entryOf (key k : Bytes) :
    (c.entryOf k).filter (fun p => decide (p.1 ≠ key)) = if k = key then none else c.entryOf k := by
  rw [entryOf]
  cases c.entries.get? k <;> by_cases hk : k = key <;> simp [Option.filter, hk]

theorem wellFormed_empty : empty.WellFormed :=
  ⟨fun h => by simp [empty] at h, fun h => by simp [empty] at h, fun h => by simp [empty] at h⟩

theorem WellFormed.mem_recency (h : c.WellFormed) {p : Entry} :
    p ∈ c.recency ↔ c.toTable.get? p.1 = some p.2 := by
  rw [recency, List.mem_filterMap]
  constructor
  · rintro ⟨⟨seq, key⟩, _, hp⟩
    obtain ⟨rfl, hv⟩ := entryOf_eq_some.mp hp
    exact hv
  · intro hv
    have hw := hv
    rw [get?_toTable, Option.map_eq_some_iff] at hw
    obtain ⟨w, hw, -⟩ := hw
    exact ⟨(w.seq, p.1), SortedMap.mem_entries.mpr (h.listed hw), entryOf_eq_some.mpr ⟨rfl, hv⟩⟩

theorem WellFormed.pairwise_recency (h : c.WellFormed) :
    c.recency.Pairwise fun p q => p.1 ≠ q.1 := by
  rw [recency, List.pairwise_filterMap]
  refine c.writeOrder.ascending.imp_of_mem ?_
  rintro ⟨i, j⟩ ⟨i', j'⟩ hi hi' hlt p hp q hq
  obtain ⟨rfl, -⟩ := entryOf_eq_some.mp hp
  obtain ⟨rfl, -⟩ := entryOf_eq_some.mp hq
  intro he
  obtain ⟨w, hw, rfl⟩ := h.held (SortedMap.mem_entries.mp hi)
  obtain ⟨w', hw', rfl⟩ := h.held (SortedMap.mem_entries.mp hi')
  rw [he, hw'] at hw
  cases hw
  exact absurd hlt (Nat.lt_irrefl _)

theorem WellFormed.recency_perm (h : c.WellFormed) : c.recency.Perm c.table := by
  have hnodup : c.recency.Nodup := h.pairwise_recency.imp fun hne he => hne (congrArg Prod.fst he)
  have htable : c.table.Nodup := by
    refine List.Pairwise.imp ?_ c.toTable.ascending
    rintro p q hlt rfl
    exact Std.lt_irrefl hlt
  refine (List.perm_ext_iff_of_nodup hnodup htable).mpr fun p => ?_
  rw [h.mem_recency]
  exact SortedMap.mem_entries.symm

theorem WellFormed.length_recency (h : c.WellFormed) : c.recency.length = c.size := by
  rw [h.recency_perm.length_eq, table, List.length_map]
  rfl

section Write

variable (c)

def orderWithout (key : Bytes) : SortedMap Nat Bytes :=
  match c.entries.get? key with
  | some old => c.writeOrder.erase old.seq
  | none => c.writeOrder

theorem remove_eq (key : Bytes) :
    c.remove key = ⟨c.entries.erase key, c.orderWithout key, c.nextSeq⟩ := by
  rw [remove, orderWithout]
  cases hw : c.entries.get? key with
  | none => rw [SortedMap.erase_of_get?_eq_none hw]
  | some old => rfl

theorem insert_eq (key value : Bytes) :
    c.insert key value = ⟨c.entries.insert key ⟨value, c.nextSeq⟩,
      (c.orderWithout key).insert c.nextSeq key, c.nextSeq + 1⟩ := rfl

variable {c}

theorem WellFormed.orderWithout_entries (h : c.WellFormed) (key : Bytes) :
    (c.orderWithout key).entries = c.writeOrder.entries.filter (·.2 ≠ key) := by
  rw [orderWithout]
  cases hw : c.entries.get? key with
  | none =>
    refine (List.filter_eq_self.mpr fun p hp => decide_eq_true ?_).symm
    rintro rfl
    obtain ⟨w, hw', -⟩ := h.held (SortedMap.mem_entries.mp hp)
    simp [hw] at hw'
  | some old =>
    refine (Assoc.erase_eq_filter c.writeOrder.ascending).trans (List.filter_congr fun p hp => ?_)
    have hp := SortedMap.mem_entries.mp hp
    rw [decide_eq_decide, not_iff_not]
    constructor
    · intro he
      rw [he, h.listed hw] at hp
      exact (Option.some.inj hp).symm
    · rintro rfl
      obtain ⟨w, hw', he⟩ := h.held hp
      rw [hw] at hw'
      cases hw'
      exact he.symm

theorem WellFormed.get?_orderWithout (h : c.WellFormed) {key k : Bytes} {seq : Nat} :
    (c.orderWithout key).get? seq = some k ↔ c.writeOrder.get? seq = some k ∧ k ≠ key := by
  rw [← SortedMap.mem_entries, h.orderWithout_entries, List.mem_filter, SortedMap.mem_entries,
    decide_eq_true_iff]

theorem WellFormed.remove (h : c.WellFormed) (key : Bytes) : (c.remove key).WellFormed := by
  rw [remove_eq]
  constructor
  · intro k w hw
    have hk : k ≠ key := by
      rintro rfl
      simp at hw
    rw [SortedMap.get?_erase_of_ne hk] at hw
    exact h.get?_orderWithout.mpr ⟨h.listed hw, hk⟩
  · intro seq k hseq
    obtain ⟨hseq, hk⟩ := h.get?_orderWithout.mp hseq
    obtain ⟨w, hw, he⟩ := h.held hseq
    exact ⟨w, (SortedMap.get?_erase_of_ne hk).trans hw, he⟩
  · intro seq k hseq
    exact h.below (h.get?_orderWithout.mp hseq).1

theorem WellFormed.insert (h : c.WellFormed) (key value : Bytes) :
    (c.insert key value).WellFormed := by
  have hfresh {k : Bytes} {seq : Nat} (hseq : (c.orderWithout key).get? seq = some k) :
      seq ≠ c.nextSeq := (h.below (h.get?_orderWithout.mp hseq).1).ne
  rw [insert_eq]
  constructor
  · intro k w hw
    by_cases hk : k = key
    · rw [hk, SortedMap.get?_insert_self] at hw
      cases hw
      rw [hk]
      exact SortedMap.get?_insert_self ..
    · rw [SortedMap.get?_insert_of_ne _ hk] at hw
      have hseq := h.get?_orderWithout.mpr ⟨h.listed hw, hk⟩
      exact (SortedMap.get?_insert_of_ne _ (hfresh hseq)).trans hseq
  · intro seq k hseq
    rw [SortedMap.get?_insert] at hseq
    split_ifs at hseq with hnew
    · cases hseq
      exact ⟨⟨value, c.nextSeq⟩, SortedMap.get?_insert_self .., hnew.symm⟩
    · obtain ⟨hseq, hk⟩ := h.get?_orderWithout.mp hseq
      obtain ⟨w, hw, he⟩ := h.held hseq
      exact ⟨w, (SortedMap.get?_insert_of_ne _ hk).trans hw, he⟩
  · intro seq k hseq
    rw [SortedMap.get?_insert] at hseq
    split_ifs at hseq with hnew
    · exact hnew ▸ Nat.lt_succ_self _
    · exact Nat.lt_succ_of_lt (h.below (h.get?_orderWithout.mp hseq).1)

theorem WellFormed.filterMap_orderWithout (h : c.WellFormed) {d : Contents} (key : Bytes)
    (hd : ∀ k, k ≠ key → d.entryOf k = c.entryOf k) :
    (c.orderWithout key).entries.filterMap (fun p => d.entryOf p.2) = c.recency.without key := by
  rw [h.orderWithout_entries, recency, Recency.without, List.filterMap_filter,
    List.filter_filterMap]
  refine List.filterMap_congr fun p _ => ?_
  rw [filter_entryOf]
  by_cases hp : p.2 = key
  · simp [hp]
  · simp [hp, hd p.2 hp]

theorem WellFormed.recency_remove (h : c.WellFormed) (key : Bytes) :
    (c.remove key).recency = c.recency.without key := by
  rw [remove_eq]
  refine h.filterMap_orderWithout key fun k hk => ?_
  rw [entryOf, SortedMap.get?_erase_of_ne hk, entryOf]

theorem WellFormed.recency_insert (h : c.WellFormed) (key value : Bytes) :
    (c.insert key value).recency = c.recency.without key ++ [(key, value)] := by
  have hlast : ((c.orderWithout key).insert c.nextSeq key).entries =
      (c.orderWithout key).entries ++ [(c.nextSeq, key)] :=
    Assoc.insert_of_lt fun p hp => h.below (h.get?_orderWithout.mp (SortedMap.mem_entries.mp hp)).1
  have hnew : (c.insert key value).entryOf key = some (key, value) := by
    rw [insert_eq, entryOf, SortedMap.get?_insert_self]
    rfl
  rw [recency, insert_eq, hlast, ← insert_eq, List.filterMap_append, h.filterMap_orderWithout]
  · simp [hnew]
  · intro k hk
    rw [insert_eq, entryOf, SortedMap.get?_insert_of_ne _ hk, entryOf]

theorem WellFormed.write (h : c.WellFormed) (op : WriteOp) :
    (c.write op).WellFormed ∧ (c.write op).recency = c.recency.write op := by
  cases op with
  | put key value => exact ⟨h.insert key value, h.recency_insert key value⟩
  | delete key => exact ⟨h.remove key, h.recency_remove key⟩

theorem WellFormed.writeAll (h : c.WellFormed) (b : Batch) :
    (c.writeAll b).WellFormed ∧ (c.writeAll b).recency = c.recency.writeAll b := by
  induction b generalizing c with
  | nil => exact ⟨h, rfl⟩
  | cons op b ih =>
    obtain ⟨hw, hrecency⟩ := h.write op
    obtain ⟨hrest, heq⟩ := ih hw
    exact ⟨hrest, heq.trans (congrArg (Recency.writeAll · b) hrecency)⟩

end Write

theorem WellFormed.oldest (h : c.WellFormed) {seq : Nat} {key : Bytes} {order : List (Nat × Bytes)}
    (ho : c.writeOrder.entries = (seq, key) :: order) :
    { c with entries := c.entries.erase key, writeOrder := c.writeOrder.erase seq } = c.remove key ∧
      (c.remove key).writeOrder.entries = order ∧
      ∃ v, c.recency = (key, v) :: (c.remove key).recency := by
  have hseq : c.writeOrder.get? seq = some key :=
    SortedMap.mem_entries.mp (ho ▸ List.mem_cons_self)
  obtain ⟨w, hw, rfl⟩ := h.held hseq
  have hremove : c.remove key = { c with
      entries := c.entries.erase key, writeOrder := c.writeOrder.erase w.seq } := by
    rw [Contents.remove, hw]
  have horder : (c.remove key).writeOrder.entries = order := by
    rw [hremove]
    change Assoc.erase w.seq c.writeOrder.entries = order
    rw [ho, Assoc.erase, if_pos rfl]
  refine ⟨hremove.symm, horder, w.value, ?_⟩
  have hrest := h.filterMap_orderWithout key fun k _ => (rfl : c.entryOf k = _)
  have hwithout : c.orderWithout key = (c.remove key).writeOrder := by rw [remove_eq]
  rw [hwithout, horder] at hrest
  rw [h.recency_remove, ← hrest, recency, ho, List.filterMap_cons_some]
  rw [entryOf, hw]
  rfl

theorem WellFormed.shrinkAlong (h : c.WellFormed) (capacity : Nat) {order : List (Nat × Bytes)}
    (ho : c.writeOrder.entries = order) :
    (shrinkAlong capacity order c).WellFormed ∧
      (shrinkAlong capacity order c).recency = c.recency.rtake capacity := by
  induction order generalizing c with
  | nil =>
    have hnone : c.recency = [] := by rw [recency, ho, List.filterMap_nil]
    rw [Contents.shrinkAlong, hnone, List.rtake_nil]
    exact ⟨h, rfl⟩
  | cons p order ih =>
    obtain ⟨seq, key⟩ := p
    rw [Contents.shrinkAlong]
    split_ifs with hle
    · exact ⟨h, (List.rtake_of_length_le (h.length_recency.trans_le hle)).symm⟩
    · obtain ⟨hremove, hrest, v, hrecency⟩ := h.oldest ho
      have hlength : capacity ≤ (c.remove key).recency.length := by
        have := h.length_recency
        rw [hrecency, List.length_cons] at this
        omega
      rw [hremove, hrecency, List.rtake_cons_of_le hlength]
      exact ih (h.remove key) hrest

theorem WellFormed.shrinkTo (h : c.WellFormed) (capacity : Nat) :
    (c.shrinkTo capacity).WellFormed ∧
      (c.shrinkTo capacity).recency = c.recency.rtake capacity :=
  h.shrinkAlong capacity rfl

end MemoryStore.Contents

namespace MemoryStore

structure InOrder (m : MemoryStore) : Prop where
  wellFormed : m.contents.WellFormed
  size_le : ∀ b, m.bound = some b → m.contents.size ≤ b.capacity

variable {m : MemoryStore} {c : Contents}

theorem inOrder_bounded (bound : Bound) : (bounded bound).InOrder :=
  ⟨Contents.wellFormed_empty, fun _ _ => Nat.zero_le _⟩

theorem inOrder_shrink (m : MemoryStore) (h : c.WellFormed) : (m.shrink c).InOrder := by
  rcases hb : m.bound with _ | bound
  · refine ⟨by simpa only [shrink, hb] using h, fun b h => ?_⟩
    rw [shrink, hb] at h
    cases h
  · obtain ⟨hw, hrecency⟩ := h.shrinkTo bound.capacity
    refine ⟨by simpa only [shrink, hb] using hw, fun b h => ?_⟩
    obtain rfl : bound = b := Option.some.inj (hb.symm.trans h)
    have hlength := hw.length_recency
    rw [hrecency, List.length_rtake] at hlength
    simp only [shrink, hb]
    omega

def after (m : MemoryStore) : Shelf.Request → MemoryStore
  | .openStore => m.opened
  | .closeStore => m.closed
  | .put key value => (m.put key value).2
  | .delete key => (m.delete key).2
  | .batch b => (m.writeBatch b).2
  | .isOpen | .get _ | .page _ _ _ => m

def receive (m : MemoryStore) (projected : Nat) (c : Contents) : Except StoreError Unit × MemoryStore :=
  if m.isOpen then
    match m.accept projected with
    | .ok () => (.ok (), m.shrink c)
    | .error e => (.error e, m)
  else (.error .closed, m)

theorem put_eq (m : MemoryStore) (key value : Bytes) :
    m.put key value = m.receive (m.contents.size + if m.contents.entries.contains key then 0 else 1)
      (m.contents.insert key value) := rfl

theorem writeBatch_eq (m : MemoryStore) (b : Batch) :
    m.writeBatch b = m.receive (m.contents.projectedSize b) (m.contents.writeAll b) := rfl

theorem receive_cases (m : MemoryStore) (projected : Nat) (c : Contents) :
    m.receive projected c = (.ok (), m.shrink c) ∨ ∃ e, m.receive projected c = (.error e, m) := by
  unfold receive
  split_ifs
  · split
    · exact Or.inl rfl
    · exact Or.inr ⟨_, rfl⟩
  · exact Or.inr ⟨_, rfl⟩

theorem bound_receive (m : MemoryStore) (projected : Nat) (c : Contents) :
    (m.receive projected c).2.bound = m.bound := by
  rcases m.receive_cases projected c with h | ⟨e, h⟩
  · rw [h, shrink]
  · rw [h]

theorem InOrder.receive (h : m.InOrder) (projected : Nat) (hc : c.WellFormed) :
    (m.receive projected c).2.InOrder := by
  rcases m.receive_cases projected c with hx | ⟨e, hx⟩
  · rw [hx]
    exact m.inOrder_shrink hc
  · rwa [hx]

theorem InOrder.remove (h : m.InOrder) (key : Bytes) :
    ({ m with contents := m.contents.remove key } : MemoryStore).InOrder where
  wellFormed := h.wellFormed.remove key
  size_le b hb := by
    have hlength := (h.wellFormed.remove key).length_recency
    have hle := List.length_filter_le (fun p : Entry => decide (p.1 ≠ key)) m.contents.recency
    rw [h.wellFormed.recency_remove, Recency.without] at hlength
    have := h.size_le b hb
    rw [h.wellFormed.length_recency] at hle
    exact hlength ▸ hle.trans this

theorem InOrder.after (h : m.InOrder) (q : Shelf.Request) : (m.after q).InOrder := by
  cases q with
  | openStore => exact ⟨h.wellFormed, h.size_le⟩
  | closeStore => exact ⟨h.wellFormed, h.size_le⟩
  | put key value => exact h.receive _ (h.wellFormed.insert key value)
  | delete key =>
    rw [MemoryStore.after, delete]
    split_ifs
    · exact h.remove key
    · exact h
  | batch b => exact h.receive _ (h.wellFormed.writeAll b).1
  | isOpen | get _ | page _ _ _ => exact h

theorem bound_after (m : MemoryStore) (q : Shelf.Request) : (m.after q).bound = m.bound := by
  cases q with
  | put key value => exact m.bound_receive _ _
  | delete key =>
    rw [after, delete]
    split_ifs <;> rfl
  | batch b => exact m.bound_receive _ _
  | openStore | closeStore | isOpen | get _ | page _ _ _ => rfl

def afterAll (m : MemoryStore) (qs : List Shelf.Request) : MemoryStore := qs.foldl after m

theorem InOrder.afterAll (h : m.InOrder) (qs : List Shelf.Request) :
    (m.afterAll qs).InOrder ∧ (m.afterAll qs).bound = m.bound := by
  induction qs generalizing m with
  | nil => exact ⟨h, rfl⟩
  | cons q qs ih =>
    obtain ⟨ho, hb⟩ := ih (h.after q)
    exact ⟨ho, hb.trans (m.bound_after q)⟩

end MemoryStore

namespace Shelf

def serveAll (s : Shelf) (qs : List Request) : Shelf := qs.foldl (fun s q => (s.serve q).2) s

structure IsMemory (s : Shelf) (m : MemoryStore) : Prop where
  backend : s.backend = .memory m
  faultless : s.Faultless

variable {s : Shelf} {m : MemoryStore}

theorem IsMemory.change (h : s.IsMemory m) (p : Primitive)
    (onMemory : MemoryStore → Except StoreError Unit × MemoryStore)
    (onDurable : DurableStore → Disk → Except StoreError Unit × DurableStore × Disk) :
    (s.call p (change onMemory onDurable)).1 = (onMemory m).1 ∧
      (s.call p (change onMemory onDurable)).2.IsMemory (onMemory m).2 := by
  rw [call_of_faultless h.faultless]
  simp only [Shelf.change, counted, h.backend, true_and]
  exact ⟨rfl, h.faultless⟩

theorem IsMemory.look {α : Type} (h : s.IsMemory m) (p : Primitive)
    (onMemory : MemoryStore → Except StoreError α)
    (onDurable : DurableStore → Disk → Except StoreError α) :
    (s.call p (look onMemory onDurable)).1 = onMemory m ∧
      (s.call p (look onMemory onDurable)).2.IsMemory m := by
  rw [call_of_faultless h.faultless]
  simp only [Shelf.look, counted, h.backend, true_and]
  exact ⟨rfl, h.faultless⟩

theorem IsMemory.serve (h : s.IsMemory m) (q : Request) : (s.serve q).2.IsMemory (m.after q) := by
  cases q with
  | openStore => exact (h.change .opening _ _).2
  | closeStore => exact (h.change .closing _ _).2
  | isOpen => exact h
  | get key => exact (h.look .get _ _).2
  | put key value => exact (h.change .put _ _).2
  | delete key => exact (h.change .delete _ _).2
  | batch b => exact (h.change .batch _ _).2
  | page start after limit => exact (h.look .scan _ _).2

theorem IsMemory.serveAll (h : s.IsMemory m) (qs : List Request) :
    (s.serveAll qs).IsMemory (m.afterAll qs) := by
  induction qs generalizing s m with
  | nil => exact h
  | cons q qs ih => exact ih (h.serve q)

end Shelf

end Staging
