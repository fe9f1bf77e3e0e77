import Mathlib
import Staging.Proofs.Store.Eviction

namespace Staging

def WriteOp.value? : WriteOp → Option Bytes
  | put _ value => some value
  | delete _ => none

def Batch.shown (b : Batch) (key : Bytes) (old : Option Bytes) : Option Bytes :=
  (b.last? key).elim old WriteOp.value?

theorem Table.get?_write (t : Table) (op : WriteOp) (key : Bytes) :
    (t.write op).get? key = if op.key = key then op.value? else t.get? key := by
  cases op with
  | put k value => simp only [write, SortedMap.get?_insert, WriteOp.key, WriteOp.value?, eq_comm]
  | delete k => simp only [write, SortedMap.get?_erase, WriteOp.key, WriteOp.value?, eq_comm]

theorem Table.get?_writeAll (t : Table) (b : Batch) (key : Bytes) :
    (t.writeAll b).get? key = b.shown key (t.get? key) := by
  induction b using List.reverseRecOn with
  | nil => rfl
  | append_singleton b op ih =>
    have hstep : t.writeAll (b ++ [op]) = (t.writeAll b).write op := List.foldl_concat ..
    rw [hstep, get?_write, ih, Batch.shown, Batch.shown, Batch.last?_concat]
    split_ifs <;> rfl

namespace MemoryStore

theorem Contents.size_toTable (c : Contents) : c.toTable.size = c.size :=
  List.length_map ..

variable {m : MemoryStore} {bound : Bound}

theorem put_eq_writeBatch (m : MemoryStore) (key value : Bytes) :
    m.put key value = m.writeBatch [.put key value] := by
  rw [put_eq, writeBatch_eq, Contents.projectedSize_eq]
  exact congrArg (m.receive · _) (m.contents.size_insert key value).symm

theorem accept_of_reject (hb : m.bound = some bound) (he : bound.eviction = .reject) (n : Nat) :
    m.accept n = if bound.capacity < n then .error (.capacityExceeded bound.capacity) else .ok () := by
  obtain ⟨capacity, hpos, eviction⟩ := bound
  obtain rfl : eviction = .reject := he
  simp only [accept, hb]

theorem writeBatch_of_fits (hb : m.bound = some bound) (he : bound.eviction = .reject)
    (ho : m.isOpen = true) {b : Batch} (hfits : (m.contents.writeAll b).size ≤ bound.capacity) :
    m.writeBatch b = (.ok (), { m with contents := m.contents.writeAll b }) := by
  have haccept : m.accept (m.contents.projectedSize b) = .ok () := by
    rw [accept_of_reject hb he, Contents.projectedSize_eq, if_neg (Nat.not_lt.mpr hfits)]
  simp only [writeBatch, if_pos ho, haccept, shrink, hb, Contents.shrinkTo_of_le hfits]

theorem writeBatch_of_full (hb : m.bound = some bound) (he : bound.eviction = .reject)
    (ho : m.isOpen = true) {b : Batch} (hfull : bound.capacity < (m.contents.writeAll b).size) :
    m.writeBatch b = (.error (.capacityExceeded bound.capacity), m) := by
  have haccept : m.accept (m.contents.projectedSize b) =
      .error (.capacityExceeded bound.capacity) := by
    rw [accept_of_reject hb he, Contents.projectedSize_eq, if_pos hfull]
  simp only [writeBatch, if_pos ho, haccept]

theorem writeBatch_of_closed (ho : m.isOpen = false) (b : Batch) :
    m.writeBatch b = (.error .closed, m) :=
  m.receive_of_closed ho _ _

structure AdmitsByOutcome (m : MemoryStore) (capacity : Nat) (b : Batch) : Prop where
  admitted : (m.writeBatch b).1 = .ok () ↔
    m.isOpen = true ∧ (m.contents.toTable.writeAll b).size ≤ capacity
  shown : (m.writeBatch b).1 = .ok () → ∀ key,
    (m.writeBatch b).2.get key = .ok (b.shown key (m.contents.toTable.get? key))
  kept : (m.writeBatch b).1 = .ok () → (m.writeBatch b).2.contents.size = m.contents.projectedSize b
  refused : (m.writeBatch b).1 ≠ .ok () → m.writeBatch b =
    (.error (if m.isOpen = true then .capacityExceeded capacity else .closed), m)
  projected : m.contents.projectedSize b = (m.contents.writeAll b).size
  counted : ∀ l : List (Bytes × Bool), l.Perm (Contents.lastWrites b).entries →
    l.foldlM (Contents.countStep? m.contents.entries.contains) m.contents.size =
      some (m.contents.projectedSize b)

theorem writeBatch_admitsByOutcome (hb : m.bound = some bound) (he : bound.eviction = .reject) :
    (∀ b, m.AdmitsByOutcome bound.capacity b) ∧
      ∀ key value, m.put key value = m.writeBatch [.put key value] := by
  refine ⟨fun b => ?_, m.put_eq_writeBatch⟩
  have hsize : (m.contents.toTable.writeAll b).size = (m.contents.writeAll b).size := by
    rw [← Contents.toTable_writeAll, Contents.size_toTable]
  have hprojected := m.contents.projectedSize_eq b
  have hcounted (l : List (Bytes × Bool)) (hl : l.Perm (Contents.lastWrites b).entries) :
      l.foldlM (Contents.countStep? m.contents.entries.contains) m.contents.size =
        some (m.contents.projectedSize b) := by
    rw [hprojected, m.contents.foldlM_countStep? b hl]
  cases ho : m.isOpen with
  | false =>
    have hclosed := m.writeBatch_of_closed ho b
    refine ⟨?_, ?_, ?_, ?_, hprojected, hcounted⟩ <;> simp [hclosed, ho]
  | true =>
    by_cases hfits : (m.contents.writeAll b).size ≤ bound.capacity
    · have hdone := writeBatch_of_fits hb he ho hfits
      refine ⟨by simp [hdone, ho, hsize, hfits], fun _ key => ?_, fun _ => ?_, fun h => ?_,
        hprojected, hcounted⟩
      · rw [hdone, get, if_pos ho, ← Contents.get?_toTable, Contents.toTable_writeAll,
          Table.get?_writeAll]
      · rw [hdone, hprojected]
      · exact absurd (congrArg Prod.fst hdone) h
    · have hfull := writeBatch_of_full hb he ho (Nat.lt_of_not_le hfits)
      refine ⟨?_, ?_, ?_, ?_, hprojected, hcounted⟩ <;> simp [hfull, ho, hsize, hfits]

theorem writeBatch_admitsByOutcome_passing :
    let m := (bounded ⟨1, Nat.one_pos, .reject⟩).afterAll [.openStore, .put [1] [1]]
    let b : Batch := [.put [2] [2], .put [3] [3], .delete [2], .delete [1]]
    m.bound = some ⟨1, Nat.one_pos, .reject⟩ ∧ (m.writeBatch b).1 = .ok () ∧
      (m.writeBatch b).2.get [3] = .ok (some [3]) ∧ (m.writeBatch b).2.get [1] = .ok none ∧
      m.put [2] [2] = (.error (.capacityExceeded 1), m) := by
  intro m b
  have hb : m.bound = some ⟨1, Nat.one_pos, .reject⟩ := by decide +kernel
  obtain ⟨hadmits, hput⟩ := writeBatch_admitsByOutcome hb rfl
  have hok : (m.writeBatch b).1 = .ok () := (hadmits b).admitted.mpr (by decide +kernel)
  refine ⟨hb, hok, (hadmits b).shown hok [3], (hadmits b).shown hok [1], ?_⟩
  have hrefused : (m.writeBatch [.put [2] [2]]).1 ≠ .ok () := by
    rw [Ne, (hadmits _).admitted]
    decide +kernel
  exact (hput [2] [2]).trans ((hadmits _).refused hrefused)

end MemoryStore

end Staging
