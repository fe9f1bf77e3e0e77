import Mathlib
import Staging.Proofs.Store.Eviction

namespace Staging

namespace MemoryStore

namespace Contents

structure Inverse (c : Contents) : Prop where
  listed_iff : ∀ seq key,
    c.writeOrder.get? seq = some key ↔ ∃ w, c.entries.get? key = some w ∧ w.seq = seq
  distinct : ∀ j k v w, c.entries.get? j = some v → c.entries.get? k = some w → v.seq = w.seq → j = k
  below : ∀ key w, c.entries.get? key = some w → w.seq < c.nextSeq

def dropOldest? (c : Contents) : Option Contents :=
  match c.writeOrder.entries with
  | [] => none
  | (seq, key) :: _ =>
    some { c with entries := c.entries.erase key, writeOrder := c.writeOrder.erase seq }

inductive Drops (capacity : Nat) : Nat → Contents → Contents → Prop
  | here (c : Contents) : Drops capacity 0 c c
  | turn {n : Nat} {c d e : Contents} (hover : capacity < c.size) (hd : c.dropOldest? = some d)
      (h : Drops capacity n d e) : Drops capacity (n + 1) c e

variable {c d e : Contents} {capacity n : Nat}

theorem WellFormed.inverse (h : c.WellFormed) : c.Inverse where
  listed_iff seq key := by
    constructor
    · exact h.held
    · rintro ⟨w, hw, rfl⟩
      exact h.listed hw
  distinct j k v w hj hk hseq := by
    have hlisted := h.listed hj
    rw [hseq, h.listed hk] at hlisted
    exact (Option.some.inj hlisted).symm
  below key w hw := h.below (h.listed hw)

theorem WellFormed.dropOldest? (h : c.WellFormed) (hpos : 0 < c.size) :
    ∃ d, c.dropOldest? = some d ∧ d.WellFormed ∧ d.size + 1 = c.size := by
  rw [Contents.dropOldest?]
  cases ho : c.writeOrder.entries with
  | nil =>
    have hnone : c.recency = [] := by rw [recency, ho, List.filterMap_nil]
    have hlength := h.length_recency
    rw [hnone, List.length_nil] at hlength
    omega
  | cons p order =>
    obtain ⟨seq, key⟩ := p
    obtain ⟨hremove, -, v, hrecency⟩ := h.oldest ho
    refine ⟨c.remove key, congrArg some hremove, h.remove key, ?_⟩
    rw [← h.length_recency, hrecency, List.length_cons, (h.remove key).length_recency]

theorem shrinkTo_of_lt (c : Contents) (hover : capacity < c.size) :
    c.shrinkTo capacity = (c.dropOldest?.map (shrinkTo capacity)).getD c := by
  rw [shrinkTo, dropOldest?]
  cases ho : c.writeOrder.entries with
  | nil => rfl
  | cons p order =>
    obtain ⟨seq, key⟩ := p
    have hrest : (c.writeOrder.erase seq).entries = order := by
      change Assoc.erase seq c.writeOrder.entries = order
      rw [ho, Assoc.erase, if_pos rfl]
    rw [shrinkAlong, if_neg (Nat.not_le.mpr hover), Option.map_some, Option.getD_some, shrinkTo, hrest]

theorem WellFormed.drops (h : c.WellFormed) (hd : Drops capacity n c d) : d.WellFormed := by
  induction hd with
  | here => exact h
  | turn hover hd _ ih =>
    obtain ⟨e, he, hwell, -⟩ := h.dropOldest? (Nat.zero_lt_of_lt hover)
    obtain rfl : e = _ := Option.some.inj (he.symm.trans hd)
    exact ih hwell

theorem WellFormed.drops_shrinkTo (h : c.WellFormed) (capacity : Nat) :
    Drops capacity (c.size - capacity) c (c.shrinkTo capacity) := by
  -- on the entries that are too many, of which each turn takes one
  generalize hn : c.size - capacity = n
  induction n generalizing c with
  | zero =>
    rw [shrinkTo_of_le (by omega)]
    exact .here c
  | succ n ih =>
    obtain ⟨d, hd, hwell, hsize⟩ := h.dropOldest? (by omega)
    have hover : capacity < c.size := by omega
    rw [c.shrinkTo_of_lt hover, hd]
    exact .turn hover hd (ih hwell (by omega))

theorem nextSeq_write_le (c : Contents) (op : WriteOp) : (c.write op).nextSeq ≤ c.nextSeq + 1 := by
  cases op with
  | put key value => exact Nat.le_refl _
  | delete key =>
    rw [write, remove_eq]
    exact Nat.le_succ _

theorem nextSeq_writeAll_le (c : Contents) (b : Batch) :
    (c.writeAll b).nextSeq ≤ c.nextSeq + b.length := by
  induction b generalizing c with
  | nil => exact Nat.le_refl _
  | cons op b ih =>
    have hfirst := c.nextSeq_write_le op
    have hrest : (c.writeAll (op :: b)).nextSeq ≤ (c.write op).nextSeq + b.length := ih (c.write op)
    rw [List.length_cons]
    omega

theorem nextSeq_shrinkAlong (capacity : Nat) (order : List (Nat × Bytes)) (c : Contents) :
    (shrinkAlong capacity order c).nextSeq = c.nextSeq := by
  induction order generalizing c with
  | nil => rfl
  | cons p order ih =>
    rw [shrinkAlong]
    split_ifs
    · rfl
    · exact ih _

end Contents

def ofBound : Option Bound → MemoryStore
  | none => new
  | some bound => bounded bound

variable {m : MemoryStore} {c : Contents}

theorem inOrder_ofBound (bound : Option Bound) : (ofBound bound).InOrder := by
  cases bound with
  | none => exact ⟨Contents.wellFormed_empty, fun _ h => by cases h⟩
  | some bound => exact inOrder_bounded bound

theorem bound_ofBound (bound : Option Bound) : (ofBound bound).bound = bound := by
  cases bound <;> rfl

theorem nextSeq_receive_le {n : Nat} (hm : m.contents.nextSeq ≤ n) (hc : c.nextSeq ≤ n)
    (projected : Nat) : (m.receive projected c).2.contents.nextSeq ≤ n := by
  rcases m.receive_cases projected c with h | ⟨e, h⟩
  · rw [h, shrink]
    cases m.bound with
    | none => exact hc
    | some bound => exact (c.nextSeq_shrinkAlong bound.capacity _).trans_le hc
  · rwa [h]

def written (qs : List Shelf.Request) : Batch := qs.flatMap fun q => q.batch?.getD []

theorem nextSeq_after_le (m : MemoryStore) (q : Shelf.Request) :
    (m.after q).contents.nextSeq ≤ m.contents.nextSeq + (q.batch?.getD []).length := by
  cases q with
  | put key value => exact nextSeq_receive_le (Nat.le_succ _) (Nat.le_refl _) _
  | delete key =>
    rw [after, delete]
    split_ifs
    · exact m.contents.nextSeq_write_le (.delete key)
    · exact Nat.le_succ _
  | batch b =>
    exact nextSeq_receive_le (Nat.le_add_right _ _) (m.contents.nextSeq_writeAll_le b) _
  | openStore | closeStore | isOpen | get _ | page _ _ _ => exact Nat.le_refl _

theorem nextSeq_afterAll_le (m : MemoryStore) (qs : List Shelf.Request) :
    (m.afterAll qs).contents.nextSeq ≤ m.contents.nextSeq + (written qs).length := by
  induction qs generalizing m with
  | nil => exact Nat.le_refl _
  | cons q qs ih =>
    have hfirst := m.nextSeq_after_le q
    have hrest : (m.afterAll (q :: qs)).contents.nextSeq ≤
      (m.after q).contents.nextSeq + (written qs).length := ih (m.after q)
    rw [written, List.flatMap_cons, List.length_append, ← written]
    omega

structure DropsInTurn (m : MemoryStore) (capacity : Nat) (b : Batch) (m' : MemoryStore) : Prop where
  finds : ∀ n d, Contents.Drops capacity n (m.contents.writeAll b) d → capacity < d.size →
    ∃ e, d.dropOldest? = some e ∧ e.size + 1 = d.size
  reaches : m' = m ∨ Contents.Drops capacity ((m.contents.writeAll b).size - capacity)
    (m.contents.writeAll b) m'.contents
  fits : m'.contents.size ≤ capacity

theorem reaches_receive {bound : Bound} (hb : m.bound = some bound) (hc : c.WellFormed)
    (projected : Nat) : (m.receive projected c).2 = m ∨
      Contents.Drops bound.capacity (c.size - bound.capacity) c (m.receive projected c).2.contents := by
  rcases m.receive_cases projected c with h | ⟨e, h⟩
  · rw [h]
    simp only [shrink, hb]
    exact Or.inr (hc.drops_shrinkTo bound.capacity)
  · rw [h]
    exact Or.inl rfl

theorem InOrder.dropsInTurn (h : m.InOrder) {bound : Bound} (hb : m.bound = some bound)
    {q : Shelf.Request} {b : Batch} (hq : q.batch? = some b) :
    m.DropsInTurn bound.capacity b (m.after q) where
  finds n d hd hover := by
    have hwell := (h.wellFormed.writeAll b).1.drops hd
    obtain ⟨e, he, -, hsize⟩ := hwell.dropOldest? (Nat.zero_lt_of_lt hover)
    exact ⟨e, he, hsize⟩
  reaches := by
    cases q with
    | put key value =>
      cases hq
      exact reaches_receive hb (h.wellFormed.insert key value) _
    | delete key =>
      cases hq
      have hfits := (h.remove key).size_le bound hb
      rw [MemoryStore.after, delete]
      split_ifs
      · have hnone : (m.contents.writeAll [.delete key]).size - bound.capacity = 0 :=
          Nat.sub_eq_zero_of_le hfits
        rw [hnone]
        exact Or.inr (.here _)
      · exact Or.inl rfl
    | batch b =>
      cases hq
      exact reaches_receive hb (h.wellFormed.writeAll _).1 _
    | openStore | closeStore | isOpen | get _ | page _ _ _ => cases hq
  fits := (h.after q).size_le bound ((m.bound_after q).trans hb)

theorem afterAll_inverse (bound : Option Bound) (qs : List Shelf.Request) :
    let m := (ofBound bound).afterAll qs
    m.contents.Inverse ∧ m.contents.nextSeq ≤ (written qs).length ∧
      ∀ x, bound = some x → m.contents.size ≤ x.capacity ∧
        ∀ q b, q.batch? = some b → m.DropsInTurn x.capacity b (m.after q) := by
  intro m
  obtain ⟨ho, hbound⟩ := (inOrder_ofBound bound).afterAll qs
  have hstart : (ofBound bound).contents.nextSeq = 0 := by cases bound <;> rfl
  have hseq := (ofBound bound).nextSeq_afterAll_le qs
  rw [hstart, Nat.zero_add] at hseq
  refine ⟨ho.wellFormed.inverse, hseq, fun x hx => ?_⟩
  have hb : m.bound = some x := hbound.trans ((bound_ofBound bound).trans hx)
  exact ⟨ho.size_le x hb, fun q b hq => ho.dropsInTurn hb hq⟩

theorem afterAll_inverse_crowded :
    let bound : Bound := ⟨1, Nat.one_pos, .oldest⟩
    let m := (ofBound (some bound)).afterAll [.openStore, .put [1] [1], .put [2] [2], .put [2] [3]]
    let b : Batch := [.put [3] [4], .put [4] [5]]
    m.contents.Inverse ∧ m.contents.nextSeq ≤ 3 ∧ m.contents.size ≤ 1 ∧
      Contents.Drops 1 2 (m.contents.writeAll b) (m.after (.batch b)).contents ∧
      (m.after (.batch b)).contents.size ≤ 1 := by
  intro bound m b
  obtain ⟨hinverse, hseq, hbound⟩ := afterAll_inverse (some bound)
    [.openStore, .put [1] [1], .put [2] [2], .put [2] [3]]
  obtain ⟨hsize, hdrops⟩ := hbound bound rfl
  have hbatch := hdrops (.batch b) b rfl
  have hchanged : m.after (.batch b) ≠ m := by decide +kernel
  have hmany : (m.contents.writeAll b).size - bound.capacity = 2 := by decide +kernel
  exact ⟨hinverse, hseq, hsize, hmany ▸ hbatch.reaches.resolve_left hchanged, hbatch.fits⟩

end MemoryStore

end Staging
