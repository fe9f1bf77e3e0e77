import Mathlib
import Staging.Store.Memory
import Staging.Proofs.SortedMap

namespace Staging

theorem Assoc.length_erase {κ α : Type} [DecidableEq κ] {k : κ} {l : List (κ × α)}
    (h : (get? k l).isSome = true) : (erase k l).length + 1 = l.length := by
  induction l with
  | nil => simp [get?] at h
  | cons p r ih =>
    obtain ⟨j, b⟩ := p
    by_cases hj : j = k
    · simp [erase, hj]
    · rw [get?, if_neg hj] at h
      rw [erase, if_neg hj, List.length_cons, List.length_cons, ih h]

namespace SortedMap

variable {κ α β : Type} [LT κ] [LE κ] [DecidableLT κ] [DecidableEq κ] [Std.IsLinearOrder κ]
  [Std.LawfulOrderLT κ]

omit [LE κ] [DecidableLT κ] [Std.IsLinearOrder κ] [Std.LawfulOrderLT κ] in
theorem contains_mapValues (m : SortedMap κ α) (f : α → β) (k : κ) :
    (m.mapValues f).contains k = m.contains k := by
  rw [contains, get?_mapValues, Option.isSome_map, contains]

omit [DecidableLT κ] in
theorem ext_contains {m n : SortedMap κ Unit} (h : ∀ k, m.contains k = n.contains k) : m = n := by
  apply ext_get?
  intro k
  have hk := h k
  rw [contains, contains] at hk
  cases hm : m.get? k <;> cases hn : n.get? k <;> simp_all

omit [DecidableLT κ] in
theorem size_congr {m : SortedMap κ α} {n : SortedMap κ β}
    (h : ∀ k, m.contains k = n.contains k) : m.size = n.size := by
  have hkeys : m.mapValues (fun _ => ()) = n.mapValues (fun _ => ()) := by
    apply ext_contains
    intro k
    rw [contains_mapValues, contains_mapValues, h]
  have hlen := congrArg size hkeys
  simpa [size, mapValues] using hlen

theorem contains_insert (m : SortedMap κ α) (j k : κ) (a : α) :
    (m.insert k a).contains j = if j = k then true else m.contains j := by
  rw [contains, get?_insert]
  split_ifs <;> rfl

omit [DecidableLT κ] [Std.IsLinearOrder κ] in
theorem contains_erase (m : SortedMap κ α) (j k : κ) :
    (m.erase k).contains j = if j = k then false else m.contains j := by
  rw [contains, get?_erase]
  split_ifs <;> rfl

omit [DecidableLT κ] in
theorem size_erase (m : SortedMap κ α) (k : κ) :
    (m.erase k).size = if m.contains k then m.size - 1 else m.size := by
  by_cases h : m.contains k = true
  · have := Assoc.length_erase h
    rw [if_pos h, size, size]
    change (Assoc.erase k m.entries).length = _
    omega
  · rw [if_neg h]
    apply size_congr
    intro j
    rw [contains_erase]
    split_ifs with hj
    · rw [hj, Bool.eq_false_iff.mpr h]
    · rfl

theorem size_insert (m : SortedMap κ α) (k : κ) (a : α) :
    (m.insert k a).size = if m.contains k then m.size else m.size + 1 := by
  by_cases h : m.contains k = true
  · rw [if_pos h]
    apply size_congr
    intro j
    rw [contains_insert]
    split_ifs with hj
    · rw [hj, h]
    · rfl
  · -- taken out again, the new entry leaves what was there
    have hthere : (m.insert k a).contains k = true := by simp [contains]
    have hback : ((m.insert k a).erase k).size = m.size := by
      apply size_congr
      intro j
      rw [contains_erase, contains_insert]
      split_ifs with hj
      · rw [hj, Bool.eq_false_iff.mpr h]
      · rfl
    have herase := Assoc.length_erase hthere
    change ((m.insert k a).erase k).size + 1 = (m.insert k a).size at herase
    rw [if_neg h, ← herase, hback]

end SortedMap

namespace MemoryStore.Contents

def toTable (c : Contents) : Table :=
  ⟨c.table, List.pairwise_map.mpr c.entries.ascending⟩

theorem get?_toTable (c : Contents) (key : Bytes) :
    c.toTable.get? key = (c.entries.get? key).map (·.value) := by
  apply Option.ext
  intro v
  rw [← SortedMap.mem_entries, Option.map_eq_some_iff]
  simp only [toTable, table, List.mem_map, Prod.exists, Prod.mk.injEq]
  constructor
  · rintro ⟨k, w, hw, rfl, rfl⟩
    exact ⟨w, SortedMap.mem_entries.mp hw, rfl⟩
  · rintro ⟨w, hw, rfl⟩
    exact ⟨key, w, SortedMap.mem_entries.mpr hw, rfl, rfl⟩

theorem toTable_insert (c : Contents) (key value : Bytes) :
    (c.insert key value).toTable = c.toTable.insert key value := by
  apply SortedMap.ext_get?
  intro k
  rw [SortedMap.get?_insert, get?_toTable, get?_toTable, insert, SortedMap.get?_insert]
  by_cases hk : k = key <;> simp [hk]

theorem toTable_remove (c : Contents) (key : Bytes) :
    (c.remove key).toTable = c.toTable.erase key := by
  apply SortedMap.ext_get?
  intro k
  rw [SortedMap.get?_erase, get?_toTable, get?_toTable, remove]
  cases hkey : c.entries.get? key with
  | none =>
    by_cases hk : k = key
    · simp [hk, hkey]
    · simp [hk]
  | some old =>
    rw [SortedMap.get?_erase]
    by_cases hk : k = key <;> simp [hk]

theorem toTable_write (c : Contents) (op : WriteOp) :
    (c.write op).toTable = c.toTable.write op := by
  cases op with
  | put key value => exact c.toTable_insert key value
  | delete key => exact c.toTable_remove key

theorem toTable_writeAll (c : Contents) (b : Batch) :
    (c.writeAll b).toTable = c.toTable.writeAll b := by
  induction b generalizing c with
  | nil => rfl
  | cons op b ih =>
    change ((c.write op).writeAll b).toTable = (c.toTable.write op).writeAll b
    rw [ih, toTable_write]

def isPut : WriteOp → Bool
  | .put _ _ => true
  | .delete _ => false

theorem contains_write (c : Contents) (op : WriteOp) (k : Bytes) :
    (c.write op).entries.contains k = if k = op.key then isPut op else c.entries.contains k := by
  cases op with
  | put key value => exact SortedMap.contains_insert ..
  | delete key =>
    rw [write, remove]
    split
    · exact SortedMap.contains_erase ..
    · rename_i hnone
      split_ifs with hk
      · rw [hk, SortedMap.contains]
        simp [WriteOp.key, hnone, isPut]
      · rfl

theorem lastWrites_concat (b : Batch) (op : WriteOp) :
    lastWrites (b ++ [op]) = (lastWrites b).insert op.key (isPut op) := by
  rw [lastWrites, List.foldl_append]
  cases op <;> rfl

theorem contains_writeAll (c : Contents) (b : Batch) (k : Bytes) :
    (c.writeAll b).entries.contains k = ((lastWrites b).get? k).getD (c.entries.contains k) := by
  induction b using List.reverseRecOn with
  | nil => rfl
  | append_singleton b op ih =>
    have hstep : c.writeAll (b ++ [op]) = (c.writeAll b).write op := by
      simp [writeAll]
    rw [hstep, contains_write, lastWrites_concat, SortedMap.get?_insert, ih]
    split_ifs <;> rfl

def settle (m : SortedMap Bytes Unit) (p : Bytes × Bool) : SortedMap Bytes Unit :=
  if p.2 then m.insert p.1 () else m.erase p.1

theorem contains_settle (m : SortedMap Bytes Unit) (p : Bytes × Bool) (k : Bytes) :
    (settle m p).contains k = if k = p.1 then p.2 else m.contains k := by
  obtain ⟨key, there⟩ := p
  cases there with
  | true => exact SortedMap.contains_insert ..
  | false => exact SortedMap.contains_erase ..

def settledSize (there : Bytes → Bool) (n : Nat) (p : Bytes × Bool) : Nat :=
  match there p.1, p.2 with
  | false, true => n + 1
  | true, false => n - 1
  | _, _ => n

theorem size_settle (m : SortedMap Bytes Unit) (p : Bytes × Bool) :
    (settle m p).size = settledSize m.contains m.size p := by
  obtain ⟨key, there⟩ := p
  cases there with
  | true =>
    refine (m.size_insert key ()).trans ?_
    cases h : m.contains key <;> simp [settledSize, h]
  | false =>
    refine (m.size_erase key).trans ?_
    cases h : m.contains key <;> simp [settledSize, h]

def countStep? (there : Bytes → Bool) (n : Nat) (p : Bytes × Bool) : Option Nat :=
  if there p.1 = true ∧ p.2 = false ∧ n = 0 then none else some (settledSize there n p)

theorem countStep?_settle (m : SortedMap Bytes Unit) (p : Bytes × Bool) :
    countStep? m.contains m.size p = some (settle m p).size := by
  have hleft : ¬ (m.contains p.1 = true ∧ p.2 = false ∧ m.size = 0) := by
    rintro ⟨hthere, -, hzero⟩
    have hlength := Assoc.length_erase hthere
    rw [SortedMap.size] at hzero
    omega
  rw [countStep?, if_neg hleft, size_settle]

theorem foldlM_countStep?_settle (there : Bytes → Bool) {l : List (Bytes × Bool)}
    (hl : l.Pairwise fun p q => p.1 ≠ q.1) {m : SortedMap Bytes Unit}
    (hm : ∀ p ∈ l, m.contains p.1 = there p.1) :
    l.foldlM (countStep? there) m.size = some (l.foldl settle m).size := by
  induction l generalizing m with
  | nil => rfl
  | cons p l ih =>
    obtain ⟨hp, hl⟩ := List.pairwise_cons.mp hl
    have hrest : ∀ q ∈ l, (settle m p).contains q.1 = there q.1 := by
      intro q hq
      rw [contains_settle, if_neg (hp q hq).symm, hm q (List.mem_cons_of_mem _ hq)]
    have hfirst : countStep? there m.size p = some (settle m p).size := by
      rw [← countStep?_settle]
      simp only [countStep?, settledSize, hm p List.mem_cons_self]
    rw [List.foldlM_cons, hfirst, List.foldl_cons, ← ih hl hrest]
    rfl

theorem foldl_settledSize {there : Bytes → Bool} {l : List (Bytes × Bool)} {n k : Nat}
    (h : l.foldlM (countStep? there) n = some k) : l.foldl (settledSize there) n = k := by
  induction l generalizing n with
  | nil => exact Option.some.inj h
  | cons p l ih =>
    rw [List.foldlM_cons, countStep?] at h
    split_ifs at h
    · cases h
    · exact ih h

theorem settle_comm {p q : Bytes × Bool} (h : p.1 ≠ q.1) (m : SortedMap Bytes Unit) :
    settle (settle m p) q = settle (settle m q) p := by
  apply SortedMap.ext_contains
  intro k
  rw [contains_settle, contains_settle, contains_settle, contains_settle]
  by_cases hp : k = p.1
  · have hq : k ≠ q.1 := fun hq => h (hp.symm.trans hq)
    rw [if_neg hq, if_pos hp, if_pos hp]
  · rw [if_neg hp, if_neg hp]

theorem contains_foldl_settle {l : List (Bytes × Bool)} (hl : Assoc.Ascending l)
    (m : SortedMap Bytes Unit) (k : Bytes) :
    (l.foldl settle m).contains k = (Assoc.get? k l).getD (m.contains k) := by
  induction l generalizing m with
  | nil => rfl
  | cons p l ih =>
    obtain ⟨key, there⟩ := p
    obtain ⟨hp, hrest⟩ := List.pairwise_cons.mp hl
    rw [List.foldl_cons, ih hrest, contains_settle, Assoc.get?]
    by_cases hk : key = k
    · subst hk
      have hnone : Assoc.get? key l = none := by
        cases hg : Assoc.get? key l with
        | none => rfl
        | some b => exact absurd (hp _ (Assoc.mem_of_get? hg)) Std.lt_irrefl
      simp [hnone]
    · rw [if_neg hk, if_neg (Ne.symm hk)]

theorem foldlM_countStep? (c : Contents) (b : Batch) {l : List (Bytes × Bool)}
    (hl : l.Perm (lastWrites b).entries) :
    l.foldlM (countStep? c.entries.contains) c.size = some (c.writeAll b).size := by
  have hdistinct : l.Pairwise fun p q => p.1 ≠ q.1 := by
    refine hl.symm.pairwise ((lastWrites b).ascending.imp ?_) fun h => h.symm
    intro p q hlt he
    exact Std.lt_irrefl (he ▸ hlt)
  have hstart : (c.entries.mapValues fun _ => ()).size = c.size := by
    simp [SortedMap.size, SortedMap.mapValues, size]
  have hcount := foldlM_countStep?_settle c.entries.contains hdistinct
    (m := c.entries.mapValues fun _ => ()) (fun p _ => SortedMap.contains_mapValues ..)
  have horder : l.foldl settle (c.entries.mapValues fun _ => ()) =
      (lastWrites b).entries.foldl settle (c.entries.mapValues fun _ => ()) := by
    have : Std.Symm fun p q : Bytes × Bool => p.1 ≠ q.1 := ⟨fun _ _ h => h.symm⟩
    refine hl.foldl_eq' (fun p hp q hq m => ?_) _
    by_cases he : p = q
    · rw [he]
    · exact settle_comm (hdistinct.forall hp hq he) m
  rw [← hstart, hcount, horder]
  -- the writes that settle the keys leave what the batch leaves, though not in its order
  apply congrArg some
  apply SortedMap.size_congr
  intro k
  rw [contains_foldl_settle (lastWrites b).ascending, SortedMap.contains_mapValues,
    contains_writeAll]
  rfl

theorem projectedSize_eq (c : Contents) (b : Batch) : c.projectedSize b = (c.writeAll b).size :=
  foldl_settledSize (c.foldlM_countStep? b (List.Perm.refl _))

theorem size_insert (c : Contents) (key value : Bytes) :
    (c.insert key value).size = c.size + if c.entries.contains key then 0 else 1 := by
  rw [size, insert, SortedMap.size_insert, size]
  split_ifs <;> rfl

theorem shrinkTo_of_le {c : Contents} {capacity : Nat} (h : c.size ≤ capacity) :
    c.shrinkTo capacity = c := by
  rw [shrinkTo]
  cases c.writeOrder.entries with
  | nil => rfl
  | cons p order => rw [shrinkAlong, if_pos h]

end MemoryStore.Contents

namespace MemoryStore

def Retains (m : MemoryStore) : Prop := ∀ b, m.bound = some b → b.eviction = .reject

theorem shrink_of_accept {m : MemoryStore} {c : Contents} (hm : m.Retains)
    (h : m.accept c.size = .ok ()) : m.shrink c = { m with contents := c } := by
  cases hb : m.bound with
  | none => simp only [shrink, hb]
  | some bound =>
    have hle : c.size ≤ bound.capacity := by
      obtain ⟨capacity, hpos, eviction⟩ := bound
      have he : eviction = .reject := hm _ hb
      subst he
      by_contra hlt
      simp [accept, hb, Nat.lt_of_not_le hlt] at h
    simp only [shrink, hb, Contents.shrinkTo_of_le hle]

structure Writes (act : MemoryStore → Except StoreError Unit × MemoryStore) (b : Batch) :
    Prop where
  failed : ∀ m e, (act m).1 = .error e → (act m).2 = m
  done : ∀ m, m.Retains → (act m).1 = .ok () →
    ∃ c, (act m).2 = { m with contents := c } ∧ c.toTable = m.contents.toTable.writeAll b

theorem writes_of_accept {act : MemoryStore → Except StoreError Unit × MemoryStore} {b : Batch}
    (after : Contents → Contents) (hb : ∀ c, (after c).toTable = c.toTable.writeAll b)
    (h : ∀ m, act m = if m.isOpen then
        match m.accept (after m.contents).size with
        | .ok () => (.ok (), m.shrink (after m.contents))
        | .error e => (.error e, m)
      else (.error .closed, m)) : Writes act b := by
  constructor
  · intro m e he
    rw [h] at he ⊢
    by_cases ho : m.isOpen = true
    · rw [if_pos ho] at he ⊢
      rcases ha : m.accept (after m.contents).size with _ | ⟨⟨⟩⟩
      · rfl
      · simp [ha] at he
    · rw [if_neg ho]
  · intro m hm hok
    rw [h] at hok ⊢
    by_cases ho : m.isOpen = true
    · rw [if_pos ho] at hok ⊢
      rcases ha : m.accept (after m.contents).size with _ | ⟨⟨⟩⟩
      · simp [ha] at hok
      · exact ⟨after m.contents, shrink_of_accept hm ha, hb m.contents⟩
    · simp [ho] at hok

theorem writes_put (key value : Bytes) : Writes (·.put key value) [.put key value] := by
  apply writes_of_accept (·.insert key value)
  · exact fun c => c.toTable_insert key value
  · intro m
    simp only [Contents.size_insert]
    rfl

theorem writes_writeBatch (b : Batch) : Writes (·.writeBatch b) b := by
  apply writes_of_accept (·.writeAll b)
  · exact fun c => c.toTable_writeAll b
  · intro m
    simp only [← Contents.projectedSize_eq]
    rfl

def Unbounded (m : MemoryStore) : Prop := m.bound = none

structure Performs (act : MemoryStore → Except StoreError Unit × MemoryStore) (b : Batch)
    (hasRoom : MemoryStore → Prop) : Prop where
  closed : ∀ m, m.isOpen = false → act m = (.error .closed, m)
  opened : ∀ m, m.isOpen = true → hasRoom m →
    ∃ c, act m = (.ok (), { m with contents := c }) ∧ c.toTable = m.contents.toTable.writeAll b

theorem Writes.performs {act : MemoryStore → Except StoreError Unit × MemoryStore} {b : Batch}
    (h : Writes act b) (hclosed : ∀ m, m.isOpen = false → act m = (.error .closed, m))
    (hopen : ∀ m, m.isOpen = true → m.bound = none → (act m).1 = .ok ()) :
    Performs act b Unbounded := by
  refine ⟨hclosed, fun m ho hb => ?_⟩
  have hbound : m.bound = none := hb
  have hretains : m.Retains := fun bound h => by simp [hbound] at h
  have hok := hopen m ho hb
  obtain ⟨c, hact, hc⟩ := h.done m hretains hok
  exact ⟨c, Prod.ext hok hact, hc⟩

theorem performs_put (key value : Bytes) :
    Performs (·.put key value) [.put key value] Unbounded :=
  (writes_put key value).performs (fun m ho => by simp [put, ho])
    (fun m ho hb => by simp [put, ho, accept, hb])

theorem performs_writeBatch (b : Batch) : Performs (·.writeBatch b) b Unbounded :=
  (writes_writeBatch b).performs (fun m ho => by simp [writeBatch, ho])
    (fun m ho hb => by simp [writeBatch, ho, accept, hb])

theorem performs_delete (key : Bytes) :
    Performs (·.delete key) [.delete key] (fun _ => True) := by
  refine ⟨fun m ho => by simp [delete, ho], fun m ho _ => ⟨m.contents.remove key, ?_, ?_⟩⟩
  · simp [delete, ho]
  · exact m.contents.toTable_remove key

theorem writes_delete (key : Bytes) : Writes (·.delete key) [.delete key] := by
  have h := performs_delete key
  constructor
  · intro m e he
    cases ho : m.isOpen with
    | false => rw [h.closed m ho]
    | true => simp [delete, ho] at he
  · intro m _ hok
    by_cases ho : m.isOpen = true
    · obtain ⟨c, hact, hc⟩ := h.opened m ho trivial
      exact ⟨c, congrArg Prod.snd hact, hc⟩
    · simp [delete, ho] at hok

end MemoryStore

end Staging
