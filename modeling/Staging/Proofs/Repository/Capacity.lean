import Mathlib
import Staging.Proofs.Store.Eviction
import Staging.Proofs.Repository.Atomicity

namespace Staging

namespace MemoryStore

variable {m : MemoryStore}

namespace Contents

variable {c : Contents}

theorem contains_toTable (c : Contents) (key : Bytes) :
    c.toTable.contains key = c.entries.contains key := by
  rw [SortedMap.contains, get?_toTable, Option.isSome_map, SortedMap.contains]

theorem size_remove (c : Contents) {key : Bytes} (h : c.entries.contains key = true) :
    (c.remove key).size + 1 = c.size := by
  rw [remove_eq]
  exact Assoc.length_erase h

theorem size_swap_le (c : Contents) {old : Bytes} (h : c.entries.contains old = true)
    (new value : Bytes) : (c.writeAll [.delete old, .put new value]).size ≤ c.size := by
  have hremove := c.size_remove h
  have hinsert := (c.remove old).size_insert new value
  change ((c.remove old).insert new value).size ≤ c.size
  split_ifs at hinsert <;> omega

theorem WellFormed.get?_shrinkTo_insert (h : c.WellFormed) {capacity : Nat} (hpos : 0 < capacity)
    (key value : Bytes) :
    ((c.insert key value).shrinkTo capacity).toTable.get? key = some value := by
  obtain ⟨hw, hrecency⟩ := (h.insert key value).shrinkTo capacity
  have hkept : (key, value) ∈ ((c.insert key value).shrinkTo capacity).recency := by
    rw [hrecency, h.recency_insert, List.rtake_append_of_le (r := [(key, value)]) hpos]
    exact List.mem_append_right _ List.mem_cons_self
  exact hw.mem_recency.mp hkept

end Contents

theorem InOrder.writeBatch_of_size_le (h : m.InOrder) (ho : m.isOpen = true) {b : Batch}
    (hb : (m.contents.writeAll b).size ≤ m.contents.size) :
    m.writeBatch b = (.ok (), { m with contents := m.contents.writeAll b }) := by
  rw [writeBatch, if_pos ho, Contents.projectedSize_eq]
  cases hbound : m.bound with
  | none => simp only [accept, shrink, hbound]
  | some bound =>
    have hfits := hb.trans (h.size_le bound hbound)
    have haccept : m.accept (m.contents.writeAll b).size = .ok () := by
      obtain ⟨capacity, hpos, eviction⟩ := bound
      cases eviction with
      | reject => simp only [accept, hbound, if_neg (Nat.not_lt.mpr hfits)]
      | oldest => simp only [accept, hbound]
    simp only [haccept, shrink, hbound, Contents.shrinkTo_of_le hfits]

theorem put_done {key value : Bytes} (h : (m.put key value).1 = .ok ()) :
    (m.put key value).2 = m.shrink (m.contents.insert key value) := by
  rw [put_eq] at h ⊢
  rcases m.receive_cases _ (m.contents.insert key value) with hx | ⟨e, hx⟩
  · rw [hx]
  · rw [hx] at h
    cases h

theorem InOrder.get?_put (h : m.InOrder) {key value : Bytes} (hok : (m.put key value).1 = .ok ()) :
    (m.put key value).2.contents.toTable.get? key = some value := by
  rw [put_done hok]
  cases hbound : m.bound with
  | none =>
    simp only [shrink, hbound, Contents.toTable_insert]
    exact SortedMap.get?_insert_self ..
  | some bound =>
    simp only [shrink, hbound]
    exact h.wellFormed.get?_shrinkTo_insert bound.positive key value

end MemoryStore

theorem Shelf.IsMemory.table {s : Shelf} {m : MemoryStore} (h : s.IsMemory m) :
    s.table = .ok m.contents.toTable := by
  rw [Shelf.table, h.backend]

theorem Shelf.put_cases {s : Shelf} {m : MemoryStore} (h : s.backend = .memory m)
    (key value : Bytes) :
    (s.put key value).1 = (m.put key value).1 ∧
        (s.put key value).2.table = .ok (m.put key value).2.contents.toTable ∨
      ∃ e, (s.put key value).1 = .error e := by
  rcases s.call_cases .put (change (·.put key value) (·.put · key value)) with hput | ⟨-, e, hput⟩
  · rw [Shelf.put, hput, change, counted, h]
    exact Or.inl ⟨rfl, rfl⟩
  · exact Or.inr ⟨e, congrArg Prod.fst hput⟩

namespace Repository

variable (r : Repository) {s : Shelf} {m : MemoryStore}

structure HandsOff (t : Table) (key i : String) (b : Bytes) (u : Table) : Prop where
  live : u.get? (r.keySpace.liveKey key) = none
  completed : u.get? (r.keySpace.completedKey i) = some b
  elsewhere : ∀ raw, raw ≠ r.keySpace.liveKey key → raw ≠ r.keySpace.completedKey i →
    u.get? raw = t.get? raw

theorem handsOff_writeAll (t : Table) (key i : String) (b : Bytes) :
    r.HandsOff t key i b (t.writeAll (r.handOff key i b)) where
  live := by
    have hne : r.keySpace.liveKey key ≠ r.keySpace.completedKey i :=
      r.rawKey_ne (a := .live) (b := .completed) (by decide) key i
    exact (SortedMap.get?_insert_of_ne b hne).trans (SortedMap.get?_erase_self ..)
  completed := SortedMap.get?_insert_self ..
  elsewhere raw hlive hcompleted :=
    (SortedMap.get?_insert_of_ne b hcompleted).trans (SortedMap.get?_erase_of_ne hlive)

theorem remove_fits (h : s.IsMemory m) (ho : m.InOrder) (hopen : m.isOpen = true) {key : String}
    {e : Exchange} {b : Bytes} (hm : r.marshal key e = .ok b)
    (hlive : m.contents.toTable.contains (r.keySpace.liveKey key) = true) :
    (r.remove key e s).1 = .ok () ∧ (r.remove key e s).2.table =
      .ok (m.contents.toTable.writeAll (r.handOff key e.id b)) := by
  obtain ⟨v, hv⟩ := SortedMap.contains_iff.mp hlive
  obtain ⟨hread, hs⟩ := h.look .get (·.get (r.keySpace.liveKey key))
    (·.get · (r.keySpace.liveKey key))
  have hget : m.get (r.keySpace.liveKey key) = .ok (some v) := by
    rw [MemoryStore.get, if_pos hopen, ← MemoryStore.Contents.get?_toTable, hv]
  have hfetch : r.fetch (r.keySpace.liveKey key) key s =
      (.ok (some v), (s.get (r.keySpace.liveKey key)).2) :=
    congrArg (fun x => (Except.mapError (r.storeError key) x, _)) (hread.trans hget)
  obtain ⟨hreply, hafter⟩ := hs.change .batch (·.writeBatch (r.handOff key e.id b))
    (·.writeBatch · (r.handOff key e.id b))
  have hbatch : m.writeBatch (r.handOff key e.id b) =
      (.ok (), { m with contents := m.contents.writeAll (r.handOff key e.id b) }) := by
    apply ho.writeBatch_of_size_le hopen
    exact m.contents.size_swap_le ((m.contents.contains_toTable _).symm.trans hlive) _ b
  rw [r.remove_eq hm, Shelf.andThen, hfetch]
  rw [hbatch] at hreply hafter
  refine ⟨congrArg (Except.mapError (r.storeError key)) hreply, hafter.table.trans ?_⟩
  exact congrArg Except.ok (m.contents.toTable_writeAll _)

theorem live_of_add (hb : s.backend = .memory m) (ho : m.InOrder) {key : String} {e : Exchange}
    {old : Option Exchange} (hok : (r.add key e s).1 = .ok old) :
    ∃ b u, r.marshal key e = .ok b ∧ (r.add key e s).2.table = .ok u ∧
      u.get? (r.keySpace.liveKey key) = some b := by
  cases hm : r.marshal key e with
  | error err =>
    rw [r.add_refused hm] at hok
    cases hok
  | ok b =>
    have hsame := (r.same_readOld key s).backend
    rw [r.add_eq hm, Shelf.andThen] at hok ⊢
    rcases hx : r.readOld key s with ⟨err | old', s'⟩
    · rw [hx] at hok
      cases hok
    · rw [hx] at hok hsame
      refine ⟨b, ?_⟩
      dsimp only at hok hsame ⊢
      rcases s'.put_cases (hsame.trans hb) (r.keySpace.liveKey key) b with
        ⟨hreply, hafter⟩ | ⟨err, hreply⟩
      · rw [hreply] at hok
        refine ⟨_, rfl, hafter, ho.get?_put ?_⟩
        rcases hput : (m.put (r.keySpace.liveKey key) b).1 with err | ⟨⟨⟩⟩
        · rw [hput] at hok
          cases hok
        · rfl
      · rw [hreply] at hok
        cases hok

theorem handOff_fits (bound : Bound) (disk : Disk) (qs : List Shelf.Request) (key : String)
    (e : Exchange) :
    let s : Shelf := Shelf.serveAll ⟨.memory (.bounded bound), disk, .none⟩ qs
    s.isOpen = true → ∀ t, s.table = .ok t →
      (∀ b, r.marshal key e = .ok b → t.contains (r.keySpace.liveKey key) = true →
        (r.remove key e s).1 = .ok () ∧ ∃ u, (r.remove key e s).2.table = .ok u ∧
          r.HandsOff t key e.id b u) ∧
      ∀ old, (r.add key e s).1 = .ok old →
        ∃ b u, r.marshal key e = .ok b ∧ (r.add key e s).2.table = .ok u ∧
          u.get? (r.keySpace.liveKey key) = some b := by
  intro s hopen t ht
  have hstart : Shelf.IsMemory ⟨.memory (.bounded bound), disk, .none⟩ (.bounded bound) :=
    ⟨rfl, fun _ _ => rfl⟩
  have hs := hstart.serveAll qs
  have ho := ((MemoryStore.inOrder_bounded bound).afterAll qs).1
  have hm : ((MemoryStore.bounded bound).afterAll qs).isOpen = true := by
    rw [Shelf.isOpen, hs.backend] at hopen
    exact hopen
  obtain rfl := Except.ok.inj (hs.table.symm.trans ht)
  refine ⟨fun b hb hlive => ?_, fun old hok => r.live_of_add hs.backend ho hok⟩
  obtain ⟨hreply, htable⟩ := r.remove_fits hs ho hm hb hlive
  exact ⟨hreply, _, htable, r.handsOff_writeAll _ key e.id b⟩

theorem handOff_fits_full :
    let r : Repository := ⟨.named "orders", ⟨"orders", KeySpace.isName_orders⟩, idCodec⟩
    let e : Exchange := ⟨"m", ⟨2025, 6, 1, 12, 30, 0, 0, by decide, by decide⟩, .null, .empty,
      .empty⟩
    let s := Shelf.serveAll ⟨.memory (.bounded ⟨1, Nat.one_pos, .reject⟩), .empty, .none⟩
      [.openStore, .put (r.keySpace.liveKey "k") [1]]
    let t : Table := SortedMap.empty.insert (r.keySpace.liveKey "k") [1]
    (r.remove "k" e s).1 = .ok () ∧
      (∃ u, (r.remove "k" e s).2.table = .ok u ∧ r.HandsOff t "k" "m" (Bytes.ofString "m") u) ∧
      ∃ b u, r.marshal "k" e = .ok b ∧ (r.add "k" e s).2.table = .ok u ∧
        u.get? (r.keySpace.liveKey "k") = some b := by
  intro r e s t
  have ht : s.table = .ok t := by decide +kernel
  obtain ⟨hremove, hadd⟩ := r.handOff_fits ⟨1, Nat.one_pos, .reject⟩ .empty
    [.openStore, .put (r.keySpace.liveKey "k") [1]] "k" e (by decide +kernel) t ht
  obtain ⟨hreply, hu⟩ := hremove (Bytes.ofString "m") (by decide +kernel) (by decide +kernel)
  exact ⟨hreply, hu, hadd none (by decide +kernel)⟩

end Repository

end Staging
