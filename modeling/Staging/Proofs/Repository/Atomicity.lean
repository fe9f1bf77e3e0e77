import Mathlib
import Staging.Proofs.Repository.Operations
import Staging.Proofs.Store.Atomicity

namespace Staging

namespace Cursor

theorem looked_next (c : Cursor) (s : Shelf) : s.Looked (c.next s).2.2 := by
  have hpage : s.Looked (s.scanPage c.start c.lastKey c.pageSize).2 := s.looked_look .scan _ _
  unfold next
  split_ifs
  · exact .refl s
  · rcases hx : s.scanPage c.start c.lastKey c.pageSize with ⟨_ | page, s'⟩
    · rwa [hx] at hpage
    · rwa [hx] at hpage
  · exact .refl s

theorem looked_collectUpTo (fuel : Nat) (c : Cursor) (s : Shelf) :
    s.Looked (c.collectUpTo fuel s).2 := by
  induction fuel generalizing c s with
  | zero => exact .refl s
  | succ fuel ih =>
    have hnext := c.looked_next s
    rcases hx : c.next s with ⟨_ | ⟨_ | e⟩, c', s'⟩
    · rw [hx] at hnext
      simpa only [collectUpTo, hx] using hnext
    · rw [hx] at hnext
      simpa only [collectUpTo, hx] using hnext
    · have hrest := ih c' s'
      rw [hx] at hnext
      rcases hy : c'.collectUpTo fuel s' with ⟨_ | es, s''⟩
      · rw [hy] at hrest
        simpa only [collectUpTo, hx, hy] using hnext.trans hrest
      · rw [hy] at hrest
        simpa only [collectUpTo, hx, hy] using hnext.trans hrest

theorem looked_collect (c : Cursor) (s : Shelf) : s.Looked (c.collect s).2 :=
  looked_collectUpTo _ c s

end Cursor

def Call.IsRead : Call → Prop
  | .add _ _ | .remove _ _ | .confirm _ => False
  | _ => True

namespace Repository

variable (r : Repository) {s : Shelf} {t : Table}

def effect (c : Call) (t : Table) : Table :=
  match c with
  | .add key e =>
    match r.marshal key e with
    | .ok b => t.insert (r.keySpace.liveKey key) b
    | .error _ => t
  | .remove key e =>
    match r.marshal key e with
    | .ok b =>
      if t.contains (r.keySpace.liveKey key) then
        (t.erase (r.keySpace.liveKey key)).insert (r.keySpace.completedKey e.id) b
      else t
    | .error _ => t
  | .confirm i => t.erase (r.keySpace.completedKey i)
  | _ => t

theorem fetch_eq (raw : Bytes) (key : String) :
    r.fetch raw key = fun s => ((s.get raw).1.mapError (r.storeError key), (s.get raw).2) := rfl

theorem fetchExchange_eq (raw : Bytes) (key : String) :
    r.fetchExchange raw key = fun s =>
      ((r.fetch raw key s).1.bind (Ledger.decode r key), (r.fetch raw key s).2) := by
  funext s
  rcases hx : r.fetch raw key s with ⟨_ | _ | b, s'⟩ <;> simp only [fetchExchange, hx] <;> rfl

theorem same_fetch (raw : Bytes) (key : String) (s : Shelf) : s.Same (r.fetch raw key s).2 :=
  (s.looked_look .get _ _).same

theorem same_fetchExchange (raw : Bytes) (key : String) (s : Shelf) :
    s.Same (r.fetchExchange raw key s).2 := by
  rw [fetchExchange_eq]
  exact r.same_fetch raw key s

theorem looked_scan (start : Bytes) (s : Shelf) : s.Looked (r.scan start s).2 :=
  (Cursor.new start).looked_collect s

theorem cuts_fetch (raw : Bytes) (key : String) (s : Shelf) : s.Cuts (r.fetch raw key) := by
  rw [fetch_eq]
  have hget : s.Cuts (·.get raw) := Shelf.cuts_call (Shelf.blind_look _ _) s .get
  exact hget.map (Except.mapError (r.storeError key)) fun _ => ⟨_, rfl⟩

theorem cuts_fetchExchange (raw : Bytes) (key : String) (s : Shelf) :
    s.Cuts (r.fetchExchange raw key) := by
  rw [fetchExchange_eq]
  exact (r.cuts_fetch raw key s).map (·.bind (Ledger.decode r key)) fun _ => ⟨_, rfl⟩

theorem get?_of_fetch {raw : Bytes} {key : String} {v : Option Bytes}
    (h : (r.fetch raw key s).1 = .ok v) : ∃ t, s.table = .ok t ∧ t.get? raw = v := by
  have hget : (s.get raw).1 = .ok v := by
    cases hx : (s.get raw).1 with
    | error e => simp [fetch, hx, Except.mapError] at h
    | ok w => simpa [fetch, hx, Except.mapError] using h
  obtain ⟨backend, disk, faults⟩ := s
  simp only [Shelf.get, Shelf.call] at hget
  split at hget
  · cases hget
  · cases backend with
    | memory m =>
      refine ⟨m.contents.toTable, rfl, ?_⟩
      simp only [Shelf.look, MemoryStore.get] at hget
      split_ifs at hget
      rw [MemoryStore.Contents.get?_toTable]
      exact Except.ok.inj hget
    | durable d =>
      simp only [Shelf.look, DurableStore.get] at hget
      cases ht : d.table disk with
      | error e => simp [ht] at hget
      | ok t =>
        rw [ht] at hget
        exact ⟨t, ht, Except.ok.inj hget⟩

def readOld (key : String) (s : Shelf) : Except RepositoryError (Option Exchange) × Shelf :=
  if r.settings.returnOld then r.fetchExchange (r.keySpace.liveKey key) key s else (.ok none, s)

theorem add_refused {key : String} {e : Exchange} {err : RepositoryError}
    (hm : r.marshal key e = .error err) : r.add key e = fun s => (.error err, s) := by
  funext s
  simp only [add, hm]

theorem add_eq {key : String} {e : Exchange} {b : Bytes} (hm : r.marshal key e = .ok b) :
    r.add key e = Shelf.andThen (r.readOld key) fun old s =>
      (((s.put (r.keySpace.liveKey key) b).1.map (fun _ => old)).mapError (r.storeError key),
        (s.put (r.keySpace.liveKey key) b).2) := by
  funext s
  rcases hx : r.readOld key s with ⟨err | old, s'⟩
  · have hread := hx
    rw [readOld] at hread
    simp only [add, hm, hread, Shelf.andThen, hx]
  · have hread := hx
    rw [readOld] at hread
    simp only [add, hm, hread, Shelf.andThen, hx]
    rcases s'.put (r.keySpace.liveKey key) b with ⟨_ | ⟨⟨⟩⟩, s''⟩ <;> rfl

theorem same_readOld (key : String) (s : Shelf) : s.Same (r.readOld key s).2 := by
  unfold readOld
  split_ifs
  · exact r.same_fetchExchange _ key s
  · exact .refl s

theorem cuts_readOld (key : String) (s : Shelf) : s.Cuts (r.readOld key) := by
  unfold readOld
  split_ifs
  · exact r.cuts_fetchExchange _ key s
  · exact fun n => Or.inl ⟨n, rfl⟩

theorem atomic_refused {α : Type} (s : Shelf) (e : RepositoryError) {effect : Table → Table}
    (he : ∀ t, effect t = t) :
    s.Atomic (fun s => ((.error e : Except RepositoryError α), s)) effect :=
  Shelf.atomic_of_same .refl (by cases s.table <;> simp [he])

theorem atomic_add (hs : s.Retains) (key : String) (e : Exchange) :
    s.Atomic (r.add key e) (r.effect (.add key e)) := by
  cases hm : r.marshal key e with
  | error err =>
    rw [r.add_refused hm]
    exact atomic_refused s err fun t => by simp only [effect, hm]
  | ok b =>
    have heffect (t : Table) : t.writeAll [.put (r.keySpace.liveKey key) b] =
        r.effect (.add key e) t := by
      simp only [effect, hm]
      rfl
    rw [r.add_eq hm]
    refine .andThen (r.same_readOld key) (r.cuts_readOld key s) fun old _ => ?_
    have hput := Shelf.atomic_write (MemoryStore.writes_put (r.keySpace.liveKey key) b)
      (List.cons_ne_nil _ _) ((r.same_readOld key s).retains hs) .put
    refine (hput.map (fun x => (x.map (fun _ => old)).mapError (r.storeError key)) ?_ ?_).congr
      fun t _ => heffect t
    · exact fun err => ⟨_, rfl⟩
    · exact fun _ => ⟨old, rfl⟩

theorem remove_refused {key : String} {e : Exchange} {err : RepositoryError}
    (hm : r.marshal key e = .error err) : r.remove key e = fun s => (.error err, s) := by
  funext s
  simp only [remove, hm]

theorem remove_eq {key : String} {e : Exchange} {b : Bytes} (hm : r.marshal key e = .ok b) :
    r.remove key e = Shelf.andThen (r.fetch (r.keySpace.liveKey key) key) fun v s =>
      match v with
      | none => (.ok (), s)
      | some _ => ((s.writeBatch (r.handOff key e.id b)).1.mapError (r.storeError key),
          (s.writeBatch (r.handOff key e.id b)).2) := by
  funext s
  rcases hx : r.fetch (r.keySpace.liveKey key) key s with ⟨_ | _ | v, s'⟩ <;>
    simp only [remove, hm, hx, Shelf.andThen]

theorem atomic_remove (hs : s.Retains) (key : String) (e : Exchange) :
    s.Atomic (r.remove key e) (r.effect (.remove key e)) := by
  cases hm : r.marshal key e with
  | error err =>
    rw [r.remove_refused hm]
    exact atomic_refused s err fun t => by simp only [effect, hm]
  | ok b =>
    have hsame := r.same_fetch (r.keySpace.liveKey key) key s
    rw [r.remove_eq hm]
    refine .andThen (r.same_fetch _ key) (r.cuts_fetch _ key s) fun v hv => ?_
    obtain ⟨t, ht, hget⟩ := r.get?_of_fetch hv
    have ht' := hsame.table_eq.trans ht
    cases v with
    | none =>
      refine Shelf.atomic_of_same .refl ?_
      rw [ht']
      simp [effect, hm, SortedMap.contains, hget]
    | some old =>
      have hbatch := Shelf.atomic_write (MemoryStore.writes_writeBatch (r.handOff key e.id b))
        (List.cons_ne_nil _ _) (hsame.retains hs) .batch
      refine (hbatch.map (·.mapError (r.storeError key)) ?_ ?_).congr fun u hu => ?_
      · exact fun err => ⟨_, rfl⟩
      · exact fun _ => ⟨(), rfl⟩
      · obtain rfl : t = u := Except.ok.inj (ht'.symm.trans hu)
        simp only [effect, hm, SortedMap.contains, hget, Option.isSome_some, if_true]
        rfl

theorem confirm_eq (i : String) :
    r.confirm i = Shelf.andThen (r.fetch (r.keySpace.completedKey i) i) fun v s =>
      match v with
      | none => (.ok false, s)
      | some _ => (((s.delete (r.keySpace.completedKey i)).1.map (fun _ => true)).mapError
          (r.storeError i), (s.delete (r.keySpace.completedKey i)).2) := by
  funext s
  rcases hx : r.fetch (r.keySpace.completedKey i) i s with ⟨_ | _ | v, s'⟩
  · simp only [confirm, hx, Shelf.andThen]
  · simp only [confirm, hx, Shelf.andThen]
  · simp only [confirm, hx, Shelf.andThen]
    rcases s'.delete (r.keySpace.completedKey i) with ⟨_ | ⟨⟨⟩⟩, s''⟩ <;> rfl

theorem atomic_confirm (hs : s.Retains) (i : String) :
    s.Atomic (r.confirm i) (r.effect (.confirm i)) := by
  have hsame := r.same_fetch (r.keySpace.completedKey i) i s
  rw [confirm_eq]
  refine .andThen (r.same_fetch _ i) (r.cuts_fetch _ i s) fun v hv => ?_
  cases v with
  | none =>
    obtain ⟨t, ht, hget⟩ := r.get?_of_fetch hv
    refine Shelf.atomic_of_same .refl ?_
    rw [hsame.table_eq, ht]
    exact congrArg Except.ok (SortedMap.erase_of_get?_eq_none hget)
  | some b =>
    have hdelete := Shelf.atomic_write (MemoryStore.writes_delete (r.keySpace.completedKey i))
      (List.cons_ne_nil _ _) (hsame.retains hs) .delete
    refine (hdelete.map (fun x => (x.map (fun _ => true)).mapError (r.storeError i)) ?_ ?_)
    · exact fun err => ⟨_, rfl⟩
    · exact fun _ => ⟨true, rfl⟩

theorem same_completedIds_go (fuel count : Nat) (c : Cursor) (s : Shelf) :
    s.Same (completedIds.go r fuel count c s).2 := by
  induction fuel generalizing count c s with
  | zero => simpa only [completedIds.go] using .refl s
  | succ fuel ih =>
    cases count with
    | zero => simpa only [completedIds.go] using .refl s
    | succ count =>
      have hnext := (c.looked_next s).same
      rcases hx : c.next s with ⟨_ | x, c', s'⟩
      · rw [hx] at hnext
        simpa only [completedIds.go, hx] using hnext
      · rw [hx] at hnext
        cases hid : r.completedId? x with
        | none => simpa only [completedIds.go, hx, hid] using hnext.trans (ih (count + 1) c' s')
        | some i => simpa only [completedIds.go, hx, hid] using hnext.trans (ih count c' s')

theorem same_read {c : Call} (hc : c.IsRead) (s : Shelf) : s.Same (r.run s c).2 := by
  cases c with
  | add _ _ => exact hc.elim
  | remove _ _ => exact hc.elim
  | confirm _ => exact hc.elim
  | get key => exact r.same_fetchExchange _ key s
  | recover i =>
    have hrecover : s.Same (r.recover i s).2 := by
      unfold recover
      split_ifs
      · exact r.same_fetchExchange _ i s
      · exact .refl s
    exact hrecover
  | keys => exact (r.looked_scan _ s).same
  | completed => exact (r.looked_scan _ s).same
  | completedIds count => exact r.same_completedIds_go _ count _ s
  | size => exact (r.looked_scan _ s).same
  | completedSize => exact (r.looked_scan _ s).same

structure AllOrNothing (s : Shelf) (c : Call) : Prop where
  failed : (r.run s c).1.Failed → s.Same (r.run s c).2
  done : ¬ (r.run s c).1.Failed → (r.run s c).2.table = r.effect c <$> s.table
  read : c.IsRead → s.Same (r.run s c).2
  crashed : ∀ n, s.Same (r.run (s.crashAfter n) c).2 ∨
    (r.run s c).2.Same (r.run (s.crashAfter n) c).2
  handedOff : ∀ key e t, c = .remove key e → s.table = .ok t →
    (r.ledger t).live.contains key = true → ∀ n, ∃ u,
      (r.run (s.crashAfter n) c).2.table = .ok u ∧
        ((r.ledger u).live.get? key = (r.ledger t).live.get? key ∧
            (r.ledger u).completed.get? e.id = (r.ledger t).completed.get? e.id ∨
          (r.ledger u).live.get? key = none ∧ ∃ b, r.marshal key e = .ok b ∧
            (r.ledger u).completed.get? e.id = some b)

theorem ledger_effect_remove (t : Table) (key : String) (e : Exchange) :
    r.effect (.remove key e) t = t ∨
      (r.ledger (r.effect (.remove key e) t)).live.get? key = none ∧
        ∃ b, r.marshal key e = .ok b ∧
          (r.ledger (r.effect (.remove key e) t)).completed.get? e.id = some b := by
  cases hm : r.marshal key e with
  | error err => exact Or.inl (by simp only [effect, hm])
  | ok b =>
    by_cases hlive : t.contains (r.keySpace.liveKey key) = true
    · right
      have hne : r.keySpace.liveKey key ≠ r.keySpace.completedKey e.id :=
        r.rawKey_ne (a := .live) (b := .completed) (by decide) key e.id
      simp only [get?_live, get?_completed, effect, hm, if_pos hlive]
      refine ⟨?_, b, rfl, SortedMap.get?_insert_self ..⟩
      rw [SortedMap.get?_insert_of_ne b hne, SortedMap.get?_erase_self]
    · exact Or.inl (by simp only [effect, hm, if_neg hlive])

theorem allOrNothing_of_steps {c : Call} (failed : (r.run s c).1.Failed → s.Same (r.run s c).2)
    (done : ¬ (r.run s c).1.Failed → (r.run s c).2.table = r.effect c <$> s.table)
    (read : c.IsRead → s.Same (r.run s c).2)
    (crashed : ∀ n, s.Same (r.run (s.crashAfter n) c).2 ∨
      (r.run s c).2.Same (r.run (s.crashAfter n) c).2) : r.AllOrNothing s c := by
  refine ⟨failed, done, read, crashed, ?_⟩
  rintro key e t rfl ht - n
  have kept {s' : Shelf} (h : s'.table = .ok t) : ∃ u, s'.table = .ok u ∧
      ((r.ledger u).live.get? key = (r.ledger t).live.get? key ∧
          (r.ledger u).completed.get? e.id = (r.ledger t).completed.get? e.id ∨
        (r.ledger u).live.get? key = none ∧ ∃ b, r.marshal key e = .ok b ∧
          (r.ledger u).completed.get? e.id = some b) :=
    ⟨t, h, Or.inl ⟨rfl, rfl⟩⟩
  rcases crashed n with hbefore | hafter
  · exact kept (hbefore.table_eq.trans ht)
  · by_cases hf : (r.run s (.remove key e)).1.Failed
    · exact kept (hafter.table_eq.trans ((failed hf).table_eq.trans ht))
    · have htable := hafter.table_eq.trans (done hf)
      rw [ht] at htable
      rcases r.ledger_effect_remove t key e with hsame | hmoved
      · exact kept (htable.trans (congrArg Except.ok hsame))
      · exact ⟨_, htable, Or.inr hmoved⟩

theorem allOrNothing_of_atomic {α : Type} {c : Call} {f : Shelf → Except RepositoryError α × Shelf}
    (answer : Except RepositoryError α → Answer) (hf : ∀ x, (answer x).Failed ↔ ∃ e, x = .error e)
    (hrun : ∀ s, r.run s c = (f s).map answer id) (hc : ¬ c.IsRead)
    (h : s.Atomic f (r.effect c)) : r.AllOrNothing s c := by
  apply r.allOrNothing_of_steps
  · intro hfailed
    rw [hrun] at hfailed ⊢
    obtain ⟨e, he⟩ := (hf _).mp hfailed
    exact h.failed e he
  · intro hdone
    rw [hrun] at hdone ⊢
    cases hx : (f s).1 with
    | error e => exact absurd ((hf _).mpr ⟨e, hx⟩) hdone
    | ok a => exact h.done a hx
  · exact fun hread => absurd hread hc
  · intro n
    rw [hrun, hrun]
    exact h.crashed n

theorem run_allOrNothing (hs : s.Retains) (c : Call) : r.AllOrNothing s c := by
  have reads (hc : c.IsRead) (he : r.effect c = id) : r.AllOrNothing s c := by
    apply r.allOrNothing_of_steps
    · exact fun _ => r.same_read hc s
    · intro _
      rw [(r.same_read hc s).table_eq, he, id_map]
    · exact fun _ => r.same_read hc s
    · exact fun n => Or.inl ((s.same_crashAfter n).trans (r.same_read hc _))
  cases c with
  | add key e =>
    exact r.allOrNothing_of_atomic .exchange (fun _ => .rfl) (fun _ => rfl) id
      (r.atomic_add hs key e)
  | remove key e =>
    exact r.allOrNothing_of_atomic .done (fun _ => .rfl) (fun _ => rfl) id
      (r.atomic_remove hs key e)
  | confirm i =>
    exact r.allOrNothing_of_atomic .flag (fun _ => .rfl) (fun _ => rfl) id
      (r.atomic_confirm hs i)
  | get _ | recover _ | keys | completed | completedIds _ | size | completedSize =>
    exact reads trivial rfl

def idCodec : Codec := ⟨fun _ e => .ok (Bytes.ofString e.id), fun _ => .error (.custom "")⟩

def crowded : Shelf :=
  ⟨.memory ⟨MemoryStore.Contents.empty.insert (Bytes.ofString "orders" ++ [0, 107]) [1], true,
    some ⟨1, by decide, .reject⟩⟩, .empty, .none⟩

theorem run_allOrNothing_crowded :
    let r : Repository := ⟨.named "orders", ⟨"orders", KeySpace.isName_orders⟩, idCodec⟩
    let e : Exchange := ⟨"m", ⟨2024, 2, 29, 23, 59, 60, 0, by decide, by decide⟩, .null, .empty,
      .empty⟩
    crowded.Retains ∧ r.AllOrNothing crowded (.remove "k" e) ∧
      (r.run (crowded.crashAfter 1) (.remove "k" e)).2.entries =
        [(r.keySpace.liveKey "k", [1])] ∧
      (r.run (crowded.crashAfter 2) (.remove "k" e)).2.entries =
        [(r.keySpace.completedKey "m", Bytes.ofString "m")] := by
  intro r e
  have hs : crowded.Retains := by
    intro b hb
    cases hb
    rfl
  exact ⟨hs, r.run_allOrNothing hs _, by decide +kernel, by decide +kernel⟩

end Repository

end Staging
