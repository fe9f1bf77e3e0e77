import Mathlib
import Staging.Proofs.Repository.Ledger
import Staging.Proofs.Store.Cursor

namespace Staging

namespace Shelf

variable {ε ε' α β : Type} {s : Shelf} {t u : Table} {a : Except ε α} {x : Except ε α × Shelf}

theorem Answers.map (h : s.Answers t u a x) (f : α → β) :
    s.Answers t u (a.map f) (x.1.map f, x.2) := by
  rcases h with ⟨s', rfl, hs, hl⟩ | ⟨hns, e, s', rfl, hs, hl⟩
  · exact Or.inl ⟨s', rfl, hs, hl⟩
  · exact Or.inr ⟨hns, e, s', rfl, hs, hl⟩

theorem Answers.mapError (h : s.Answers t u a x) (f : ε → ε') :
    s.Answers t u (a.mapError f) (x.1.mapError f, x.2) := by
  rcases h with ⟨s', rfl, hs, hl⟩ | ⟨hns, e, s', rfl, hs, hl⟩
  · exact Or.inl ⟨s', rfl, hs, hl⟩
  · exact Or.inr ⟨hns, f e, s', rfl, hs, hl⟩

theorem Answers.of_like {s' : Shelf} (h : s'.Answers t u a x) (hl : s.Like s') : s.Answers t u a x := by
  rcases h with ⟨s'', hx, hs, hl'⟩ | ⟨hns, e, s'', hx, hs, hl'⟩
  · exact Or.inl ⟨s'', hx, hs, hl.trans hl'⟩
  · exact Or.inr ⟨fun h => hns (hl.sound h), e, s'', hx, hs, hl.trans hl'⟩

end Shelf

namespace Repository

variable (r : Repository) {s : Shelf} {t : Table}

def ledger (t : Table) : Ledger :=
  ⟨t.view (r.keySpace.startOf .live), t.view (r.keySpace.startOf .completed)⟩

structure Rewrites (t : Table) (l : Ledger) (u : Table) : Prop where
  ledger : r.ledger u = l
  elsewhere : ∀ raw, (∀ a k, raw ≠ r.keySpace.rawKey a k) → u.get? raw = t.get? raw

theorem rewrites_refl (t : Table) : r.Rewrites t (r.ledger t) t := ⟨rfl, fun _ _ => rfl⟩

theorem part_ledger (t : Table) (a : KeySpace.Part) :
    (r.ledger t).part a = t.view (r.keySpace.startOf a) := by
  cases a <;> rfl

theorem get?_ledger (t : Table) (a : KeySpace.Part) (k : String) :
    ((r.ledger t).part a).get? k = t.get? (r.keySpace.rawKey a k) := by
  rw [part_ledger, Table.get?_view]
  rfl

theorem get?_live (t : Table) (key : String) :
    (r.ledger t).live.get? key = t.get? (r.keySpace.liveKey key) :=
  r.get?_ledger t .live key

theorem get?_completed (t : Table) (i : String) :
    (r.ledger t).completed.get? i = t.get? (r.keySpace.completedKey i) :=
  r.get?_ledger t .completed i

theorem rawKey_ne {a b : KeySpace.Part} (h : a ≠ b) (j k : String) :
    r.keySpace.rawKey a j ≠ r.keySpace.rawKey b k :=
  fun e => h (KeySpace.rawKey_injective e).2.1

theorem view_insert_of_ne {a b : KeySpace.Part} (h : a ≠ b) (t : Table) (k : String) (v : Bytes) :
    Table.view (t.insert (r.keySpace.rawKey a k) v) (r.keySpace.startOf b) =
      t.view (r.keySpace.startOf b) := by
  apply Table.view_congr
  intro j
  exact SortedMap.get?_insert_of_ne v (r.rawKey_ne h.symm j k)

theorem view_erase_of_ne {a b : KeySpace.Part} (h : a ≠ b) (t : Table) (k : String) :
    Table.view (t.erase (r.keySpace.rawKey a k)) (r.keySpace.startOf b) =
      t.view (r.keySpace.startOf b) := by
  apply Table.view_congr
  intro j
  exact SortedMap.get?_erase_of_ne (r.rawKey_ne h.symm j k)

theorem rewrites_insert_live (t : Table) (k : String) (v : Bytes) :
    r.Rewrites t { r.ledger t with live := (r.ledger t).live.insert k v }
      (t.insert (r.keySpace.liveKey k) v) where
  ledger := congrArg₂ Ledger.mk (t.view_insert _ k v)
    (r.view_insert_of_ne (a := .live) (b := .completed) (by decide) t k v)
  elsewhere raw h := SortedMap.get?_insert_of_ne v (h .live k)

theorem rewrites_erase_completed (t : Table) (k : String) :
    r.Rewrites t { r.ledger t with completed := (r.ledger t).completed.erase k }
      (t.erase (r.keySpace.completedKey k)) where
  ledger := congrArg₂ Ledger.mk
    (r.view_erase_of_ne (a := .completed) (b := .live) (by decide) t k) (t.view_erase _ k)
  elsewhere raw h := SortedMap.get?_erase_of_ne (h .completed k)

theorem rewrites_handOff (t : Table) (key i : String) (v : Bytes) :
    r.Rewrites t ⟨(r.ledger t).live.erase key, (r.ledger t).completed.insert i v⟩
      (t.writeAll (r.handOff key i v)) where
  ledger := by
    refine congrArg₂ Ledger.mk ?_ ?_
    · exact (r.view_insert_of_ne (a := .completed) (b := .live) (by decide) _ i v).trans
        (t.view_erase _ key)
    · refine (Table.view_insert _ _ i v).trans ?_
      exact congrArg (·.insert i v)
        (r.view_erase_of_ne (a := .live) (b := .completed) (by decide) t key)
  elsewhere raw h := by
    refine (SortedMap.get?_insert_of_ne v (h .completed i)).trans ?_
    exact SortedMap.get?_erase_of_ne (h .live key)

theorem fetch_answers (h : s.Holds t) (raw : Bytes) (key : String) :
    s.Answers t t (.ok (t.get? raw)) (r.fetch raw key s) :=
  (h.get raw).mapError _

theorem fetchExchange_answers (h : s.Holds t) (raw : Bytes) (key : String) :
    s.Answers t t (Ledger.decode r key (t.get? raw)) (r.fetchExchange raw key s) := by
  rcases r.fetch_answers h raw key with ⟨s', hx, h', hl⟩ | ⟨hns, e, s', hx, h', hl⟩
  · refine Or.inl ⟨s', ?_, h', hl⟩
    cases hb : t.get? raw <;> simp [fetchExchange, hx, hb, Ledger.decode]
  · exact Or.inr ⟨hns, e, s', by simp [fetchExchange, hx], h', hl⟩

theorem get_answers (h : s.Holds t) (key : String) :
    s.Answers t t ((r.ledger t).get r key) (r.get key s) := by
  have hfetch := r.fetchExchange_answers h (r.keySpace.liveKey key) key
  rwa [← get?_live] at hfetch

theorem recover_answers (h : s.Holds t) (i : String) :
    s.Answers t t ((r.ledger t).recover r i) (r.recover i s) := by
  have hfetch := r.fetchExchange_answers h (r.keySpace.completedKey i) i
  rw [← get?_completed] at hfetch
  by_cases hr : r.settings.useRecovery = true
  · simpa only [recover, Ledger.recover, if_pos hr] using hfetch
  · rw [recover, Ledger.recover, if_neg hr, if_neg hr]
    exact Or.inl ⟨s, rfl, h, .refl s⟩

theorem recover_keeps {i : String} {x : Except RepositoryError (Option Exchange)} {s' : Shelf}
    (h : s.Holds t) (hx : r.recover i s = (x, s')) : s'.Holds t ∧ s.Like s' := by
  simpa [hx] using (r.recover_answers h i).keeps

theorem recover_told {i : String} {x : Option Exchange} {s' : Shelf} (h : s.Holds t)
    (hx : r.recover i s = (.ok x, s')) : (r.ledger t).recover r i = .ok x := by
  have ha := r.recover_answers h i
  rw [hx] at ha
  exact ha.told.1

theorem unmarshal_of_recover {b : Bytes} {i : String} {e : Exchange} {s' : Shelf} (h : s.Holds t)
    (hb : t.get? (r.keySpace.completedKey i) = some b) (hx : r.recover i s = (.ok (some e), s')) :
    r.unmarshal i b = .ok e := by
  have ha := r.recover_told h hx
  rw [Ledger.recover, r.get?_completed, hb] at ha
  split at ha
  · cases hu : r.unmarshal i b with
    | ok y => simpa [Ledger.decode, hu] using ha
    | error err => simp [Ledger.decode, hu] at ha
  · simp at ha

theorem recover_ne_none {b : Bytes} {i : String} {s' : Shelf} (h : s.Holds t)
    (hb : t.get? (r.keySpace.completedKey i) = some b) (hr : r.settings.useRecovery = true) :
    r.recover i s ≠ (.ok none, s') := by
  intro hx
  have ha := r.recover_told h hx
  rw [Ledger.recover, if_pos hr, r.get?_completed, hb] at ha
  cases hu : r.unmarshal i b with
  | ok y => simp [Ledger.decode, hu] at ha
  | error err => simp [Ledger.decode, hu] at ha

theorem confirm_erases (h : s.Holds t) (i : String) :
    s.Answers t (t.erase (r.keySpace.completedKey i)) (.ok ((r.ledger t).confirm i).1)
      (r.confirm i s) := by
  have hget := r.get?_completed t i
  rcases r.fetch_answers h (r.keySpace.completedKey i) i with
    ⟨s', hx, h', hl⟩ | ⟨hns, e, s', hx, h', hl⟩
  · cases hb : t.get? (r.keySpace.completedKey i) with
    | none =>
      refine Or.inl ⟨s', by simp [confirm, hx, hb, Ledger.confirm, SortedMap.contains, hget], ?_, hl⟩
      rwa [SortedMap.erase_of_get?_eq_none hb]
    | some b =>
      rcases h'.delete (r.keySpace.completedKey i) with
        ⟨s'', hd, h'', hl'⟩ | ⟨hns, e, s'', hd, h'', hl'⟩
      · refine Or.inl ⟨s'', ?_, h'', hl.trans hl'⟩
        simp [confirm, hx, hb, hd, Ledger.confirm, SortedMap.contains, hget]
      · refine Or.inr ⟨fun hs => hns (hl.sound hs), r.storeError i e, s'', ?_, h'', hl.trans hl'⟩
        simp [confirm, hx, hb, hd]
  · exact Or.inr ⟨hns, e, s', by simp [confirm, hx], h', hl⟩

theorem confirm_answers (h : s.Holds t) (i : String) :
    ∃ u, s.Answers t u (.ok ((r.ledger t).confirm i).1) (r.confirm i s) ∧
      r.Rewrites t ((r.ledger t).confirm i).2 u :=
  ⟨_, r.confirm_erases h i, r.rewrites_erase_completed t i⟩

theorem not_staged_of_confirm {u : Table} {b : Bytes} {i : String} {x : Bool} {s' : Shelf}
    (h : s.Holds t) (hx : r.confirm i s = (.ok x, s')) (hu : s'.Holds u) :
    u.get? (r.keySpace.completedKey i) ≠ some b := by
  obtain ⟨w, ha, hw⟩ := r.confirm_answers h i
  rw [hx] at ha
  rw [← get?_completed, hu.unique ha.told.2, hw.ledger, Ledger.confirm, SortedMap.get?_erase_self]
  exact nofun

theorem add_answers (h : s.Holds t) (hu : s.Unbounded) (key : String) (e : Exchange) :
    ∃ u, s.Answers t u ((r.ledger t).add r key e).1 (r.add key e s) ∧
      r.Rewrites t ((r.ledger t).add r key e).2 u := by
  cases hm : r.marshal key e with
  | error err =>
    refine ⟨t, Or.inl ⟨s, by simp [add, Ledger.add, hm], h, .refl s⟩, ?_⟩
    simpa [Ledger.add, hm] using r.rewrites_refl t
  | ok b =>
    have hlive := r.get?_live t key
    have hold : s.Answers t t
        (if r.settings.returnOld then Ledger.decode r key ((r.ledger t).live.get? key) else .ok none)
        (if r.settings.returnOld then r.fetchExchange (r.keySpace.liveKey key) key s
          else (.ok none, s)) := by
      split_ifs
      · rw [hlive]
        exact r.fetchExchange_answers h _ key
      · exact Or.inl ⟨s, rfl, h, .refl s⟩
    simp only [add, Ledger.add, hm]
    cases ha : (if r.settings.returnOld then Ledger.decode r key ((r.ledger t).live.get? key)
        else .ok none) with
    | error err =>
      refine ⟨t, ?_, r.rewrites_refl t⟩
      rcases hold with ⟨s', hx, h', hl⟩ | ⟨hns, e', s', hx, h', hl⟩
      · exact Or.inl ⟨s', by simp [hx, ha], h', hl⟩
      · exact Or.inr ⟨hns, e', s', by simp [hx], h', hl⟩
    | ok old =>
      refine ⟨_, ?_, r.rewrites_insert_live t key b⟩
      rcases hold with ⟨s', hx, h', hl⟩ | ⟨hns, e', s', hx, h', hl⟩
      · apply Shelf.Answers.of_like _ hl
        rcases h'.put (hl.unbounded hu) (r.keySpace.liveKey key) b with
          ⟨s'', hp, h'', hl'⟩ | ⟨hns, e', s'', hp, h'', hl'⟩
        · exact Or.inl ⟨s'', by simp [hx, ha, hp], h'', hl'⟩
        · exact Or.inr ⟨hns, r.storeError key e', s'', by simp [hx, ha, hp], h'', hl'⟩
      · exact Or.inr ⟨hns, e', s', by simp [hx], h', hl⟩

theorem remove_answers (h : s.Holds t) (hu : s.Unbounded) (key : String) (e : Exchange) :
    ∃ u, s.Answers t u ((r.ledger t).remove r key e).1 (r.remove key e s) ∧
      r.Rewrites t ((r.ledger t).remove r key e).2 u := by
  cases hm : r.marshal key e with
  | error err =>
    refine ⟨t, Or.inl ⟨s, by simp [remove, Ledger.remove, hm], h, .refl s⟩, ?_⟩
    simpa [Ledger.remove, hm] using r.rewrites_refl t
  | ok b =>
    have hlive := r.get?_live t key
    have hfetch := r.fetch_answers h (r.keySpace.liveKey key) key
    cases hv : t.get? (r.keySpace.liveKey key) with
    | none =>
      have hl : (r.ledger t).remove r key e = (.ok (), r.ledger t) := by
        simp [Ledger.remove, hm, SortedMap.contains, hlive, hv]
      rw [hl]
      refine ⟨t, ?_, r.rewrites_refl t⟩
      rcases hfetch with ⟨s', hx, h', hl⟩ | ⟨hns, e', s', hx, h', hl⟩
      · exact Or.inl ⟨s', by simp [remove, hm, hx, hv], h', hl⟩
      · exact Or.inr ⟨hns, e', s', by simp [remove, hm, hx], h', hl⟩
    | some v =>
      have hl : (r.ledger t).remove r key e =
          (.ok (), ⟨(r.ledger t).live.erase key, (r.ledger t).completed.insert e.id b⟩) := by
        simp [Ledger.remove, hm, SortedMap.contains, hlive, hv]
      rw [hl]
      refine ⟨_, ?_, r.rewrites_handOff t key e.id b⟩
      rcases hfetch with ⟨s', hx, h', hl⟩ | ⟨hns, e', s', hx, h', hl⟩
      · apply Shelf.Answers.of_like _ hl
        rcases h'.writeBatch (hl.unbounded hu) (b := r.handOff key e.id b) (by simp [handOff]) with
          ⟨s'', hw, h'', hl'⟩ | ⟨hns, e', s'', hw, h'', hl'⟩
        · exact Or.inl ⟨s'', by simp [remove, hm, hx, hv, hw, Except.mapError], h'', hl'⟩
        · exact Or.inr ⟨hns, r.storeError key e', s'',
            by simp [remove, hm, hx, hv, hw, Except.mapError], h'', hl'⟩
      · exact Or.inr ⟨hns, e', s', by simp [remove, hm, hx], h', hl⟩

theorem scan_answers (h : s.Holds t) (start : Bytes) :
    s.Answers t t (.ok (t.under start none)) (r.scan start s) :=
  (Cursor.collect_new_holds h start).mapError _

theorem keys_answers (h : s.Holds t) :
    s.Answers t t (.ok (r.ledger t).live.keys) (r.keys s) := by
  rw [ledger, Table.keys_view]
  exact (r.scan_answers h _).map _

theorem completed_answers (h : s.Holds t) :
    s.Answers t t (.ok (r.ledger t).completed.keys) (r.completed s) := by
  rw [ledger, Table.keys_view]
  exact (r.scan_answers h _).map _

theorem size_answers (h : s.Holds t) :
    s.Answers t t (.ok (t.under (r.keySpace.startOf .live) none).length) (r.size s) :=
  (r.scan_answers h _).map _

theorem completedSize_answers (h : s.Holds t) :
    s.Answers t t (.ok (t.under (r.keySpace.startOf .completed) none).length) (r.completedSize s) :=
  (r.scan_answers h _).map _

def idsOf (es : List Entry) : List String :=
  es.filterMap (fun e => r.keySpace.decodeCompleted? e.1)

theorem keys_completed (t : Table) :
    (r.ledger t).completed.keys = r.idsOf (r.completedCursor.rest t) := by
  rw [ledger, Table.keys_view, show r.completedCursor.rest t = _ from Cursor.rest_new _ t]
  rfl

theorem completedIds_go_spent {c : Cursor} (hc : c.Spent) (fuel count : Nat) (s : Shelf) :
    completedIds.go r fuel count c s = ([], s) := by
  cases fuel with
  | zero => simp [completedIds.go]
  | succ fuel => cases count <;> simp [completedIds.go, hc.next]

theorem completedIds_go_answers {c : Cursor} {fuel : Nat} (hc : c.Placed) (h : s.Holds t)
    (hf : (c.rest t).length < fuel) (count : Nat) :
    (∃ s', completedIds.go r fuel count c s =
        (((r.idsOf (c.rest t)).take count).map .ok, s') ∧ s'.Holds t ∧ s.Like s') ∨
      ¬ s.Sound ∧ ∃ l s', completedIds.go r fuel count c s = (l, s') ∧ (∃ e, .error e ∈ l) ∧
        s'.Holds t ∧ s.Like s' := by
  induction fuel generalizing c s count with
  | zero => omega
  | succ fuel ih =>
    cases count with
    | zero => exact Or.inl ⟨s, by simp [completedIds.go], h, .refl s⟩
    | succ count =>
      obtain ⟨c', s', hc', h', hl, -, hnext⟩ := Cursor.next_holds hc h
      rcases hnext with ⟨hn, hr⟩ | ⟨e, hn, hr⟩ | ⟨hns, hc'', e, hn⟩
      · exact Or.inl ⟨s', by simp [completedIds.go, hn, hr, idsOf], h', hl⟩
      · have hlen : (c'.rest t).length < fuel := by
          rw [hr, List.length_cons] at hf
          omega
        cases hd : r.keySpace.decodeCompleted? e.1 with
        | none =>
          rcases ih hc' h' hlen (count + 1) with ⟨s'', hx, h'', hl'⟩ | ⟨hns, l, s'', hx, he, h'', hl'⟩
          · refine Or.inl ⟨s'', ?_, h'', hl.trans hl'⟩
            simp [completedIds.go, hn, completedId?, hd, hx, hr, idsOf]
          · refine Or.inr ⟨fun hs => hns (hl.sound hs), l, s'', ?_, he, h'', hl.trans hl'⟩
            simp [completedIds.go, hn, completedId?, hd, hx]
        | some i =>
          rcases ih hc' h' hlen count with ⟨s'', hx, h'', hl'⟩ | ⟨hns, l, s'', hx, ⟨err, he⟩, h'', hl'⟩
          · refine Or.inl ⟨s'', ?_, h'', hl.trans hl'⟩
            simp [completedIds.go, hn, completedId?, hd, hx, hr, idsOf]
          · refine Or.inr ⟨fun hs => hns (hl.sound hs), .ok i :: l, s'', ?_,
              ⟨err, List.mem_cons_of_mem _ he⟩, h'', hl.trans hl'⟩
            simp [completedIds.go, hn, completedId?, hd, hx]
      · refine Or.inr ⟨hns, [.error (r.storeError allKeys e)], s', ?_, ⟨_, List.mem_singleton_self _⟩,
          h', hl⟩
        simp [completedIds.go, hn, completedId?, r.completedIds_go_spent hc'']

theorem completedIds_answers (h : s.Holds t) (count : Nat) :
    (∃ s', r.completedIds count s = (((r.ledger t).completed.keys.take count).map .ok, s') ∧
        s'.Holds t ∧ s.Like s') ∨
      ¬ s.Sound ∧ ∃ l s', r.completedIds count s = (l, s') ∧ (∃ e, .error e ∈ l) ∧
        s'.Holds t ∧ s.Like s' := by
  rw [keys_completed]
  apply r.completedIds_go_answers (Cursor.placed_new _) h
  have := Cursor.length_under_le s h r.keySpace.completedPrefix none
  rw [Cursor.rest_new]
  omega

theorem completedIds_keeps (h : s.Holds t) (count : Nat) :
    (r.completedIds count s).2.Holds t ∧ s.Like (r.completedIds count s).2 := by
  rcases r.completedIds_answers h count with ⟨s', hx, h', hl⟩ | ⟨_, l, s', hx, _, h', hl⟩
  · exact hx ▸ ⟨h', hl⟩
  · exact hx ▸ ⟨h', hl⟩

end Repository

def Answer.Failed : Answer → Prop
  | .exchange x => ∃ e, x = .error e
  | .done x => ∃ e, x = .error e
  | .flag x => ∃ e, x = .error e
  | .texts x => ∃ e, x = .error e
  | .yields l => ∃ e, .error e ∈ l
  | .number x => ∃ e, x = .error e

namespace Repository

variable (r : Repository) {s : Shelf} {t u : Table}

theorem run_completed (h : s.Holds t) (hu : s.Unbounded) (c : Call) (i : String) :
    ∃ u, (r.run s c).2.Holds u ∧ s.Like (r.run s c).2 ∧
      (u.get? (r.keySpace.completedKey i) = t.get? (r.keySpace.completedKey i) ∨
        (c = .confirm i ∧
          (r.run s c).1 = .flag (.ok (t.get? (r.keySpace.completedKey i)).isSome)) ∨
        ∃ key e b, c = .remove key e ∧ e.id = i ∧ (r.run s c).1 = .done (.ok ()) ∧
          r.marshal key e = .ok b ∧ u.get? (r.keySpace.completedKey i) = some b) := by
  have undone {s' : Shelf} {P : Table → Prop} (hs : s'.Holds t ∧ s.Like s') :
      ∃ u, s'.Holds u ∧ s.Like s' ∧
        (u.get? (r.keySpace.completedKey i) = t.get? (r.keySpace.completedKey i) ∨ P u) :=
    ⟨t, hs.1, hs.2, Or.inl rfl⟩
  cases c with
  | add key e =>
    obtain ⟨u, ha, hw⟩ := r.add_answers h hu key e
    obtain ⟨hl, ⟨-, hdone⟩ | hundone⟩ := ha.done_or_undone
    · refine ⟨u, hdone, hl, Or.inl ?_⟩
      rw [← get?_completed, ← get?_completed, hw.ledger, Ledger.completed_add]
    · exact undone ⟨hundone, hl⟩
  | get key => exact undone (r.get_answers h key).keeps
  | remove key e =>
    obtain ⟨u, ha, hw⟩ := r.remove_answers h hu key e
    obtain ⟨hl, ⟨hans, hdone⟩ | hundone⟩ := ha.done_or_undone
    · refine ⟨u, hdone, hl, ?_⟩
      rw [← get?_completed, ← get?_completed, hw.ledger]
      rcases (r.ledger t).get?_completed_remove r key e i with hsame | ⟨hi, hok, b, hm, hb⟩
      · exact Or.inl hsame
      · have hreply : (r.run s (.remove key e)).1 = .done (.ok ()) :=
          congrArg Answer.done (hans.trans hok)
        exact Or.inr (Or.inr ⟨key, e, b, rfl, hi, hreply, hm, hb⟩)
    · exact undone ⟨hundone, hl⟩
  | confirm j =>
    obtain ⟨u, ha, hw⟩ := r.confirm_answers h j
    obtain ⟨hl, ⟨hans, hdone⟩ | hundone⟩ := ha.done_or_undone
    · refine ⟨u, hdone, hl, ?_⟩
      rw [← get?_completed, ← get?_completed, hw.ledger]
      by_cases hj : i = j
      · subst hj
        exact Or.inr (Or.inl ⟨rfl, congrArg Answer.flag hans⟩)
      · exact Or.inl (SortedMap.get?_erase_of_ne hj)
    · exact undone ⟨hundone, hl⟩
  | recover j => exact undone (r.recover_answers h j).keeps
  | keys => exact undone (r.keys_answers h).keeps
  | completed => exact undone (r.completed_answers h).keeps
  | completedIds count => exact undone (r.completedIds_keeps h count)
  | size => exact undone (r.size_answers h).keeps
  | completedSize => exact undone (r.completedSize_answers h).keeps

theorem add_legible (h : s.Holds t) (key : String) (e : Exchange) :
    ∃ u, (r.add key e s).2.Holds u := by
  unfold add
  cases hm : r.marshal key e with
  | error err => exact ⟨t, h⟩
  | ok b =>
    have hold : (if r.settings.returnOld then r.fetchExchange (r.keySpace.liveKey key) key s
        else (.ok none, s)).2.Holds t := by
      split_ifs
      · exact (r.fetchExchange_answers h _ key).keeps.1
      · exact h
    rcases hx : (if r.settings.returnOld then r.fetchExchange (r.keySpace.liveKey key) key s
        else (.ok none, s)) with ⟨old, s'⟩
    rw [hx] at hold
    cases old with
    | error err => exact ⟨t, by simpa [hx] using hold⟩
    | ok old =>
      obtain ⟨u, hu⟩ := Shelf.put_legible hold (r.keySpace.liveKey key) b
      rcases hp : s'.put (r.keySpace.liveKey key) b with ⟨x, s''⟩
      rw [hp] at hu
      cases x with
      | ok _ => exact ⟨u, by simpa [hx, hp] using hu⟩
      | error err => exact ⟨u, by simpa [hx, hp] using hu⟩

theorem remove_legible (h : s.Holds t) (key : String) (e : Exchange) :
    ∃ u, (r.remove key e s).2.Holds u := by
  unfold remove
  cases hm : r.marshal key e with
  | error err => exact ⟨t, h⟩
  | ok b =>
    have hold := (r.fetch_answers h (r.keySpace.liveKey key) key).keeps.1
    rcases hx : r.fetch (r.keySpace.liveKey key) key s with ⟨x, s'⟩
    rw [hx] at hold
    rcases x with err | _ | v
    · exact ⟨t, by simpa [hx] using hold⟩
    · exact ⟨t, by simpa [hx] using hold⟩
    · obtain ⟨u, hu⟩ := Shelf.writeBatch_legible hold (b := r.handOff key e.id b) (by simp [handOff])
      exact ⟨u, by simpa [hx] using hu⟩

theorem run_legible (h : s.Holds t) (c : Call) : ∃ u, (r.run s c).2.Holds u := by
  cases c with
  | add key e => exact r.add_legible h key e
  | get key => exact ⟨t, (r.get_answers h key).keeps.1⟩
  | remove key e => exact r.remove_legible h key e
  | confirm i =>
    obtain ⟨u, ha, _⟩ := r.confirm_answers h i
    exact ha.legible
  | recover i => exact ⟨t, (r.recover_answers h i).keeps.1⟩
  | keys => exact ⟨t, (r.keys_answers h).keeps.1⟩
  | completed => exact ⟨t, (r.completed_answers h).keeps.1⟩
  | completedIds count => exact ⟨t, (r.completedIds_keeps h count).1⟩
  | size => exact ⟨t, (r.size_answers h).keeps.1⟩
  | completedSize => exact ⟨t, (r.completedSize_answers h).keeps.1⟩

end Repository

end Staging
