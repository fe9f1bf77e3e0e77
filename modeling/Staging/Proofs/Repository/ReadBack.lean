import Mathlib
import Staging.Proofs.Snapshot
import Staging.Proofs.Repository.Operations

namespace Staging

namespace Repository

variable (r : Repository) {s s' : Shelf} {t : Table} {key : String} {e : Exchange} {b : Bytes}

def comeback (key : String) (e : Exchange) : Except RepositoryError (Option Exchange) :=
  some <$> (Snapshot.reading r.settings.keepObjectHeaders e).mapError (.codec r.name key)

theorem snapshot_of_marshal (hc : r.codec = Snapshot.codec) (hm : r.marshal key e = .ok b) :
    Snapshot.marshal r.settings.keepObjectHeaders e = .ok b := by
  rw [marshal, hc] at hm
  change (Snapshot.marshal _ _).mapError _ = _ at hm
  cases h : Snapshot.marshal r.settings.keepObjectHeaders e with
  | error err =>
    rw [h] at hm
    cases hm
  | ok c =>
    rw [h] at hm
    cases hm
    rfl

theorem decode_of_unmarshal (hc : r.codec = Snapshot.codec)
    (hb : Snapshot.unmarshal b = Snapshot.reading r.settings.keepObjectHeaders e) :
    Ledger.decode r key (some b) = r.comeback key e := by
  rw [Ledger.decode, comeback, ← hb, unmarshal, hc]
  rfl

theorem ledger_add_of_ok {l : Ledger} {old : Option Exchange} (h : (l.add r key e).1 = .ok old) :
    ∃ b, r.marshal key e = .ok b ∧ (l.add r key e).2 = { l with live := l.live.insert key b } := by
  cases hm : r.marshal key e with
  | error err => simp [Ledger.add, hm] at h
  | ok b =>
    refine ⟨b, rfl, ?_⟩
    simp only [Ledger.add, hm] at h ⊢
    split at h
    · cases h
    · simp only

theorem ledger_remove_of_ok {l : Ledger} (h : (l.remove r key e).1 = .ok ())
    (hk : l.live.contains key = true) :
    ∃ b, r.marshal key e = .ok b ∧
      (l.remove r key e).2 = ⟨l.live.erase key, l.completed.insert e.id b⟩ := by
  cases hm : r.marshal key e with
  | error err => simp [Ledger.remove, hm] at h
  | ok b => exact ⟨b, rfl, by simp [Ledger.remove, hm, hk]⟩

theorem table_of_add {old : Option Exchange} (h : s.Holds t) (hu : s.Unbounded)
    (ha : r.add key e s = (.ok old, s')) :
    ∃ u b, s'.Holds u ∧ r.marshal key e = .ok b ∧ u.get? (r.keySpace.liveKey key) = some b := by
  obtain ⟨u, hans, hw⟩ := r.add_answers h hu key e
  rcases hans with ⟨s'', hx, h', -⟩ | ⟨_, err, s'', hx, _, _⟩
  · rw [ha] at hx
    obtain ⟨hold, rfl⟩ := Prod.mk.inj hx
    obtain ⟨b, hm, hl⟩ := r.ledger_add_of_ok hold.symm
    refine ⟨u, b, h', hm, ?_⟩
    rw [← get?_live, hw.ledger, hl, SortedMap.get?_insert_self]
  · rw [ha] at hx
    cases hx

theorem table_of_remove (h : s.Holds t) (hu : s.Unbounded)
    (hk : t.contains (r.keySpace.liveKey key) = true) (ha : r.remove key e s = (.ok (), s')) :
    ∃ u b, s'.Holds u ∧ r.marshal key e = .ok b ∧
      u.get? (r.keySpace.completedKey e.id) = some b := by
  obtain ⟨u, hans, hw⟩ := r.remove_answers h hu key e
  have hlive : (r.ledger t).live.contains key = true := by
    obtain ⟨v, hv⟩ := SortedMap.contains_iff.mp hk
    exact SortedMap.contains_iff.mpr ⟨v, (r.get?_live t key).trans hv⟩
  rcases hans with ⟨s'', hx, h', -⟩ | ⟨_, err, s'', hx, _, _⟩
  · rw [ha] at hx
    obtain ⟨hold, rfl⟩ := Prod.mk.inj hx
    obtain ⟨b, hm, hl⟩ := r.ledger_remove_of_ok hold.symm hlive
    refine ⟨u, b, h', hm, ?_⟩
    rw [← get?_completed, hw.ledger, hl, SortedMap.get?_insert_self]
  · rw [ha] at hx
    cases hx

theorem accepted_comesBack (hc : r.codec = Snapshot.codec) (h : s.Holds t) (hu : s.Unbounded)
    (key : String) (e : Exchange)
    (hx : Json.Reread (Snapshot.toJson (e.kept r.settings.keepObjectHeaders)).floats) :
    (∀ old s', r.add key e s = (.ok old, s') →
      ∃ u b, s'.Holds u ∧ u.get? (r.keySpace.liveKey key) = some b ∧
        Snapshot.unmarshal b = Snapshot.reading r.settings.keepObjectHeaders e ∧
        s'.Answers u u (r.comeback key e) (r.get key s')) ∧
    (∀ s', t.contains (r.keySpace.liveKey key) = true → r.remove key e s = (.ok (), s') →
      ∃ u b, s'.Holds u ∧ u.get? (r.keySpace.completedKey e.id) = some b ∧
        Snapshot.unmarshal b = Snapshot.reading r.settings.keepObjectHeaders e ∧
        (r.settings.useRecovery = true →
          s'.Answers u u (r.comeback e.id e) (r.recover e.id s'))) := by
  constructor
  · intro old s' ha
    obtain ⟨u, b, h', hm, hb⟩ := r.table_of_add h hu ha
    have hread := Snapshot.unmarshal_marshal (r.snapshot_of_marshal hc hm) hx
    refine ⟨u, b, h', hb, hread, ?_⟩
    have hget := r.get_answers h' key
    rwa [Ledger.get, get?_live, hb, r.decode_of_unmarshal hc hread] at hget
  · intro s' hk ha
    obtain ⟨u, b, h', hm, hb⟩ := r.table_of_remove h hu hk ha
    have hread := Snapshot.unmarshal_marshal (r.snapshot_of_marshal hc hm) hx
    refine ⟨u, b, h', hb, hread, ?_⟩
    intro hr
    have hrec := r.recover_answers h' e.id
    rwa [Ledger.recover, if_pos hr, get?_completed, hb, r.decode_of_unmarshal hc hread] at hrec

def nested : Nat → Json
  | 0 => .number (.float ⟨false, 0x10000000000000, -53, by decide⟩)
  | n + 1 => .array [nested n]

theorem canonical_nested (n : Nat) : (nested n).Canonical := by
  induction n with
  | zero => trivial
  | succ n ih => exact ⟨ih, trivial⟩

def nestedExchange (n : Nat) : Exchange :=
  ⟨"m", ⟨2024, 2, 29, 23, 59, 60, 0, by decide, by decide⟩, ⟨nested n, canonical_nested n⟩, .empty,
    .empty⟩

theorem depth_nested (n : Nat) : (nested n).depth = n := by
  induction n with
  | zero => rfl
  | succ n ih => simp [nested, Json.depth, Json.depthItems, ih]

theorem reread_nested (n : Nat) : Json.Reread (nested n).floats := by
  induction n with
  | zero =>
    intro x hx
    rw [List.mem_singleton.mp hx]
    rfl
  | succ n ih => simpa [nested, Json.floats, Json.floatsItems] using ih

theorem reread_nestedExchange (n : Nat) :
    Json.Reread (Snapshot.toJson ((nestedExchange n).kept false)).floats := by
  have hfloats : (Snapshot.toJson ((nestedExchange n).kept false)).floats = (nested n).floats := by
    change [] ++ ([] ++ ([] ++ ((nested n).floats ++ ([] ++ ([] ++ []))))) = _
    simp
  rw [hfloats]
  exact reread_nested n

theorem reading_nestedExchange (n : Nat) :
    Snapshot.reading false (nestedExchange n) =
      if n ≤ 126 then .ok (nestedExchange n) else .error (.json .malformed) := by
  have hkept : (nestedExchange n).kept false = nestedExchange n := rfl
  have hfits : (nestedExchange n).Fits ↔ n ≤ 126 := by
    constructor
    · intro h
      have hb := h.body
      rwa [show (nestedExchange n).body.json = nested n from rfl, depth_nested] at hb
    · intro h
      have hempty : Headers.Fits .empty := fun p hp => absurd hp List.not_mem_nil
      refine ⟨?_, hempty, hempty⟩
      rwa [show (nestedExchange n).body.json = nested n from rfl, depth_nested]
  rw [Snapshot.reading, hkept]
  simp only [hfits]

theorem accepted_comesBack_nested :
    let r : Repository := ⟨.named "orders", ⟨"orders", KeySpace.isName_orders⟩, Snapshot.codec⟩
    let s := (Shelf.openStore ⟨.memory .new, .empty, .none⟩).2
    (r.codec = Snapshot.codec ∧ s.Holds .empty ∧ s.Unbounded ∧
      ∀ n, Json.Reread (Snapshot.toJson ((nestedExchange n).kept false)).floats) ∧
      (∃ s', r.add "k" (nestedExchange 126) s = (.ok none, s') ∧
        (r.get "k" s').1 = .ok (some (nestedExchange 126))) ∧
      ∃ s', r.add "k" (nestedExchange 127) s = (.ok none, s') ∧
        (r.get "k" s').1 = .error (.codec "orders" "k" (.json .malformed)) := by
  intro r s
  have back (n : Nat) : ∃ s', r.add "k" (nestedExchange n) s = (.ok none, s') ∧
      (r.get "k" s').1 = some <$> (Snapshot.reading false (nestedExchange n)).mapError
        (.codec "orders" "k") := by
    obtain ⟨u, b, -, -, -, hans⟩ := (accepted_comesBack r rfl (s := s) (t := .empty) rfl rfl "k"
      (nestedExchange n) (reread_nestedExchange n)).1 none _ rfl
    refine ⟨_, rfl, ?_⟩
    rcases hans with ⟨s'', hx, -, -⟩ | ⟨hns, -⟩
    · exact congrArg Prod.fst hx
    · exact absurd ⟨rfl, id, fun _ _ => rfl⟩ hns
  refine ⟨⟨rfl, rfl, rfl, reread_nestedExchange⟩, ?_, ?_⟩
  · obtain ⟨s', ha, hg⟩ := back 126
    rw [reading_nestedExchange, if_pos (by decide)] at hg
    exact ⟨s', ha, hg⟩
  · obtain ⟨s', ha, hg⟩ := back 127
    rw [reading_nestedExchange, if_neg (by decide)] at hg
    exact ⟨s', ha, hg⟩

end Repository

end Staging
