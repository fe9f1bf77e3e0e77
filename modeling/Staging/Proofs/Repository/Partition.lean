import Mathlib
import Staging.Proofs.KeySpace
import Staging.Proofs.Store.Cursor

namespace Staging

theorem Bytes.toString?_eq_none_iff {b : Bytes} :
    toString? b = none ↔ ¬ ByteArray.IsValidUTF8 ⟨b.toArray⟩ := by
  unfold toString? String.fromUTF8?
  split_ifs with h <;> simp [h]

namespace KeySpace

variable {k l : KeySpace} {a b : Part} {raw : Bytes}

theorem name_of_ofName {name : String} (h : ofName name = .ok k) : k.name = name := by
  unfold ofName at h
  cases hc : checkName name with
  | error e => simp [hc] at h
  | ok hn =>
    rw [hc] at h
    cases h
    rfl

theorem ofName_name (k : KeySpace) : ofName k.name = .ok k := by
  obtain ⟨name, h₁, h₂, h₃⟩ := k
  simp only [ofName, checkName, h₁, h₂, h₃, dif_neg, not_false_eq_true]
  rfl

def decode? (k : KeySpace) : Part → Bytes → Option String
  | .live => k.decodeLive?
  | .completed => k.decodeCompleted?

theorem decode?_eq (k : KeySpace) (a : Part) (raw : Bytes) :
    k.decode? a raw = Bytes.textAfter? (k.startOf a) raw := by
  cases a <;> rfl

theorem decode?_eq_some_iff {key : String} :
    k.decode? a raw = some key ↔ raw = k.rawKey a key := by
  rw [decode?_eq, Bytes.textAfter?_eq_some_iff, rawKey]

theorem decode?_eq_none_iff :
    k.decode? a raw = none ↔
      ∀ rest, raw = k.startOf a ++ rest → ¬ ByteArray.IsValidUTF8 ⟨rest.toArray⟩ := by
  simp only [decode?_eq, Bytes.textAfter?, Option.bind_eq_none_iff, Bytes.dropStart?_eq_some_iff,
    Bytes.toString?_eq_none_iff]

theorem eq_of_startsWith (hk : raw.startsWith (k.startOf a) = true)
    (hl : raw.startsWith (l.startOf b) = true) : k.name = l.name ∧ a = b := by
  obtain ⟨x, rfl⟩ := Bytes.startsWith_iff.mp hk
  obtain ⟨y, hy⟩ := Bytes.startsWith_iff.mp hl
  obtain ⟨hname, hab, -⟩ := startOf_append_injective hy
  exact ⟨hname, hab⟩

structure Unseen (l : KeySpace) (b : Part) (raw : Bytes) : Prop where
  unread : l.decode? b raw = none
  offPage : ∀ (s s' : Shelf) after limit page,
    s.scanPage (l.startOf b) after limit = (.ok page, s') → ∀ e ∈ page, e.1 ≠ raw
  unyielded : ∀ c, Cursor.Over (l.startOf b) c →
    ∀ s e, (c.next s).1 = some (.ok e) → e.1 ≠ raw

theorem unseen_of_not_startsWith (h : ¬ raw.startsWith (l.startOf b) = true) :
    l.Unseen b raw where
  unread := by
    rw [decode?_eq_none_iff]
    rintro rest rfl
    exact absurd (Bytes.startsWith_append ..) h
  offPage s s' after limit page hpage e he hraw :=
    h (hraw ▸ Shelf.startsWith_of_scanPage hpage e he)
  unyielded c hc s e he hraw := h (hraw ▸ (hc.within.next s).2 e he)

structure Separated (k l : KeySpace) : Prop where
  parts : ∀ (raw : Bytes) a b, raw.startsWith (k.startOf a) = true →
    raw.startsWith (l.startOf b) = true → k.name = l.name ∧ a = b
  keys : ∀ a b, ¬ (k.name = l.name ∧ a = b) → ∀ key, l.Unseen b (k.rawKey a key)

theorem separated (k l : KeySpace) : k.Separated l where
  parts _ _ _ := eq_of_startsWith
  keys _ _ hab _ :=
    unseen_of_not_startsWith fun hl => hab (eq_of_startsWith (Bytes.startsWith_append ..) hl)

structure Inverts (k : KeySpace) (a : Part) : Prop where
  written : ∀ key, k.decode? a (k.rawKey a key) = some key
  read : ∀ raw key, k.decode? a raw = some key ↔ raw = k.rawKey a key
  unread : ∀ raw, k.decode? a raw = none ↔
    ∀ rest, raw = k.startOf a ++ rest → ¬ ByteArray.IsValidUTF8 ⟨rest.toArray⟩

theorem inverts (k : KeySpace) (a : Part) : k.Inverts a where
  written _ := decode?_eq_some_iff.mpr rfl
  read _ _ := decode?_eq_some_iff
  unread _ := decode?_eq_none_iff

theorem ofName_partition {m n : String} (hm : ofName m = .ok k) (hn : ofName n = .ok l) :
    (k.name = m ∧ l.name = n) ∧
      (∀ p ∈ [k, l], ∀ q ∈ [k, l], p.Separated q) ∧ ∀ p ∈ [k, l], ∀ a, p.Inverts a :=
  ⟨⟨name_of_ofName hm, name_of_ofName hn⟩, fun p _ q _ => p.separated q, fun p _ => p.inverts⟩

def orders : KeySpace := ⟨"orders", isName_orders⟩

theorem isName_ordersCompletedV2 : IsName "orders-completed-v2" :=
  ⟨by decide, by decide +kernel, by decide +kernel⟩

def ordersCompletedV2 : KeySpace := ⟨"orders-completed-v2", isName_ordersCompletedV2⟩

theorem ofName_partition_ordersCompletedV2 :
    (ofName "orders" = .ok orders ∧ ofName "orders-completed-v2" = .ok ordersCompletedV2) ∧
      orders.decodeCompleted? (ordersCompletedV2.liveKey "") = none ∧
      ordersCompletedV2.decodeLive? (orders.completedKey "-v2\x00k") = none ∧
      orders.decodeCompleted? (orders.liveKey "-completed\x00k") = none ∧
      orders.decodeLive? (orders.liveKey "-completed\x00k") = some "-completed\x00k" := by
  have hm : ofName "orders" = .ok orders := orders.ofName_name
  have hn : ofName "orders-completed-v2" = .ok ordersCompletedV2 := ordersCompletedV2.ofName_name
  obtain ⟨-, hseparated, hinverts⟩ := ofName_partition hm hn
  have hk : orders ∈ [orders, ordersCompletedV2] := by simp
  have hl : ordersCompletedV2 ∈ [orders, ordersCompletedV2] := by simp
  have hname : orders.name ≠ ordersCompletedV2.name := by decide
  refine ⟨⟨hm, hn⟩, ?_, ?_, ?_, ?_⟩
  · exact ((hseparated _ hl _ hk).keys .live .completed (fun h => hname h.1.symm) "").unread
  · exact ((hseparated _ hk _ hl).keys .completed .live (fun h => hname h.1) _).unread
  · exact ((hseparated _ hk _ hk).keys .live .completed (by simp) _).unread
  · exact (hinverts _ hk .live).written _

end KeySpace

end Staging
