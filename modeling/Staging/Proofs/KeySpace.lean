import Mathlib
import Staging.KeySpace
import Staging.Proofs.Store.Paging

namespace Staging

namespace KeySpace

inductive Part
  | live
  | completed
deriving DecidableEq

def startOf (k : KeySpace) : Part → Bytes
  | .live => k.livePrefix
  | .completed => k.completedPrefix

def rawKey (k : KeySpace) (a : Part) (key : String) : Bytes := k.startOf a ++ Bytes.ofString key

def partName (k : KeySpace) : Part → String
  | .live => k.name
  | .completed => k.completedName

theorem startOf_append (k : KeySpace) (a : Part) (x : Bytes) :
    k.startOf a ++ x = Bytes.ofString (k.partName a) ++ separator :: x := by
  cases a <;> simp [startOf, partName, livePrefix, completedPrefix]

theorem separator_notMem_suffix : separator ∉ Bytes.ofString completedSuffix := by decide +kernel

theorem separator_notMem (k : KeySpace) (a : Part) : separator ∉ Bytes.ofString (k.partName a) := by
  cases a with
  | live => exact k.isName.noSeparator
  | completed =>
    rw [partName, completedName, Bytes.ofString_append, List.mem_append]
    exact not_or.mpr ⟨k.isName.noSeparator, separator_notMem_suffix⟩

theorem partName_injective {k l : KeySpace} {a b : Part} (h : k.partName a = l.partName b) :
    k.name = l.name ∧ a = b := by
  have noSuffix (k l : KeySpace) : k.name ≠ l.completedName := by
    intro h
    apply k.isName.noSuffix
    rw [h, completedName, Bytes.ofString_append]
    exact List.suffix_append ..
  cases a with
  | live =>
    cases b with
    | live => exact ⟨h, rfl⟩
    | completed => exact absurd h (noSuffix k l)
  | completed =>
    cases b with
    | live => exact absurd h.symm (noSuffix l k)
    | completed =>
      refine ⟨Bytes.ofString_injective ?_, rfl⟩
      have hbytes := congrArg Bytes.ofString h
      simp only [partName, completedName, Bytes.ofString_append] at hbytes
      exact List.append_cancel_right hbytes

theorem append_separator_injective {m n x y : Bytes} (hm : separator ∉ m) (hn : separator ∉ n)
    (h : m ++ separator :: x = n ++ separator :: y) : m = n ∧ x = y := by
  induction m generalizing n with
  | nil =>
    cases n with
    | nil => exact ⟨rfl, (List.cons.inj h).2⟩
    | cons c n => exact absurd (List.cons.inj h).1 (List.ne_of_not_mem_cons hn)
  | cons b m ih =>
    cases n with
    | nil => exact absurd (List.cons.inj h).1.symm (List.ne_of_not_mem_cons hm)
    | cons c n =>
      obtain ⟨rfl, htail⟩ := List.cons.inj h
      obtain ⟨rfl, hxy⟩ :=
        ih (List.not_mem_of_not_mem_cons hm) (List.not_mem_of_not_mem_cons hn) htail
      exact ⟨rfl, hxy⟩

theorem startOf_append_injective {k l : KeySpace} {a b : Part} {x y : Bytes}
    (h : k.startOf a ++ x = l.startOf b ++ y) : k.name = l.name ∧ a = b ∧ x = y := by
  rw [startOf_append, startOf_append] at h
  obtain ⟨hname, hxy⟩ :=
    append_separator_injective (k.separator_notMem a) (l.separator_notMem b) h
  obtain ⟨hname, hab⟩ := partName_injective (Bytes.ofString_injective hname)
  exact ⟨hname, hab, hxy⟩

theorem rawKey_injective {k l : KeySpace} {a b : Part} {x y : String}
    (h : k.rawKey a x = l.rawKey b y) : k.name = l.name ∧ a = b ∧ x = y := by
  obtain ⟨hname, hab, hxy⟩ := startOf_append_injective h
  exact ⟨hname, hab, Bytes.ofString_injective hxy⟩

theorem completedKey_injective {k : KeySpace} {i j : String}
    (h : k.completedKey i = k.completedKey j) : i = j :=
  (rawKey_injective (a := .completed) (b := .completed) h).2.2

theorem isName_orders : IsName "orders" := ⟨by decide, by decide +kernel, by decide +kernel⟩

end KeySpace

def Bytes.textAfter? (start raw : Bytes) : Option String :=
  (Bytes.dropStart? start raw).bind Bytes.toString?

theorem Bytes.textAfter?_eq_some_iff {start raw : Bytes} {k : String} :
    textAfter? start raw = some k ↔ raw = start ++ ofString k := by
  rw [textAfter?, Option.bind_eq_some_iff]
  constructor
  · rintro ⟨r, hr, hk⟩
    rw [dropStart?_eq_some_iff.mp hr, ofString_of_toString? hk]
  · rintro rfl
    exact ⟨ofString k, dropStart?_append .., toString?_ofString k⟩

namespace Table

variable {t : Table} {start : Bytes}

def readEntry (start : Bytes) (e : Entry) : Option (String × Bytes) :=
  (Bytes.textAfter? start e.1).map (·, e.2)

theorem readEntry_eq_some_iff {e : Entry} {k : String} {v : Bytes} :
    readEntry start e = some (k, v) ↔ e = (start ++ Bytes.ofString k, v) := by
  obtain ⟨raw, w⟩ := e
  simp [readEntry, Bytes.textAfter?_eq_some_iff]

def view (t : Table) (start : Bytes) : SortedMap String Bytes where
  entries := (t.under start none).filterMap (readEntry start)
  ascending := by
    refine List.pairwise_filterMap.mpr ((under_ascending none).imp ?_)
    rintro e f hef ⟨j, v⟩ hj ⟨k, w⟩ hk
    cases readEntry_eq_some_iff.mp hj
    cases readEntry_eq_some_iff.mp hk
    exact Bytes.ofString_lt_ofString.mp (Bytes.append_lt_append_iff.mp hef)

theorem get?_view (t : Table) (start : Bytes) (k : String) :
    (t.view start).get? k = t.get? (start ++ Bytes.ofString k) := by
  apply Option.ext
  intro v
  rw [← SortedMap.mem_entries, view, List.mem_filterMap]
  simp only [readEntry_eq_some_iff, exists_eq_right, mem_under, Bytes.startsWith_append,
    Option.all_none, and_true]

theorem keys_view (t : Table) (start : Bytes) :
    (t.view start).keys =
      (t.under start none).filterMap (fun e => Bytes.textAfter? start e.1) := by
  simp only [SortedMap.keys, view, List.map_filterMap]
  apply List.filterMap_congr
  intro e _
  cases h : Bytes.textAfter? start e.1 <;> simp [readEntry, h]

theorem view_insert (t : Table) (start : Bytes) (k : String) (v : Bytes) :
    view (t.insert (start ++ Bytes.ofString k) v) start = (t.view start).insert k v := by
  apply SortedMap.ext_get?
  intro j
  rw [get?_view, SortedMap.get?_insert, SortedMap.get?_insert, get?_view]
  by_cases hj : j = k
  · rw [hj, if_pos rfl, if_pos rfl]
  · rw [if_neg hj, if_neg]
    exact fun h => hj (Bytes.ofString_injective (List.append_cancel_left h))

theorem view_erase (t : Table) (start : Bytes) (k : String) :
    view (t.erase (start ++ Bytes.ofString k)) start = (t.view start).erase k := by
  apply SortedMap.ext_get?
  intro j
  rw [get?_view, SortedMap.get?_erase, SortedMap.get?_erase, get?_view]
  by_cases hj : j = k
  · rw [hj, if_pos rfl, if_pos rfl]
  · rw [if_neg hj, if_neg]
    exact fun h => hj (Bytes.ofString_injective (List.append_cancel_left h))

theorem view_congr {u : Table}
    (h : ∀ k, u.get? (start ++ Bytes.ofString k) = t.get? (start ++ Bytes.ofString k)) :
    u.view start = t.view start := by
  apply SortedMap.ext_get?
  intro k
  rw [get?_view, get?_view, h]

end Table

end Staging
