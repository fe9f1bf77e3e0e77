import Mathlib
import Staging.Proofs.Store.Cursor

namespace Staging

inductive Write
  | put (key value : Bytes)
  | delete (key : Bytes)
  | batch (b : Batch)
deriving DecidableEq

namespace Shelf

def write (s : Shelf) : Write → Shelf
  | .put key value => (s.put key value).2
  | .delete key => (s.delete key).2
  | .batch b => (s.writeBatch b).2

theorem writeBatch_nil_legible {s : Shelf} {t : Table} (h : s.Holds t) :
    ∃ u, (s.writeBatch []).2.Holds u := by
  apply change_legible h
  intro _
  rcases s.call_cases .batch (change (·.writeBatch []) (·.writeBatch · [])) with hx | ⟨_, e, hx⟩
  · obtain ⟨backend, disk, faults⟩ := s
    cases backend with
    | memory m => exact ⟨_, by rw [hx]; rfl⟩
    | durable d =>
      have hd : d.writeBatch disk [] = (.ok (), d, disk) := by
        simp [DurableStore.writeBatch, h.1]
      have hsame : (change (·.writeBatch []) (·.writeBatch · [])
          (counted ⟨.durable d, disk, faults⟩ .batch)).2 =
            counted ⟨.durable d, disk, faults⟩ .batch := by
        simp [change, counted, hd]
      refine ⟨t, ?_⟩
      rw [hx, hsame]
      exact h
  · exact ⟨t, by rw [hx]; exact h⟩

theorem write_legible {s : Shelf} {t : Table} (h : s.Holds t) (w : Write) :
    ∃ u, (s.write w).Holds u := by
  cases w with
  | put key value => exact put_legible h key value
  | delete key => exact (h.delete key).legible
  | batch b =>
    rcases eq_or_ne b [] with rfl | hb
    · exact writeBatch_nil_legible h
    · exact writeBatch_legible h hb

theorem writes_legible {s : Shelf} {t : Table} (h : s.Holds t) (ws : List Write) :
    ∃ u, (ws.foldl write s).Holds u := by
  induction ws generalizing s t with
  | nil => exact ⟨t, h⟩
  | cons w ws ih =>
    obtain ⟨u, hu⟩ := write_legible h w
    exact ih hu

end Shelf

namespace Cursor

def Fetches (c : Cursor) : Prop := c.buffer = [] ∧ c.exhausted = false

instance (c : Cursor) : Decidable c.Fetches := inferInstanceAs (Decidable (_ ∧ _))

inductive Nexts (c : Cursor) (t : Table) : Option (Except StoreError Entry) → Cursor → Prop
  | popped {e : Entry} {r : List Entry} (hb : c.buffer = e :: r) :
      Nexts c t (some (.ok e)) (c.popped e r)
  | spent (hc : c.Spent) : Nexts c t none c
  | turned {e : Entry} {r : List Entry} (hf : c.Fetches)
      (hp : (t.under c.start c.lastKey).take c.pageSize = e :: r) :
      Nexts c t (some (.ok e)) ((c.refilled (e :: r)).popped e r)
  | ended (hf : c.Fetches) (hp : (t.under c.start c.lastKey).take c.pageSize = []) :
      Nexts c t none (c.refilled [])
  | failed (hf : c.Fetches) (e : StoreError) :
      Nexts c t (some (.error e)) { c with exhausted := true }

theorem nexts_of_scanPage {c : Cursor} {s : Shelf} {t : Table}
    (h : (s.scanPage c.start c.lastKey c.pageSize).1 =
        .ok ((t.under c.start c.lastKey).take c.pageSize) ∨
      ∃ e, (s.scanPage c.start c.lastKey c.pageSize).1 = .error e) :
    c.Nexts t (c.next s).1 (c.next s).2.1 := by
  cases hb : c.buffer with
  | cons e r =>
    have hn : c.next s = (some (.ok e), c.popped e r, s) := by simp [next, hb, pop_cons hb]
    rw [hn]
    exact .popped hb
  | nil =>
    cases hx : c.exhausted with
    | true =>
      rw [Spent.next ⟨hb, hx⟩]
      exact .spent ⟨hb, hx⟩
    | false =>
      generalize hpage : s.scanPage c.start c.lastKey c.pageSize = page at h
      obtain ⟨x, s'⟩ := page
      rcases h with rfl | ⟨e, rfl⟩
      · cases hp : (t.under c.start c.lastKey).take c.pageSize with
        | nil =>
          have hn : c.next s = (none, c.refilled [], s') := by
            simp [next, hb, hx, hpage, hp, pop, refilled]
          rw [hn]
          exact .ended ⟨hb, hx⟩ hp
        | cons e r =>
          have hn : c.next s = (some (.ok e), (c.refilled (e :: r)).popped e r, s') := by
            simp [next, hb, hx, hpage, hp, pop, refilled, popped]
          rw [hn]
          exact .turned ⟨hb, hx⟩ hp
      · have hn : c.next s = (some (.error e), { c with exhausted := true }, s') := by
          simp [next, hb, hx, hpage]
        rw [hn]
        exact .failed ⟨hb, hx⟩ e

theorem next_cases {c : Cursor} {s : Shelf} {t : Table} (hc : c.Placed) (h : s.Holds t) :
    c.Nexts t (c.next s).1 (c.next s).2.1 := by
  apply nexts_of_scanPage
  rcases h.scanPage hc.lastKey c.pageSize with ⟨s', hpage, _⟩ | ⟨_, e, s', hpage, _⟩
  · exact .inl (congrArg Prod.fst hpage)
  · exact .inr ⟨e, congrArg Prod.fst hpage⟩

def Ordered (c : Cursor) : Prop := (c.lastKey.toList ++ c.buffer.map (·.1)).Pairwise (· < ·)

section Nexts

variable {c c' : Cursor} {t : Table} {x : Option (Except StoreError Entry)} {e : Entry}

theorem Nexts.ordered (h : c.Nexts t x c') (hc : c.Ordered) : c'.Ordered := by
  cases h with
  | popped hb =>
    rw [Ordered, hb] at hc
    exact hc.sublist (List.sublist_append_right _ _)
  | spent _ => exact hc
  | turned hf hp =>
    have hpage : (t.under c.start c.lastKey).take c.pageSize |>.Pairwise (fun a b => a.1 < b.1) :=
      (Table.under_ascending _).sublist (List.take_sublist _ _)
    rw [hp] at hpage
    exact List.pairwise_map.mpr hpage
  | ended hf _ =>
    rw [Ordered, hf.1] at hc
    exact hc
  | failed _ _ => exact hc

theorem Nexts.yields (h : c.Nexts t (some (.ok e)) c') (hc : c.Ordered) :
    c.lastKey.all (· < e.1) = true ∧ c'.lastKey = some e.1 := by
  cases h with
  | popped hb =>
    refine ⟨?_, rfl⟩
    rw [Ordered, hb, List.map_cons, List.pairwise_append] at hc
    rw [Option.all_eq_true_iff_get]
    intro hk
    exact decide_eq_true (hc.2.2 _ (by simp) e.1 (by simp))
  | turned hf hp =>
    have he : e ∈ t.under c.start c.lastKey := List.mem_of_mem_take (hp ▸ List.mem_cons_self)
    exact ⟨(Table.mem_under.mp he).2.2, rfl⟩

theorem Nexts.startsWith (h : c.Nexts t (some (.ok e)) c') (hc : c.Placed) :
    e.1.startsWith c.start = true := by
  cases h with
  | popped hb => exact hc.buffer e (by simp [hb])
  | turned hf hp =>
    have he : e ∈ t.under c.start c.lastKey := List.mem_of_mem_take (hp ▸ List.mem_cons_self)
    exact (Table.mem_under.mp he).2.1

theorem Nexts.lastKey_le (h : c.Nexts t x c') (hc : c.Ordered) {k : Bytes}
    (hk : c.lastKey = some k) : ∃ k', c'.lastKey = some k' ∧ k ≤ k' := by
  rcases hx : x with _ | ⟨err | e⟩
  · cases h <;> first | exact ⟨k, hk, Std.le_refl _⟩ | cases hx
  · cases h <;> first | exact ⟨k, hk, Std.le_refl _⟩ | cases hx
  · subst hx
    obtain ⟨hlt, hlast⟩ := h.yields hc
    rw [hk] at hlt
    exact ⟨e.1, hlast, Std.le_of_lt (of_decide_eq_true hlt)⟩

theorem Nexts.spent_of_none (h : c.Nexts t none c') (hc : c.Placed) : c'.Spent := by
  cases h with
  | spent hs => exact hs
  | ended hf _ => exact ⟨rfl, by simpa [refilled] using hc.pageSize⟩

theorem Nexts.spent_of_error {err : StoreError} (h : c.Nexts t (some (.error err)) c') :
    c'.Spent := by
  cases h with
  | failed hf => exact ⟨hf.1, rfl⟩

theorem Nexts.held (h : c.Nexts t x c') {a : Entry}
    (ha : x = some (.ok a) ∨ a ∈ c'.buffer) :
    (a ∈ c.buffer ∧ ¬ c.Fetches) ∨ (c.Fetches ∧ a ∈ t.entries) := by
  cases h with
  | popped hb =>
    left
    refine ⟨?_, fun hf => by simp [hf.1] at hb⟩
    rw [hb, List.mem_cons]
    rcases ha with ha | ha
    · cases ha
      exact Or.inl rfl
    · exact Or.inr ha
  | spent hs => simp [hs.1] at ha
  | @turned e r hf hp =>
    right
    have hmem : a ∈ e :: r := by
      rw [List.mem_cons]
      rcases ha with ha | ha
      · cases ha
        exact Or.inl rfl
      · exact Or.inr ha
    exact ⟨hf, (List.mem_filter.mp (List.mem_of_mem_take (hp ▸ hmem))).1⟩
  | ended hf _ => simp [refilled] at ha
  | failed hf _ => simp [hf.1] at ha

end Nexts

end Cursor

structure Scan where
  cursor : Cursor
  shelf : Shelf

namespace Scan

def begin (s : Shelf) (start : Bytes) (pageSize : Nat) : Scan :=
  ⟨(Cursor.new start).withPageSize pageSize, s⟩

def found (x : Scan) : Option (Except StoreError Entry) := (x.cursor.next x.shelf).1

def step (x : Scan) : Scan := ⟨(x.cursor.next x.shelf).2.1, (x.cursor.next x.shelf).2.2⟩

def written (x : Scan) (ws : List Write) : Scan := { x with shelf := ws.foldl Shelf.write x.shelf }

/-- The scan as its call number `n` meets it, when `ws n` is written right before that call. -/
def before (x : Scan) (ws : Nat → List Write) : Nat → Scan
  | 0 => x.written (ws 0)
  | n + 1 => (x.before ws n).step.written (ws (n + 1))

def Yields (x : Scan) (e : Entry) : Prop := x.found = some (.ok e)

def Fails (x : Scan) : Prop := ∃ e, x.found = some (.error e)

instance (x : Scan) : Decidable x.Fails :=
  match h : x.found with
  | some (.error e) => isTrue ⟨e, h⟩
  | some (.ok _) | none => isFalse (by rintro ⟨e, he⟩; simp [h] at he)

def Has (x : Scan) (key : Bytes) : Prop := key ∈ x.shelf.entries.map (·.1)

instance (x : Scan) (key : Bytes) : Decidable (x.Has key) := inferInstanceAs (Decidable (_ ∈ _))

structure FromPage (scan : Nat → Scan) (i j : Nat) (a : Entry) : Prop where
  fetches : (scan j).cursor.Fetches
  last : ∀ k, j < k → k ≤ i → ¬ (scan k).cursor.Fetches
  mem : a ∈ (scan j).shelf.entries

structure Sweeps (start : Bytes) (scan : Nat → Scan) : Prop where
  ascending : ∀ i j a b, i < j → (scan i).Yields a → (scan j).Yields b → a.1 < b.1
  under : ∀ i a, (scan i).Yields a → a.1.startsWith start = true
  fetched : ∀ i a, (scan i).Yields a → ∃ j ≤ i, FromPage scan i j a
  finished : ∀ i j, (scan i).found = none → i ≤ j → (scan j).found = none
  complete : ∀ n key, (∀ i < n, ¬ (scan i).Fails) → (scan n).found = none →
    key.startsWith start = true → (∀ i ≤ n, (scan i).Has key) →
    ∃! i, i < n ∧ ∃ value, (scan i).Yields (key, value)

structure Sound (start : Bytes) (x : Scan) : Prop where
  start_eq : x.cursor.start = start
  placed : x.cursor.Placed
  ordered : x.cursor.Ordered
  legible : ∃ t, x.shelf.Holds t

variable {start : Bytes} {x : Scan} {t : Table}

theorem sound_begin {s : Shelf} (h : s.Holds t) (start : Bytes) (pageSize : Nat) :
    (begin s start pageSize).Sound start where
  start_eq := rfl
  placed := by
    refine ⟨?_, rfl, ?_⟩
    · simp [begin, Cursor.withPageSize]
    · simp [begin, Cursor.withPageSize, Cursor.new]
  ordered := .nil
  legible := ⟨t, h⟩

theorem rest_begin {s : Shelf} (h : s.Holds t) (start : Bytes) (pageSize : Nat) :
    (begin s start pageSize).cursor.rest t = s.entries.filter (·.1.startsWith start) := by
  simp [begin, Cursor.withPageSize, Cursor.new, Cursor.rest, Cursor.frontier, Table.under,
    h.entries_eq]

theorem Sound.written (h : x.Sound start) (ws : List Write) : (x.written ws).Sound start := by
  obtain ⟨t, ht⟩ := h.legible
  exact ⟨h.start_eq, h.placed, h.ordered, Shelf.writes_legible ht ws⟩

theorem Sound.nexts (h : x.Sound start) (ht : x.shelf.Holds t) :
    x.cursor.Nexts t x.found x.step.cursor :=
  Cursor.next_cases h.placed ht

theorem Sound.nexts_of_found (h : x.Sound start) {y : Option (Except StoreError Entry)}
    (hy : x.found = y) : ∃ t, x.shelf.Holds t ∧ x.cursor.Nexts t y x.step.cursor := by
  obtain ⟨t, ht⟩ := h.legible
  exact ⟨t, ht, hy ▸ h.nexts ht⟩

theorem Sound.step (h : x.Sound start) : x.step.Sound start := by
  obtain ⟨t, ht⟩ := h.legible
  obtain ⟨hplaced, hstart, hholds⟩ := h.placed.next ht rfl
  exact ⟨hstart.trans h.start_eq, hplaced, (h.nexts ht).ordered h.ordered, t, hholds⟩

theorem Sound.before (h : x.Sound start) (ws : Nat → List Write) (n : Nat) :
    (x.before ws n).Sound start := by
  induction n with
  | zero => exact h.written (ws 0)
  | succ n ih => exact ih.step.written (ws (n + 1))

theorem Sound.rest (h : x.Sound start) (ht : x.shelf.Holds t) :
    (x.found = none ∧ x.cursor.rest t = []) ∨
      (∃ e, x.Yields e ∧ x.cursor.rest t = e :: x.step.cursor.rest t) ∨ x.Fails := by
  exact h.placed.told ht rfl

theorem Sound.rest_step (h : x.Sound start) (ht : x.shelf.Holds t) (hf : ¬ x.Fails) :
    x.found = (x.cursor.rest t).head?.map .ok ∧
      x.step.cursor.rest t = (x.cursor.rest t).tail := by
  rcases h.rest ht with ⟨hn, hr⟩ | ⟨e, he, hr⟩ | he
  · have hnexts := h.nexts ht
    rw [hn] at hnexts
    obtain ⟨hbuffer, hexhausted⟩ := hnexts.spent_of_none h.placed
    have hend : x.step.cursor.rest t = [] := by simp [Cursor.rest, hbuffer, hexhausted]
    simp [hn, hr, hend]
  · exact ⟨by rw [he, hr]; rfl, by rw [hr]; rfl⟩
  · exact absurd he hf

theorem get?_of_has (ht : x.shelf.Holds t) {key : Bytes} (hhas : x.Has key) :
    ∃ value, t.get? key = some value := by
  rw [Has, ht.entries_eq, List.mem_map] at hhas
  obtain ⟨e, he, rfl⟩ := hhas
  exact ⟨e.2, SortedMap.mem_entries.mp he⟩

theorem Sound.not_ahead (h : x.Sound start) {key : Bytes} (hkey : key.startsWith start = true)
    (hhas : x.Has key) (hn : x.found = none) : ¬ x.cursor.Ahead key := by
  obtain ⟨t, ht⟩ := h.legible
  obtain ⟨value, hvalue⟩ := get?_of_has ht hhas
  rw [Cursor.ahead_iff_mem_rest (h.start_eq ▸ hkey) hvalue]
  rcases h.rest ht with ⟨-, hr⟩ | ⟨e, he, -⟩ | ⟨e, he⟩
  · simp [hr]
  · simp [Yields, hn] at he
  · simp [hn] at he

theorem found_of_spent (h : x.cursor.Spent) : x.found = none := by
  simp [found, h.next]

theorem step_of_spent (h : x.cursor.Spent) : x.step.cursor = x.cursor := by
  simp [Scan.step, h.next]

section Run

variable {ws : Nat → List Write}

theorem spent_before {i j : Nat} (h : (x.before ws i).step.cursor.Spent) (hij : i < j) :
    (x.before ws j).cursor.Spent := by
  induction j, hij using Nat.le_induction with
  | base => exact h
  | succ j _ ih =>
    change (x.before ws j).step.cursor.Spent
    rwa [step_of_spent ih]

theorem found_of_none (h : x.Sound start) {i j : Nat} (hi : (x.before ws i).found = none)
    (hij : i ≤ j) : (x.before ws j).found = none := by
  rcases Nat.eq_or_lt_of_le hij with rfl | hlt
  · exact hi
  · obtain ⟨t, -, hn⟩ := (h.before ws i).nexts_of_found hi
    exact found_of_spent (spent_before (hn.spent_of_none (h.before ws i).placed) hlt)

theorem found_of_fails (h : x.Sound start) {i j : Nat} (hi : (x.before ws i).Fails) (hij : i < j) :
    (x.before ws j).found = none := by
  obtain ⟨e, he⟩ := hi
  obtain ⟨t, -, hn⟩ := (h.before ws i).nexts_of_found he
  exact found_of_spent (spent_before hn.spent_of_error hij)

theorem lastKey_before (h : x.Sound start) {i j : Nat} {a : Entry} (ha : (x.before ws i).Yields a)
    (hij : i < j) : ∃ k, (x.before ws j).cursor.lastKey = some k ∧ a.1 ≤ k := by
  induction j, hij using Nat.le_induction with
  | base =>
    obtain ⟨t, -, hn⟩ := (h.before ws i).nexts_of_found ha
    exact ⟨a.1, (hn.yields (h.before ws i).ordered).2, Std.le_refl _⟩
  | succ j _ ih =>
    obtain ⟨k, hk, hak⟩ := ih
    obtain ⟨t, -, hn⟩ := (h.before ws j).nexts_of_found rfl
    obtain ⟨k', hk', hle⟩ := hn.lastKey_le (h.before ws j).ordered hk
    exact ⟨k', hk', Std.le_trans hak hle⟩

theorem ascending (h : x.Sound start) {i j : Nat} {a b : Entry} (hij : i < j)
    (ha : (x.before ws i).Yields a) (hb : (x.before ws j).Yields b) : a.1 < b.1 := by
  obtain ⟨k, hk, hak⟩ := lastKey_before h ha hij
  obtain ⟨t, -, hn⟩ := (h.before ws j).nexts_of_found hb
  have hkb := (hn.yields (h.before ws j).ordered).1
  rw [hk] at hkb
  exact Std.lt_of_le_of_lt hak (of_decide_eq_true hkb)

theorem fromPage (h : x.Sound start) (hb : x.cursor.buffer = []) (i : Nat) {a : Entry}
    (ha : (x.before ws i).Yields a ∨ a ∈ (x.before ws i).step.cursor.buffer) :
    ∃ j ≤ i, FromPage (x.before ws) i j a := by
  induction i with
  | zero =>
    obtain ⟨t, ht, hn⟩ := (h.before ws 0).nexts_of_found rfl
    rcases hn.held ha with ⟨hmem, -⟩ | ⟨hf, hmem⟩
    · have hempty : (x.before ws 0).cursor.buffer = [] := hb
      simp [hempty] at hmem
    · exact ⟨0, Nat.le_refl 0, hf, fun k hk hk' => by omega, ht.entries_eq ▸ hmem⟩
  | succ i ih =>
    obtain ⟨t, ht, hn⟩ := (h.before ws (i + 1)).nexts_of_found rfl
    rcases hn.held ha with ⟨hmem, hnf⟩ | ⟨hf, hmem⟩
    · obtain ⟨j, hj, hpage⟩ := ih (Or.inr hmem)
      refine ⟨j, Nat.le_succ_of_le hj, hpage.fetches, fun k hjk hk => ?_, hpage.mem⟩
      rcases Nat.of_le_succ hk with hk | rfl
      · exact hpage.last k hjk hk
      · exact hnf
    · exact ⟨i + 1, Nat.le_refl _, hf, fun k hk hk' => by omega, ht.entries_eq ▸ hmem⟩

theorem startsWith_of_yields (h : x.Sound start) {i : Nat} {a : Entry}
    (ha : (x.before ws i).Yields a) : a.1.startsWith start = true := by
  obtain ⟨t, -, hn⟩ := (h.before ws i).nexts_of_found ha
  rw [← (h.before ws i).start_eq]
  exact hn.startsWith (h.before ws i).placed

theorem yielded_or_ahead (h : x.Sound start) {key : Bytes} (hkey : key.startsWith start = true)
    (hx : x.cursor.Ahead key) {n : Nat} (hfails : ∀ i < n, ¬ (x.before ws i).Fails)
    (hhas : ∀ i < n, (x.before ws i).Has key) :
    (∃ i < n, ∃ value, (x.before ws i).Yields (key, value)) ∨ (x.before ws n).cursor.Ahead key := by
  induction n with
  | zero => exact Or.inr hx
  | succ n ih =>
    rcases ih (fun i hi => hfails i (by omega)) (fun i hi => hhas i (by omega)) with
      ⟨i, hi, hyields⟩ | hahead
    · exact Or.inl ⟨i, by omega, hyields⟩
    · have hs := h.before ws n
      have hn := hhas n (Nat.lt_succ_self n)
      obtain ⟨t, ht⟩ := hs.legible
      obtain ⟨value, hvalue⟩ := get?_of_has ht hn
      rcases hs.rest ht with ⟨hnone, -⟩ | ⟨e, he, hr⟩ | hf
      · exact absurd hahead (hs.not_ahead hkey hn hnone)
      · have hstart : (x.before ws n).step.cursor.start = (x.before ws n).cursor.start :=
          hs.step.start_eq.trans hs.start_eq.symm
        rcases Cursor.ahead_of_next hstart hr (hs.start_eq ▸ hkey) hvalue hahead with rfl | hnext
        · exact Or.inl ⟨n, Nat.lt_succ_self n, e.2, he⟩
        · exact Or.inr hnext
      · exact absurd hf (hfails n (Nat.lt_succ_self n))

theorem complete (h : x.Sound start) {key : Bytes} (hkey : key.startsWith start = true)
    (hx : x.cursor.Ahead key) {n : Nat} (hfails : ∀ i < n, ¬ (x.before ws i).Fails)
    (hn : (x.before ws n).found = none) (hhas : ∀ i ≤ n, (x.before ws i).Has key) :
    ∃! i, i < n ∧ ∃ value, (x.before ws i).Yields (key, value) := by
  have hyields : ∃ i < n, ∃ value, (x.before ws i).Yields (key, value) := by
    rcases yielded_or_ahead h hkey hx hfails (fun i hi => hhas i (Nat.le_of_lt hi)) with hy | hahead
    · exact hy
    · exact absurd hahead ((h.before ws n).not_ahead hkey (hhas n (Nat.le_refl n)) hn)
  obtain ⟨i, hi, value, hy⟩ := hyields
  refine ⟨i, ⟨hi, value, hy⟩, ?_⟩
  rintro j ⟨-, value', hy'⟩
  -- two calls that yield one key would yield it in ascending order
  rcases Nat.lt_trichotomy j i with hji | rfl | hij
  · exact absurd (ascending h hji hy' hy) Std.lt_irrefl
  · rfl
  · exact absurd (ascending h hij hy hy') Std.lt_irrefl

theorem holds_before {m : Nat} (hm : (x.before ws m).shelf.Holds t) (hws : ∀ i, m < i → ws i = [])
    (n : Nat) : (x.before ws (m + n)).shelf.Holds t := by
  induction n with
  | zero => exact hm
  | succ n ih =>
    have hstep : x.before ws (m + n + 1) = (x.before ws (m + n)).step := by
      rw [before, hws (m + n + 1) (by omega)]
      rfl
    rw [← Nat.add_assoc, hstep]
    exact (Cursor.next_keeps _ ih).1

theorem rest_of_quiet (h : x.Sound start) {m : Nat} (hm : (x.before ws m).shelf.Holds t)
    (hws : ∀ i, m < i → ws i = []) {n : Nat} (hfails : ∀ i < m + n, ¬ (x.before ws i).Fails) :
    (x.before ws (m + n)).cursor.rest t = ((x.before ws m).cursor.rest t).drop n := by
  induction n with
  | zero => rfl
  | succ n ih =>
    have hrest := ih (fun i hi => hfails i (by omega))
    have hstep := ((h.before ws (m + n)).rest_step (holds_before hm hws n)
      (hfails (m + n) (by omega))).2
    rw [hrest, List.tail_drop] at hstep
    exact hstep

theorem found_of_quiet (h : x.Sound start) {m : Nat} (hm : (x.before ws m).shelf.Holds t)
    (hws : ∀ i, m < i → ws i = []) {n : Nat} (hfails : ∀ i ≤ m + n, ¬ (x.before ws i).Fails) :
    (x.before ws (m + n)).found = (((x.before ws m).cursor.rest t)[n]?).map .ok := by
  rw [((h.before ws (m + n)).rest_step (holds_before hm hws n) (hfails (m + n) (Nat.le_refl _))).1,
    rest_of_quiet h hm hws (fun i hi => hfails i (Nat.le_of_lt hi)), List.head?_drop]

theorem exists_none_of_quiet (h : x.Sound start) {m : Nat} (hws : ∀ i, m ≤ i → ws i = []) :
    ∃ n, (x.before ws n).found = none := by
  by_cases hfails : ∃ i, (x.before ws i).Fails
  · obtain ⟨i, hi⟩ := hfails
    exact ⟨i + 1, found_of_fails h hi (Nat.lt_succ_self i)⟩
  · obtain ⟨t, ht⟩ := (h.before ws m).legible
    refine ⟨m + ((x.before ws m).cursor.rest t).length, ?_⟩
    rw [found_of_quiet h ht (fun i hi => hws i (Nat.le_of_lt hi))
      (fun i _ hi => hfails ⟨i, hi⟩), List.getElem?_length]
    rfl

end Run

theorem sweeps {s : Shelf} (h : s.Holds t) (start : Bytes) (pageSize : Nat)
    (ws : Nat → List Write) :
    Sweeps start ((begin s start pageSize).before ws) ∧
      ((∀ i, ws i = []) → ∀ n, (∀ i ≤ n, ¬ ((begin s start pageSize).before ws i).Fails) →
        ((begin s start pageSize).before ws n).found =
          ((s.entries.filter (·.1.startsWith start))[n]?).map .ok) ∧
      ((∃ m, ∀ i, m ≤ i → ws i = []) → ∃ n, ((begin s start pageSize).before ws n).found = none) := by
  have hs : (begin s start pageSize).Sound start := sound_begin h start pageSize
  refine ⟨⟨?_, ?_, ?_, ?_, ?_⟩, ?_, ?_⟩
  · exact fun i j a b hij ha hb => ascending hs hij ha hb
  · exact fun i a ha => startsWith_of_yields hs ha
  · exact fun i a ha => fromPage hs rfl i (Or.inl ha)
  · exact fun i j hi hij => found_of_none hs hi hij
  · exact fun n key hfails hn hkey hhas => complete hs hkey (Or.inr ⟨rfl, rfl⟩) hfails hn hhas
  · intro hws n hfails
    have hbefore : (begin s start pageSize).before ws 0 = begin s start pageSize := by
      rw [before, hws 0]
      rfl
    have hrest := rest_begin h start pageSize
    have hfound := found_of_quiet (n := n) hs (by rw [hbefore]; exact h) (fun i _ => hws i)
      (by rwa [Nat.zero_add])
    rwa [Nat.zero_add, hbefore, hrest] at hfound
  · rintro ⟨m, hws⟩
    exact exists_none_of_quiet hs hws

def stock : MemoryStore.Contents :=
  MemoryStore.Contents.empty.writeAll
    [.put [1] [10], .put [1, 2] [11], .put [1, 4] [12], .put [2] [13]]

def pantry : Shelf := ⟨.memory ⟨stock, true, none⟩, .empty, .none⟩

def restocked : Nat → List Write
  | 1 => [.delete [1], .put [1, 3] [14], .put [1, 1] [15]]
  | 2 => [.batch [.delete [1, 2], .put [1, 0] [16], .put [1, 4] [17]]]
  | _ => []

theorem sweeps_restocked :
    (List.range 6).map (fun n => ((begin pantry [1] 0).before restocked n).found) =
        [some (.ok ([1], [10])), some (.ok ([1, 1], [15])), some (.ok ([1, 3], [14])),
          some (.ok ([1, 4], [17])), none, none] ∧
      ∃! i, i < 4 ∧ ∃ value, ((begin pantry [1] 0).before restocked i).Yields ([1, 4], value) := by
  have hholds : pantry.Holds stock.toTable := rfl
  refine ⟨by decide +kernel, (sweeps hholds [1] 0 restocked).1.complete 4 [1, 4] ?_ ?_ ?_ ?_⟩
  · decide +kernel
  · decide +kernel
  · decide
  · decide +kernel

end Scan

end Staging
