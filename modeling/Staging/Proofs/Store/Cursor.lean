import Mathlib
import Staging.Store.Cursor
import Staging.Proofs.Store.Paging

namespace Staging

namespace Cursor

/-- The key behind which the page after the buffer begins. -/
def frontier (c : Cursor) : Option Bytes := (c.buffer.getLast?.map (·.1)).or c.lastKey

structure Placed (c : Cursor) : Prop where
  pageSize : 0 < c.pageSize
  lastKey : c.lastKey.all (c.start ≤ ·) = true
  buffer : ∀ e ∈ c.buffer, e.1.startsWith c.start = true

def rest (c : Cursor) (t : Table) : List Entry :=
  c.buffer ++ if c.exhausted then [] else t.under c.start c.frontier

def Ahead (c : Cursor) (key : Bytes) : Prop :=
  key ∈ c.buffer.map (·.1) ∨ c.exhausted = false ∧ c.frontier.all (· < key) = true

def popped (c : Cursor) (e : Entry) (r : List Entry) : Cursor :=
  { c with buffer := r, lastKey := some e.1 }

def refilled (c : Cursor) (page : List Entry) : Cursor :=
  { c with buffer := page, exhausted := page.length < c.pageSize }

theorem placed_new (start : Bytes) : (new start).Placed :=
  ⟨Nat.succ_pos _, rfl, by simp [new]⟩

theorem rest_new (start : Bytes) (t : Table) : (new start).rest t = t.under start none := by
  simp [rest, new, frontier]

theorem pop_cons {c : Cursor} {e : Entry} {r : List Entry} (h : c.buffer = e :: r) :
    c.pop = (some e, c.popped e r) := by
  simp [pop, h, popped]

theorem rest_pop {c : Cursor} {e : Entry} {r : List Entry} (t : Table) (h : c.buffer = e :: r) :
    c.rest t = e :: (c.popped e r).rest t := by
  have hf : (c.popped e r).frontier = c.frontier := by
    simp only [frontier, popped, h, List.getLast?_cons]
    cases r.getLast? <;> rfl
  rw [rest, rest, hf, h]
  rfl

theorem placed_popped {c : Cursor} {e : Entry} {r : List Entry} (hsize : 0 < c.pageSize)
    (h : ∀ x ∈ e :: r, x.1.startsWith c.start = true) : (c.popped e r).Placed :=
  ⟨hsize, decide_eq_true (Bytes.le_of_startsWith (h e List.mem_cons_self)),
    fun x hx => h x (List.mem_cons_of_mem e hx)⟩

theorem Placed.pop {c : Cursor} {e : Entry} {r : List Entry} (hc : c.Placed)
    (h : c.buffer = e :: r) : (c.popped e r).Placed :=
  placed_popped hc.pageSize (h ▸ hc.buffer)

theorem rest_refill {c : Cursor} (t : Table) (hsize : 0 < c.pageSize) (hb : c.buffer = [])
    (hx : c.exhausted = false) :
    (c.refilled ((t.under c.start c.lastKey).take c.pageSize)).rest t = c.rest t := by
  have hrest : c.rest t = t.under c.start c.lastKey := by simp [rest, hb, hx, frontier]
  rw [hrest]
  by_cases hlen : (t.under c.start c.lastKey).length < c.pageSize
  · have htake := List.take_of_length_le (Nat.le_of_lt hlen)
    simp [rest, refilled, htake, hlen]
  · have hn : ((t.under c.start c.lastKey).take c.pageSize).length = c.pageSize := by
      rw [List.length_take]
      omega
    have hne : (t.under c.start c.lastKey).take c.pageSize ≠ [] := by
      intro h
      simp [h] at hn
      omega
    obtain ⟨l, e, hle⟩ := List.eq_nil_or_concat _ |>.resolve_left hne
    have hsplit : t.under c.start c.lastKey =
        l ++ e :: (t.under c.start c.lastKey).drop c.pageSize := by
      conv_lhs => rw [← List.take_append_drop c.pageSize (t.under c.start c.lastKey), hle]
      simp
    have hfrontier : (c.refilled ((t.under c.start c.lastKey).take c.pageSize)).frontier =
        some e.1 := by
      simp [frontier, refilled, hle]
    rw [rest, hfrontier]
    simp only [refilled, hn, Nat.lt_irrefl, decide_false, Bool.false_eq_true, if_false]
    rw [Table.under_split hsplit, List.take_append_drop]

theorem Placed.refill {c : Cursor} (t : Table) (hc : c.Placed) :
    (c.refilled ((t.under c.start c.lastKey).take c.pageSize)).Placed :=
  ⟨hc.pageSize, hc.lastKey, fun _ he => (Table.mem_under.mp (List.mem_of_mem_take he)).2.1⟩

def Spent (c : Cursor) : Prop := c.buffer = [] ∧ c.exhausted = true

theorem Spent.next {c : Cursor} (h : c.Spent) (s : Shelf) : c.next s = (none, c, s) := by
  simp [Cursor.next, h.1, h.2]

theorem next_holds {c : Cursor} {s : Shelf} {t : Table} (hc : c.Placed) (h : s.Holds t) :
    ∃ c' s', c'.Placed ∧ s'.Holds t ∧ s.Like s' ∧ c'.start = c.start ∧
      ((c.next s = (none, c', s') ∧ c.rest t = []) ∨
        (∃ e, c.next s = (some (.ok e), c', s') ∧ c.rest t = e :: c'.rest t) ∨
        ¬ s.Sound ∧ c'.Spent ∧ ∃ e, c.next s = (some (.error e), c', s')) := by
  cases hb : c.buffer with
  | cons e r =>
    refine ⟨c.popped e r, s, hc.pop hb, h, .refl s, rfl, Or.inr (Or.inl ⟨e, ?_, rest_pop t hb⟩)⟩
    simp [next, hb, pop_cons hb]
  | nil =>
    cases hx : c.exhausted with
    | true =>
      refine ⟨c, s, hc, h, .refl s, rfl, Or.inl ⟨?_, ?_⟩⟩
      · simp [next, hb, hx]
      · simp [rest, hb, hx]
    | false =>
      rcases h.scanPage hc.lastKey c.pageSize with ⟨s', hpage, h', hl⟩ | ⟨hns, e, s', hpage, h', hl⟩
      · have hrest := rest_refill t hc.pageSize hb hx
        cases hp : (t.under c.start c.lastKey).take c.pageSize with
        | nil =>
          refine ⟨c.refilled [], s', ⟨hc.pageSize, hc.lastKey, by simp [refilled]⟩, h', hl, rfl,
            Or.inl ⟨?_, ?_⟩⟩
          · simp [next, hb, hx, hpage, hp, pop, refilled]
          · rw [← hrest, hp]
            simp [rest, refilled, hc.pageSize]
        | cons e r =>
          have hbuf : (c.refilled (e :: r)).buffer = e :: r := rfl
          refine ⟨(c.refilled (e :: r)).popped e r, s', (hp ▸ hc.refill t).pop hbuf, h', hl, rfl,
            Or.inr (Or.inl ⟨e, ?_, ?_⟩)⟩
          · simp [next, hb, hx, hpage, hp, pop, refilled, popped]
          · rw [← hrest, hp, rest_pop t hbuf]
      · refine ⟨{ c with exhausted := true }, s', ⟨hc.pageSize, hc.lastKey, hc.buffer⟩, h', hl, rfl,
          Or.inr (Or.inr ⟨hns, ⟨hb, rfl⟩, e, ?_⟩)⟩
        simp [next, hb, hx, hpage]

theorem Placed.next {c c' : Cursor} {s s' : Shelf} {t : Table}
    {x : Option (Except StoreError Entry)} (hc : c.Placed) (h : s.Holds t)
    (hx : c.next s = (x, c', s')) : c'.Placed ∧ c'.start = c.start ∧ s'.Holds t := by
  obtain ⟨_, _, hc', h', -, hstart, ⟨hn, -⟩ | ⟨e, hn, -⟩ | ⟨-, -, e, hn⟩⟩ := next_holds hc h
  all_goals
    cases hx.symm.trans hn
    exact ⟨hc', hstart, h'⟩

theorem Placed.told {c c' : Cursor} {s s' : Shelf} {t : Table}
    {x : Option (Except StoreError Entry)} (hc : c.Placed) (h : s.Holds t)
    (hx : c.next s = (x, c', s')) :
    (x = none ∧ c.rest t = []) ∨ (∃ e, x = some (.ok e) ∧ c.rest t = e :: c'.rest t) ∨
      ∃ e, x = some (.error e) := by
  obtain ⟨_, _, -, -, -, -, ⟨hn, hr⟩ | ⟨e, hn, hr⟩ | ⟨-, -, e, hn⟩⟩ := next_holds hc h
  · cases hx.symm.trans hn
    exact Or.inl ⟨rfl, hr⟩
  · cases hx.symm.trans hn
    exact Or.inr (Or.inl ⟨e, rfl, hr⟩)
  · cases hx.symm.trans hn
    exact Or.inr (Or.inr ⟨e, rfl⟩)

theorem next_keeps (c : Cursor) {s : Shelf} {t : Table} (h : s.Holds t) :
    (c.next s).2.2.Holds t ∧ s.Like (c.next s).2.2 := by
  have hpage : (s.scanPage c.start c.lastKey c.pageSize).2 = s.counted .scan :=
    s.look_counted .scan _ _
  unfold next
  split_ifs
  · exact ⟨h, .refl s⟩
  · rcases hx : s.scanPage c.start c.lastKey c.pageSize with ⟨x, s'⟩
    rw [hx] at hpage
    subst hpage
    cases x with
    | error e => exact ⟨h.counted .scan, s.like_counted .scan⟩
    | ok page => exact ⟨h.counted .scan, s.like_counted .scan⟩
  · exact ⟨h, .refl s⟩

theorem ahead_new (start key : Bytes) : (new start).Ahead key :=
  Or.inr ⟨rfl, rfl⟩

theorem ahead_iff_mem_rest {c : Cursor} {t : Table} {key value : Bytes}
    (hk : key.startsWith c.start = true) (ht : t.get? key = some value) :
    c.Ahead key ↔ key ∈ (c.rest t).map (·.1) := by
  rw [Ahead, rest, List.map_append, List.mem_append]
  apply or_congr_right
  cases c.exhausted with
  | true => simp
  | false =>
    simp only [Bool.false_eq_true, if_false, true_and, List.mem_map, Prod.exists, exists_and_right,
      exists_eq_right, Table.mem_under]
    constructor
    · intro h
      exact ⟨value, ht, hk, h⟩
    · rintro ⟨_, _, _, h⟩
      exact h

theorem ahead_of_next {c c' : Cursor} {t : Table} {key value : Bytes} {e : Entry}
    (hs : c'.start = c.start) (hr : c.rest t = e :: c'.rest t)
    (hk : key.startsWith c.start = true) (ht : t.get? key = some value) (h : c.Ahead key) :
    key = e.1 ∨ c'.Ahead key := by
  rw [ahead_iff_mem_rest hk ht, hr, List.map_cons, List.mem_cons] at h
  rw [ahead_iff_mem_rest (hs ▸ hk) ht]
  exact h

theorem collectUpTo_holds {c : Cursor} {s : Shelf} {t : Table} {fuel : Nat} (hc : c.Placed)
    (h : s.Holds t) (hf : (c.rest t).length < fuel) :
    s.Answers t t (.ok (c.rest t)) (c.collectUpTo fuel s) := by
  induction fuel generalizing c s with
  | zero => omega
  | succ fuel ih =>
    obtain ⟨c', s', hc', h', hl, -, hnext⟩ := next_holds hc h
    rcases hnext with ⟨hn, hr⟩ | ⟨e, hn, hr⟩ | ⟨hns, -, e, hn⟩
    · exact Or.inl ⟨s', by simp [collectUpTo, hn, hr], h', hl⟩
    · have hlen : (c'.rest t).length < fuel := by
        rw [hr, List.length_cons] at hf
        omega
      rcases ih hc' h' hlen with ⟨s'', hx, h'', hl'⟩ | ⟨hns, err, s'', hx, h'', hl'⟩
      · exact Or.inl ⟨s'', by simp [collectUpTo, hn, hx, hr], h'', hl.trans hl'⟩
      · refine Or.inr ⟨fun hs => hns (hl.sound hs), err, s'', ?_, h'', hl.trans hl'⟩
        simp [collectUpTo, hn, hx]
    · exact Or.inr ⟨hns, e, s', by simp [collectUpTo, hn], h', hl⟩

theorem length_under_le (s : Shelf) {t : Table} (h : s.Holds t) (start : Bytes)
    (after : Option Bytes) : (t.under start after).length ≤ s.size := by
  rw [Shelf.size, h.entries_eq]
  exact List.length_filter_le ..

theorem collect_new_holds {s : Shelf} {t : Table} (h : s.Holds t) (start : Bytes) :
    s.Answers t t (.ok (t.under start none)) ((new start).collect s) := by
  rw [← rest_new start t]
  apply collectUpTo_holds (placed_new start) h
  have := length_under_le s h start none
  rw [rest_new]
  omega

inductive Over (start : Bytes) : Cursor → Prop
  | new : Over start (new start)
  | withPageSize {c : Cursor} (n : Nat) : Over start c → Over start (c.withPageSize n)
  | restart {c : Cursor} : Over start c → Over start c.restart
  | resumeAfter {c : Cursor} (key : Bytes) : Over start c → Over start (c.resumeAfter key)
  | next {c : Cursor} (s : Shelf) : Over start c → Over start (c.next s).2.1

structure Within (c : Cursor) (start : Bytes) : Prop where
  start_eq : c.start = start
  buffer : ∀ e ∈ c.buffer, e.1.startsWith start = true

namespace Within

variable {c : Cursor} {start : Bytes}

theorem popped {e : Entry} {r : List Entry} (h : c.Within start) (hb : c.buffer = e :: r) :
    (c.popped e r).Within start :=
  ⟨h.start_eq, fun x hx => h.buffer x (hb ▸ List.mem_cons_of_mem e hx)⟩

theorem pop (h : c.Within start) :
    c.pop.2.Within start ∧ ∀ e, c.pop.1 = some e → e.1.startsWith start = true := by
  cases hb : c.buffer with
  | nil => simpa [Cursor.pop, hb] using h
  | cons e r =>
    rw [pop_cons hb]
    refine ⟨h.popped hb, ?_⟩
    intro x hx
    cases hx
    exact h.buffer e (hb ▸ List.mem_cons_self)

theorem next (h : c.Within start) (s : Shelf) :
    (c.next s).2.1.Within start ∧
      ∀ e, (c.next s).1 = some (.ok e) → e.1.startsWith start = true := by
  unfold Cursor.next
  split_ifs with hb hx
  · exact ⟨h, by simp⟩
  · rcases hpage : s.scanPage c.start c.lastKey c.pageSize with ⟨_ | page, s'⟩
    · exact ⟨⟨h.start_eq, h.buffer⟩, by simp⟩
    · have hfilled : (c.refilled page).Within start :=
        ⟨h.start_eq, h.start_eq ▸ Shelf.startsWith_of_scanPage hpage⟩
      simpa [refilled] using hfilled.pop
  · simpa using h.pop

end Within

theorem Over.within {c : Cursor} {start : Bytes} (h : Over start c) : c.Within start := by
  induction h with
  | new => exact ⟨rfl, by simp [Cursor.new]⟩
  | withPageSize n _ ih => exact ⟨ih.start_eq, ih.buffer⟩
  | restart _ ih => exact ⟨ih.start_eq, by simp [Cursor.restart]⟩
  | resumeAfter key _ ih => exact ⟨ih.start_eq, by simp [Cursor.resumeAfter]⟩
  | next s _ ih => exact (ih.next s).1

end Cursor

end Staging
