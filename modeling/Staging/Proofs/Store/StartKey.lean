import Mathlib
import Staging.Proofs.Store.Scan

namespace Staging

/-- Behind the key a foreign one comes before all that is under the start. -/
def Table.blocked (t : Table) (start : Bytes) (after : Option Bytes) : Bool :=
  after.any fun a => t.entries.any fun e => decide (a < e.1) && decide (e.1 < start)

namespace Table

variable {t : Table} {start : Bytes} {after : Option Bytes}

theorem blocked_iff :
    t.blocked start after = true ↔ ∃ a, after = some a ∧ ∃ e ∈ t.entries, a < e.1 ∧ e.1 < start := by
  cases after <;> simp [blocked]

theorem page_of_blocked (h : t.blocked start after = true) (limit : Nat) :
    t.page start after limit = [] := by
  obtain ⟨a, rfl, e, he, hae, hlt⟩ := blocked_iff.mp h
  have hmem : e ∈ t.entries.filter (fun e => start.isPast (some a) e.1) :=
    List.mem_filter.mpr ⟨he, decide_eq_true hae⟩
  obtain ⟨x, l, hl⟩ := List.exists_cons_of_ne_nil (List.ne_nil_of_mem hmem)
  have hasc : (x :: l).Pairwise (fun a b : Entry => a.1 < b.1) := hl ▸ t.ascending.filter _
  rw [hl] at hmem
  -- the page begins at the first key behind `a`, and that one is below the start
  have hx : x.1 < start := by
    rcases List.mem_cons.mp hmem with rfl | hmem
    · exact hlt
    · exact Std.lt_trans ((List.pairwise_cons.mp hasc).1 e hmem) hlt
  have hforeign : ¬ x.1.startsWith start = true := fun hs =>
    Std.lt_irrefl (Std.lt_of_lt_of_le hx (Bytes.le_of_startsWith hs))
  simp [page, hl, hforeign]

theorem page_of_not_blocked (h : t.blocked start after = false) (limit : Nat) :
    t.page start after limit = (t.under start after).take limit := by
  apply page_of_past
  intro e he hpast
  cases after with
  | none => simpa [Bytes.isPast] using hpast
  | some a =>
    have hae : a < e.1 := by simpa [Bytes.isPast] using hpast
    apply Std.not_lt.mp
    intro hlt
    simp [blocked_iff.mpr ⟨a, rfl, e, he, hae, hlt⟩] at h

theorem page_eq (start : Bytes) (after : Option Bytes) (limit : Nat) :
    t.page start after limit =
      if t.blocked start after then [] else (t.under start after).take limit := by
  split_ifs with h
  · exact page_of_blocked h limit
  · exact page_of_not_blocked (Bool.eq_false_iff.mpr h) limit

end Table

structure Shelf.Paged (s : Shelf) (t : Table) : Prop where
  holds : s.Holds t
  isOpen : s.isOpen = true
  unplanned : ∀ calls, s.faults.reason calls .scan = none

namespace Shelf

variable {s : Shelf} {t : Table}

theorem Paged.counted (h : s.Paged t) (p : Primitive) : (s.counted p).Paged t :=
  ⟨h.holds.counted p, h.isOpen, h.unplanned⟩

theorem Paged.scanPage (h : s.Paged t) (start : Bytes) (after : Option Bytes) (limit : Nat) :
    s.scanPage start after limit = (.ok (t.page start after limit), s.counted .scan) := by
  have hplan : s.planned .scan = none := h.unplanned s.faults.calls
  have hholds := h.holds
  have hopen := h.isOpen
  rw [Shelf.scanPage, call_unplanned hplan]
  obtain ⟨backend, disk, faults⟩ := s
  cases backend with
  | memory m => simp only [look, Shelf.counted, m.scanPage_eq hholds hopen]
  | durable d => simp only [look, Shelf.counted, d.scanPage_eq hholds.1]

end Shelf

namespace Cursor

variable {c : Cursor} {s : Shelf} {t : Table}

theorem next_buffered {e : Entry} {r : List Entry} (hb : c.buffer = e :: r) (s : Shelf) :
    c.next s = (some (.ok e), c.popped e r, s) := by
  simp [next, hb, pop_cons hb]

theorem next_fetches (h : s.Paged t) (hf : c.Fetches) :
    c.next s = match t.page c.start c.lastKey c.pageSize with
      | [] => (none, c.refilled [], s.counted .scan)
      | e :: r => (some (.ok e), (c.refilled (e :: r)).popped e r, s.counted .scan) := by
  cases hp : t.page c.start c.lastKey c.pageSize <;>
    simp [next, hf.1, hf.2, h.scanPage, hp, pop, refilled, popped]

theorem next_turns (h : s.Paged t) (hf : c.Fetches) (hsize : 0 < c.pageSize)
    (hpage : t.page c.start c.lastKey c.pageSize = (t.under c.start c.lastKey).take c.pageSize) :
    (∃ c', c.next s = (none, c', s.counted .scan) ∧ c.rest t = []) ∨
      ∃ e c', c.next s = (some (.ok e), c', s.counted .scan) ∧ c'.Placed ∧
        c.rest t = e :: c'.rest t := by
  have hnext := next_fetches h hf
  have hrest := rest_refill t hsize hf.1 hf.2
  rw [hpage] at hnext
  cases hp : (t.under c.start c.lastKey).take c.pageSize with
  | nil =>
    rw [hp] at hnext hrest
    refine Or.inl ⟨_, hnext, ?_⟩
    rw [← hrest]
    simp [rest, refilled, hsize]
  | cons e r =>
    rw [hp] at hnext hrest
    have hunder : ∀ x ∈ e :: r, x.1.startsWith c.start = true := by
      intro x hx
      exact (Table.mem_under.mp (List.mem_of_mem_take (hp ▸ hx))).2.1
    refine Or.inr ⟨e, _, hnext, placed_popped hsize hunder, ?_⟩
    rw [← hrest]
    exact rest_pop t rfl

theorem drainUpTo_placed (hc : c.Placed) (h : s.Paged t) {fuel : Nat}
    (hf : (c.rest t).length < fuel) : (c.drainUpTo fuel s).1 = (c.rest t).map .ok := by
  induction fuel generalizing c s with
  | zero => omega
  | succ fuel ih =>
    cases hb : c.buffer with
    | cons e r =>
      have hrest := rest_pop t hb
      have hlen : ((c.popped e r).rest t).length < fuel := by
        rw [hrest, List.length_cons] at hf
        omega
      rw [drainUpTo, next_buffered hb, hrest]
      simp only [ih (hc.pop hb) h hlen, List.map_cons]
    | nil =>
      cases hx : c.exhausted with
      | true => simp [drainUpTo, next, hb, hx, rest]
      | false =>
        have hpage := Table.page_eq_under (t := t) hc.lastKey c.pageSize
        rcases next_turns h ⟨hb, hx⟩ hc.pageSize hpage with ⟨c', hn, hr⟩ | ⟨e, c', hn, hc', hr⟩
        · rw [drainUpTo, hn, hr]
          rfl
        · have hlen : (c'.rest t).length < fuel := by
            rw [hr, List.length_cons] at hf
            omega
          rw [drainUpTo, hn, hr]
          simp only [ih hc' (h.counted .scan) hlen, List.map_cons]

theorem fetches_resumeAfter (c : Cursor) (key : Bytes) : (c.resumeAfter key).Fetches := ⟨rfl, rfl⟩

theorem rest_resumeAfter (c : Cursor) (key : Bytes) (t : Table) :
    (c.resumeAfter key).rest t = t.under c.start (some key) := by
  simp [rest, resumeAfter, frontier]

theorem drain_of_page_nil (h : s.Paged t) (hf : c.Fetches)
    (hpage : t.page c.start c.lastKey c.pageSize = []) : (c.drain s).1 = [] := by
  have hnext := next_fetches h hf
  rw [hpage] at hnext
  rw [drain, drainUpTo, hnext]

theorem drain_resumeAfter (h : s.Paged t) (hsize : 0 < c.pageSize) (key : Bytes) :
    ((c.resumeAfter key).drain s).1 =
      (if t.blocked c.start (some key) then [] else t.under c.start (some key)).map .ok := by
  have hf := c.fetches_resumeAfter key
  split_ifs with hb
  · exact drain_of_page_nil h hf (Table.page_of_blocked hb c.pageSize)
  · have hpage := Table.page_of_not_blocked (Bool.eq_false_iff.mpr hb) c.pageSize
    have hlen := length_under_le s h.holds c.start (some key)
    rw [← c.rest_resumeAfter key t] at hlen ⊢
    rw [drain, drainUpTo]
    rcases next_turns h hf hsize hpage with ⟨c', hn, hr⟩ | ⟨e, c', hn, hc', hr⟩
    · rw [hn, hr]
      rfl
    · rw [hn, hr]
      rw [hr, List.length_cons] at hlen
      have hrest : (c'.drainUpTo ((c.resumeAfter key).buffer.length + s.size + 1)
          (s.counted .scan)).1 = (c'.rest t).map .ok :=
        drainUpTo_placed hc' (h.counted .scan) (by omega)
      simp only [hrest, List.map_cons]

end Cursor

namespace Shelf

def MeetsContract (s : Shelf) (t : Table) (start : Bytes) (after : Option Bytes) (limit : Nat) :
    Prop :=
  (s.scanPage start after limit).1 = .ok ((t.under start after).take limit)

variable {s : Shelf} {t : Table}

theorem Paged.meetsContract_iff (h : s.Paged t) (start : Bytes) (after : Option Bytes)
    (limit : Nat) : s.MeetsContract t start after limit ↔
      (t.blocked start after = true → limit = 0 ∨ t.under start after = []) := by
  rw [MeetsContract, h.scanPage, Except.ok.injEq, Table.page_eq]
  split_ifs with hb
  · rw [eq_comm, List.take_eq_nil_iff]
    exact ⟨fun hnil _ => hnil, fun hnil => hnil hb⟩
  · exact ⟨fun _ hb' => absurd hb' hb, fun _ => rfl⟩

theorem scanPage_meetsContract_iff (h : s.Paged t) (start : Bytes) :
    (∀ after limit,
      (s.scanPage start after limit).1 =
        .ok (if t.blocked start after then [] else (t.under start after).take limit) ∧
      (s.MeetsContract t start after limit ↔
        (t.blocked start after = true → limit = 0 ∨ t.under start after = []))) ∧
    ∀ (c : Cursor) (key : Bytes), c.start = start → 0 < c.pageSize →
      ((c.resumeAfter key).drain s).1 =
        (if t.blocked start (some key) then [] else t.under start (some key)).map .ok ∧
      (((c.resumeAfter key).drain s).1 = (t.under start (some key)).map .ok ↔
        (t.blocked start (some key) = true → t.under start (some key) = [])) := by
  refine ⟨fun after limit => ⟨?_, h.meetsContract_iff start after limit⟩, ?_⟩
  · rw [h.scanPage, Table.page_eq]
  · rintro c key rfl hsize
    have hdrain := Cursor.drain_resumeAfter h hsize key
    refine ⟨hdrain, ?_⟩
    rw [hdrain]
    split_ifs with hb
    · rw [List.map_nil, eq_comm, List.map_eq_nil_iff]
      exact ⟨fun hnil _ => hnil, fun hnil => hnil hb⟩
    · exact ⟨fun _ hb' => absurd hb' hb, fun _ => rfl⟩

namespace Foreign

def contents : MemoryStore.Contents :=
  MemoryStore.Contents.empty.writeAll [.put [2] [20], .put [4] [40], .put [4, 1] [41], .put [6] [60]]

def shelf : Shelf := ⟨.memory ⟨contents, true, none⟩, .empty, .none⟩

theorem paged : shelf.Paged contents.toTable := ⟨rfl, rfl, fun _ => rfl⟩

theorem scanPage_meetsContract_iff_foreign :
    (shelf.scanPage [4] (some [1]) 2).1 = .ok [] ∧
      ¬ shelf.MeetsContract contents.toTable [4] (some [1]) 2 ∧
      shelf.MeetsContract contents.toTable [4] (some [2]) 2 ∧
      (((Cursor.new [4]).resumeAfter [1]).drain shelf).1 = [] ∧
      (((Cursor.new [4]).resumeAfter [3]).drain shelf).1 =
        [.ok ([4], [40]), .ok ([4, 1], [41])] := by
  obtain ⟨hpage, hcursor⟩ := scanPage_meetsContract_iff paged [4]
  obtain ⟨hfirst, hfails⟩ := hpage (some [1]) 2
  obtain ⟨-, hholds⟩ := hpage (some [2]) 2
  have hsize : 0 < (Cursor.new [4]).pageSize := by decide
  refine ⟨hfirst.trans (by decide), ?_, ?_, ?_, ?_⟩
  · rw [hfails]
    decide
  · rw [hholds]
    decide
  · exact (hcursor (Cursor.new [4]) [1] rfl hsize).1.trans (by decide)
  · exact (hcursor (Cursor.new [4]) [3] rfl hsize).1.trans (by decide)

end Foreign

end Shelf

end Staging
