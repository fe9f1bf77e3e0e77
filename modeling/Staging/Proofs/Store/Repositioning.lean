import Mathlib
import Staging.Proofs.Store.StartKey

/-!
Cursors that are set back, on a store whose content does not change. What a cursor has left is what
stands behind the key that it yielded last, or was set behind, whatever the size of its pages. A
failure takes nothing of that away, so a cursor that is set behind that key again goes on where it
was.
-/

namespace Staging

def Shelf.Offers (s : Shelf) (t : Table) : Prop := s.Holds t ∨ s.Unreadable

namespace Cursor

inductive Move
  | next (s : Shelf)
  | restart
  | resumeAfter (key : Bytes)

def Move.Allowed (t : Table) (start : Bytes) : Move → Prop
  | next s => s.Offers t
  | restart => True
  | resumeAfter key => start ≤ key

def move (c : Cursor) : Move → Cursor
  | .next s => (c.next s).2.1
  | .restart => c.restart
  | .resumeAfter key => c.resumeAfter key

def after (c : Cursor) (ms : List Move) : Cursor := ms.foldl move c

abbrev Answer := Option (Except StoreError Entry)

def yielded : Answer → Option Entry
  | some (.ok e) => some e
  | _ => none

def failed : Answer → Bool
  | some (.error _) => true
  | _ => false

theorem failed_iff {x : Answer} : failed x = true ↔ ∃ e, x = some (.error e) := by
  rcases x with _ | _ | _ <;> simp [failed]

def answers (c : Cursor) : List Move → List Answer
  | [] => []
  | .next s :: ms => (c.next s).1 :: (c.move (.next s)).answers ms
  | m :: ms => (c.move m).answers ms

def setBehind (c : Cursor) : Option Bytes → Cursor
  | none => c.restart
  | some key => c.resumeAfter key

def recalled (c : Cursor) : Cursor := c.setBehind c.lastKey

def left (c : Cursor) (t : Table) : List Entry := t.under c.start c.lastKey

/-- No failure has stopped the cursor: it yields all that it has left. -/
def Live (c : Cursor) (t : Table) : Prop := c.rest t = c.left t

variable {c c' : Cursor} {s : Shelf} {t : Table} {x : Answer}

theorem nexts_of_offers (hc : c.Placed) (h : s.Offers t) :
    c.Nexts t (c.next s).1 (c.next s).2.1 := by
  rcases h with h | h
  · exact next_cases hc h
  · obtain ⟨e, hpage⟩ := h c.start c.lastKey c.pageSize
    exact nexts_of_scanPage (.inr ⟨e, congrArg Prod.fst hpage⟩)

theorem Nexts.same (h : c.Nexts t x c') : c'.start = c.start ∧ c'.pageSize = c.pageSize := by
  cases h <;> exact ⟨rfl, rfl⟩

theorem Nexts.placed (h : c.Nexts t x c') (hc : c.Placed) : c'.Placed := by
  cases h with
  | popped hb => exact hc.pop hb
  | spent _ => exact hc
  | turned _ hp => exact (hp ▸ hc.refill t).pop rfl
  | ended _ _ => exact ⟨hc.pageSize, hc.lastKey, by simp [refilled]⟩
  | failed hf e => exact ⟨hc.pageSize, hc.lastKey, hc.buffer⟩

structure Proceeds (c c' : Cursor) (t : Table) (x : Answer) : Prop where
  yields : x = (c.left t).head?.map .ok
  left : c'.left t = (c.left t).tail
  lastKey : c'.lastKey = (c.left t).head?.elim c.lastKey fun e => some e.1
  live : c'.Live t

theorem Live.proceeds_yielded {e : Entry} (hl : c.Live t) (hs : c'.start = c.start)
    (hk : c'.lastKey = some e.1) (hr : c.rest t = e :: c'.rest t) :
    c.Proceeds c' t (some (.ok e)) := by
  have hleft : c.left t = e :: c'.rest t := hl.symm.trans hr
  have hbehind : c'.left t = c'.rest t := by
    rw [left, hs, hk]
    exact Table.under_split (l := []) hleft
  constructor
  · rw [hleft]
    rfl
  · rw [hleft, hbehind]
    rfl
  · rw [hleft]
    exact hk
  · exact hbehind.symm

theorem Live.proceeds_ended (hl : c.Live t) (hs : c'.start = c.start)
    (hk : c'.lastKey = c.lastKey) (hr : c.rest t = []) (hr' : c'.rest t = []) :
    c.Proceeds c' t none := by
  have hleft : c.left t = [] := hl.symm.trans hr
  have hbehind : c'.left t = c.left t := by rw [left, left, hs, hk]
  constructor
  · rw [hleft]
    rfl
  · rw [hbehind, hleft]
    rfl
  · rw [hleft]
    exact hk
  · rw [Live, hbehind, hleft, hr']

theorem Nexts.proceeds (h : c.Nexts t x c') (hc : c.Placed) (hl : c.Live t) :
    c.Proceeds c' t x ∨ ∃ e, x = some (.error e) ∧ c'.Spent ∧ c'.lastKey = c.lastKey := by
  cases h with
  | popped hb => exact Or.inl (hl.proceeds_yielded rfl rfl (rest_pop t hb))
  | spent hs =>
    have hr : c.rest t = [] := by simp [rest, hs.1, hs.2]
    exact Or.inl (hl.proceeds_ended rfl rfl hr hr)
  | @turned e r hf hp =>
    refine Or.inl (hl.proceeds_yielded rfl rfl ?_)
    rw [← rest_refill t hc.pageSize hf.1 hf.2, hp]
    exact rest_pop t rfl
  | ended hf hp =>
    have hr : (c.refilled []).rest t = [] := by simp [rest, refilled, hc.pageSize]
    refine Or.inl (hl.proceeds_ended rfl rfl ?_ hr)
    rw [← rest_refill t hc.pageSize hf.1 hf.2, hp, hr]
  | failed hf e => exact Or.inr ⟨e, rfl, ⟨hf.1, rfl⟩, rfl⟩

theorem Nexts.left_of_error {e : StoreError} (h : c.Nexts t (some (.error e)) c') :
    c'.left t = c.left t := by
  cases h
  rfl

theorem live_setBehind (c : Cursor) (p : Option Bytes) (t : Table) : (c.setBehind p).Live t := by
  cases p <;> simp [setBehind, Live, left, rest, frontier, restart, resumeAfter]

theorem left_setBehind (c : Cursor) (p : Option Bytes) (t : Table) :
    (c.setBehind p).left t = t.under c.start p := by
  cases p <;> rfl

theorem Placed.setBehind {p : Option Bytes} (hc : c.Placed) (hp : p.all (c.start ≤ ·) = true) :
    (c.setBehind p).Placed := by
  cases p with
  | none => exact ⟨hc.pageSize, rfl, by simp [Cursor.setBehind, restart]⟩
  | some key => exact ⟨hc.pageSize, hp, by simp [Cursor.setBehind, resumeAfter]⟩

theorem left_recalled (c : Cursor) (t : Table) : c.recalled.left t = c.left t :=
  c.left_setBehind c.lastKey t

theorem Placed.recalled (hc : c.Placed) : c.recalled.Placed := hc.setBehind hc.lastKey

def turn (c : Cursor) (calls : Nat → Shelf) : Nat → Cursor
  | 0 => c
  | n + 1 => ((c.turn calls n).next (calls n)).2.1

def found (c : Cursor) (calls : Nat → Shelf) (n : Nat) : Answer := ((c.turn calls n).next (calls n)).1

def Fails (c : Cursor) (calls : Nat → Shelf) (n : Nat) : Prop :=
  ∃ e, c.found calls n = some (.error e)

instance (c : Cursor) (calls : Nat → Shelf) (n : Nat) : Decidable (c.Fails calls n) :=
  decidable_of_iff _ failed_iff

section Turns

variable {calls : Nat → Shelf}

theorem placed_turn (hc : c.Placed) (hcalls : ∀ n, (calls n).Offers t) (n : Nat) :
    (c.turn calls n).Placed := by
  induction n with
  | zero => exact hc
  | succ n ih => exact (nexts_of_offers ih (hcalls n)).placed ih

theorem nexts_turn (hc : c.Placed) (hcalls : ∀ n, (calls n).Offers t) (n : Nat) :
    (c.turn calls n).Nexts t (c.found calls n) (c.turn calls (n + 1)) :=
  nexts_of_offers (placed_turn hc hcalls n) (hcalls n)

theorem live_turn (hc : c.Placed) (hl : c.Live t) (hcalls : ∀ n, (calls n).Offers t) {n : Nat}
    (hfails : ∀ i < n, ¬ c.Fails calls i) :
    (c.turn calls n).Live t ∧ (c.turn calls n).left t = (c.left t).drop n := by
  induction n with
  | zero => exact ⟨hl, rfl⟩
  | succ n ih =>
    obtain ⟨hlive, hleft⟩ := ih fun i hi => hfails i (by omega)
    rcases (nexts_turn hc hcalls n).proceeds (placed_turn hc hcalls n) hlive with h | ⟨e, he, -⟩
    · exact ⟨h.live, by rw [h.left, hleft, List.tail_drop]⟩
    · exact absurd ⟨e, he⟩ (hfails n (Nat.lt_succ_self n))

theorem found_of_live (hc : c.Placed) (hl : c.Live t) (hcalls : ∀ n, (calls n).Offers t) {n : Nat}
    (hfails : ∀ i ≤ n, ¬ c.Fails calls i) : c.found calls n = ((c.left t)[n]?).map .ok := by
  obtain ⟨hlive, hleft⟩ := live_turn hc hl hcalls fun i hi => hfails i (Nat.le_of_lt hi)
  rcases (nexts_turn hc hcalls n).proceeds (placed_turn hc hcalls n) hlive with h | ⟨e, he, -⟩
  · rw [h.yields, hleft, List.head?_drop]
  · exact absurd ⟨e, he⟩ (hfails n (Nat.le_refl n))

theorem spent_turn {i j : Nat} (h : (c.turn calls i).Spent) (hij : i ≤ j) :
    c.turn calls j = c.turn calls i := by
  induction j, hij using Nat.le_induction with
  | base => rfl
  | succ j _ ih => rw [turn, ih, h.next]

theorem found_of_spent {i j : Nat} (h : (c.turn calls i).Spent) (hij : i ≤ j) :
    c.found calls j = none := by
  rw [found, spent_turn h hij, h.next]

theorem spent_of_fails (hc : c.Placed) (hcalls : ∀ n, (calls n).Offers t) {i : Nat}
    (hi : c.Fails calls i) : (c.turn calls (i + 1)).Spent := by
  obtain ⟨e, he⟩ := hi
  exact (he ▸ nexts_turn hc hcalls i).spent_of_error

theorem left_of_fails (hc : c.Placed) (hl : c.Live t) (hcalls : ∀ n, (calls n).Offers t) {i j : Nat}
    (hi : c.Fails calls i) (hij : i < j) : (c.turn calls j).left t = (c.left t).drop i := by
  have hfirst : ∀ k < i, ¬ c.Fails calls k := by
    intro k hk hfail
    obtain ⟨e, he⟩ := hi
    rw [found_of_spent (spent_of_fails hc hcalls hfail) hk] at he
    cases he
  obtain ⟨hlive, hleft⟩ := live_turn hc hl hcalls hfirst
  have hturn : (c.turn calls (i + 1)).left t = (c.turn calls i).left t := by
    obtain ⟨e, he⟩ := hi
    exact (he ▸ nexts_turn hc hcalls i).left_of_error
  rw [spent_turn (spent_of_fails hc hcalls hi) hij, hturn, hleft]

end Turns

theorem next_eq_error_iff {e : StoreError} : (c.next s).1 = some (.error e) ↔
    c.Fetches ∧ (s.scanPage c.start c.lastKey c.pageSize).1 = .error e := by
  cases hb : c.buffer with
  | cons x r => simp [next_buffered hb, Fetches, hb]
  | nil =>
    cases hx : c.exhausted with
    | true => simp [Spent.next ⟨hb, hx⟩, Fetches, hx]
    | false =>
      rcases hpage : s.scanPage c.start c.lastKey c.pageSize with ⟨_ | page, s'⟩ <;>
        simp [next, Fetches, hb, hx, hpage]

structure Standing (c : Cursor) (t : Table) (start : Bytes) : Prop where
  start_eq : c.start = start
  placed : c.Placed
  live : c.Spent ∨ c.Live t

variable {start : Bytes}

theorem live_new (t : Table) (start : Bytes) (n : Nat) : ((new start).withPageSize n).Live t := by
  simp [Live, left, rest, frontier, new, withPageSize]

theorem standing_new (t : Table) (start : Bytes) (n : Nat) :
    ((new start).withPageSize n).Standing t start :=
  ⟨rfl, ⟨Nat.le_max_right n 1, rfl, by simp [new, withPageSize]⟩, Or.inr (live_new t start n)⟩

namespace Standing

theorem setBehind {p : Option Bytes} (h : c.Standing t start) (hp : p.all (start ≤ ·) = true) :
    (c.setBehind p).Standing t start :=
  ⟨by cases p <;> exact h.start_eq, h.placed.setBehind (h.start_eq ▸ hp),
    Or.inr (c.live_setBehind p t)⟩

theorem move {m : Move} (h : c.Standing t start) (hm : m.Allowed t start) :
    (c.move m).Standing t start := by
  cases m with
  | next s =>
    have hn := nexts_of_offers h.placed hm
    refine ⟨hn.same.1.trans h.start_eq, hn.placed h.placed, ?_⟩
    rcases h.live with hs | hl
    · rw [Cursor.move, hs.next]
      exact Or.inl hs
    · rcases hn.proceeds h.placed hl with hp | ⟨e, -, hs, -⟩
      · exact Or.inr hp.live
      · exact Or.inl hs
  | restart => exact h.setBehind (p := none) rfl
  | resumeAfter key => exact h.setBehind (p := some key) (decide_eq_true hm)

theorem after {ms : List Move} (h : c.Standing t start) (hms : ∀ m ∈ ms, m.Allowed t start) :
    (c.after ms).Standing t start := by
  induction ms generalizing c with
  | nil => exact h
  | cons m ms ih =>
    obtain ⟨hm, hms⟩ := List.forall_mem_cons.mp hms
    exact ih (h.move hm) hms

theorem live_of_fails {calls : Nat → Shelf} {i : Nat} (h : c.Standing t start)
    (hi : c.Fails calls i) : c.Live t := by
  refine h.live.resolve_left fun hs => ?_
  obtain ⟨e, he⟩ := hi
  rw [found_of_spent (i := 0) hs (Nat.zero_le i)] at he
  cases he

end Standing

def listed (t : Table) (start : Bytes) : Option Bytes → List Move → List Answer
  | _, [] => []
  | p, .next _ :: ms =>
    let e := (t.under start p).head?
    e.map .ok :: listed t start (e.elim p fun e => some e.1) ms
  | _, .restart :: ms => listed t start none ms
  | _, .resumeAfter key :: ms => listed t start (some key) ms

theorem answers_eq_listed {ms : List Move} (h : c.Standing t start) (hl : c.Live t)
    (hms : ∀ m ∈ ms, m.Allowed t start) (hok : ∀ x ∈ c.answers ms, failed x = false) :
    c.answers ms = listed t start c.lastKey ms := by
  induction ms generalizing c with
  | nil => rfl
  | cons m ms ih =>
    obtain ⟨hm, hrest⟩ := List.forall_mem_cons.mp hms
    have h' := h.move hm
    cases m with
    | next s =>
      obtain ⟨hx, hok⟩ := List.forall_mem_cons.mp hok
      rcases (nexts_of_offers h.placed hm).proceeds h.placed hl with hp | ⟨e, he, -⟩
      · have hleft : t.under start c.lastKey = c.left t := by rw [left, h.start_eq]
        rw [answers, listed, hleft, ← hp.yields, ← hp.lastKey]
        exact congrArg _ (ih h' hp.live hrest hok)
      · rw [he] at hx
        cases hx
    | restart => exact ih h' (c.live_setBehind none t) hrest hok
    | resumeAfter key => exact ih h' (c.live_setBehind (some key) t) hrest hok

def persist (c : Cursor) : List Shelf → List Answer
  | [] => []
  | s :: ss =>
    let (x, c', _) := c.next s
    x :: (if failed x then c'.recalled else c').persist ss

theorem yielded_persist {ss : List Shelf} (hc : c.Placed) (hl : c.Live t)
    (hss : ∀ s ∈ ss, s.Offers t) : (c.persist ss).filterMap yielded =
      (c.left t).take ((c.persist ss).countP fun x => !failed x) := by
  induction ss generalizing c with
  | nil => rfl
  | cons s ss ih =>
    obtain ⟨hs, hss⟩ := List.forall_mem_cons.mp hss
    have hn := nexts_of_offers hc hs
    rcases hn.proceeds hc hl with hp | ⟨e, he, -, -⟩
    · have hrest := ih (hn.placed hc) hp.live hss
      rw [hp.left] at hrest
      cases hleft : c.left t with
      | nil =>
        have hx : (c.next s).1 = none := by rw [hp.yields, hleft]; rfl
        rw [hleft] at hrest
        simpa [persist, hx, failed, yielded] using hrest
      | cons e l =>
        have hx : (c.next s).1 = some (.ok e) := by rw [hp.yields, hleft]; rfl
        rw [hleft] at hrest
        simpa [persist, hx, failed, yielded] using hrest
    · have hrest := ih (hn.placed hc).recalled (live_setBehind _ _ t) hss
      rw [he] at hn
      rw [left_recalled, hn.left_of_error] at hrest
      simpa [persist, he, failed, yielded, List.filterMap_cons] using hrest

structure Repositions (c : Cursor) (t : Table) (start : Bytes) : Prop where
  error_iff : ∀ (s : Shelf) (e : StoreError), (c.next s).1 = some (.error e) ↔
    c.Fetches ∧ (s.scanPage start c.lastKey c.pageSize).1 = .error e
  once : ∀ calls : Nat → Shelf, (∀ n, (calls n).Offers t) → ∀ i j, c.Fails calls i → i < j →
    c.found calls j = none
  behind : ∀ p : Option Bytes, p.all (start ≤ ·) = true → ∀ calls : Nat → Shelf,
    (∀ n, (calls n).Offers t) → ∀ n, (∀ i ≤ n, ¬ (c.setBehind p).Fails calls i) →
      (c.setBehind p).found calls n = ((t.under start p)[n]?).map .ok
  /-- The calls `without` are the scan that is not disturbed. The cursor is set behind its last key
  after the failure `i`, and after `j - i - 1` calls that find nothing. -/
  recalled : ∀ calls without again : Nat → Shelf, (∀ n, (calls n).Offers t) →
    (∀ n, (without n).Offers t) → (∀ n, (again n).Offers t) → ∀ i j, c.Fails calls i → i < j →
      ∀ n, (∀ k ≤ i + n, ¬ c.Fails without k) →
        (∀ k ≤ n, ¬ (c.turn calls j).recalled.Fails again k) →
          (c.turn calls j).recalled.found again n = c.found without (i + n)
  persists : ∀ p : Option Bytes, p.all (start ≤ ·) = true → ∀ ss : List Shelf,
    (∀ s ∈ ss, s.Offers t) → ((c.setBehind p).persist ss).filterMap yielded =
      (t.under start p).take (((c.setBehind p).persist ss).countP fun x => !failed x)

theorem Standing.repositions (h : c.Standing t start) : c.Repositions t start where
  error_iff s e := h.start_eq ▸ next_eq_error_iff
  once calls hcalls i j hi hij := found_of_spent (spent_of_fails h.placed hcalls hi) hij
  behind p hp calls hcalls n hn := by
    rw [found_of_live (h.setBehind hp).placed (c.live_setBehind p t) hcalls hn, left_setBehind,
      h.start_eq]
  recalled calls without again hcalls hwithout hagain i j hi hij n hn hrecalled := by
    have hl := h.live_of_fails hi
    have hj := placed_turn h.placed hcalls j
    have hleft := left_of_fails h.placed hl hcalls hi hij
    rw [found_of_live hj.recalled (live_setBehind _ _ t) hagain hrecalled, left_recalled, hleft,
      found_of_live h.placed hl hwithout hn, List.getElem?_drop]
  persists p hp ss hss := by
    rw [yielded_persist (h.setBehind hp).placed (c.live_setBehind p t) hss, left_setBehind,
      h.start_eq]

theorem repositions_after (t : Table) (start : Bytes) {ms : List Move}
    (hms : ∀ m ∈ ms, m.Allowed t start) :
    (∀ n, (((new start).withPageSize n).after ms).Repositions t start) ∧
      ∀ n n', (∀ x ∈ ((new start).withPageSize n).answers ms, failed x = false) →
        (∀ x ∈ ((new start).withPageSize n').answers ms, failed x = false) →
          ((new start).withPageSize n).answers ms = ((new start).withPageSize n').answers ms := by
  refine ⟨fun n => ((standing_new t start n).after hms).repositions, ?_⟩
  intro n n' hok hok'
  rw [answers_eq_listed (standing_new t start n) (live_new t start n) hms hok,
    answers_eq_listed (standing_new t start n') (live_new t start n') hms hok']
  rfl

def blackout : Shelf := { Scan.pantry with faults := FaultPlan.none.inject .scan 0 none }

def outage (n : Nat) : Shelf := if n = 2 then blackout else Scan.pantry

theorem offers_pantry : Scan.pantry.Offers Scan.stock.toTable := Or.inl rfl

theorem offers_outage (n : Nat) : (outage n).Offers Scan.stock.toTable := by
  unfold outage
  split_ifs
  · exact Or.inl rfl
  · exact offers_pantry

def wandering : List Move :=
  [.next Scan.pantry, .resumeAfter [1, 2], .next Scan.pantry, .next Scan.pantry, .restart]

theorem allowed_wandering : ∀ m ∈ wandering, m.Allowed Scan.stock.toTable [1] := by
  intro m hm
  simp only [wandering, List.mem_cons, List.not_mem_nil, or_false] at hm
  rcases hm with rfl | rfl | rfl | rfl | rfl
  · exact offers_pantry
  · exact (by decide : ([1] : Bytes) ≤ [1, 2])
  · exact offers_pantry
  · exact offers_pantry
  · trivial

def wanderer : Cursor := ((new [1]).withPageSize 2).after wandering

theorem repositions_after_wandering :
    (List.range 5).map (wanderer.found outage) =
        [some (.ok ([1], [10])), some (.ok ([1, 2], [11])),
          some (.error (.backend "injected scan failure")), none, none] ∧
      (wanderer.turn outage 4).recalled.found (fun _ => Scan.pantry) 0 =
        wanderer.found (fun _ => Scan.pantry) 2 ∧
      (wanderer.persist ((List.range 4).map outage)).filterMap yielded =
        [([1], [10]), ([1, 2], [11]), ([1, 4], [12])] ∧
      ((new [1]).withPageSize 2).answers wandering =
        ((new [1]).withPageSize 7).answers wandering := by
  obtain ⟨hafter, hsizes⟩ := repositions_after Scan.stock.toTable [1] allowed_wandering
  refine ⟨by decide +kernel, ?_, ?_, hsizes 2 7 (by decide +kernel) (by decide +kernel)⟩
  · refine (hafter 2).recalled outage (fun _ => Scan.pantry) (fun _ => Scan.pantry) offers_outage
      (fun _ => offers_pantry) (fun _ => offers_pantry) 2 4 ?_ (by decide) 0 ?_ ?_
    · decide +kernel
    · decide +kernel
    · decide +kernel
  · refine ((hafter 2).persists none rfl ((List.range 4).map outage) ?_).trans (by decide +kernel)
    intro s hs
    obtain ⟨n, -, rfl⟩ := List.mem_map.mp hs
    exact offers_outage n

end Cursor

end Staging
