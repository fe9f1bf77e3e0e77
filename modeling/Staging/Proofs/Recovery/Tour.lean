import Mathlib
import Staging.Proofs.Recovery.Run
import Staging.Proofs.Store.Scan

/-!
Whole cycles. A cycle is a tour of visits, one after another, and comes to its end when nothing is
left, when it finds itself halted, or when a page cannot be fetched. The steps of the task make such
a tour, and there are enough of them as long as the collaborators stage no more than they may.
-/

namespace Staging

variable {σ : Type}

def Bench.withShelf (b : Bench σ) (s : Shelf) : Bench σ :=
  { b with desk := { b.desk with shelf := s } }

inductive Outcome
  | unread (e : RepositoryError)
  | gone
  | redelivered (x : Exchange) (a : Except DeliveryError Unit)
  | unsent (x : Exchange) (e : DeliveryError)
  | sent (x : Exchange) (a : Except RepositoryError Bool)

namespace Outcome

def handed? : Outcome → Option Exchange
  | redelivered x _ | unsent x _ | sent x _ => some x
  | unread _ | gone => none

def isRedelivered : Outcome → Bool
  | redelivered _ (.ok ()) => true
  | _ => false

def isEscalated : Outcome → Bool
  | sent _ (.ok _) => true
  | _ => false

def isGone : Outcome → Bool
  | gone => true
  | _ => false

def isFailed : Outcome → Bool
  | unread _ | redelivered _ (.error _) | unsent _ _ | sent _ (.error _) => true
  | _ => false

def added (o : Outcome) (r : CycleSummary) : CycleSummary where
  scanned := r.scanned + 1
  redelivered := r.redelivered + o.isRedelivered.toNat
  escalated := r.escalated + o.isEscalated.toNat
  failed := r.failed + o.isFailed.toNat
  aborted := r.aborted

end Outcome

structure Visit (σ : Type) where
  id : String
  before : Bench σ
  outcome : Outcome
  after : Bench σ

namespace Task

def escalate (t : Task) (k : Collaborators σ) (id : String) (x : Exchange) (b : Bench σ) :
    Outcome × Bench σ :=
  match b.onDesk (k.send t.destination x) with
  | (.error e, b) => (.unsent x e, b)
  | (.ok (), b) =>
    match b.onShelf (t.repository.confirm id) with
    | (.error e, b) => (.sent x (.error e), b)
    | (.ok a, b) => (.sent x (.ok a), { b with counters := b.counters.erase id })

def retry (k : Collaborators σ) (x : Exchange) (b : Bench σ) : Outcome × Bench σ :=
  let (a, b) := b.onDesk (k.redeliver x)
  (.redelivered x a, b)

def attend (t : Task) (k : Collaborators σ) (id : String) (b : Bench σ) : Outcome × Bench σ :=
  match b.onShelf (t.repository.recover id) with
  | (.error e, b) => (.unread e, b)
  | (.ok none, b) => (.gone, { b with counters := b.counters.erase id })
  | (.ok (some e), b) =>
    let maximum := t.repository.settings.maxRedeliveries
    let (attempt, counters) := b.counters.increment id
    let x := e.stamp attempt maximum
    let b := { b with counters := counters }
    if maximum.toInt < attempt.toNat then t.escalate k id x b else retry k x b

def visit (t : Task) (k : Collaborators σ) (id : String) (b : Bench σ) : Visit σ :=
  ⟨id, b, (t.attend k id b).1, (t.attend k id b).2⟩

inductive Round (t : Task) (k : Collaborators σ) (vs : List (Visit σ)) (c : Cursor) (b : Bench σ) :
    List (Visit σ) → Cursor → Bench σ → Prop
  | passed {x : Except StoreError Entry} {c' : Cursor} {s : Shelf}
      (hx : c.next b.desk.shelf = (some x, c', s)) (hid : t.repository.completedId? x = none) :
      Round t k vs c b vs c' (b.withShelf s)
  | visited {x : Except StoreError Entry} {c' : Cursor} {s : Shelf} {id : String}
      (hx : c.next b.desk.shelf = (some x, c', s))
      (hid : t.repository.completedId? x = some (.ok id)) (hrun : b.desk.runAllowed = true) :
      Round t k vs c b (vs ++ [t.visit k id (b.withShelf s)]) c' (t.visit k id (b.withShelf s)).after

inductive Course (t : Task) (k : Collaborators σ) (b₀ : Bench σ) :
    List (Visit σ) → Cursor → Bench σ → Prop
  | begin : Course t k b₀ [] t.repository.completedCursor b₀
  | round {vs vs' : List (Visit σ)} {c c' : Cursor} {b b' : Bench σ} (h : Course t k b₀ vs c b)
      (hr : t.Round k vs c b vs' c' b') : Course t k b₀ vs' c' b'

inductive Ending
  | complete
  | halted
  | cut (e : RepositoryError)

/-- How a cycle ends after these visits. A halt is seen only where something more is found, be it a
further identifier or a failure to fetch a page. -/
inductive Ends (t : Task) (vs : List (Visit σ)) (c : Cursor) (b : Bench σ) :
    Ending → Bench σ → Prop
  | complete {c' : Cursor} {s : Shelf} (hx : c.next b.desk.shelf = (none, c', s)) :
      Ends t vs c b .complete
        { b.withShelf s with counters := b.counters.keep (vs.map Visit.id).reverse }
  | halted {x : Except StoreError Entry} {y : Except RepositoryError String} {c' : Cursor}
      {s : Shelf} (hx : c.next b.desk.shelf = (some x, c', s))
      (hid : t.repository.completedId? x = some y) (hrun : b.desk.runAllowed = false) :
      Ends t vs c b .halted (b.withShelf s)
  | cut {x : Except StoreError Entry} {e : RepositoryError} {c' : Cursor} {s : Shelf}
      (hx : c.next b.desk.shelf = (some x, c', s))
      (hid : t.repository.completedId? x = some (.error e)) (hrun : b.desk.runAllowed = true) :
      Ends t vs c b (.cut e) (b.withShelf s)

def Tour (t : Task) (k : Collaborators σ) (b₀ : Bench σ) (vs : List (Visit σ)) (ending : Ending)
    (b' : Bench σ) : Prop :=
  ∃ c b, t.Course k b₀ vs c b ∧ t.Ends vs c b ending b'

def summary (vs : List (Visit σ)) (ending : Ending) : CycleSummary where
  scanned := vs.length
  redelivered := vs.countP (·.outcome.isRedelivered)
  escalated := vs.countP (·.outcome.isEscalated)
  failed := vs.countP (·.outcome.isFailed) + (match ending with | .cut _ => 1 | _ => 0)
  aborted := match ending with | .halted => true | _ => false

section Steps

variable (t : Task) (k : Collaborators σ)

theorem runUpTo_finished {c : Cycle} (h : c.phase = .finished) (fuel : Nat) (b : Bench σ) :
    t.runUpTo k fuel c b = (c, b) := by
  cases fuel with
  | zero => rfl
  | succ fuel => simp only [runUpTo, h]

theorem runUpTo_succ {c : Cycle} (h : c.phase ≠ .finished) (fuel : Nat) (b : Bench σ) :
    t.runUpTo k (fuel + 1) c b = t.runUpTo k fuel (t.step k c b).1 (t.step k c b).2 := by
  rw [runUpTo]
  cases hp : c.phase with
  | finished => exact absurd hp h
  | _ => rfl

inductive Reaches : Nat → Cycle → Bench σ → Cycle → Bench σ → Prop
  | here (c : Cycle) (b : Bench σ) : Reaches 0 c b c b
  | step {n : Nat} {c c' : Cycle} {b b' : Bench σ} (hp : c.phase ≠ .finished)
      (h : Reaches n (t.step k c b).1 (t.step k c b).2 c' b') : Reaches (n + 1) c b c' b'

end Steps

section Reaches

variable {t : Task} {k : Collaborators σ} {n : Nat} {c c' : Cycle} {b b' : Bench σ}

theorem Reaches.runUpTo (h : t.Reaches k n c b c' b') (fuel : Nat) :
    t.runUpTo k (n + fuel) c b = t.runUpTo k fuel c' b' := by
  induction h with
  | here => rw [Nat.zero_add]
  | @step n _ _ _ _ hp _ ih => rw [Nat.add_right_comm, runUpTo_succ t k hp, ih]

theorem Reaches.le (h : t.Reaches k n c b c' b') {fuel : Nat}
    (hf : (t.runUpTo k fuel c b).1.phase = .finished) : n ≤ fuel := by
  induction h generalizing fuel with
  | here => exact Nat.zero_le fuel
  | step hp _ ih =>
    cases fuel with
    | zero => exact absurd hf hp
    | succ fuel =>
      rw [runUpTo_succ t k hp] at hf
      exact Nat.succ_le_succ (ih hf)

end Reaches

section Visit

variable (t : Task) (k : Collaborators σ) (cursor : Cursor) (ids : List String) (r : CycleSummary)
  (id : String)

def taken (phase : Phase) : Cycle := ⟨cursor, ids, { r with scanned := r.scanned + 1 }, phase⟩

theorem reaches_escalate (x : Exchange) (b : Bench σ) :
    ∃ n ≤ 2, t.Reaches k n (taken cursor ids r (.escalating id x)) b
      ⟨cursor, id :: ids, (t.escalate k id x b).1.added r, .fetching⟩ (t.escalate k id x b).2 := by
  rcases hs : b.onDesk (k.send t.destination x) with ⟨e | _, b₁⟩
  · refine ⟨1, by omega, .step (by simp [taken]) ?_⟩
    simp only [step, taken, escalate, hs]
    exact .here _ _
  · rcases hc : b₁.onShelf (t.repository.confirm id) with ⟨e | a, b₂⟩
    · refine ⟨2, by omega, .step (by simp [taken]) (.step ?_ ?_)⟩
      · simp [step, taken, hs]
      · simp only [step, taken, escalate, hs, hc]
        exact .here _ _
    · refine ⟨2, by omega, .step (by simp [taken]) (.step ?_ ?_)⟩
      · simp [step, taken, hs]
      · simp only [step, taken, escalate, hs, hc]
        exact .here _ _

theorem reaches_retry (x : Exchange) (b : Bench σ) :
    t.Reaches k 1 (taken cursor ids r (.redelivering id x)) b
      ⟨cursor, id :: ids, (retry k x b).1.added r, .fetching⟩ (retry k x b).2 := by
  rcases hd : b.onDesk (k.redeliver x) with ⟨e | _, b₁⟩
  · refine .step (by simp [taken]) ?_
    simp only [step, taken, retry, hd]
    exact .here _ _
  · refine .step (by simp [taken]) ?_
    simp only [step, taken, retry, hd]
    exact .here _ _

theorem reaches_attend (b : Bench σ) :
    ∃ n ≤ 3, t.Reaches k n (taken cursor ids r (.reading id)) b
      ⟨cursor, id :: ids, (t.attend k id b).1.added r, .fetching⟩ (t.attend k id b).2 := by
  rcases hx : b.onShelf (t.repository.recover id) with ⟨e | _ | e, b₁⟩
  · refine ⟨1, by omega, .step (by simp [taken]) ?_⟩
    simp only [step, taken, attend, hx]
    exact .here _ _
  · refine ⟨1, by omega, .step (by simp [taken]) ?_⟩
    simp only [step, taken, attend, hx]
    exact .here _ _
  · by_cases hm : t.repository.settings.maxRedeliveries.toInt < (b₁.counters.increment id).1.toNat
    · obtain ⟨n, hn, h⟩ := t.reaches_escalate k cursor ids r id _ _
      refine ⟨n + 1, by omega, .step (by simp [taken]) ?_⟩
      simp only [step, taken, attend, hx, handOver, hm, if_true]
      exact h
    · refine ⟨2, by omega, .step (by simp [taken]) ?_⟩
      simp only [step, taken, attend, hx, handOver, hm, if_false]
      exact t.reaches_retry k cursor ids r id _ _

end Visit

section Cycle

variable {t : Task} {k : Collaborators σ} {b₀ : Bench σ}

def after (vs : List (Visit σ)) (c : Cursor) : Cycle :=
  ⟨c, (vs.map Visit.id).reverse, summary vs .complete, .fetching⟩

theorem summary_append (vs : List (Visit σ)) (v : Visit σ) :
    summary (vs ++ [v]) .complete = v.outcome.added (summary vs .complete) := by
  simp only [summary, Outcome.added, List.length_append, List.countP_append, List.length_singleton,
    List.countP_singleton]
  cases v.outcome.isRedelivered <;> cases v.outcome.isEscalated <;> cases v.outcome.isFailed <;> rfl

theorem round_or_ends (t : Task) (k : Collaborators σ) (vs : List (Visit σ)) (c : Cursor)
    (b : Bench σ) :
    (∃ vs' c' b', t.Round k vs c b vs' c' b' ∧
        ∃ n, 0 < n ∧ n ≤ 5 ∧ t.Reaches k n (after vs c) b (after vs' c') b') ∨
      ∃ ending b' c', t.Ends vs c b ending b' ∧ c'.phase = .finished ∧
        c'.report = summary vs ending ∧ c'.visited = (vs.map Visit.id).reverse ∧
        ∃ n, n ≤ 5 ∧ t.Reaches k n (after vs c) b c' b' := by
  rcases hx : c.next b.desk.shelf with ⟨_ | x, c', s⟩
  · right
    refine ⟨.complete, _, { after vs c with cursor := c', phase := .finished }, .complete hx, rfl,
      rfl, rfl, 1, by omega, .step (by simp [after]) ?_⟩
    simp only [step, after, Bench.onShelf, hx]
    exact .here _ _
  cases hid : t.repository.completedId? x with
  | none =>
    left
    refine ⟨vs, c', b.withShelf s, .passed hx hid, 1, by omega, by omega, .step (by simp [after]) ?_⟩
    simp only [step, after, Bench.onShelf, hx, hid]
    exact .here _ _
  | some y =>
    have hstep : t.step k (after vs c) b =
        ({ after vs c with cursor := c', phase := .deciding y }, b.withShelf s) := by
      simp only [step, after, Bench.onShelf, hx, hid]
      rfl
    cases hrun : b.desk.runAllowed with
    | false =>
      right
      refine ⟨.halted, b.withShelf s, ⟨c', (vs.map Visit.id).reverse, summary vs .halted, .finished⟩,
        .halted hx hid hrun, rfl, rfl, rfl, 2, by omega, .step (by simp [after]) ?_⟩
      rw [hstep]
      refine .step (by simp) ?_
      simp only [step, after, Bench.withShelf, hrun]
      exact .here _ _
    | true =>
      cases y with
      | error e =>
        right
        refine ⟨.cut e, b.withShelf s, ⟨c', (vs.map Visit.id).reverse, summary vs (.cut e), .finished⟩,
          .cut hx hid hrun, rfl, rfl, rfl, 2, by omega, .step (by simp [after]) ?_⟩
        rw [hstep]
        refine .step (by simp) ?_
        simp only [step, after, Bench.withShelf, hrun]
        exact .here _ _
      | ok id =>
        left
        obtain ⟨n, hn, h⟩ := t.reaches_attend k c' (vs.map Visit.id).reverse (summary vs .complete) id
          (b.withShelf s)
        refine ⟨_, c', _, .visited hx hid hrun, n + 2, by omega, by omega, .step (by simp [after]) ?_⟩
        rw [hstep]
        refine .step (by simp) ?_
        have hafter : after (vs ++ [t.visit k id (b.withShelf s)]) c' =
            ⟨c', id :: (vs.map Visit.id).reverse,
              (t.attend k id (b.withShelf s)).1.added (summary vs .complete), .fetching⟩ := by
          rw [after, summary_append]
          simp [visit]
        have hrun' : (b.withShelf s).desk.runAllowed = true := hrun
        rw [hafter]
        simp only [step, hrun', if_true]
        exact h

theorem Course.tour_of_finished {fuel : Nat} {vs : List (Visit σ)} {c : Cursor} {b : Bench σ}
    (h : t.Course k b₀ vs c b) (hf : (t.runUpTo k fuel (after vs c) b).1.phase = .finished) :
    ∃ ws ending, t.Tour k b₀ ws ending (t.runUpTo k fuel (after vs c) b).2 ∧
      (t.runUpTo k fuel (after vs c) b).1.report = summary ws ending ∧
      (t.runUpTo k fuel (after vs c) b).1.visited = (ws.map Visit.id).reverse := by
  -- on the steps that are left, of which every round takes one at least
  induction fuel using Nat.strong_induction_on generalizing vs c b with
  | _ fuel ih =>
    rcases t.round_or_ends k vs c b with
      ⟨vs', c', b', hr, m, hm, -, hreach⟩ | ⟨ending, b', c', he, hp, hrep, hvis, m, -, hreach⟩
    · obtain ⟨left, rfl⟩ := Nat.exists_eq_add_of_le (hreach.le hf)
      rw [hreach.runUpTo] at hf ⊢
      exact ih left (by omega) (h.round hr) hf
    · obtain ⟨left, rfl⟩ := Nat.exists_eq_add_of_le (hreach.le hf)
      rw [hreach.runUpTo, runUpTo_finished t k hp]
      exact ⟨vs, ending, ⟨c, b, h, he⟩, hrep, hvis⟩

theorem tour_of_finished {fuel : Nat} (hf : (t.runUpTo k fuel t.begin b₀).1.phase = .finished) :
    ∃ vs ending, t.Tour k b₀ vs ending (t.runUpTo k fuel t.begin b₀).2 ∧
      (t.runUpTo k fuel t.begin b₀).1.report = summary vs ending ∧
      (t.runUpTo k fuel t.begin b₀).1.visited = (vs.map Visit.id).reverse :=
  Course.begin.tour_of_finished hf

end Cycle

end Task

def gained (l m : List Entry) : Nat := m.countP (fun e => decide (e.1 ∉ l.map (·.1)))

theorem gained_self (l : List Entry) : gained l l = 0 := by
  apply List.countP_eq_zero.mpr
  intro e he
  simpa using ⟨e.2, he⟩

theorem gained_erase (t : Table) (key : Bytes) : gained t.entries (t.erase key).entries = 0 := by
  apply List.countP_eq_zero.mpr
  intro e he
  simpa using ⟨e.2, Assoc.mem_of_mem_erase he⟩

theorem Table.length_under_le_gained (t u : Table) (start : Bytes) (after : Option Bytes) :
    (u.under start after).length ≤ (t.under start after).length + gained t.entries u.entries := by
  let known (e : Entry) : Bool := decide (e.1 ∈ t.entries.map (·.1))
  have hsplit := List.length_eq_length_filter_add (l := u.under start after) known
  have hnodup : (((u.under start after).filter known).map (·.1)).Nodup := by
    refine List.pairwise_map.mpr (((under_ascending after).filter known).imp ?_)
    rintro a b hab he
    exact Std.lt_irrefl (he ▸ hab)
  have hsubset : ((u.under start after).filter known).map (·.1) ⊆ (t.under start after).map (·.1) := by
    intro key hkey
    obtain ⟨e, he, rfl⟩ := List.mem_map.mp hkey
    obtain ⟨heu, hknown⟩ := List.mem_filter.mp he
    obtain ⟨e', het, hkeys⟩ := List.mem_map.mp (of_decide_eq_true hknown)
    obtain ⟨-, hstart, hafter⟩ := mem_under.mp heu
    refine List.mem_map.mpr ⟨e', mem_under.mpr ⟨SortedMap.mem_entries.mp het, ?_, ?_⟩, hkeys⟩
    · rwa [hkeys]
    · rwa [hkeys]
  have hknown := (List.subperm_of_subset hnodup hsubset).length_le
  have hnew : ((u.under start after).filter (fun e => !known e)).length ≤
      gained t.entries u.entries := by
    have hsub := (List.filter_sublist (l := u.entries)
      (p := fun e => e.1.startsWith start && after.all (· < e.1))).filter (fun e => !known e)
    have hle := hsub.length_le
    rw [gained, List.countP_eq_length_filter]
    simpa [known, under] using hle
  rw [List.length_map, List.length_map] at hknown
  omega

theorem Cursor.length_rest_le_gained (c : Cursor) (t u : Table) :
    (c.rest u).length ≤ (c.rest t).length + gained t.entries u.entries := by
  have := Table.length_under_le_gained t u c.start c.frontier
  rw [rest, rest, List.length_append, List.length_append]
  cases c.exhausted with
  | true => simp
  | false =>
    simp only [Bool.false_eq_true, if_false]
    omega

theorem Cursor.length_rest_erase_le (c : Cursor) (t : Table) (key : Bytes) :
    (c.rest (t.erase key)).length ≤ (c.rest t).length := by
  have := c.length_rest_le_gained t (t.erase key)
  rwa [gained_erase, Nat.add_zero] at this

structure Collaborators.Tidy (k : Collaborators σ) : Prop where
  redeliver : ∀ e d t, d.shelf.Holds t → ∃ u, (k.redeliver e d).2.shelf.Holds u
  send : ∀ destination e d t, d.shelf.Holds t → ∃ u, (k.send destination e d).2.shelf.Holds u

/-- Collaborators that make no more new entries than their own world gives them credit for. -/
structure Collaborators.Within (k : Collaborators σ) (credit : σ → Nat) : Prop where
  redeliver : ∀ e d t, d.shelf.Holds t → gained d.shelf.entries (k.redeliver e d).2.shelf.entries +
    credit (k.redeliver e d).2.outside ≤ credit d.outside
  send : ∀ destination e d t, d.shelf.Holds t →
    gained d.shelf.entries (k.send destination e d).2.shelf.entries +
      credit (k.send destination e d).2.outside ≤ credit d.outside

theorem Repository.shelfAfter_legible (r : Repository) (calls : List Call) {s : Shelf} {t : Table}
    (h : s.Holds t) : ∃ u, (r.shelfAfter calls s).Holds u := by
  induction calls generalizing s t with
  | nil => exact ⟨t, h⟩
  | cons c calls ih =>
    obtain ⟨u, hu⟩ := r.run_legible h c
    exact ih hu

theorem Collaborators.Through.tidy {k : Collaborators σ} {r : Repository} (h : k.Through r) :
    k.Tidy where
  redeliver e d t ht := by
    obtain ⟨calls, hd⟩ := h.redeliver e d
    rw [hd]
    exact r.shelfAfter_legible calls ht
  send destination e d t ht := by
    obtain ⟨calls, hd⟩ := h.send destination e d
    rw [hd]
    exact r.shelfAfter_legible calls ht

inductive Collaborators.Acts (k : Collaborators σ) (d : Desk σ) : Desk σ → Prop
  | idle : Acts k d d
  | redeliver (e : Exchange) : Acts k d (k.redeliver e d).2
  | send (destination : String) (e : Exchange) : Acts k d (k.send destination e d).2

namespace Collaborators.Acts

variable {k : Collaborators σ} {d d' : Desk σ} {u : Table}

theorem holds (h : k.Acts d d') (hk : k.Tidy) (hd : d.shelf.Holds u) :
    ∃ v, d'.shelf.Holds v := by
  cases h with
  | idle => exact ⟨u, hd⟩
  | redeliver e => exact hk.redeliver e d u hd
  | send destination e => exact hk.send destination e d u hd

theorem gained_le (h : k.Acts d d') (hd : d.shelf.Holds u) {credit : σ → Nat}
    (hc : k.Within credit) :
    gained d.shelf.entries d'.shelf.entries + credit d'.outside ≤ credit d.outside := by
  cases h with
  | idle => rw [gained_self, Nat.zero_add]
  | redeliver e => exact hc.redeliver e d u hd
  | send destination e => exact hc.send destination e d u hd

theorem length_rest_le (h : k.Acts d d') (hd : d.shelf.Holds u) {v : Table}
    (hd' : d'.shelf.Holds v) {credit : σ → Nat} (hc : k.Within credit) (c : Cursor) :
    (c.rest v).length + credit d'.outside ≤ (c.rest u).length + credit d.outside := by
  have hgained := h.gained_le hd hc
  rw [hd.entries_eq, hd'.entries_eq] at hgained
  have hacted := c.length_rest_le_gained u v
  omega

end Collaborators.Acts

namespace Task

theorem desk_step_told (t : Task) (x : Except DeliveryError Unit) (c : Cycle) (b : Bench σ) :
    (t.step (.told x b.desk) c b).2.desk =
      { b.desk with shelf := (t.step (.told x b.desk) c b).2.desk.shelf } := by
  cases hp : c.phase with
  | fetching =>
    rcases hx : c.cursor.next b.desk.shelf with ⟨_ | y, cursor, s⟩
    · simp only [step, hp, Bench.onShelf, hx]
    · cases hid : t.repository.completedId? y <;> simp only [step, hp, Bench.onShelf, hx, hid]
  | deciding y =>
    have hstep : (t.step (.told x b.desk) c b).2 = b := by
      by_cases hr : b.desk.runAllowed = true
      · cases y <;> simp only [step, hp, if_pos hr]
      · simp only [step, hp, if_neg hr]
    rw [hstep]
  | reading id =>
    rcases hx : t.repository.recover id b.desk.shelf with ⟨e | _ | e, s⟩ <;>
      simp only [step, hp, Bench.onShelf, hx, handOver]
  | redelivering id e =>
    cases x <;> simp only [step, hp, Bench.onDesk, Collaborators.told]
  | escalating id e =>
    cases x <;> simp only [step, hp, Bench.onDesk, Collaborators.told]
  | confirming id =>
    rcases hx : t.repository.confirm id b.desk.shelf with ⟨_ | _, s⟩ <;>
      simp only [step, hp, Bench.onShelf, hx]
  | finished => simp only [step, hp]

theorem step_eq_told (t : Task) (k : Collaborators σ) (c : Cycle) (b : Bench σ) :
    ∃ x d, k.Acts b.desk d ∧
      t.step k c b = t.step (.told x d) c ⟨d, b.counters⟩ ∧
      t.deed k c b = t.deed (.told x d) c ⟨d, b.counters⟩ := by
  cases hp : c.phase with
  | redelivering id e =>
    refine ⟨(k.redeliver e b.desk).1, (k.redeliver e b.desk).2, .redeliver e, ?_, ?_⟩
    · simp only [step, hp, Bench.onDesk, Collaborators.told]
    · simp only [deed, hp, Collaborators.told]
  | escalating id e =>
    refine ⟨(k.send t.destination e b.desk).1, (k.send t.destination e b.desk).2,
      .send t.destination e, ?_, ?_⟩
    · simp only [step, hp, Bench.onDesk, Collaborators.told]
    · simp only [deed, hp, Collaborators.told]
  | _ =>
    refine ⟨.ok (), b.desk, .idle, ?_, ?_⟩
    · simp only [step, hp]
    · simp only [deed, hp]

theorem step_acted (t : Task) (k : Collaborators σ) (c : Cycle) (b : Bench σ) :
    ∃ d, k.Acts b.desk d ∧
      t.Steps c d.shelf b.counters (t.deed k c b) (t.step k c b).1 (t.step k c b).2.desk.shelf
        (t.step k c b).2.counters ∧
      (t.step k c b).2.desk = { d with shelf := (t.step k c b).2.desk.shelf } := by
  obtain ⟨x, d, hacts, hstep, hdeed⟩ := t.step_eq_told k c b
  rw [hstep, hdeed]
  exact ⟨d, hacts, steps (Station.aloof_told x d) t c ⟨d, b.counters⟩,
    t.desk_step_told x c ⟨d, b.counters⟩⟩

section Attend

variable {t : Task} {k : Collaborators σ} {u : Table}

theorem escalate_holds (hk : k.Tidy) (id : String) (x : Exchange) {b : Bench σ}
    (h : b.desk.shelf.Holds u) :
    ∃ v w, (k.send t.destination x b.desk).2.shelf.Holds v ∧
      (t.escalate k id x b).2.desk.outside = (k.send t.destination x b.desk).2.outside ∧
      (t.escalate k id x b).2.desk.shelf.Holds w ∧
      (w = v ∨ w = v.erase (t.repository.keySpace.completedKey id)) := by
  obtain ⟨v, hv⟩ := hk.send t.destination x b.desk u h
  rcases hs : k.send t.destination x b.desk with ⟨e | _, d⟩
  · rw [hs] at hv
    have hescalate : (t.escalate k id x b).2.desk = d := by simp [escalate, Bench.onDesk, hs]
    exact ⟨v, v, hv, by rw [hescalate], by rwa [hescalate], Or.inl rfl⟩
  · rw [hs] at hv
    rcases t.repository.confirm_erases hv id with ⟨s, hc, hw, -⟩ | ⟨-, e, s, hc, hw, -⟩
    · have hescalate : (t.escalate k id x b).2.desk = { d with shelf := s } := by
        simp [escalate, Bench.onDesk, Bench.onShelf, hs, hc]
      exact ⟨v, _, hv, by rw [hescalate], by rwa [hescalate], Or.inr rfl⟩
    · have hescalate : (t.escalate k id x b).2.desk = { d with shelf := s } := by
        simp [escalate, Bench.onDesk, Bench.onShelf, hs, hc]
      exact ⟨v, v, hv, by rw [hescalate], by rwa [hescalate], Or.inl rfl⟩

structure Attended (t : Task) (k : Collaborators σ) (id : String) (b b' : Bench σ) (u : Table)
    (d : Desk σ) (v w : Table) : Prop where
  read : ∃ d₀ : Desk σ, d₀.shelf.Holds u ∧ d₀.outside = b.desk.outside ∧ k.Acts d₀ d
  acted : d.shelf.Holds v
  outside : b'.desk.outside = d.outside
  left : b'.desk.shelf.Holds w
  own : w = v ∨ w = v.erase (t.repository.keySpace.completedKey id)

theorem attend_attended (hk : k.Tidy) (id : String) {b : Bench σ} (h : b.desk.shelf.Holds u) :
    ∃ d v w, t.Attended k id b (t.attend k id b).2 u d v w := by
  rcases hx : t.repository.recover id b.desk.shelf with ⟨x, s⟩
  have hread := (t.repository.recover_keeps h hx).1
  have untouched {b' : Bench σ} (hb : b'.desk = { b.desk with shelf := s }) :
      ∃ d v w, t.Attended k id b b' u d v w :=
    ⟨b'.desk, u, u, ⟨_, hb ▸ hread, hb ▸ rfl, .idle⟩, hb ▸ hread, rfl, hb ▸ hread, Or.inl rfl⟩
  rcases x with e | _ | e
  · exact untouched (by simp [attend, Bench.onShelf, hx])
  · exact untouched (by simp [attend, Bench.onShelf, hx])
  · let d₀ : Desk σ := { b.desk with shelf := s }
    let n := b.counters.increment id
    let y := e.stamp n.1 t.repository.settings.maxRedeliveries
    have hd₀ : d₀.shelf.Holds u := hread
    by_cases hm : t.repository.settings.maxRedeliveries.toInt < n.1.toNat
    · have hattend : t.attend k id b = t.escalate k id y ⟨d₀, n.2⟩ := by
        simp only [attend, Bench.onShelf, hx]
        rw [if_pos hm]
      rw [hattend]
      obtain ⟨v, w, hv, hout, hw, hown⟩ := escalate_holds (t := t) hk id y (b := ⟨d₀, n.2⟩) hd₀
      exact ⟨(k.send t.destination y d₀).2, v, w, ⟨d₀, hd₀, rfl, .send t.destination y⟩, hv, hout, hw,
        hown⟩
    · have hattend : t.attend k id b = retry k y ⟨d₀, n.2⟩ := by
        simp only [attend, Bench.onShelf, hx]
        rw [if_neg hm]
      rw [hattend]
      obtain ⟨v, hv⟩ := hk.redeliver y d₀ u hd₀
      exact ⟨(k.redeliver y d₀).2, v, v, ⟨d₀, hd₀, rfl, .redeliver y⟩, hv, rfl, hv, Or.inl rfl⟩

theorem Attended.length_rest_le {id : String} {b b' : Bench σ} {d : Desk σ} {v w : Table}
    (h : t.Attended k id b b' u d v w) {credit : σ → Nat} (hc : k.Within credit) (c : Cursor) :
    (c.rest w).length + credit b'.desk.outside ≤ (c.rest u).length + credit b.desk.outside := by
  obtain ⟨d₀, hu, hout, hacts⟩ := h.read
  have hacted := hacts.length_rest_le hu h.acted hc c
  rw [hout] at hacted
  have hown : (c.rest w).length ≤ (c.rest v).length := by
    rcases h.own with rfl | rfl
    · exact Nat.le_refl _
    · exact c.length_rest_erase_le v _
  rw [h.outside]
  omega

end Attend

section Rounds

variable {t : Task} {k : Collaborators σ} {u : Table} {vs vs' : List (Visit σ)} {c c' : Cursor}
  {b b' : Bench σ}

theorem completedId?_ok {e : Entry} {id : String}
    (h : t.repository.completedId? (.ok e) = some (.ok id)) :
    e.1 = t.repository.keySpace.completedKey id := by
  rw [Repository.completedId?, Option.map_eq_some_iff] at h
  obtain ⟨i, hi, hid⟩ := h
  cases hid
  exact Bytes.textAfter?_eq_some_iff.mp hi

structure Fetched (c : Cursor) (s : Shelf) (u : Table) (e : Entry) (c' : Cursor) (s' : Shelf) :
    Prop where
  next : c.next s = (some (.ok e), c', s')
  nexts : c.Nexts u (some (.ok e)) c'
  placed : c'.Placed
  start : c'.start = c.start
  rest : c.rest u = e :: c'.rest u
  holds : s'.Holds u

theorem Round.fetched (hr : t.Round k vs c b vs' c' b') (hc : c.Placed) (h : b.desk.shelf.Holds u) :
    ∃ e s, Fetched c b.desk.shelf u e c' s ∧
      (t.repository.completedId? (.ok e) = none ∧ vs' = vs ∧ b' = b.withShelf s ∨
        ∃ id, e.1 = t.repository.keySpace.completedKey id ∧ b.desk.runAllowed = true ∧
          vs' = vs ++ [t.visit k id (b.withShelf s)] ∧ b' = (t.visit k id (b.withShelf s)).after) := by
  have fetched {x : Except StoreError Entry} {c' : Cursor} {s : Shelf}
      (hx : c.next b.desk.shelf = (some x, c', s)) (hid : ∀ e, x ≠ .error e) :
      ∃ e, x = .ok e ∧ Fetched c b.desk.shelf u e c' s := by
    have hnexts := Cursor.next_cases hc h
    obtain ⟨hc', hstart, hs⟩ := hc.next h hx
    rcases hc.told h hx with ⟨he, -⟩ | ⟨e, he, hrest⟩ | ⟨e, he⟩
    · cases he
    · cases he
      rw [hx] at hnexts
      exact ⟨e, rfl, hx, hnexts, hc', hstart, hrest, hs⟩
    · cases he
      exact absurd rfl (hid e)
  cases hr with
  | @passed x _ s hx hid =>
    obtain ⟨e, rfl, hf⟩ := fetched hx (by rintro e rfl; simp [Repository.completedId?] at hid)
    exact ⟨e, s, hf, Or.inl ⟨hid, rfl, rfl⟩⟩
  | @visited x _ s id hx hid hrun =>
    obtain ⟨e, rfl, hf⟩ := fetched hx (by rintro e rfl; simp [Repository.completedId?] at hid)
    exact ⟨e, s, hf, Or.inr ⟨id, completedId?_ok hid, hrun, rfl, rfl⟩⟩

theorem Round.holds (hr : t.Round k vs c b vs' c' b') (hk : k.Tidy) (hc : c.Placed)
    (h : b.desk.shelf.Holds u) : c'.Placed ∧ c'.start = c.start ∧ ∃ w, b'.desk.shelf.Holds w := by
  obtain ⟨e, s, hf, ⟨-, -, rfl⟩ | ⟨id, -, -, -, rfl⟩⟩ := hr.fetched hc h
  · exact ⟨hf.placed, hf.start, u, hf.holds⟩
  · obtain ⟨d, v, w, ha⟩ := attend_attended hk id (t := t) (b := b.withShelf s) hf.holds
    exact ⟨hf.placed, hf.start, w, ha.left⟩

theorem Round.measure_lt (hr : t.Round k vs c b vs' c' b') (hk : k.Tidy) {credit : σ → Nat}
    (hcr : k.Within credit) (hc : c.Placed) (h : b.desk.shelf.Holds u) :
    ∃ w, b'.desk.shelf.Holds w ∧
      (c'.rest w).length + credit b'.desk.outside < (c.rest u).length + credit b.desk.outside := by
  obtain ⟨e, s, hf, ⟨-, -, rfl⟩ | ⟨id, -, -, -, rfl⟩⟩ := hr.fetched hc h
  · refine ⟨u, hf.holds, ?_⟩
    rw [hf.rest, List.length_cons]
    simp only [Bench.withShelf]
    omega
  · obtain ⟨d, v, w, ha⟩ := attend_attended hk id (t := t) (b := b.withShelf s) hf.holds
    refine ⟨w, ha.left, ?_⟩
    have hle := ha.length_rest_le hcr c'
    rw [hf.rest, List.length_cons]
    simp only [Bench.withShelf] at hle
    exact Nat.lt_of_le_of_lt hle (by omega)

theorem finished_of_le (hk : k.Tidy) {credit : σ → Nat} (hcr : k.Within credit) (hc : c.Placed)
    (h : b.desk.shelf.Holds u) {fuel : Nat}
    (hf : 5 * ((c.rest u).length + credit b.desk.outside + 1) ≤ fuel) :
    (t.runUpTo k fuel (after vs c) b).1.phase = .finished := by
  -- a round takes five steps at most and leaves less ahead, counting what may yet be staged
  generalize hm : (c.rest u).length + credit b.desk.outside = m at hf
  induction m using Nat.strong_induction_on generalizing vs c b u fuel with
  | _ m ih =>
    rcases t.round_or_ends k vs c b with
      ⟨vs', c', b', hr, n, -, hn, hreach⟩ | ⟨ending, b', c', -, hp, -, -, n, hn, hreach⟩
    · obtain ⟨w, hw, hlt⟩ := hr.measure_lt hk hcr hc h
      obtain ⟨fuel, rfl⟩ := Nat.exists_eq_add_of_le (show n ≤ fuel by omega)
      rw [hreach.runUpTo]
      exact ih _ (hm ▸ hlt) (hr.holds hk hc h).1 hw rfl (by omega)
    · obtain ⟨fuel, rfl⟩ := Nat.exists_eq_add_of_le (show n ≤ fuel by omega)
      rw [hreach.runUpTo, runUpTo_finished t k hp]
      exact hp

theorem runCycle_finished (hk : k.Tidy) {credit : σ → Nat} (hcr : k.Within credit)
    (h : b.desk.shelf.Holds u) (hb : credit b.desk.outside ≤ k.maxStaged) :
    (t.runUpTo k (stepBound k b) t.begin b).1.phase = .finished := by
  have hrest := Cursor.length_under_le b.desk.shelf h t.repository.keySpace.completedPrefix none
  have hfuel : 5 * ((t.repository.completedCursor.rest u).length + credit b.desk.outside + 1) ≤
      stepBound k b := by
    rw [Repository.completedCursor, Cursor.rest_new, stepBound]
    omega
  have hbegin : t.begin = after ([] : List (Visit σ)) t.repository.completedCursor := rfl
  rw [hbegin]
  exact finished_of_le hk hcr (Cursor.placed_new _) h hfuel

end Rounds

end Task

end Staging
