import Mathlib
import Staging.Proofs.Recovery.Run

namespace Staging

namespace Counters

def attempt (n : Nat) : UInt32 := UInt32.ofNat (min n 4294967295)

theorem toNat_attempt (n : Nat) : (attempt n).toNat = min n 4294967295 := by
  rw [attempt, UInt32.toNat_ofNat_of_lt']
  simp only [UInt32.size]
  omega

theorem saturatingSucc_attempt (n : Nat) : saturatingSucc (attempt n) = attempt (n + 1) := by
  apply UInt32.toNat.inj
  rw [toNat_attempt, saturatingSucc]
  split_ifs with h
  · have hn := congrArg UInt32.toNat h
    rw [toNat_attempt] at hn ⊢
    simp only [UInt32.reduceToNat] at hn
    omega
  · have hne : (attempt n).toNat ≠ 4294967295 := by
      intro hn
      exact h (UInt32.toNat.inj (by simpa using hn))
    rw [toNat_attempt] at hne
    rw [UInt32.toNat_add, toNat_attempt]
    simp only [UInt32.reduceToNat]
    omega

def Counts (c : Counters) (id : String) (n : Nat) : Prop :=
  c.get? id = if n = 0 then none else some (attempt n)

variable {c : Counters} {id i : String} {n : Nat}

theorem Counts.count (h : c.Counts id n) : c.count id = attempt n := by
  rw [Counters.count, h]
  split_ifs with hn
  · rw [hn]
    rfl
  · rfl

theorem Counts.increment (h : c.Counts id n) :
    (c.increment id).1 = attempt (n + 1) ∧ (c.increment id).2.Counts id (n + 1) := by
  have hs : saturatingSucc (c.count id) = attempt (n + 1) := by
    rw [h.count, saturatingSucc_attempt]
  refine ⟨hs, ?_⟩
  rw [Counts, Counters.increment, hs, SortedMap.get?_insert_self, if_neg (Nat.succ_ne_zero n)]

theorem Counts.increment_of_ne (h : c.Counts id n) (hi : i ≠ id) :
    (c.increment i).2.Counts id n := by
  rw [Counts, Counters.increment, SortedMap.get?_insert_of_ne _ hi.symm]
  exact h

theorem Counts.erase_of_ne (h : c.Counts id n) (hi : i ≠ id) :
    Counts (c.erase i) id n := by
  rw [Counts, SortedMap.get?_erase_of_ne hi.symm]
  exact h

theorem Counts.keep {ids : List String} (h : c.Counts id n) (hid : n ≠ 0 → id ∈ ids) :
    (c.keep ids).Counts id n := by
  rw [Counts, Counters.keep, SortedMap.get?_filter, h]
  split_ifs with hn
  · rfl
  · simp [hid hn]

end Counters

theorem Task.ofRepository_ok {r : Repository} {t : Task} (h : ofRepository r = .ok t) :
    t.repository = r ∧ r.settings.useRecovery = true ∧ 0 ≤ r.settings.maxRedeliveries.toInt := by
  unfold ofRepository at h
  split at h
  · rename_i hr
    cases hv : r.settings.validateRecovery with
    | error e => simp [hv] at h
    | ok _ =>
      simp only [hv, Functor.map, Except.map, Except.ok.injEq] at h
      subst h
      refine ⟨rfl, hr, ?_⟩
      unfold Settings.validateRecovery Settings.validate at hv
      cases hk : KeySpace.ofName r.settings.name with
      | error e => simp [hk, bind, Except.bind] at hv
      | ok k =>
        by_cases hneg : r.settings.maxRedeliveries < 0
        · simp [hk, hneg, bind, Except.bind] at hv
        · exact Int.not_lt.mp (fun h => hneg (Int32.lt_iff_toInt_lt.mpr h))
  · simp at h

variable {σ : Type}

namespace Event

def reads (id : String) (es : List Event) : List Exchange :=
  es.filterMap fun e =>
    match e with
    | .step (some (.read i x)) => if i = id then some x else none
    | _ => none

def redeliveries (id : String) (es : List Event) : List Exchange :=
  es.filterMap fun e =>
    match e with
    | .step (some (.redelivered i x _)) => if i = id then some x else none
    | _ => none

variable {id : String} {es : List Event} {e : Event}

end Event

namespace Station

open Counters (attempt)
open Event (reads redeliveries)

def budget (t : Task) : Nat := t.repository.settings.maxRedeliveries.toInt.toNat

/-- The last snapshot that was read, with the stamps of the attempt that it is. -/
def Due (t : Task) (rs : List Exchange) (y : Exchange) : Prop :=
  ∃ x, rs.getLast? = some x ∧ y = x.stamp (attempt rs.length) t.repository.settings.maxRedeliveries

def phaseAt (t : Task) (id : String) (x : Exchange) (n : Nat) : Phase :=
  let y := x.stamp (attempt n) t.repository.settings.maxRedeliveries
  if n ≤ budget t then .redelivering id y else .escalating id y

theorem route_attempt {t : Task} (h : 0 ≤ t.repository.settings.maxRedeliveries.toInt) (id : String)
    (x : Exchange) (n : Nat) : t.route id x (attempt n) = phaseAt t id x n := by
  have hlt := Int32.toInt_lt t.repository.settings.maxRedeliveries
  have hiff : t.repository.settings.maxRedeliveries.toInt < (attempt n).toNat ↔ ¬ n ≤ budget t := by
    rw [Counters.toNat_attempt, budget]
    omega
  unfold Task.route phaseAt
  dsimp only
  split_ifs with h₁ h₂ h₃
  · exact absurd h₂ (hiff.mp h₁)
  · rfl
  · rfl
  · exact absurd (hiff.mpr h₃) h₁

def InBudget (t : Task) (id : String) (rs ds : List Exchange) : Phase → Prop
  | .redelivering i y => i = id → Due t rs y ∧ rs.length ≤ budget t ∧ ds.length < rs.length
  | .escalating i y => i = id → Due t rs y ∧ budget t < rs.length
  | .confirming i => i = id → budget t < rs.length
  | _ => True

/-- A cycle that can still prune counters has been at the exchange, is at it, or comes to it. -/
def Tracked (t : Task) (id : String) (c : Cycle) : Prop :=
  match c.phase with
  | .deciding (.error _) | .finished => True
  | .fetching => id ∈ c.visited ∨ c.cursor.Ahead (t.repository.keySpace.completedKey id)
  | .deciding (.ok i) | .reading i | .redelivering i _ | .escalating i _ | .confirming i =>
    i = id ∨ id ∈ c.visited ∨ c.cursor.Ahead (t.repository.keySpace.completedKey id)

structure Metered (id : String) (rs ds : List Exchange) (t : Task) (c : Option Cycle)
    (n : Counters) : Prop where
  counts : n.Counts id rs.length
  tracked : rs ≠ [] → ∀ c', c = some c' → Tracked t id c'
  inBudget : ∀ c', c = some c' → InBudget t id rs ds c'.phase
  redelivered : ds.length ≤ rs.length ∧ ds.length ≤ budget t

variable {id : String} {rs ds : List Exchange} {t : Task}

theorem inBudget_phaseAt {x : Exchange} (hd : ds.length ≤ rs.length) :
    InBudget t id (rs ++ [x]) ds (phaseAt t id x (rs.length + 1)) := by
  have hdue : Due t (rs ++ [x]) (x.stamp (attempt (rs.length + 1))
      t.repository.settings.maxRedeliveries) := ⟨x, by simp, by simp⟩
  unfold phaseAt
  dsimp only
  split_ifs with h
  · intro _
    refine ⟨hdue, by simpa using h, ?_⟩
    rw [List.length_append, List.length_singleton]
    omega
  · intro _
    refine ⟨hdue, ?_⟩
    rw [List.length_append, List.length_singleton]
    omega

theorem inBudget_route_of_ne {i : String} (x : Exchange) (n : UInt32) (hi : i ≠ id) :
    InBudget t id rs ds (t.route i x n) := by
  unfold Task.route
  dsimp only
  split_ifs
  · exact fun h => absurd h hi
  · exact fun h => absurd h hi

theorem tracked_route {c : Cycle} {i : String} (x : Exchange) (n : UInt32)
    (h : i = id ∨ id ∈ c.visited ∨ c.cursor.Ahead (t.repository.keySpace.completedKey id)) :
    Tracked t id { c with phase := t.route i x n } := by
  unfold Task.route
  dsimp only
  split_ifs
  · exact h
  · exact h

theorem Metered.quiet {c c' : Cycle} {n n' : Counters} (h : Metered id rs ds t (some c) n)
    (hn : n'.Counts id rs.length) (ht : rs ≠ [] → Tracked t id c')
    (hi : InBudget t id rs ds c'.phase) : Metered id rs ds t (some c') n' where
  counts := hn
  tracked hr _ hc := by
    cases hc
    exact ht hr
  inBudget _ hc := by
    cases hc
    exact hi
  redelivered := h.redelivered

theorem tracked_leave {c : Cycle} {i : String} {report : CycleSummary}
    (h : i = id ∨ id ∈ c.visited ∨ c.cursor.Ahead (t.repository.keySpace.completedKey id)) :
    Tracked t id (Task.leave c i report) := by
  rcases h with rfl | h | h
  · exact Or.inl List.mem_cons_self
  · exact Or.inl (List.mem_cons_of_mem _ h)
  · exact Or.inr h

theorem ahead_next {c cursor : Cursor} {s s' : Shelf} {u : Table} {b : Bytes}
    {x : Option (Except StoreError Entry)} (hp : c.Placed)
    (hstart : c.start = t.repository.keySpace.completedPrefix) (hs : s.Holds u)
    (hb : u.get? (t.repository.keySpace.completedKey id) = some b)
    (hx : c.next s = (x, cursor, s')) (ha : c.Ahead (t.repository.keySpace.completedKey id)) :
    ∃ y, x = some y ∧ ((∃ e, y = .error e) ∨ t.repository.completedId? y = some (.ok id) ∨
      (∃ e, y = .ok e) ∧ cursor.Ahead (t.repository.keySpace.completedKey id)) := by
  have hk : (t.repository.keySpace.completedKey id).startsWith c.start = true := by
    rw [hstart]
    exact Bytes.startsWith_append _ _
  obtain ⟨-, hstart', -⟩ := hp.next hs hx
  rcases hp.told hs hx with ⟨rfl, hrest⟩ | ⟨e, rfl, hrest⟩ | ⟨e, rfl⟩
  · rw [Cursor.ahead_iff_mem_rest hk hb, hrest] at ha
    simp at ha
  · refine ⟨.ok e, rfl, ?_⟩
    rcases Cursor.ahead_of_next hstart' hrest hk hb ha with he | ha'
    · right; left
      simp [Repository.completedId?, ← he]
    · exact Or.inr (Or.inr ⟨⟨e, rfl⟩, ha'⟩)
  · exact ⟨.error e, rfl, Or.inl ⟨e, rfl⟩⟩

section Fetching

variable {c : Cycle} {cursor : Cursor} {s s' : Shelf} {u : Table} {b : Bytes}
  (ht : Tracked t id c) (hp : c.phase = .fetching) (hon : OnCompleted t c) (hs : s.Holds u)
  (hb : u.get? (t.repository.keySpace.completedKey id) = some b)
include ht hp hon hs hb

theorem Tracked.ended (hx : c.cursor.next s = (none, cursor, s')) : id ∈ c.visited := by
  simp only [Tracked, hp] at ht
  rcases ht with hv | ha
  · exact hv
  · obtain ⟨y, hy, _⟩ := ahead_next hon.1 hon.2 hs hb hx ha
    cases hy

theorem Tracked.passed {x : Except StoreError Entry}
    (hx : c.cursor.next s = (some x, cursor, s')) (hid : t.repository.completedId? x = none) :
    Tracked t id { c with cursor := cursor } := by
  simp only [Tracked, hp] at ht ⊢
  rcases ht with hv | ha
  · exact Or.inl hv
  · obtain ⟨y, hy, ⟨e, rfl⟩ | hy' | ⟨_, ha'⟩⟩ := ahead_next hon.1 hon.2 hs hb hx ha
    · cases hy
      simp [Repository.completedId?] at hid
    · cases hy
      rw [hid] at hy'
      cases hy'
    · exact Or.inr ha'

theorem Tracked.found {x : Except StoreError Entry} {y : Except RepositoryError String}
    (hx : c.cursor.next s = (some x, cursor, s')) (hid : t.repository.completedId? x = some y) :
    Tracked t id { c with cursor := cursor, phase := .deciding y } := by
  cases y with
  | error e => trivial
  | ok i =>
    simp only [Tracked, hp] at ht ⊢
    rcases ht with hv | ha
    · exact Or.inr (Or.inl hv)
    · obtain ⟨y, hy, ⟨e, rfl⟩ | hy' | ⟨_, ha'⟩⟩ := ahead_next hon.1 hon.2 hs hb hx ha
      · cases hy
        simp [Repository.completedId?] at hid
      · cases hy
        rw [hid] at hy'
        cases hy'
        exact Or.inl rfl
      · exact Or.inr (Or.inr ha')

end Fetching

theorem Metered.read {c : Cycle} {n : Counters} (h : Metered id rs ds t (some c) n) (e : Exchange)
    (hm : 0 ≤ t.repository.settings.maxRedeliveries.toInt) :
    Metered id (rs ++ [e]) ds t
      (some { c with phase := t.route id e (n.increment id).1 }) (n.increment id).2 := by
  obtain ⟨hn, hcounts⟩ := h.counts.increment
  have hd := h.redelivered
  rw [hn]
  refine ⟨by simpa using hcounts, ?_, ?_, ?_⟩
  · rintro _ c' hc'
    cases hc'
    exact tracked_route e _ (Or.inl rfl)
  · rintro c' hc'
    cases hc'
    rw [route_attempt hm]
    exact inBudget_phaseAt hd.1
  · rw [List.length_append, List.length_singleton]
    omega

theorem Metered.redeliver {c : Cycle} {n : Counters} {y : Exchange}
    (h : Metered id rs ds t (some c) n) (hp : c.phase = .redelivering id y)
    (report : CycleSummary) :
    Metered id rs (ds ++ [y]) t (some (Task.leave c id report)) n := by
  have hand := h.inBudget c rfl
  rw [hp] at hand
  obtain ⟨_, hbudget, hlen⟩ := hand rfl
  refine ⟨h.counts, ?_, ?_, ?_⟩
  · rintro _ c' hc'
    cases hc'
    exact tracked_leave (Or.inl rfl)
  · rintro c' hc'
    cases hc'
    trivial
  · rw [List.length_append, List.length_singleton]
    omega

theorem Metered.steps {c c' : Cycle} {s s' : Shelf} {n n' : Counters} {d : Option Deed}
    {u u' : Table} {b b' : Bytes} (hst : t.Steps c s n d c' s' n')
    (h : Metered id rs ds t (some c) n) (hon : OnCompleted t c) (hs : s.Holds u)
    (hb : u.get? (t.repository.keySpace.completedKey id) = some b) (hs' : s'.Holds u')
    (hb' : u'.get? (t.repository.keySpace.completedKey id) = some b')
    (hr : t.repository.settings.useRecovery = true)
    (hm : 0 ≤ t.repository.settings.maxRedeliveries.toInt) :
    Metered id (rs ++ reads id [.step d]) (ds ++ redeliveries id [.step d]) t (some c') n' := by
  have hand := h.inBudget c rfl
  have track (hrs : rs ≠ []) : Tracked t id c := h.tracked hrs c rfl
  have nothing {d : Option Deed} {n' : Counters} {c' : Cycle}
      (hreads : reads id [.step d] = []) (hdel : redeliveries id [.step d] = [])
      (hm : Metered id rs ds t (some c') n') :
      Metered id (rs ++ reads id [.step d]) (ds ++ redeliveries id [.step d]) t (some c') n' := by
    rwa [hreads, hdel, List.append_nil, List.append_nil]
  have left {n' : Counters} {i : String} {report : CycleSummary} (hn : n'.Counts id rs.length)
      (ht : Tracked t id c → i = id ∨ id ∈ c.visited ∨
        c.cursor.Ahead (t.repository.keySpace.completedKey id)) :
      Metered id rs ds t (some (Task.leave c i report)) n' :=
    h.quiet hn (fun hrs => tracked_leave (ht (track hrs))) trivial
  cases hst with
  | ended hp hx =>
    refine nothing rfl rfl (h.quiet (h.counts.keep ?_) (fun _ => trivial) trivial)
    intro hlen
    exact (track (fun e => hlen (by rw [e]; rfl))).ended hp hon hs hb hx
  | passed hp hx hid =>
    refine nothing rfl rfl (h.quiet h.counts ?_ (by simp [InBudget, hp]))
    intro hrs
    exact (track hrs).passed hp hon hs hb hx hid
  | found hp hx hid =>
    refine nothing rfl rfl (h.quiet h.counts ?_ trivial)
    intro hrs
    exact (track hrs).found hp hon hs hb hx hid
  | stopped hp => exact nothing rfl rfl (h.quiet h.counts (fun _ => trivial) trivial)
  | taken hp =>
    refine nothing rfl rfl (h.quiet h.counts ?_ trivial)
    intro hrs
    simpa only [Tracked, hp] using track hrs
  | unread hp hx =>
    exact nothing rfl rfl (left h.counts (fun ht => by simpa only [Tracked, hp] using ht))
  | @gone i _ hp hx =>
    have hi : i ≠ id := by
      rintro rfl
      exact t.repository.recover_ne_none hs hb hr hx
    exact nothing rfl rfl
      (left (h.counts.erase_of_ne hi) (fun ht => by simpa only [Tracked, hp] using ht))
  | @read i e _ hp hx =>
    by_cases hi : i = id
    · subst hi
      have hreads : reads i [.step (some (.read i e))] = [e] := by simp [reads]
      have hdel : redeliveries i [.step (some (.read i e))] = [] := rfl
      rw [hreads, hdel, List.append_nil]
      exact h.read e hm
    · refine nothing (by simp [reads, hi]) rfl (h.quiet (h.counts.increment_of_ne hi) ?_ ?_)
      · intro hrs
        apply tracked_route
        simpa only [Tracked, hp] using track hrs
      · exact inBudget_route_of_ne e _ hi
  | @redelivered i y x report hp =>
    by_cases hi : i = id
    · subst hi
      have hreads : reads i [.step (some (.redelivered i y x))] = [] := rfl
      have hdel : redeliveries i [.step (some (.redelivered i y x))] = [y] := by
        simp [redeliveries]
      rw [hreads, hdel, List.append_nil]
      exact h.redeliver hp report
    · exact nothing rfl (by simp [redeliveries, hi])
        (left h.counts (fun ht => by simpa only [Tracked, hp] using ht))
  | @sent i y hp =>
    refine nothing rfl rfl (h.quiet h.counts ?_ ?_)
    · intro hrs
      simpa only [Tracked, hp] using track hrs
    · intro hi
      rw [hp] at hand
      exact (hand hi).2
  | unsent hp =>
    exact nothing rfl rfl (left h.counts (fun ht => by simpa only [Tracked, hp] using ht))
  | @confirmed i x _ report hp hx =>
    have hi : i ≠ id := by
      rintro rfl
      exact t.repository.not_staged_of_confirm hs hx hs' hb'
    exact nothing rfl rfl
      (left (h.counts.erase_of_ne hi) (fun ht => by simpa only [Tracked, hp] using ht))
  | unconfirmed hp hx =>
    exact nothing rfl rfl (left h.counts (fun ht => by simpa only [Tracked, hp] using ht))
  | rested hp => exact nothing rfl rfl (h.quiet h.counts track hand)

variable {p q p₀ : Station σ} {es es₀ : List Event}

theorem Metered.moves {e : Event} (h : Metered id rs ds p.task p.cycle p.bench.counters)
    (hp : p.Fit) (hm : Moves p e q) (hs : p.staged id ≠ none) (hs' : q.staged id ≠ none)
    (hr : p.task.repository.settings.useRecovery = true)
    (hmax : 0 ≤ p.task.repository.settings.maxRedeliveries.toInt) (he : e ≠ .restart) :
    Metered id (rs ++ reads id [e]) (ds ++ redeliveries id [e]) q.task q.cycle q.bench.counters := by
  have hq := hp.moves hm
  have quiet (hreads : reads id [e] = []) (hdel : redeliveries id [e] = []) :
      Metered id (rs ++ reads id [e]) (ds ++ redeliveries id [e]) p.task p.cycle
        p.bench.counters := by
    rwa [hreads, hdel, List.append_nil, List.append_nil]
  cases hm with
  | call => exact quiet rfl rfl
  | begin hc =>
    refine ⟨(quiet rfl rfl).counts, ?_, ?_, (quiet rfl rfl).redelivered⟩
    · rintro _ c' hc'
      cases hc'
      exact Or.inr (Cursor.ahead_new _ _)
    · rintro c' hc'
      cases hc'
      trivial
  | @step k hk c hc =>
    obtain ⟨u, hu⟩ := hp.legible
    obtain ⟨u', hu'⟩ := hq.legible
    rw [staged_eq hu, Option.ne_none_iff_exists'] at hs
    rw [staged_eq hu', Option.ne_none_iff_exists'] at hs'
    obtain ⟨b, hb⟩ := hs
    obtain ⟨b', hb'⟩ := hs'
    rw [hc] at h
    exact h.steps (Task.steps hk p.task c p.bench) (hp.onCompleted c hc) hu hb hu' hb' hr hmax
  | drop => exact ⟨(quiet rfl rfl).counts, by simp, by simp, (quiet rfl rfl).redelivered⟩
  | halt => exact quiet rfl rfl
  | resume => exact quiet rfl rfl
  | restart => exact absurd rfl he

section Stretch

variable (h : Run (fun p => p.staged id ≠ none) p es q) (hp : p.Fit) (hes : .restart ∉ es)
  (hr : p.task.repository.settings.useRecovery = true)
  (hmax : 0 ≤ p.task.repository.settings.maxRedeliveries.toInt)
  (hn : p.bench.counters.get? id = none) (hv : ¬ p.Visiting id)
include h hp hes hr hmax hn hv

end Stretch

end Station

end Staging
