import Mathlib
import Staging.Proofs.Recovery.Tour
import Staging.Proofs.Recovery.Budget

namespace Staging

variable {σ : Type}

theorem Counters.get?_keep (c : Counters) (ids : List String) (id : String) :
    (c.keep ids).get? id = if id ∈ ids then c.get? id else none := by
  rw [keep, SortedMap.get?_filter]
  by_cases h : id ∈ ids
  · cases c.get? id <;> simp [h]
  · cases c.get? id <;> simp [h]

theorem Cursor.Ordered.lt_of_ahead {c : Cursor} {key last : Bytes} (hc : c.Ordered)
    (hl : c.lastKey = some last) (h : c.Ahead key) : last < key := by
  rw [Cursor.Ordered, hl, List.pairwise_append] at hc
  have hbuffer (j : Bytes) (hj : j ∈ c.buffer.map (·.1)) : last < j := hc.2.2 last (by simp) j hj
  rcases h with hmem | ⟨-, hfrontier⟩
  · exact hbuffer key hmem
  · rw [frontier, hl] at hfrontier
    cases hb : c.buffer.getLast? with
    | none =>
      rw [hb] at hfrontier
      exact of_decide_eq_true hfrontier
    | some e =>
      rw [hb] at hfrontier
      have he : e.1 ∈ c.buffer.map (·.1) := List.mem_map_of_mem (List.mem_of_getLast? hb)
      exact Std.lt_trans (hbuffer e.1 he) (of_decide_eq_true hfrontier)

namespace Task

def staged (t : Task) (b : Bench σ) (id : String) : Option Bytes :=
  Assoc.get? (t.repository.keySpace.completedKey id) b.desk.shelf.entries

theorem staged_eq {t : Task} {b : Bench σ} {u : Table} (h : b.desk.shelf.Holds u) (id : String) :
    t.staged b id = u.get? (t.repository.keySpace.completedKey id) := by
  rw [staged, h.entries_eq]
  rfl

section Attend

variable {t : Task} {k : Collaborators σ} {b : Bench σ} {id j : String}

theorem get?_counters_escalate (hj : j ≠ id) (x : Exchange) :
    (t.escalate k id x b).2.counters.get? j = b.counters.get? j := by
  rcases hs : k.send t.destination x b.desk with ⟨e | _, d⟩
  · simp [escalate, Bench.onDesk, hs]
  · rcases hc : t.repository.confirm id d.shelf with ⟨e | a, s⟩
    · simp [escalate, Bench.onDesk, Bench.onShelf, hs, hc]
    · simp [escalate, Bench.onDesk, Bench.onShelf, hs, hc, SortedMap.get?_erase_of_ne hj]

theorem escalate_handed (t : Task) (k : Collaborators σ) (id : String) (x : Exchange) (b : Bench σ) :
    (t.escalate k id x b).1.handed? = some x ∧
      ∀ y a, (t.escalate k id x b).1 ≠ .redelivered y a := by
  rcases hs : k.send t.destination x b.desk with ⟨e | _, d⟩
  · simp [escalate, Bench.onDesk, hs, Outcome.handed?]
  · rcases hc : t.repository.confirm id d.shelf with ⟨e | a, s⟩
    · simp [escalate, Bench.onDesk, Bench.onShelf, hs, hc, Outcome.handed?]
    · simp [escalate, Bench.onDesk, Bench.onShelf, hs, hc, Outcome.handed?]

theorem get?_counters_attend (hj : j ≠ id) :
    (t.attend k id b).2.counters.get? j = b.counters.get? j := by
  rcases hx : t.repository.recover id b.desk.shelf with ⟨e | _ | e, s⟩
  · simp [attend, Bench.onShelf, hx]
  · simp [attend, Bench.onShelf, hx, SortedMap.get?_erase_of_ne hj]
  · have hinc : (b.counters.increment id).2.get? j = b.counters.get? j := by
      rw [Counters.increment, SortedMap.get?_insert_of_ne _ hj]
    simp only [attend, Bench.onShelf, hx]
    split_ifs
    · rw [get?_counters_escalate hj, hinc]
    · exact hinc

theorem recover_unstaged {u : Table} (h : b.desk.shelf.Holds u) (hs : t.staged b id = none) :
    (∃ s, t.repository.recover id b.desk.shelf = (.ok none, s)) ∨
      ∃ e s, t.repository.recover id b.desk.shelf = (.error e, s) := by
  have hnone : (t.repository.ledger u).recover t.repository id = .ok none := by
    rw [Ledger.recover, Repository.get?_completed, ← staged_eq h, hs]
    split_ifs <;> rfl
  rcases t.repository.recover_answers h id with ⟨s, hx, -⟩ | ⟨-, e, s, hx, -⟩
  · exact Or.inl ⟨s, hnone ▸ hx⟩
  · exact Or.inr ⟨e, s, hx⟩

theorem attend_unstaged {u : Table} (h : b.desk.shelf.Holds u) (hs : t.staged b id = none) :
    (t.attend k id b).1 = .gone ∧ (t.attend k id b).2.counters.get? id = none ∨
      ∃ e, (t.attend k id b).1 = .unread e ∧ (t.attend k id b).2.counters = b.counters := by
  rcases recover_unstaged h hs with ⟨s, hx⟩ | ⟨e, s, hx⟩
  · exact Or.inl (by simp [attend, Bench.onShelf, hx, SortedMap.get?_erase_self])
  · exact Or.inr ⟨e, by simp [attend, Bench.onShelf, hx]⟩

theorem attend_handed {u : Table} {x : Exchange} (h : b.desk.shelf.Holds u)
    (hx : (t.attend k id b).1.handed? = some x) :
    ∃ v y, t.staged b id = some v ∧ t.repository.unmarshal id v = .ok y ∧
      x = y.stamp (b.counters.increment id).1 t.repository.settings.maxRedeliveries ∧
      ((∃ a, (t.attend k id b).1 = .redelivered x a) ↔
        (b.counters.increment id).1.toNat ≤ t.repository.settings.maxRedeliveries.toInt) := by
  cases hs : t.staged b id with
  | none =>
    rcases attend_unstaged (k := k) h hs with ⟨ho, -⟩ | ⟨e, ho, -⟩
    · simp [ho, Outcome.handed?] at hx
    · simp [ho, Outcome.handed?] at hx
  | some v =>
    rcases hr : t.repository.recover id b.desk.shelf with ⟨e | _ | y, s⟩
    · simp [attend, Bench.onShelf, hr, Outcome.handed?] at hx
    · simp [attend, Bench.onShelf, hr, Outcome.handed?] at hx
    · have hy := t.repository.unmarshal_of_recover h ((staged_eq h id).symm.trans hs) hr
      refine ⟨v, y, rfl, hy, ?_⟩
      simp only [attend, Bench.onShelf, hr] at hx ⊢
      split_ifs at hx ⊢ with hm
      · obtain ⟨hhanded, hne⟩ := t.escalate_handed k id
          (y.stamp (b.counters.increment id).1 t.repository.settings.maxRedeliveries)
          ⟨{ b.desk with shelf := s }, (b.counters.increment id).2⟩
        refine ⟨Option.some.inj (hx.symm.trans hhanded), ?_⟩
        simp only [hne, exists_false, false_iff]
        omega
      · obtain rfl := Option.some.inj hx
        exact ⟨rfl, ⟨fun _ => by omega, fun _ => ⟨_, rfl⟩⟩⟩

theorem attend_gone {u : Table} (h : b.desk.shelf.Holds u)
    (hr : t.repository.settings.useRecovery = true) (hg : (t.attend k id b).1 = .gone) :
    t.staged b id = none := by
  rcases hx : t.repository.recover id b.desk.shelf with ⟨e | _ | e, s⟩
  · simp [attend, Bench.onShelf, hx] at hg
  · by_contra hne
    obtain ⟨bytes, hbytes⟩ := Option.ne_none_iff_exists'.mp hne
    exact t.repository.recover_ne_none h ((staged_eq h id).symm.trans hbytes) hr hx
  · simp only [attend, Bench.onShelf, hx] at hg
    split_ifs at hg
    · have hhanded := (t.escalate_handed k id _ _).1.symm.trans
        (congrArg Outcome.handed? hg)
      cases hhanded
    · cases hg

end Attend

structure Joins (t : Task) (b b' : Bench σ) : Prop where
  counters : b'.counters = b.counters
  runAllowed : b'.desk.runAllowed = b.desk.runAllowed
  outside : b'.desk.outside = b.desk.outside
  staged : ∀ id, t.staged b' id = t.staged b id

structure Underway (t : Task) (c : Cursor) (b : Bench σ) : Prop where
  placed : c.Placed
  start : c.start = t.repository.keySpace.completedPrefix
  ordered : c.Ordered
  legible : ∃ u, b.desk.shelf.Holds u

section Course

variable {t : Task} {k : Collaborators σ} {vs vs' : List (Visit σ)} {c c' : Cursor}
  {b₀ b b' : Bench σ} {u₀ : Table}

theorem Joins.trans {b'' : Bench σ} (h : t.Joins b b') (h' : t.Joins b' b'') : t.Joins b b'' :=
  ⟨h'.counters.trans h.counters, h'.runAllowed.trans h.runAllowed, h'.outside.trans h.outside,
    fun id => (h'.staged id).trans (h.staged id)⟩

theorem Joins.refl (b : Bench σ) : t.Joins b b := ⟨rfl, rfl, rfl, fun _ => rfl⟩

theorem joins_withShelf {s : Shelf} {u : Table} (h : b.desk.shelf.Holds u) (hs : s.Holds u) :
    t.Joins b (b.withShelf s) := by
  refine ⟨rfl, rfl, rfl, fun id => ?_⟩
  rw [staged_eq h, staged_eq (b := b.withShelf s) hs]

theorem Round.underway (hr : t.Round k vs c b vs' c' b') (hk : k.Tidy) (h : t.Underway c b) :
    t.Underway c' b' := by
  obtain ⟨u, hu⟩ := h.legible
  obtain ⟨e, s, hf, -⟩ := hr.fetched h.placed hu
  obtain ⟨hplaced, hstart, hlegible⟩ := hr.holds hk h.placed hu
  exact ⟨hplaced, hstart.trans h.start, hf.nexts.ordered h.ordered, hlegible⟩

theorem Course.underway (h : t.Course k b₀ vs c b) (hk : k.Tidy) (h₀ : b₀.desk.shelf.Holds u₀) :
    t.Underway c b := by
  induction h with
  | begin => exact ⟨Cursor.placed_new _, rfl, .nil, u₀, h₀⟩
  | round _ hr ih => exact hr.underway hk ih

theorem Round.cases (hr : t.Round k vs c b vs' c' b') (h : t.Underway c b) :
    ∃ e, c.lastKey.all (· < e.1) = true ∧ c'.lastKey = some e.1 ∧
      (∀ id, (t.staged b id).isSome = true →
        c.Ahead (t.repository.keySpace.completedKey id) →
          t.repository.keySpace.completedKey id = e.1 ∨
            c'.Ahead (t.repository.keySpace.completedKey id)) ∧
      (t.repository.completedId? (.ok e) = none ∧ vs' = vs ∧ t.Joins b b' ∨
        ∃ v, v = t.visit k v.id v.before ∧ (∃ u, v.before.desk.shelf.Holds u) ∧
          e.1 = t.repository.keySpace.completedKey v.id ∧ t.Joins b v.before ∧
          vs' = vs ++ [v] ∧ b' = v.after) := by
  obtain ⟨u, hu⟩ := h.legible
  obtain ⟨e, s, hf, hcases⟩ := hr.fetched h.placed hu
  obtain ⟨hlt, hlast⟩ := hf.nexts.yields h.ordered
  have hjoins : t.Joins b (b.withShelf s) := joins_withShelf hu hf.holds
  refine ⟨e, hlt, hlast, fun id hs ha => ?_, ?_⟩
  · rw [staged_eq hu, Option.isSome_iff_exists] at hs
    obtain ⟨value, hvalue⟩ := hs
    have hkey : (t.repository.keySpace.completedKey id).startsWith c.start = true := by
      rw [h.start]
      exact Bytes.startsWith_append _ _
    exact Cursor.ahead_of_next hf.start hf.rest hkey hvalue ha
  · rcases hcases with ⟨hid, rfl, rfl⟩ | ⟨id, hid, -, rfl, rfl⟩
    · exact Or.inl ⟨hid, rfl, hjoins⟩
    · exact Or.inr ⟨t.visit k id (b.withShelf s), rfl, ⟨u, hf.holds⟩, hid, hjoins, rfl, rfl⟩

theorem completedKey_lt {i j : String} :
    t.repository.keySpace.completedKey i < t.repository.keySpace.completedKey j ↔
      Bytes.ofString i < Bytes.ofString j :=
  Bytes.append_lt_append_iff

theorem Course.ascending (h : t.Course k b₀ vs c b) (hk : k.Tidy) (h₀ : b₀.desk.shelf.Holds u₀) :
    (vs.map Visit.id).Pairwise (fun i j => Bytes.ofString i < Bytes.ofString j) ∧
      ∀ v ∈ vs, ∃ key, c.lastKey = some key ∧ t.repository.keySpace.completedKey v.id ≤ key := by
  induction h with
  | begin => exact ⟨.nil, by simp⟩
  | @round vs _ c _ b _ h hr ih =>
    obtain ⟨hasc, hbehind⟩ := ih
    obtain ⟨e, hlt, hlast, -, hcases⟩ := hr.cases (h.underway hk h₀)
    have before (w : Visit σ) (hw : w ∈ vs) : t.repository.keySpace.completedKey w.id < e.1 := by
      obtain ⟨key, hkey, hle⟩ := hbehind w hw
      rw [hkey] at hlt
      exact Std.lt_of_le_of_lt hle (of_decide_eq_true hlt)
    rcases hcases with ⟨-, rfl, -⟩ | ⟨v, -, -, hid, -, rfl, rfl⟩
    · exact ⟨hasc, fun w hw => ⟨e.1, hlast, Std.le_of_lt (before w hw)⟩⟩
    · constructor
      · rw [List.map_append, List.pairwise_append]
        refine ⟨hasc, List.pairwise_singleton _ _, ?_⟩
        intro i hi j hj
        obtain ⟨w, hw, rfl⟩ := List.mem_map.mp hi
        obtain rfl : j = v.id := List.mem_singleton.mp hj
        have hlt := before w hw
        rw [hid] at hlt
        exact completedKey_lt.mp hlt
      · intro w hw
        rcases List.mem_append.mp hw with hw | hw
        · exact ⟨e.1, hlast, Std.le_of_lt (before w hw)⟩
        · rw [List.mem_singleton.mp hw, ← hid]
          exact ⟨e.1, hlast, Std.le_refl _⟩

theorem Course.genuine (h : t.Course k b₀ vs c b) (hk : k.Tidy) (h₀ : b₀.desk.shelf.Holds u₀) :
    ∀ v ∈ vs, v = t.visit k v.id v.before ∧ ∃ u, v.before.desk.shelf.Holds u := by
  induction h with
  | begin => simp
  | round h hr ih =>
    obtain ⟨e, -, -, -, ⟨-, rfl, -⟩ | ⟨v, hv, hlegible, -, -, rfl, rfl⟩⟩ := hr.cases (h.underway hk h₀)
    · exact ih
    · intro w hw
      rcases List.mem_append.mp hw with hw | hw
      · exact ih w hw
      · rw [List.mem_singleton.mp hw]
        exact ⟨hv, hlegible⟩

def benchAfter (b₀ : Bench σ) (vs : List (Visit σ)) : Bench σ := (vs.getLast?.map Visit.after).getD b₀

theorem Course.joined (h : t.Course k b₀ vs c b) (hk : k.Tidy) (h₀ : b₀.desk.shelf.Holds u₀) :
    vs.IsChain (fun v w => t.Joins v.after w.before) ∧ (∀ v ∈ vs.head?, t.Joins b₀ v.before) ∧
      t.Joins (benchAfter b₀ vs) b := by
  induction h with
  | begin => exact ⟨.nil, by simp, .refl b₀⟩
  | @round vs _ c _ b _ h hr ih =>
    obtain ⟨hchain, hhead, hlast⟩ := ih
    obtain ⟨e, -, -, -, ⟨-, rfl, hjoins⟩ | ⟨v, -, -, -, hjoins, rfl, rfl⟩⟩ := hr.cases (h.underway hk h₀)
    · exact ⟨hchain, hhead, hlast.trans hjoins⟩
    · refine ⟨List.isChain_append.mpr ⟨hchain, .singleton v, ?_⟩, ?_, ?_⟩
      · intro w hw x hx
        obtain rfl : v = x := by simpa using hx
        have hafter : benchAfter b₀ vs = w.after := by
          rw [benchAfter, Option.mem_def.mp hw]
          rfl
        exact (hafter ▸ hlast).trans hjoins
      · cases vs with
        | nil =>
          intro x hx
          obtain rfl : v = x := by simpa using hx
          exact Joins.trans hlast hjoins
        | cons w vs => exact hhead
      · simp only [benchAfter, List.getLast?_concat, Option.map_some, Option.getD_some]
        exact .refl _

theorem Course.covers (h : t.Course k b₀ vs c b) (hk : k.Tidy) (h₀ : b₀.desk.shelf.Holds u₀)
    {id : String} (hs : (t.staged b₀ id).isSome = true)
    (hstay : ∀ v ∈ vs, Bytes.ofString v.id < Bytes.ofString id →
      (t.staged v.after id).isSome = true) :
    id ∈ vs.map Visit.id ∨
      c.Ahead (t.repository.keySpace.completedKey id) ∧ (t.staged b id).isSome = true := by
  induction h with
  | begin => exact Or.inr ⟨Cursor.ahead_new _ _, hs⟩
  | @round vs vs' c c' b b' h hr ih =>
    have hu := h.underway hk h₀
    have hu' := (h.round hr).underway hk h₀
    obtain ⟨e, -, hlast, hahead, hcases⟩ := hr.cases hu
    rcases hcases with ⟨hnone, rfl, hjoins⟩ | ⟨v, -, -, hid, -, rfl, rfl⟩
    · rcases ih hstay with hin | ⟨ha, hsome⟩
      · exact Or.inl hin
      · rcases hahead id hsome ha with he | ha'
        · simp [Repository.completedId?, ← he] at hnone
        · exact Or.inr ⟨ha', by rwa [hjoins.staged]⟩
    -- the entry that was fetched is its own, or another one whose key is less
    · rcases ih (fun w hw => hstay w (List.mem_append_left _ hw)) with hin | ⟨ha, hsome⟩
      · exact Or.inl (by simp only [List.map_append, List.mem_append]; exact Or.inl hin)
      · rcases hahead id hsome ha with he | ha'
        · rw [hid] at he
          have hsame : id = v.id := KeySpace.completedKey_injective he
          exact Or.inl (by simp [hsame])
        · have hlt := hu'.ordered.lt_of_ahead hlast ha'
          rw [hid, completedKey_lt] at hlt
          exact Or.inr ⟨ha', hstay v (by simp) hlt⟩

/-- What only the visits of its exchange change, is until that visit as it was in the beginning, and
after it as the visit leaves it. -/
theorem Course.own {α : Type} {f : Bench σ → String → α} (h : t.Course k b₀ vs c b) (hk : k.Tidy)
    (h₀ : b₀.desk.shelf.Holds u₀) (hjoins : ∀ {b b'}, t.Joins b b' → f b' = f b)
    (hattend : ∀ {b u id j}, b.desk.shelf.Holds u → j ≠ id → f (t.attend k id b).2 j = f b j) :
    (∀ id, id ∉ vs.map Visit.id → f b id = f b₀ id) ∧
      ∀ v ∈ vs, f v.before v.id = f b₀ v.id ∧ f b v.id = f v.after v.id := by
  induction h with
  | begin => exact ⟨fun _ _ => rfl, by simp⟩
  | @round vs vs' c c' b b' h hr ih =>
    have hasc := ((h.round hr).ascending hk h₀).1
    obtain ⟨hothers, hown⟩ := ih
    obtain ⟨e, -, -, -, hcases⟩ := hr.cases (h.underway hk h₀)
    rcases hcases with ⟨-, rfl, hj⟩ | ⟨v, hv, ⟨u, hu⟩, -, hj, rfl, rfl⟩
    · rw [hjoins hj]
      exact ⟨hothers, hown⟩
    · have hafter {j : String} (hne : j ≠ v.id) : f v.after j = f b j := by
        rw [hv, ← hjoins hj]
        exact hattend hu hne
      have hnew (w : Visit σ) (hw : w ∈ vs) : w.id ≠ v.id := by
        rw [List.map_append, List.pairwise_append] at hasc
        have hlt := hasc.2.2 w.id (List.mem_map_of_mem hw) v.id (by simp)
        exact fun he => Std.lt_irrefl (he ▸ hlt)
      constructor
      · intro id hid
        simp only [List.map_append, List.mem_append, not_or] at hid
        rw [hafter (by simpa using hid.2), hothers id hid.1]
      · intro w hw
        rcases List.mem_append.mp hw with hw | hw
        · rw [hafter (hnew w hw)]
          exact hown w hw
        · obtain rfl := List.mem_singleton.mp hw
          refine ⟨?_, rfl⟩
          rw [hjoins hj]
          apply hothers
          intro hin
          obtain ⟨x, hx, he⟩ := List.mem_map.mp hin
          exact hnew x hx he

theorem Course.counters (h : t.Course k b₀ vs c b) (hk : k.Tidy) (h₀ : b₀.desk.shelf.Holds u₀) :
    (∀ id, id ∉ vs.map Visit.id → b.counters.get? id = b₀.counters.get? id) ∧
      ∀ v ∈ vs, v.before.counters.get? v.id = b₀.counters.get? v.id ∧
        b.counters.get? v.id = v.after.counters.get? v.id :=
  h.own (f := fun b => b.counters.get?) hk h₀ (fun hj => by rw [hj.counters])
    (fun _ hne => get?_counters_attend hne)

end Course

structure Thorough (t : Task) (k : Collaborators σ) (b₀ : Bench σ) (vs : List (Visit σ))
    (b' : Bench σ) : Prop where
  genuine : ∀ v ∈ vs, v = t.visit k v.id v.before
  joined : vs.IsChain (fun v w => t.Joins v.after w.before) ∧ ∀ v ∈ vs.head?, t.Joins b₀ v.before
  ascending : (vs.map Visit.id).Pairwise (fun i j => Bytes.ofString i < Bytes.ofString j)
  once : ∀ id, (t.staged b₀ id).isSome = true →
    (∀ v ∈ vs, Bytes.ofString v.id < Bytes.ofString id → (t.staged v.after id).isSome = true) →
    (vs.map Visit.id).count id = 1
  handed : ∀ v ∈ vs, ∀ x, v.outcome.handed? = some x →
    ∃ bytes y, t.staged v.before v.id = some bytes ∧ t.repository.unmarshal v.id bytes = .ok y ∧
      x = y.stamp (v.before.counters.increment v.id).1 t.repository.settings.maxRedeliveries ∧
      ((∃ a, v.outcome = .redelivered x a) ↔ (v.before.counters.increment v.id).1.toNat ≤
        t.repository.settings.maxRedeliveries.toInt)
  gone : ∀ v ∈ vs, v.outcome = .gone → t.staged v.before v.id = none
  unstaged : ∀ id, (∀ v ∈ vs, v.id = id → t.staged v.before id = none) →
    (∀ v ∈ vs, v.id = id → v.outcome.handed? = none) ∧
      (b'.counters.get? id = none ∨ ∃ v ∈ vs, v.id = id ∧ (∃ e, v.outcome = .unread e) ∧
        b'.counters.get? id = b₀.counters.get? id)
  scanned : vs.length = vs.countP (·.outcome.isRedelivered) + vs.countP (·.outcome.isEscalated) +
    vs.countP (·.outcome.isFailed) + vs.countP (·.outcome.isGone)

theorem length_eq_counts (vs : List (Visit σ)) :
    vs.length = vs.countP (·.outcome.isRedelivered) + vs.countP (·.outcome.isEscalated) +
      vs.countP (·.outcome.isFailed) + vs.countP (·.outcome.isGone) := by
  induction vs with
  | nil => rfl
  | cons v vs ih =>
    simp only [List.length_cons, List.countP_cons, ih]
    rcases v.outcome with _ | _ | ⟨_, _ | _⟩ | _ | ⟨_, _ | _⟩ <;>
      simp only [Outcome.isRedelivered, Outcome.isEscalated, Outcome.isFailed, Outcome.isGone,
        Bool.false_eq_true, if_true, if_false] <;> omega

section Complete

variable {t : Task} {k : Collaborators σ} {vs : List (Visit σ)} {b₀ b' : Bench σ} {u₀ : Table}

theorem Ends.get?_counters {c : Cursor} {b : Bench σ} (h : t.Ends vs c b .complete b') (id : String) :
    b'.counters.get? id = if id ∈ vs.map Visit.id then b.counters.get? id else none := by
  cases h with
  | complete hx =>
    refine (Counters.get?_keep b.counters _ id).trans ?_
    simp only [List.mem_reverse]

theorem Tour.once (h : t.Tour k b₀ vs .complete b') (hk : k.Tidy) (h₀ : b₀.desk.shelf.Holds u₀)
    {id : String} (hs : (t.staged b₀ id).isSome = true)
    (hstay : ∀ v ∈ vs, Bytes.ofString v.id < Bytes.ofString id →
      (t.staged v.after id).isSome = true) : (vs.map Visit.id).count id = 1 := by
  obtain ⟨c, b, hcourse, hends⟩ := h
  have hnodup : (vs.map Visit.id).Nodup := by
    refine ((hcourse.ascending hk h₀).1).imp ?_
    rintro i j hij rfl
    exact Std.lt_irrefl hij
  apply List.count_eq_one_of_mem hnodup
  rcases hcourse.covers hk h₀ hs hstay with hin | ⟨ha, hsome⟩
  · exact hin
  · obtain ⟨u, hu⟩ := (hcourse.underway hk h₀).legible
    rw [staged_eq hu, Option.isSome_iff_exists] at hsome
    obtain ⟨bytes, hbytes⟩ := hsome
    cases hends with
    | complete hx =>
      obtain ⟨y, hy, -⟩ := Station.ahead_next (hcourse.underway hk h₀).placed
        (hcourse.underway hk h₀).start hu hbytes hx ha
      cases hy

theorem Tour.unstaged (h : t.Tour k b₀ vs .complete b') (hk : k.Tidy) (h₀ : b₀.desk.shelf.Holds u₀)
    {id : String} (hs : ∀ v ∈ vs, v.id = id → t.staged v.before id = none) :
    (∀ v ∈ vs, v.id = id → v.outcome.handed? = none) ∧
      (b'.counters.get? id = none ∨ ∃ v ∈ vs, v.id = id ∧ (∃ e, v.outcome = .unread e) ∧
        b'.counters.get? id = b₀.counters.get? id) := by
  obtain ⟨c, b, hcourse, hends⟩ := h
  have hgenuine := hcourse.genuine hk h₀
  have attended (v : Visit σ) (hv : v ∈ vs) (hid : v.id = id) :
      v.outcome = .gone ∧ v.after.counters.get? id = none ∨
        ∃ e, v.outcome = .unread e ∧ v.after.counters = v.before.counters := by
    obtain ⟨hvisit, u, hu⟩ := hgenuine v hv
    rw [hvisit, hid]
    exact attend_unstaged hu (hs v hv hid)
  have hkept := hends.get?_counters id
  constructor
  · intro v hv hid
    rcases attended v hv hid with ⟨ho, -⟩ | ⟨e, ho, -⟩
    · rw [ho]
      rfl
    · rw [ho]
      rfl
  · by_cases hin : id ∈ vs.map Visit.id
    · obtain ⟨v, hv, rfl⟩ := List.mem_map.mp hin
      obtain ⟨hbefore, hafter⟩ := (hcourse.counters hk h₀).2 v hv
      rw [hkept, if_pos hin, hafter]
      rcases attended v hv rfl with ⟨-, hnone⟩ | ⟨e, ho, hsame⟩
      · exact Or.inl hnone
      · exact Or.inr ⟨v, hv, rfl, ⟨e, ho⟩, by rw [hsame, hbefore]⟩
    · rw [hkept, if_neg hin]
      exact Or.inl rfl

theorem cycle_thorough {r : Repository} (hr : ofRepository r = .ok t) (hk : k.Tidy)
    (h₀ : b₀.desk.shelf.Holds u₀) :
    (∀ credit : σ → Nat, k.Within credit → credit b₀.desk.outside ≤ k.maxStaged →
        (t.runUpTo k (stepBound k b₀) t.begin b₀).1.phase = .finished) ∧
      (∀ fuel, (t.runUpTo k fuel t.begin b₀).1.phase = .finished →
        ∃ vs ending, t.Tour k b₀ vs ending (t.runUpTo k fuel t.begin b₀).2 ∧
          (t.runUpTo k fuel t.begin b₀).1.report = summary vs ending) ∧
      ∀ vs b', t.Tour k b₀ vs .complete b' → t.Thorough k b₀ vs b' := by
  obtain ⟨rfl, hrecovery, -⟩ := ofRepository_ok hr
  refine ⟨fun credit hc hle => runCycle_finished hk hc h₀ hle, fun fuel hf => ?_, fun vs b' htour => ?_⟩
  · obtain ⟨vs, ending, htour, hreport, -⟩ := tour_of_finished hf
    exact ⟨vs, ending, htour, hreport⟩
  · obtain ⟨c, b, hcourse, -⟩ := id htour
    have hgenuine := hcourse.genuine hk h₀
    refine ⟨fun v hv => (hgenuine v hv).1, ?_, (hcourse.ascending hk h₀).1,
      fun id hs hstay => htour.once hk h₀ hs hstay, ?_, ?_, fun id hs => htour.unstaged hk h₀ hs,
      length_eq_counts vs⟩
    · exact ⟨(hcourse.joined hk h₀).1, (hcourse.joined hk h₀).2.1⟩
    · intro v hv x hx
      obtain ⟨hvisit, u, hu⟩ := hgenuine v hv
      rw [hvisit] at hx ⊢
      exact attend_handed hu hx
    · intro v hv hg
      obtain ⟨hvisit, u, hu⟩ := hgenuine v hv
      rw [hvisit] at hg
      exact attend_gone hu hrecovery hg

end Complete

section Pair

open Station (smallTask smallKeySpace)

def pair (faults : FaultPlan) : Bench Unit where
  desk := ⟨⟨.memory ⟨(MemoryStore.Contents.empty.insert (smallKeySpace.completedKey "a") [1]).insert
    (smallKeySpace.completedKey "b") [2], true, none⟩, .empty, faults⟩, true, ()⟩
  counters := SortedMap.empty.insert "b" 1

def confirming : Collaborators Unit where
  redeliver _ d := (.ok (), { d with shelf := (smallTask.repository.confirm "b" d.shelf).2 })
  send _ _ d := (.ok (), d)
  maxStaged := 0

theorem tidy_confirming : confirming.Tidy :=
  Collaborators.Through.tidy (r := smallTask.repository)
    ⟨fun _ _ => ⟨[.confirm "b"], rfl⟩, fun _ _ _ => ⟨[], rfl⟩⟩

theorem within_confirming : confirming.Within (fun _ => 0) where
  redeliver _ d t ht := by
    rcases smallTask.repository.confirm_erases ht "b" with ⟨s, hx, hs, -⟩ | ⟨-, e, s, hx, hs, -⟩
    · simp only [confirming, hx, ht.entries_eq, hs.entries_eq, gained_erase, Nat.add_zero, le_refl]
    · simp only [confirming, hx, ht.entries_eq, hs.entries_eq, gained_self, Nat.add_zero, le_refl]
  send _ _ d _ _ := by simp only [confirming, gained_self, Nat.add_zero, le_refl]

theorem cycle_thorough_pair :
    ∃ vs b', smallTask.Tour confirming (pair .none) vs .complete b' ∧
      vs.map Visit.id = ["a", "b"] ∧ smallTask.Thorough confirming (pair .none) vs b' ∧
      (smallTask.runUpTo confirming (stepBound confirming (pair .none)) smallTask.begin
        (pair .none)).1.phase = .finished := by
  have hr : ofRepository smallTask.repository = .ok smallTask := by
    have hval : smallTask.repository.settings.validateRecovery = .ok () := by decide +kernel
    rw [ofRepository, hval]
    rfl
  obtain ⟨u₀, h₀⟩ : ∃ u, (pair .none).desk.shelf.Holds u := ⟨_, rfl⟩
  obtain ⟨hfinished, -, hthorough⟩ := cycle_thorough hr tidy_confirming h₀
  have htour : ∃ vs b', smallTask.Tour confirming (pair .none) vs .complete b' ∧
      vs.map Visit.id = ["a", "b"] :=
    ⟨_, _, ⟨_, _, .round (.round .begin (.visited rfl rfl rfl)) (.visited rfl rfl rfl),
      .complete rfl⟩, rfl⟩
  obtain ⟨vs, b', htour, hids⟩ := htour
  exact ⟨vs, b', htour, hids, hthorough vs b' htour, hfinished _ within_confirming (le_refl _)⟩

/-- The second exchange is confirmed while the first is visited, and its own read fails then. The cycle
is complete, and its counter is still there. -/
theorem counter_stays_of_unread :
    ∃ v w b', smallTask.Tour confirming (pair (FaultPlan.none.inject .get 2 (some 1))) [v, w]
        .complete b' ∧
      v.id = "a" ∧ w.id = "b" ∧ smallTask.staged v.before "b" = some [2] ∧
      smallTask.staged v.after "b" = none ∧ smallTask.staged w.before "b" = none ∧
      smallTask.staged w.after "b" = none ∧ b'.counters.get? "b" = some 1 := by
  refine ⟨_, _, _, ⟨_, _, .round (.round .begin (.visited rfl rfl rfl)) (.visited rfl rfl rfl),
    .complete rfl⟩, rfl, rfl, ?_⟩
  decide +kernel

end Pair

end Task

end Staging
