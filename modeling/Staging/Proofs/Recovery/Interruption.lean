import Mathlib
import Staging.Proofs.Recovery.Coverage

namespace Staging

variable {σ : Type}

namespace Table

theorem under_erase {t : Table} {start key : Bytes} {after : Option Bytes}
    (h : after.all (· < key) = false) :
    Table.under (t.erase key) start after = t.under start after := by
  apply Assoc.eq_of_mem_iff (under_ascending after) (under_ascending after)
  rintro ⟨j, value⟩
  rw [mem_under, mem_under, SortedMap.get?_erase]
  by_cases hj : j = key
  · simp [hj, h]
  · rw [if_neg hj]

end Table

namespace Cursor

theorem Ordered.le_frontier {c : Cursor} {key : Bytes} (hc : c.Ordered) (hl : c.lastKey = some key) :
    ∃ f, c.frontier = some f ∧ key ≤ f := by
  cases hb : c.buffer.getLast? with
  | none => exact ⟨key, by rw [frontier, hb, hl]; rfl, Std.le_refl key⟩
  | some e =>
    refine ⟨e.1, by rw [frontier, hb]; rfl, ?_⟩
    rw [Ordered, hl, List.pairwise_append] at hc
    exact Std.le_of_lt (hc.2.2 key (by simp) e.1 (List.mem_map_of_mem (List.mem_of_getLast? hb)))

theorem rest_erase {c : Cursor} {key : Bytes} (hc : c.Ordered) (hl : c.lastKey = some key)
    (t : Table) : c.rest (t.erase key) = c.rest t := by
  obtain ⟨f, hf, hle⟩ := hc.le_frontier hl
  have hnot : c.frontier.all (· < key) = false := by
    rw [hf]
    exact decide_eq_false (Std.not_lt.mpr hle)
  rw [rest, rest, Table.under_erase hnot]

end Cursor

structure Collaborators.ReadsOnly (k : Collaborators σ) : Prop where
  redeliver : ∀ e d t, d.shelf.Holds t → (k.redeliver e d).2.shelf.Holds t
  send : ∀ destination e d t, d.shelf.Holds t → (k.send destination e d).2.shelf.Holds t

namespace Collaborators.ReadsOnly

variable {k : Collaborators σ} {d d' : Desk σ} {u : Table}

theorem tidy (hk : k.ReadsOnly) : k.Tidy where
  redeliver e d t ht := ⟨t, hk.redeliver e d t ht⟩
  send destination e d t ht := ⟨t, hk.send destination e d t ht⟩

theorem within (hk : k.ReadsOnly) : k.Within (fun _ => 0) where
  redeliver e d t ht := by rw [ht.entries_eq, (hk.redeliver e d t ht).entries_eq, gained_self]
  send destination e d t ht := by
    rw [ht.entries_eq, (hk.send destination e d t ht).entries_eq, gained_self]

theorem acts (hk : k.ReadsOnly) (h : k.Acts d d') (hd : d.shelf.Holds u) : d'.shelf.Holds u := by
  cases h with
  | idle => exact hd
  | redeliver e => exact hk.redeliver e d u hd
  | send destination e => exact hk.send destination e d u hd

end Collaborators.ReadsOnly

namespace Task

section ReadsOnly

variable {t : Task} {k : Collaborators σ} {vs vs' : List (Visit σ)} {c c' : Cursor}
  {b₀ b b' : Bench σ} {u₀ u : Table}

theorem attend_readsOnly (hk : k.ReadsOnly) (id : String) (h : b.desk.shelf.Holds u) :
    ∃ w, (t.attend k id b).2.desk.shelf.Holds w ∧
      (w = u ∨ w = u.erase (t.repository.keySpace.completedKey id)) := by
  obtain ⟨d, v, w, ha⟩ := attend_attended hk.tidy id (t := t) h
  obtain ⟨d₀, hd₀, -, hacts⟩ := ha.read
  have hsame : v = u := ha.acted.unique (hk.acts hacts hd₀)
  exact ⟨w, ha.left, hsame ▸ ha.own⟩

structure Remains (t : Task) (u₀ : Table) (vs : List (Visit σ)) (c : Cursor) (w : Table) : Prop where
  keys : (t.repository.ledger u₀).completed.keys = vs.map Visit.id ++ t.repository.idsOf (c.rest w)
  others : ∀ id, id ∉ vs.map Visit.id →
    w.get? (t.repository.keySpace.completedKey id) =
      u₀.get? (t.repository.keySpace.completedKey id)

theorem Course.remains (h : t.Course k b₀ vs c b) (hk : k.ReadsOnly) (h₀ : b₀.desk.shelf.Holds u₀) :
    ∃ w, b.desk.shelf.Holds w ∧ t.Remains u₀ vs c w := by
  induction h with
  | begin => exact ⟨u₀, h₀, by simpa using t.repository.keys_completed u₀, fun _ _ => rfl⟩
  | @round vs vs' c c' b b' h hr ih =>
    obtain ⟨w, hw, hrem⟩ := ih
    have hunder := h.underway hk.tidy h₀
    obtain ⟨e, s, hf, hcases⟩ := hr.fetched hunder.placed hw
    have hkeys := hrem.keys
    rw [hf.rest] at hkeys
    rcases hcases with ⟨hnone, rfl, rfl⟩ | ⟨id, hid, -, rfl, rfl⟩
    · have hdecode : t.repository.keySpace.decodeCompleted? e.1 = none := by
        simpa [Repository.completedId?] using hnone
      refine ⟨w, hf.holds, ?_, hrem.others⟩
      simpa [Repository.idsOf, hdecode] using hkeys
    · obtain ⟨w', hw', hown⟩ := attend_readsOnly hk id (t := t) (b := b.withShelf s) hf.holds
      have hordered := hf.nexts.ordered hunder.ordered
      have hlast := (hf.nexts.yields hunder.ordered).2
      have hrest : c'.rest w' = c'.rest w := by
        rcases hown with rfl | rfl
        · rfl
        · rw [← hid]
          exact Cursor.rest_erase hordered hlast w
      refine ⟨w', hw', ?_, ?_⟩
      · rw [hrest, hkeys]
        simp [Repository.idsOf, hid, visit]
      · intro j hj
        simp only [List.map_append, List.mem_append, not_or, List.map_cons, List.map_nil,
          List.mem_singleton, visit] at hj
        rw [← hrem.others j hj.1]
        rcases hown with rfl | rfl
        · rfl
        · apply SortedMap.get?_erase_of_ne
          intro he
          exact hj.2 (KeySpace.completedKey_injective he)

structure Segment (t : Task) (b₀ : Bench σ) (u₀ : Table) (vs : List (Visit σ)) (ending : Ending)
    (b' : Bench σ) : Prop where
  ascending : (t.repository.ledger u₀).completed.keys.Pairwise
    (fun i j => Bytes.ofString i < Bytes.ofString j)
  visited : vs.map Visit.id = (t.repository.ledger u₀).completed.keys.take vs.length
  staged : ∀ id, id ∉ vs.map Visit.id → t.staged b' id = t.staged b₀ id
  counted : ∀ id, id ∉ vs.map Visit.id → (t.staged b₀ id).isSome = true →
    b'.counters.get? id = b₀.counters.get? id
  counters : ∀ id, id ∉ vs.map Visit.id → ending ≠ .complete →
    b'.counters.get? id = b₀.counters.get? id
  complete : ending = .complete → vs.map Visit.id = (t.repository.ledger u₀).completed.keys ∧
    ∀ id, id ∉ vs.map Visit.id → b'.counters.get? id = none
  obeyed : (b₀.desk.runAllowed = false → vs = []) ∧
    ∀ v ∈ vs.dropLast, v.after.desk.runAllowed = true
  seen : ending ≠ .complete → (ending = .halted ↔ b'.desk.runAllowed = false)

theorem keys_ascending (m : SortedMap String Bytes) :
    m.keys.Pairwise (fun i j => Bytes.ofString i < Bytes.ofString j) :=
  List.pairwise_map.mpr (m.ascending.imp (fun h => Bytes.ofString_lt_ofString.mpr h))

theorem mem_completed_of_staged (h : b.desk.shelf.Holds u) {id : String}
    (hs : (t.staged b id).isSome = true) : id ∈ (t.repository.ledger u).completed.keys := by
  rw [staged_eq h, ← Repository.get?_completed, Option.isSome_iff_exists] at hs
  obtain ⟨bytes, hbytes⟩ := hs
  exact List.mem_map_of_mem (SortedMap.mem_entries.mpr hbytes)

theorem Course.obeyed (h : t.Course k b₀ vs c b) (hk : k.Tidy) (h₀ : b₀.desk.shelf.Holds u₀) :
    (b₀.desk.runAllowed = false → vs = []) ∧
      ∀ v ∈ vs.dropLast, v.after.desk.runAllowed = true := by
  induction h with
  | begin => simp
  | @round vs _ c _ b _ h hr ih =>
    have hflag := (h.joined hk h₀).2.2.runAllowed
    cases hr with
    | passed => exact ih
    | visited _ _ hrun =>
      rw [hrun] at hflag
      rcases vs.eq_nil_or_concat with rfl | ⟨vs, w, rfl⟩
      · refine ⟨fun h => ?_, by simp⟩
        exact Bool.noConfusion (hflag.trans h)
      · rw [List.concat_eq_append, benchAfter, List.getLast?_concat] at hflag
        simp only [List.concat_eq_append, List.dropLast_concat] at ih ⊢
        refine ⟨fun h => by simpa using ih.1 h, fun v hv => ?_⟩
        rcases List.mem_append.mp hv with hv | hv
        · exact ih.2 v hv
        · rw [List.mem_singleton.mp hv]
          exact hflag.symm

theorem Ends.staged {ending : Ending} (h : t.Ends vs c b ending b') (hu : b.desk.shelf.Holds u)
    (id : String) : t.staged b' id = t.staged b id := by
  have hnext := (c.next_keeps hu).1
  rw [staged_eq hu]
  cases h with
  | complete hx | halted hx | cut hx =>
    rw [hx] at hnext
    exact staged_eq hnext id

theorem Tour.segment {ending : Ending} (h : t.Tour k b₀ vs ending b') (hk : k.ReadsOnly)
    (h₀ : b₀.desk.shelf.Holds u₀) : t.Segment b₀ u₀ vs ending b' := by
  obtain ⟨c, b, hcourse, hends⟩ := h
  obtain ⟨w, hw, hrem⟩ := hcourse.remains hk h₀
  have hothers := (hcourse.counters hk.tidy h₀).1
  have hobeyed := hcourse.obeyed hk.tidy h₀
  have hascending := keys_ascending (t.repository.ledger u₀).completed
  have hvisited : vs.map Visit.id = (t.repository.ledger u₀).completed.keys.take vs.length := by
    rw [hrem.keys, List.take_left' (by simp)]
  have hstaged (id : String) (hid : id ∉ vs.map Visit.id) : t.staged b' id = t.staged b₀ id := by
    rw [hends.staged hw, staged_eq hw, staged_eq h₀, hrem.others id hid]
  cases hends with
  | complete hx =>
    have hrest : c.rest w = [] := by
      rcases (hcourse.underway hk.tidy h₀).placed.told hw hx with ⟨-, hrest⟩ | ⟨e, he, -⟩ | ⟨e, he⟩
      · exact hrest
      · cases he
      · cases he
    have hall : vs.map Visit.id = (t.repository.ledger u₀).completed.keys := by
      rw [hrem.keys, hrest]
      simp [Repository.idsOf]
    refine ⟨hascending, hvisited, hstaged, fun id hid hsome => ?_, fun _ _ h => absurd rfl h,
      fun _ => ⟨hall, fun id hid => ?_⟩, hobeyed, fun h => absurd rfl h⟩
    · exact absurd (hall ▸ mem_completed_of_staged h₀ hsome) hid
    · rw [(Ends.complete (t := t) hx).get?_counters, if_neg hid]
  | halted hx _ hrun =>
    refine ⟨hascending, hvisited, hstaged, fun id hid _ => hothers id hid,
      fun id hid _ => hothers id hid, fun h => ?_, hobeyed, fun _ => ⟨fun _ => hrun, fun _ => rfl⟩⟩
    cases h
  | cut hx _ hrun =>
    refine ⟨hascending, hvisited, hstaged, fun id hid _ => hothers id hid,
      fun id hid _ => hothers id hid, fun h => ?_, hobeyed, fun _ => ?_⟩
    · cases h
    · simp [Bench.withShelf, hrun]

theorem runCycle_segment (hk : k.ReadsOnly) (h₀ : b₀.desk.shelf.Holds u₀) :
    ∃ vs ending, t.Tour k b₀ vs ending (t.runCycle k b₀).2 ∧
      (t.runCycle k b₀).1 = summary vs ending ∧
      ((t.runCycle k b₀).1.aborted = true ↔ ending = .halted) ∧
      (∀ e, ending = .cut e → (t.runCycle k b₀).1.aborted = false ∧
        (t.runCycle k b₀).1.scanned = vs.length ∧
        (t.runCycle k b₀).1.failed = vs.countP (·.outcome.isFailed) + 1) ∧
      t.Segment b₀ u₀ vs ending (t.runCycle k b₀).2 := by
  have hfinished := runCycle_finished (t := t) hk.tidy hk.within h₀ (Nat.zero_le _)
  obtain ⟨vs, ending, htour, hreport, -⟩ := tour_of_finished hfinished
  have hrun : (t.runCycle k b₀).1 = summary vs ending := hreport
  refine ⟨vs, ending, htour, hrun, ?_, ?_, htour.segment hk h₀⟩
  · rw [hrun]
    cases ending <;> simp [summary]
  · rintro e rfl
    rw [hrun]
    exact ⟨rfl, rfl, rfl⟩

end ReadsOnly

section Halting

open Station (smallTask smallKeySpace)

def halting : Collaborators Unit where
  redeliver _ d := (.ok (), { d with runAllowed := false })
  send _ _ d := (.ok (), { d with runAllowed := false })
  maxStaged := 0

theorem readsOnly_halting : halting.ReadsOnly := ⟨fun _ _ _ h => h, fun _ _ _ _ h => h⟩

theorem runCycle_segment_pair :
    ∃ vs, smallTask.Tour halting (pair .none) vs .halted (smallTask.runCycle halting (pair .none)).2 ∧
      vs.map Visit.id = ["a"] ∧
      (smallTask.runCycle halting (pair .none)).2.counters.get? "b" = some 1 := by
  obtain ⟨vs, ending, htour, hreport, haborted, -, hsegment⟩ :=
    @runCycle_segment Unit smallTask halting (pair .none) _ readsOnly_halting rfl
  have hsummary : (smallTask.runCycle halting (pair .none)).1 = ⟨1, 1, 0, 0, true⟩ := by
    decide +kernel
  have hlength : vs.length = 1 := congrArg CycleSummary.scanned (hreport.symm.trans hsummary)
  obtain rfl : ending = .halted := haborted.mp (congrArg CycleSummary.aborted hsummary)
  have hvisited : vs.map Visit.id = ["a"] := by
    rw [hsegment.visited, hlength]
    decide +kernel
  refine ⟨vs, htour, hvisited, ?_⟩
  rw [hsegment.counters "b" (by simp [hvisited]) (by simp)]
  decide +kernel

def stale : Bench Unit where
  desk := ⟨⟨.memory ⟨MemoryStore.Contents.empty.insert (smallKeySpace.completedKey "a") [1], true,
    none⟩, .empty, .none⟩, true, ()⟩
  counters := SortedMap.empty.insert "b" 1

/-- A cycle that is halted while its last exchange is visited is complete, and drops the counter of one
that it has not visited. -/
theorem stale_counter_of_late_halt :
    halting.ReadsOnly ∧ (smallTask.runCycle halting stale).1 = ⟨1, 1, 0, 0, false⟩ ∧
      (smallTask.runCycle halting stale).2.desk.runAllowed = false ∧
      smallTask.staged stale "b" = none ∧ stale.counters.get? "b" = some 1 ∧
      (smallTask.runCycle halting stale).2.counters.get? "b" = none := by
  refine ⟨readsOnly_halting, ?_⟩
  decide +kernel

end Halting

end Task

end Staging
