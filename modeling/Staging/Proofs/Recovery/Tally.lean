import Mathlib
import Staging.Proofs.Recovery.Interruption

namespace Staging

variable {σ : Type}

theorem Counters.toNat_saturatingSucc (n : UInt32) :
    (saturatingSucc n).toNat = min (n.toNat + 1) 4294967295 := by
  have hn : attempt n.toNat = n := by
    have hlt := n.toNat_lt
    apply UInt32.toNat.inj
    rw [toNat_attempt]
    omega
  rw [← toNat_attempt, ← saturatingSucc_attempt, hn]

namespace Task

section Visit

variable {t : Task} {k : Collaborators σ} {b b' : Bench σ} {u : Table} {id : String}

def tally (t : Task) (b : Bench σ) (id : String) : Option UInt32 :=
  match (t.repository.recover id b.desk.shelf).1 with
  | .ok (some _) => some (Counters.saturatingSucc (b.counters.count id))
  | _ => b.counters.get? id

structure Leaves (t : Task) (id : String) (entry : Option Bytes) (counter : Option UInt32)
    (o : Outcome) (b' : Bench σ) : Prop where
  escalated : o.isEscalated = true → t.staged b' id = none ∧ b'.counters.get? id = none
  kept : o.isEscalated = false → t.staged b' id = entry ∧ b'.counters.get? id = counter

theorem Leaves.of_kept {entry : Option Bytes} {counter : Option UInt32} {o : Outcome}
    (ho : o.isEscalated = false) (hs : t.staged b' id = entry)
    (hn : b'.counters.get? id = counter) : t.Leaves id entry counter o b' :=
  ⟨fun h => by simp [ho] at h, fun _ => ⟨hs, hn⟩⟩

theorem retry_leaves (hk : k.ReadsOnly) (x : Exchange) (h : b.desk.shelf.Holds u) :
    t.Leaves id (t.staged b id) (b.counters.get? id) (retry k x b).1 (retry k x b).2 := by
  have hafter : (retry k x b).2.desk.shelf.Holds u := hk.redeliver x b.desk u h
  refine .of_kept rfl ?_ rfl
  rw [staged_eq h, staged_eq hafter]

theorem escalate_leaves (hk : k.ReadsOnly) (x : Exchange) (h : b.desk.shelf.Holds u) :
    t.Leaves id (t.staged b id) (b.counters.get? id) (t.escalate k id x b).1
      (t.escalate k id x b).2 := by
  have hsent := hk.send t.destination x b.desk u h
  rw [staged_eq h]
  rcases hs : k.send t.destination x b.desk with ⟨e | _, d⟩
  · rw [hs] at hsent
    simp only [escalate, Bench.onDesk, hs]
    exact .of_kept rfl (staged_eq hsent id) rfl
  · rw [hs] at hsent
    rcases t.repository.confirm_erases hsent id with ⟨s, hc, hw, -⟩ | ⟨-, e, s, hc, hw, -⟩
    · simp only [escalate, Bench.onDesk, Bench.onShelf, hs, hc]
      refine ⟨fun _ => ⟨?_, SortedMap.get?_erase_self ..⟩, fun h => by cases h⟩
      rw [staged_eq hw, SortedMap.get?_erase_self]
    -- the dead letter has gone out, but the entry cannot be taken away: its counter stays with it
    · simp only [escalate, Bench.onDesk, Bench.onShelf, hs, hc]
      exact .of_kept rfl (staged_eq hw id) rfl

theorem attend_leaves (hk : k.ReadsOnly) (h : b.desk.shelf.Holds u)
    (hr : t.repository.settings.useRecovery = true) (hs : (t.staged b id).isSome = true) :
    t.Leaves id (t.staged b id) (t.tally b id) (t.attend k id b).1 (t.attend k id b).2 := by
  rcases hx : t.repository.recover id b.desk.shelf with ⟨e | _ | e, s⟩
  · have hread := (t.repository.recover_keeps h hx).1
    simp only [attend, tally, Bench.onShelf, hx]
    refine .of_kept rfl ?_ rfl
    rw [staged_eq h]
    exact staged_eq hread id
  · obtain ⟨bytes, hbytes⟩ := Option.isSome_iff_exists.mp hs
    rw [staged_eq h] at hbytes
    exact absurd hx (t.repository.recover_ne_none h hbytes hr)
  -- the snapshot is counted before the exchange is handed over, whatever comes of that
  · have hread := (t.repository.recover_keeps h hx).1
    let b₁ : Bench σ := ⟨{ b.desk with shelf := s }, (b.counters.increment id).2⟩
    have h₁ : b₁.desk.shelf.Holds u := hread
    have hstaged : t.staged b id = t.staged b₁ id := by rw [staged_eq h, staged_eq h₁]
    have hcounter : t.tally b id = b₁.counters.get? id := by
      simp only [tally, hx]
      exact (SortedMap.get?_insert_self ..).symm
    rw [hstaged, hcounter]
    simp only [attend, Bench.onShelf, hx]
    split_ifs
    · exact escalate_leaves hk _ h₁
    · exact retry_leaves hk _ h₁

end Visit

section Cycle

variable {t : Task} {k : Collaborators σ} {vs : List (Visit σ)} {c : Cursor} {b₀ b b' : Bench σ}
  {u₀ u : Table} {id : String}

theorem staged_attend (hk : k.ReadsOnly) {j : String} (h : b.desk.shelf.Holds u) (hj : j ≠ id) :
    t.staged (t.attend k id b).2 j = t.staged b j := by
  obtain ⟨w, hw, hown⟩ := attend_readsOnly hk id (t := t) h
  rw [staged_eq h, staged_eq hw]
  rcases hown with rfl | rfl
  · rfl
  · apply SortedMap.get?_erase_of_ne
    exact fun he => hj (KeySpace.completedKey_injective he)

theorem Course.entries (h : t.Course k b₀ vs c b) (hk : k.ReadsOnly)
    (h₀ : b₀.desk.shelf.Holds u₀) :
    (∀ id, id ∉ vs.map Visit.id → t.staged b id = t.staged b₀ id) ∧
      ∀ v ∈ vs, t.staged v.before v.id = t.staged b₀ v.id ∧
        t.staged b v.id = t.staged v.after v.id :=
  h.own (f := t.staged) hk.tidy h₀ (fun hj => funext hj.staged) (staged_attend hk)

theorem isSome_staged_iff (h : b.desk.shelf.Holds u) :
    (t.staged b id).isSome = true ↔ id ∈ (t.repository.ledger u).completed.keys := by
  refine ⟨mem_completed_of_staged h, fun hid => ?_⟩
  obtain ⟨⟨i, bytes⟩, hmem, rfl⟩ := List.mem_map.mp hid
  rw [staged_eq h, ← Repository.get?_completed, SortedMap.mem_entries.mp hmem]
  rfl

def ReadIn (t : Task) (vs : List (Visit σ)) (id : String) : Prop :=
  ∃ v ∈ vs, v.id = id ∧ ∃ e, (t.repository.recover id v.before.desk.shelf).1 = .ok (some e)

structure Accounted (t : Task) (k : Collaborators σ) (b₀ : Bench σ) (vs : List (Visit σ))
    (b' : Bench σ) : Prop where
  genuine : ∀ v ∈ vs, v = t.visit k v.id v.before
  once : (vs.map Visit.id).Nodup
  visited : ∀ id, id ∈ vs.map Visit.id ↔ (t.staged b₀ id).isSome = true
  staged : ∀ id, (b'.counters.get? id).isSome = true → (t.staged b' id).isSome = true
  cleared : ∀ v ∈ vs, v.outcome.isEscalated = true ∨ v.outcome = .gone →
    t.staged b' v.id = none ∧ b'.counters.get? v.id = none
  kept : ∀ v ∈ vs, v.outcome.isEscalated = false → t.staged b' v.id = t.staged b₀ v.id
  read : ∀ id, (t.staged b' id).isSome = true → t.ReadIn vs id → ∃ n,
    b'.counters.get? id = some n ∧ n.toNat = min ((b₀.counters.count id).toNat + 1) (2 ^ 32 - 1)
  unread : ∀ id, (t.staged b' id).isSome = true → ¬ t.ReadIn vs id →
    b'.counters.get? id = b₀.counters.get? id

theorem Tour.visited_iff (h : t.Tour k b₀ vs .complete b') (hk : k.ReadsOnly)
    (h₀ : b₀.desk.shelf.Holds u₀) :
    id ∈ vs.map Visit.id ↔ (t.staged b₀ id).isSome = true := by
  rw [isSome_staged_iff h₀, ((h.segment hk h₀).complete rfl).1]

theorem Tour.leaves (h : t.Tour k b₀ vs .complete b') (hk : k.ReadsOnly)
    (hr : t.repository.settings.useRecovery = true) (h₀ : b₀.desk.shelf.Holds u₀) {v : Visit σ}
    (hv : v ∈ vs) :
    v.outcome ≠ .gone ∧ v.before.counters.get? v.id = b₀.counters.get? v.id ∧
      t.Leaves v.id (t.staged b₀ v.id) (t.tally v.before v.id) v.outcome b' := by
  have hin : v.id ∈ vs.map Visit.id := List.mem_map_of_mem hv
  have hsome := (h.visited_iff hk h₀).mp hin
  obtain ⟨c, b, hcourse, hends⟩ := h
  obtain ⟨w, hw, -⟩ := hcourse.remains hk h₀
  obtain ⟨hvisit, u, hu⟩ := hcourse.genuine hk.tidy h₀ v hv
  obtain ⟨hentry, hentry'⟩ := (hcourse.entries hk h₀).2 v hv
  obtain ⟨hcounter, hcounter'⟩ := (hcourse.counters hk.tidy h₀).2 v hv
  rw [← hentry] at hsome
  have hattend : t.Leaves v.id (t.staged v.before v.id) (t.tally v.before v.id) v.outcome v.after := by
    rw [hvisit]
    exact attend_leaves hk hu hr hsome
  refine ⟨fun hg => ?_, hcounter, ?_⟩
  · rw [hvisit] at hg
    simp [attend_gone hu hr hg] at hsome
  · have hstaged : t.staged b' v.id = t.staged v.after v.id := (hends.staged hw v.id).trans hentry'
    have hcount : b'.counters.get? v.id = v.after.counters.get? v.id := by
      rw [hends.get?_counters, if_pos hin, hcounter']
    refine ⟨fun ho => ?_, fun ho => ?_⟩
    · rw [hstaged, hcount]
      exact hattend.escalated ho
    · rw [hstaged, hcount, ← hentry]
      exact hattend.kept ho

theorem Tour.accounted (h : t.Tour k b₀ vs .complete b') (hk : k.ReadsOnly)
    (hr : t.repository.settings.useRecovery = true) (h₀ : b₀.desk.shelf.Holds u₀) :
    t.Accounted k b₀ vs b' := by
  have hleaves (v : Visit σ) (hv : v ∈ vs) := h.leaves hk hr h₀ hv
  obtain ⟨c, b, hcourse, hends⟩ := id h
  obtain ⟨w, hw, -⟩ := hcourse.remains hk h₀
  have escalated (v : Visit σ) (hs : (t.staged b' v.id).isSome = true) (hv : v ∈ vs) :
      v.outcome.isEscalated = false := by
    by_contra hne
    rw [Bool.not_eq_false] at hne
    simp [((hleaves v hv).2.2.escalated hne).1] at hs
  -- what is still staged was staged in the beginning, so it was visited
  have visited (id : String) (hs : (t.staged b' id).isSome = true) : ∃ v ∈ vs, v.id = id := by
    by_contra hno
    have hid : id ∉ vs.map Visit.id := fun hin => hno (List.mem_map.mp hin)
    rw [hends.staged hw, (hcourse.entries hk h₀).1 id hid] at hs
    exact hid ((h.visited_iff hk h₀).mpr hs)
  constructor
  case genuine => exact fun v hv => (hcourse.genuine hk.tidy h₀ v hv).1
  case once =>
    refine ((hcourse.ascending hk.tidy h₀).1).imp ?_
    rintro i j hij rfl
    exact Std.lt_irrefl hij
  case visited => exact fun id => h.visited_iff hk h₀
  case staged =>
    intro id hn
    have hin : id ∈ vs.map Visit.id := by
      by_contra hin
      simp [hends.get?_counters, hin] at hn
    obtain ⟨v, hv, rfl⟩ := List.mem_map.mp hin
    cases ho : v.outcome.isEscalated with
    | true => simp [((hleaves v hv).2.2.escalated ho).2] at hn
    | false =>
      rw [((hleaves v hv).2.2.kept ho).1]
      exact (h.visited_iff hk h₀).mp hin
  case cleared =>
    rintro v hv (ho | ho)
    · exact (hleaves v hv).2.2.escalated ho
    · exact absurd ho (hleaves v hv).1
  case kept => exact fun v hv ho => ((hleaves v hv).2.2.kept ho).1
  case read =>
    rintro id hs ⟨v, hv, rfl, e, hread⟩
    obtain ⟨-, hbefore, hleft⟩ := hleaves v hv
    refine ⟨Counters.saturatingSucc (b₀.counters.count v.id), ?_, Counters.toNat_saturatingSucc _⟩
    rw [(hleft.kept (escalated v hs hv)).2, tally, hread, Counters.count, Counters.count, hbefore]
  case unread =>
    intro id hs hno
    obtain ⟨v, hv, rfl⟩ := visited id hs
    obtain ⟨-, hbefore, hleft⟩ := hleaves v hv
    rw [(hleft.kept (escalated v hs hv)).2, ← hbefore, tally]
    split
    · rename_i e hread
      exact absurd ⟨v, hv, rfl, e, hread⟩ hno
    · rfl

end Cycle

section Unreadable

variable {t : Task} {k : Collaborators σ} {vs vs' : List (Visit σ)} {c c' : Cursor} {b₀ b b' : Bench σ}

theorem next_completedCursor_of_unreadable {s : Shelf} (hs : s.Unreadable) :
    ∃ e c', t.repository.completedCursor.next s = (some (.error e), c', s.counted .scan) := by
  obtain ⟨e, hpage⟩ := hs t.repository.keySpace.completedPrefix none Cursor.defaultPageSize
  refine ⟨e, { t.repository.completedCursor with exhausted := true }, ?_⟩
  simp [Repository.completedCursor, Cursor.next, Cursor.new, hpage]

theorem not_round_of_unreadable (hs : b.desk.shelf.Unreadable) :
    ¬ t.Round k vs t.repository.completedCursor b vs' c' b' := by
  obtain ⟨e, c'', hnext⟩ := next_completedCursor_of_unreadable (t := t) hs
  rintro (⟨hx, hid⟩ | ⟨hx, hid, -⟩)
  · cases hnext.symm.trans hx
    cases hid
  · cases hnext.symm.trans hx
    cases hid

theorem Course.begins_of_unreadable (h : t.Course k b₀ vs c b) (hs : b₀.desk.shelf.Unreadable) :
    vs = [] ∧ c = t.repository.completedCursor ∧ b = b₀ := by
  induction h with
  | begin => exact ⟨rfl, rfl, rfl⟩
  | round h hr ih =>
    obtain ⟨rfl, rfl, rfl⟩ := ih
    exact absurd hr (not_round_of_unreadable hs)

theorem Tour.holds (h : t.Tour k b₀ vs .complete b') (hd : b₀.desk.shelf.disk.NamedInUse) :
    ∃ u, b₀.desk.shelf.Holds u := by
  rcases b₀.desk.shelf.holds_or_unreadable hd with hu | hs
  · exact hu
  · obtain ⟨c, b, hcourse, hends⟩ := h
    obtain ⟨rfl, rfl, rfl⟩ := hcourse.begins_of_unreadable hs
    obtain ⟨e, c', hnext⟩ := next_completedCursor_of_unreadable (t := t) hs
    cases hends with
    | complete hx => cases hnext.symm.trans hx

theorem finished_of_readsOnly (hk : k.ReadsOnly) (hd : b₀.desk.shelf.disk.NamedInUse) :
    (t.runUpTo k (stepBound k b₀) t.begin b₀).1.phase = .finished := by
  rcases b₀.desk.shelf.holds_or_unreadable hd with ⟨u₀, h₀⟩ | hs
  · exact runCycle_finished hk.tidy hk.within h₀ (Nat.zero_le _)
  · rcases t.round_or_ends k [] t.repository.completedCursor b₀ with
      ⟨_, _, _, hr, -⟩ | ⟨_, _, c', -, hp, -, -, n, hn, hreach⟩
    · exact absurd hr (not_round_of_unreadable hs)
    · have hbound : n ≤ stepBound k b₀ := by
        unfold stepBound
        omega
      obtain ⟨left, hleft⟩ := Nat.exists_eq_add_of_le hbound
      have hrun := hreach.runUpTo left
      rw [runUpTo_finished t k hp, ← hleft] at hrun
      rw [show t.begin = after [] t.repository.completedCursor from rfl, hrun]
      exact hp

theorem runCycle_accounted {r : Repository} (hr : ofRepository r = .ok t) (hk : k.ReadsOnly)
    (hd : b₀.desk.shelf.disk.NamedInUse) :
    (∃ vs ending, t.Tour k b₀ vs ending (t.runCycle k b₀).2 ∧
        (t.runCycle k b₀).1 = summary vs ending) ∧
      ∀ vs b', t.Tour k b₀ vs .complete b' → t.Accounted k b₀ vs b' := by
  obtain ⟨rfl, hrecovery, -⟩ := ofRepository_ok hr
  constructor
  · obtain ⟨vs, ending, htour, hreport, -⟩ := tour_of_finished (finished_of_readsOnly (t := t) hk hd)
    exact ⟨vs, ending, htour, hreport⟩
  · intro vs b' htour
    obtain ⟨u₀, h₀⟩ := htour.holds hd
    exact htour.accounted hk hrecovery h₀

end Unreadable

section Assorted

open Station (smallTask smallKeySpace)

def willing : Collaborators Unit where
  redeliver _ d := (.ok (), d)
  send _ _ d := (.ok (), d)
  maxStaged := 0

theorem readsOnly_willing : willing.ReadsOnly := ⟨fun _ _ _ h => h, fun _ _ _ _ h => h⟩

def assorted : Bench Unit where
  desk := ⟨⟨.memory ⟨MemoryStore.Contents.empty.writeAll
      (["a", "b", "c", "d"].map fun id => .put (smallKeySpace.completedKey id) [1]), true, none⟩,
    .empty, (FaultPlan.none.inject .delete 1 (some 1)).inject .get 5 (some 1)⟩, true, ()⟩
  counters := (((SortedMap.empty.insert "a" 1).insert "c" 1).insert "d" 7).insert "z" 5

theorem runCycle_accounted_assorted :
    ofRepository smallTask.repository = .ok smallTask ∧
      ∃ vs b', smallTask.Tour willing assorted vs .complete b' ∧
        vs.map Visit.id = ["a", "b", "c", "d"] ∧
        b'.counters.entries = [("b", 1), ("c", 2), ("d", 7)] ∧
        smallTask.Accounted willing assorted vs b' := by
  have hr : ofRepository smallTask.repository = .ok smallTask := by
    have hval : smallTask.repository.settings.validateRecovery = .ok () := by decide +kernel
    rw [ofRepository, hval]
    rfl
  have htour : ∃ vs b', smallTask.Tour willing assorted vs .complete b' ∧
      vs.map Visit.id = ["a", "b", "c", "d"] ∧
      b'.counters.entries = [("b", 1), ("c", 2), ("d", 7)] :=
    ⟨_, _, ⟨_, _, .round (.round (.round (.round .begin (.visited rfl rfl rfl))
      (.visited rfl rfl rfl)) (.visited rfl rfl rfl)) (.visited rfl rfl rfl), .complete rfl⟩, rfl,
      by decide +kernel⟩
  obtain ⟨vs, b', htour, hids, hcounters⟩ := htour
  exact ⟨hr, vs, b', htour, hids, hcounters,
    (runCycle_accounted hr readsOnly_willing Disk.namedInUse_empty).2 vs b' htour⟩

end Assorted

end Task

end Staging
