import Mathlib
import Staging.Recovery.Scanner
import Staging.Proofs.Recovery.Tour

namespace Staging

variable {σ : Type}

def Phase.left (m : Nat) : Phase → Nat
  | fetching => 5 * m + 2
  | deciding (.ok _) => 5 * m + 6
  | reading _ => 5 * m + 5
  | redelivering _ _ | escalating _ _ => 5 * m + 4
  | confirming _ => 5 * m + 3
  | deciding (.error _) => 1
  | finished => 0

theorem Phase.left_mono (p : Phase) {m n : Nat} (h : m ≤ n) : p.left m ≤ p.left n := by
  cases p with
  | deciding found => cases found <;> simp only [left] <;> omega
  | _ => simp only [left]; omega

theorem Phase.left_le (p : Phase) (m : Nat) : p.left m ≤ 5 * m + 6 := by
  cases p with
  | deciding found => cases found <;> simp only [left] <;> omega
  | _ => simp only [left]; omega

namespace Task

variable {t : Task} {k : Collaborators σ} {credit : σ → Nat} {c c' : Cycle} {b : Bench σ} {n : Nat}

theorem left_route (t : Task) (id : String) (e : Exchange) (attempt : UInt32) (m : Nat) :
    (t.route id e attempt).left m = 5 * m + 4 := by
  rw [route]
  split_ifs <;> rfl

theorem left_deciding {cursor : Cursor} {x : Except StoreError Entry}
    {y : Except RepositoryError String} {s s' : Shelf} {u : Table} {m : Nat} (hc : c.cursor.Placed)
    (hs : s.Holds u) (hx : c.cursor.next s = (some x, cursor, s'))
    (hid : t.repository.completedId? x = some y) :
    (Phase.deciding y).left ((cursor.rest u).length + m) < 5 * ((c.cursor.rest u).length + m) + 2 := by
  rcases hc.told hs hx with ⟨he, -⟩ | ⟨e, -, hrest⟩ | ⟨e, he⟩
  · cases he
  · have hy := (Phase.deciding y).left_le ((cursor.rest u).length + m)
    rw [hrest, List.length_cons]
    omega
  · cases he
    cases hid
    simp only [Phase.left]
    omega

theorem left_passed {cursor : Cursor} {x : Except StoreError Entry} {s s' : Shelf} {u : Table}
    (hc : c.cursor.Placed) (hs : s.Holds u) (hx : c.cursor.next s = (some x, cursor, s'))
    (hid : t.repository.completedId? x = none) :
    (cursor.rest u).length < (c.cursor.rest u).length := by
  rcases hc.told hs hx with ⟨he, -⟩ | ⟨e, -, hrest⟩ | ⟨e, he⟩
  · cases he
  · rw [hrest, List.length_cons]
    omega
  · cases he
    cases hid

theorem Steps.left_lt {s s' : Shelf} {r r' : Counters} {d : Option Deed}
    (h : t.Steps c s r d c' s' r') (hp : c.phase ≠ .finished) (hc : c.cursor.Placed) {u : Table}
    (hs : s.Holds u) (m : Nat) :
    c'.cursor.Placed ∧ ∃ v, s'.Holds v ∧ c'.phase.left ((c'.cursor.rest v).length + m) <
      c.phase.left ((c.cursor.rest u).length + m) := by
  cases h with
  | ended hp hx =>
    obtain ⟨hplaced, -, hs'⟩ := hc.next hs hx
    refine ⟨hplaced, u, hs', ?_⟩
    simp [Phase.left, hp]
  | passed hp hx hid =>
    obtain ⟨hplaced, -, hs'⟩ := hc.next hs hx
    have hlt := left_passed hc hs hx hid
    refine ⟨hplaced, u, hs', ?_⟩
    simp only [hp, Phase.left]
    omega
  | found hp hx hid =>
    obtain ⟨hplaced, -, hs'⟩ := hc.next hs hx
    refine ⟨hplaced, u, hs', ?_⟩
    rw [hp]
    exact left_deciding hc hs hx hid
  | @stopped y _ hp =>
    refine ⟨hc, u, hs, ?_⟩
    cases y <;> simp [Phase.left, hp]
  | taken hp =>
    refine ⟨hc, u, hs, ?_⟩
    simp only [hp, Phase.left]
    omega
  | unread hp hx | gone hp hx =>
    refine ⟨hc, u, (t.repository.recover_keeps hs hx).1, ?_⟩
    simp only [hp, Phase.left, leave]
    omega
  | read hp hx =>
    refine ⟨hc, u, (t.repository.recover_keeps hs hx).1, ?_⟩
    rw [hp, left_route]
    simp only [Phase.left]
    omega
  | redelivered hp | sent hp | unsent hp =>
    refine ⟨hc, u, hs, ?_⟩
    simp only [hp, Phase.left, leave]
    omega
  | @confirmed id _ _ _ hp hx =>
    rcases t.repository.confirm_erases hs id with ⟨_, hx', hs', -⟩ | ⟨-, _, _, hx', hs', -⟩
    · cases hx.symm.trans hx'
      have hle := c.cursor.length_rest_erase_le u (t.repository.keySpace.completedKey id)
      refine ⟨hc, _, hs', ?_⟩
      simp only [hp, Phase.left, leave]
      omega
    · cases hx.symm.trans hx'
  | @unconfirmed id _ _ _ hp hx =>
    rcases t.repository.confirm_erases hs id with ⟨_, hx', hs', -⟩ | ⟨-, _, _, hx', hs', -⟩
    · cases hx.symm.trans hx'
    · cases hx.symm.trans hx'
      refine ⟨hc, u, hs', ?_⟩
      simp only [hp, Phase.left, leave]
      omega
  | rested hp' => exact absurd hp' hp

structure Nears (credit : σ → Nat) (c : Cycle) (b : Bench σ) (n : Nat) : Prop where
  placed : c.cursor.Placed
  left : ∃ u, b.desk.shelf.Holds u ∧
    c.phase.left ((c.cursor.rest u).length + credit b.desk.outside) ≤ n

theorem Nears.step (h : Nears credit c b (n + 1)) (t : Task) (hk : k.Tidy) (hcr : k.Within credit)
    (hp : c.phase ≠ .finished) : Nears credit (t.step k c b).1 (t.step k c b).2 n := by
  obtain ⟨u, hu, hle⟩ := h.left
  obtain ⟨d, hacts, hsteps, hdesk⟩ := t.step_acted k c b
  obtain ⟨v, hv⟩ := hacts.holds hk hu
  obtain ⟨hplaced, w, hw, hlt⟩ := hsteps.left_lt hp h.placed hv (credit d.outside)
  have hacted := c.phase.left_mono (hacts.length_rest_le hu hv hcr c.cursor)
  have hout : (t.step k c b).2.desk.outside = d.outside := by rw [hdesk]
  refine ⟨hplaced, w, hw, ?_⟩
  rw [hout]
  omega

theorem Nears.finished (h : Nears credit c b 0) : c.phase = .finished := by
  obtain ⟨u, -, hle⟩ := h.left
  cases hp : c.phase with
  | finished => rfl
  | deciding found => cases found <;> simp [hp, Phase.left] at hle
  | _ => simp [hp, Phase.left] at hle

end Task

namespace Scanner

structure Orderly (k : Collaborators σ) (credit : σ → Nat) (s : Scanner) (b : Bench σ) : Prop where
  tidy : k.Tidy
  within : k.Within credit
  credit_le : credit b.desk.outside ≤ k.maxStaged
  holds : ∃ u, b.desk.shelf.Holds u
  placed : ∀ c, s.worker = .cycling c → c.cursor.Placed

variable {k : Collaborators σ} {credit : σ → Nat} {s : Scanner} {b : Bench σ}

theorem settleUpTo_atRest (h : s.atRest = true) (fuel : Nat) : settleUpTo k fuel s b = (s, b) := by
  cases fuel with
  | zero => rfl
  | succ fuel => rw [settleUpTo, if_pos h]

theorem settleUpTo_cycling (hk : k.Tidy) (hcr : k.Within credit) {c : Cycle} {n fuel : Nat}
    (h : Task.Nears credit c b n) (hf : n < fuel) :
    (settleUpTo k fuel { s with worker := .cycling c } b).1 = { s with worker := .waiting } := by
  induction fuel generalizing c b n with
  | zero => omega
  | succ fuel ih =>
    rw [settleUpTo, if_neg (by simp [atRest])]
    by_cases hp : c.phase = .finished
    · have hwork : work k false { s with worker := .cycling c } b = ({ s with worker := .waiting }, b) := by
        simp only [work, hp]
      rw [hwork]
      exact congrArg Prod.fst (settleUpTo_atRest rfl fuel)
    · cases n with
      | zero => exact absurd h.finished hp
      | succ n =>
        have hwork : work k false { s with worker := .cycling c } b =
            ({ s with worker := .cycling (s.task.step k c b).1 }, (s.task.step k c b).2) := by
          simp only [work]
        rw [hwork]
        exact ih (h.step s.task hk hcr hp) (by omega)

theorem Orderly.nears (h : s.Orderly k credit b) {c : Cycle} (hw : s.worker = .cycling c) :
    Task.Nears credit c b (stepBound k s b - 1) := by
  obtain ⟨u, hu⟩ := h.holds
  refine ⟨h.placed c hw, u, hu, ?_⟩
  have hrest : (c.cursor.rest u).length ≤ c.cursor.buffer.length + b.desk.shelf.size := by
    have := Cursor.length_under_le b.desk.shelf hu c.cursor.start c.cursor.frontier
    rw [Cursor.rest, List.length_append]
    split_ifs
    · simp
    · omega
  have hcredit := h.credit_le
  have hleft := c.phase.left_le ((c.cursor.rest u).length + credit b.desk.outside)
  have hfetched : s.fetched = c.cursor.buffer.length := by rw [fetched, hw]
  rw [stepBound, Task.stepBound, hfetched]
  omega

theorem settle_halted (h : s.Orderly k credit b) (hr : b.desk.runAllowed = false) :
    ∃ w, (settle k s b).1 = { s with worker := w } ∧ (w = .waiting ∨ w = .exited) := by
  have hpos : stepBound k s b = stepBound k s b - 1 + 1 := by
    rw [stepBound]
    omega
  rw [settle]
  cases hw : s.worker with
  | waiting =>
    rw [settleUpTo_atRest (by rw [atRest, hw])]
    exact ⟨s.worker, rfl, Or.inl hw⟩
  | woken =>
    have hwork : work k false s b = ({ s with worker := .exited }, b) := by simp [work, hw, hr]
    rw [hpos, settleUpTo, if_neg (by simp [atRest, hw]), hwork]
    exact ⟨.exited, congrArg Prod.fst (settleUpTo_atRest rfl _), Or.inr rfl⟩
  | cycling c =>
    have hfuel : stepBound k s b - 1 < stepBound k s b := by omega
    have hsettled := settleUpTo_cycling (s := s) h.tidy h.within (h.nears hw) hfuel
    rw [← hw] at hsettled
    exact ⟨.waiting, hsettled, Or.inl rfl⟩
  | exited =>
    rw [settleUpTo_atRest (by rw [atRest, hw])]
    exact ⟨s.worker, rfl, Or.inr hw⟩

theorem stop_exited (h : s.Orderly k credit b) (hs : s.state = .running) :
    (stop k s b).1 = { s with state := .stopped, worker := .exited, channelOpen := false } := by
  have horderly : s.announce.hangUp.Orderly k credit b.halt :=
    ⟨h.tidy, h.within, h.credit_le, h.holds, h.placed⟩
  obtain ⟨w, hw, hrest⟩ := settle_halted horderly rfl
  have hstop : (stop k s b).1 = (work k false (settle k s.announce.hangUp b.halt).1
      (settle k s.announce.hangUp b.halt).2).1.finish := by
    rw [stop, hs]
  rw [hstop, hw]
  rcases hrest with rfl | rfl
  · rfl
  · rfl

end Scanner

end Staging
