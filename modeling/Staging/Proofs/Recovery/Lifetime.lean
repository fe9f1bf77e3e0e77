import Mathlib
import Staging.Recovery.Scanner
import Staging.Proofs.Recovery.Run

namespace Staging

variable {σ : Type}

/-- Who is in a cycle. Cycles do not overlap. -/
inductive Holder
  | worker
  | caller
deriving DecidableEq

structure Lifetime (σ : Type) where
  scanner : Scanner
  bench : Bench σ
  asked : Option Cycle
  holder : Option Holder
  ahead : List Scanner.StopStep

inductive Turn
  | work (timeout : Bool)
  | runOnce
  | halt
  | resume
  | stop
  | others (act : Shelf → Shelf)

namespace Scanner

def StopStep.inOrder : List StopStep := [.announce, .halt, .hangUp, .join, .finish]

theorem exists_worker_work (k : Collaborators σ) (timeout : Bool) (s : Scanner) (b : Bench σ) :
    ∃ w, (work k timeout s b).1 = { s with worker := w } := by
  cases hw : s.worker with
  | waiting =>
    simp only [work, hw]
    split_ifs
    · exact ⟨_, rfl⟩
    · exact ⟨s.worker, rfl⟩
    · exact ⟨_, rfl⟩
  | woken =>
    simp only [work, hw]
    split_ifs <;> exact ⟨_, rfl⟩
  | cycling c => cases hp : c.phase <;> simp only [work, hw, hp] <;> exact ⟨_, rfl⟩
  | exited =>
    simp only [work, hw]
    exact ⟨s.worker, rfl⟩

theorem exited_work_iff {k : Collaborators σ} {timeout : Bool} {s : Scanner} {b : Bench σ} :
    (work k timeout s b).1.worker = .exited ↔ s.worker = .exited ∨
      s.worker = .waiting ∧ timeout = false ∧ s.channelOpen = false ∨
      s.worker = .woken ∧ b.desk.runAllowed = false := by
  cases hw : s.worker with
  | waiting => cases timeout <;> cases ho : s.channelOpen <;> simp [work, hw, ho]
  | woken => cases hr : b.desk.runAllowed <;> simp [work, hw, hr]
  | cycling c => cases hp : c.phase <;> simp [work, hw, hp]
  | exited => simp [work, hw]

end Scanner

namespace Lifetime

def start (t : Task) (b : Bench σ) : Lifetime σ :=
  ⟨Scanner.start t, b, none, none, Scanner.StopStep.inOrder⟩

def work (k : Collaborators σ) (timeout : Bool) (l : Lifetime σ) : Lifetime σ :=
  let (s, b) := l.scanner.work k timeout l.bench
  match l.scanner.worker, l.holder with
  | .cycling _, some .caller => l
  | .cycling _, _ =>
    { l with scanner := s, bench := b, holder := if s.atRest then none else some .worker }
  | _, _ => { l with scanner := s, bench := b }

def runOnce (k : Collaborators σ) (l : Lifetime σ) : Lifetime σ :=
  match l.asked, l.holder with
  | none, _ => { l with asked := some l.scanner.task.begin }
  | some _, some .worker => l
  | some c, _ =>
    match c.phase with
    | .finished => { l with asked := none, holder := none }
    | _ =>
      let (c, b) := l.scanner.task.step k c l.bench
      { l with asked := some c, bench := b, holder := some .caller }

def stop (l : Lifetime σ) : Lifetime σ :=
  match l.ahead with
  | [] => l
  | x :: ahead =>
    match l.scanner.stopStep l.bench x with
    | some (s, b) => { l with scanner := s, bench := b, ahead := ahead }
    | none => l

def take (k : Collaborators σ) (l : Lifetime σ) : Turn → Lifetime σ
  | .work timeout => l.work k timeout
  | .runOnce => l.runOnce k
  | .halt => { l with bench := l.bench.halt }
  | .resume => { l with bench := l.bench.resume }
  | .stop => l.stop
  | .others act => { l with bench := (l.bench.onShelf fun s => ((), act s)).2 }

def after (k : Collaborators σ) (l : Lifetime σ) (turns : List Turn) : Lifetime σ :=
  turns.foldl (take k) l

variable {k : Collaborators σ} {l : Lifetime σ} {x : Turn}

theorem after_append (turns more : List Turn) :
    after k l (turns ++ more) = after k (after k l turns) more :=
  List.foldl_append

theorem work_cases (k : Collaborators σ) (timeout : Bool) (l : Lifetime σ) :
    l.work k timeout = l ∧ (∃ c, l.scanner.worker = .cycling c) ∨
      ∃ holder, l.work k timeout = { l with
        scanner := (l.scanner.work k timeout l.bench).1, bench := (l.scanner.work k timeout l.bench).2,
        holder := holder } := by
  cases hw : l.scanner.worker with
  | cycling c =>
    cases hh : l.holder with
    | none =>
      right
      simp only [work, hw, hh]
      exact ⟨_, rfl⟩
    | some h =>
      cases h with
      | worker =>
        right
        simp only [work, hw, hh]
        exact ⟨_, rfl⟩
      | caller =>
        left
        simp only [work, hw, hh]
        exact ⟨trivial, c, rfl⟩
  | _ =>
    right
    simp only [work, hw]
    exact ⟨l.holder, rfl⟩

theorem scanner_runOnce (k : Collaborators σ) (l : Lifetime σ) :
    (l.runOnce k).scanner = l.scanner ∧ (l.runOnce k).ahead = l.ahead := by
  unfold runOnce
  split
  · exact ⟨rfl, rfl⟩
  · exact ⟨rfl, rfl⟩
  · split <;> exact ⟨rfl, rfl⟩

theorem stop_cases (l : Lifetime σ) :
    l.stop = l ∨ ∃ x ahead, l.ahead = x :: ahead ∧ l.stop.ahead = ahead ∧
      l.stop.scanner.worker = l.scanner.worker ∧
      (l.stop.scanner.state = .running → l.scanner.state = .running ∧ x ≠ .announce) := by
  unfold stop
  cases ha : l.ahead with
  | nil => exact Or.inl rfl
  | cons x ahead =>
    cases x with
    | join =>
      cases hw : l.scanner.worker with
      | exited =>
        right
        simp [Scanner.stopStep, hw]
      | _ =>
        left
        simp [Scanner.stopStep, hw]
    | _ =>
      right
      simp [Scanner.stopStep, Scanner.announce, Scanner.hangUp, Scanner.finish]

theorem scanner_work (k : Collaborators σ) (timeout : Bool) (l : Lifetime σ) :
    (∃ w, (l.work k timeout).scanner = { l.scanner with worker := w }) ∧
      (l.work k timeout).ahead = l.ahead := by
  rcases l.work_cases k timeout with ⟨hl, -⟩ | ⟨holder, hl⟩
  · rw [hl]
    exact ⟨⟨l.scanner.worker, rfl⟩, rfl⟩
  · rw [hl]
    exact ⟨l.scanner.exists_worker_work k timeout l.bench, rfl⟩

def Untouched (l : Lifetime σ) : Prop :=
  l.scanner.state = .running → l.ahead = Scanner.StopStep.inOrder ∧ l.scanner.channelOpen = true

theorem untouched_start (t : Task) (b : Bench σ) : (start t b).Untouched := fun _ => ⟨rfl, rfl⟩

theorem running_of_take (h : (l.take k x).scanner.state = .running) : l.scanner.state = .running := by
  cases x with
  | work timeout =>
    obtain ⟨⟨w, hw⟩, -⟩ := l.scanner_work k timeout
    rw [take, hw] at h
    exact h
  | runOnce => rwa [take, (l.scanner_runOnce k).1] at h
  | stop =>
    rw [take] at h
    rcases l.stop_cases with hl | ⟨_, _, -, -, -, hstate⟩
    · rwa [hl] at h
    · exact (hstate h).1
  | halt | resume | others _ => exact h

theorem Untouched.take (hl : l.Untouched) : (l.take k x).Untouched := by
  intro h
  obtain ⟨hahead, hopen⟩ := hl (running_of_take h)
  cases x with
  | work timeout =>
    obtain ⟨⟨w, hw⟩, ha⟩ := l.scanner_work k timeout
    rw [Lifetime.take, hw, ha]
    exact ⟨hahead, hopen⟩
  | runOnce =>
    obtain ⟨hs, ha⟩ := l.scanner_runOnce k
    rw [Lifetime.take, hs, ha]
    exact ⟨hahead, hopen⟩
  | stop =>
    rw [Lifetime.take] at h ⊢
    rcases l.stop_cases with hs | ⟨x, ahead, ha, -, -, hstate⟩
    · rw [hs]
      exact ⟨hahead, hopen⟩
    · rw [hahead] at ha
      cases ha
      exact absurd rfl (hstate h).2
  | halt | resume | others _ => exact ⟨hahead, hopen⟩

def FindsHalted (l : Lifetime σ) (x : Turn) : Prop :=
  (∃ timeout, x = .work timeout) ∧ l.scanner.worker = .woken ∧ l.bench.desk.runAllowed = false

theorem exited_take_iff (hl : l.Untouched) (h : (l.take k x).scanner.state = .running) :
    (l.take k x).scanner.worker = .exited ↔ l.scanner.worker = .exited ∨ l.FindsHalted x := by
  obtain ⟨-, hopen⟩ := hl (running_of_take h)
  cases x with
  | work timeout =>
    rcases l.work_cases k timeout with ⟨hs, c, hc⟩ | ⟨holder, hs⟩
    · simp [take, hs, hc, FindsHalted]
    · simp [take, hs, Scanner.exited_work_iff, hopen, FindsHalted]
  | runOnce => simp [take, (l.scanner_runOnce k).1, FindsHalted]
  | stop =>
    rcases l.stop_cases with hs | ⟨_, _, -, -, hw, -⟩
    · simp [take, hs, FindsHalted]
    · simp [take, hw, FindsHalted]
  | halt | resume | others _ => simp [take, FindsHalted]

theorem exited_take (h : l.scanner.worker = .exited) : (l.take k x).scanner.worker = .exited := by
  cases x with
  | work timeout =>
    rcases l.work_cases k timeout with ⟨hs, -⟩ | ⟨holder, hs⟩
    · rwa [take, hs]
    · rw [take, hs]
      exact Scanner.exited_work_iff.mpr (Or.inl h)
  | runOnce => rwa [take, (l.scanner_runOnce k).1]
  | stop =>
    rcases l.stop_cases with hs | ⟨_, _, -, -, hw, -⟩
    · rwa [take, hs]
    · rwa [take, hw]
  | halt | resume | others _ => exact h

theorem state_take (hx : x ≠ .stop) : (l.take k x).scanner.state = l.scanner.state := by
  cases x with
  | work timeout =>
    obtain ⟨⟨w, hw⟩, -⟩ := l.scanner_work k timeout
    rw [take, hw]
  | runOnce => rw [take, (l.scanner_runOnce k).1]
  | stop => exact absurd rfl hx
  | halt | resume | others _ => rfl

theorem untouched_after (hl : l.Untouched) (turns : List Turn) : (after k l turns).Untouched := by
  induction turns generalizing l with
  | nil => exact hl
  | cons x turns ih => exact ih hl.take

theorem exited_after (h : l.scanner.worker = .exited) (turns : List Turn) :
    (after k l turns).scanner.worker = .exited := by
  induction turns generalizing l with
  | nil => exact h
  | cons x turns ih => exact ih (exited_take h)

theorem state_after {turns : List Turn} (h : .stop ∉ turns) :
    (after k l turns).scanner.state = l.scanner.state := by
  induction turns generalizing l with
  | nil => rfl
  | cons x turns ih =>
    rw [List.mem_cons, not_or] at h
    exact (ih h.2).trans (state_take (Ne.symm h.1))

theorem exited_after_iff (hl : l.Untouched) (hw : l.scanner.worker ≠ .exited) (turns : List Turn)
    (h : (after k l turns).scanner.state = .running) :
    (after k l turns).scanner.worker = .exited ↔
      ∃ pre x post, turns = pre ++ x :: post ∧ (after k l pre).FindsHalted x := by
  -- from the end, since that the scanner runs now tells that it ran before
  induction turns using List.reverseRecOn with
  | nil => simp [after, hw]
  | append_singleton turns x ih =>
    have hlast : after k l (turns ++ [x]) = (after k l turns).take k x := after_append _ _
    rw [hlast] at h ⊢
    rw [exited_take_iff (untouched_after hl turns) h, ih (running_of_take h)]
    constructor
    · rintro (⟨pre, y, post, rfl, hy⟩ | hx)
      · exact ⟨pre, y, post ++ [x], by simp, hy⟩
      · exact ⟨turns, x, [], rfl, hx⟩
    · rintro ⟨pre, y, post, hsplit, hy⟩
      rcases List.eq_nil_or_concat post with rfl | ⟨post, z, rfl⟩
      · obtain ⟨rfl, hxy⟩ := List.append_inj' hsplit rfl
        cases hxy
        exact Or.inr hy
      · left
        have hsplit' : turns ++ [x] = (pre ++ y :: post) ++ [z] := by simpa using hsplit
        obtain ⟨rfl, -⟩ := List.append_inj' hsplit' rfl
        exact ⟨pre, y, post, rfl, hy⟩

theorem after_woken (hw : l.scanner.worker = .waiting) (hr : l.bench.desk.runAllowed = true) :
    (after k l [.work true, .work false]).scanner.worker = .cycling l.scanner.task.begin := by
  simp [after, take, work, Scanner.work, hw, hr]

theorem running_without_worker_iff (k : Collaborators σ) (t : Task) (b : Bench σ) (turns : List Turn)
    (h : (after k (start t b) turns).scanner.state = .running) :
    ((after k (start t b) turns).scanner.worker = .exited ↔
      ∃ pre x post, turns = pre ++ x :: post ∧ (after k (start t b) pre).FindsHalted x) ∧
    ((after k (start t b) turns).scanner.worker = .exited → ∀ more,
      (after k (start t b) (turns ++ more)).scanner.worker = .exited ∧
        (.stop ∉ more → (after k (start t b) (turns ++ more)).scanner.state = .running)) ∧
    ((after k (start t b) turns).scanner.worker = .waiting →
      (after k (start t b) turns).bench.desk.runAllowed = true →
      (after k (start t b) (turns ++ [.work true, .work false])).scanner.worker =
        .cycling (after k (start t b) turns).scanner.task.begin) := by
  refine ⟨exited_after_iff (untouched_start t b) nofun turns h, ?_, ?_⟩
  · intro hw more
    rw [after_append]
    exact ⟨exited_after hw more, fun hmore => (state_after hmore).trans h⟩
  · intro hw hr
    rw [after_append]
    exact after_woken hw hr

namespace Halted

def idle : Collaborators Unit := .told (.ok ()) Station.small.bench.desk

def first : Lifetime Unit := start Station.smallTask Station.small.bench

def missed : List Turn := [.halt, .work true, .work false, .resume]

def intervals : List Turn := [.work true, .work false, .work true, .work false]

theorem running_without_worker_iff_missed :
    (after idle first missed).scanner.state = .running ∧
      (after idle first missed).bench.desk.runAllowed = true ∧
      (after idle first (missed ++ intervals)).scanner.worker = .exited ∧
      (after idle first (missed ++ intervals)).scanner.state = .running ∧
      (after idle first ([.halt, .resume] ++ [.work true, .work false])).scanner.worker =
        .cycling Station.smallTask.begin := by
  have hmissed : (after idle first missed).scanner.state = .running := rfl
  have hprompt : (after idle first [.halt, .resume]).scanner.state = .running := rfl
  obtain ⟨hleft, hstays, -⟩ :=
    running_without_worker_iff idle Station.smallTask Station.small.bench missed hmissed
  obtain ⟨-, -, hcycles⟩ :=
    running_without_worker_iff idle Station.smallTask Station.small.bench [.halt, .resume] hprompt
  have hfound : (after idle first [.halt, .work true]).FindsHalted (.work false) :=
    ⟨⟨false, rfl⟩, rfl, rfl⟩
  obtain ⟨hexited, hruns⟩ := hstays (hleft.mpr ⟨[.halt, .work true], _, [.resume], rfl, hfound⟩) intervals
  refine ⟨hmissed, rfl, hexited, hruns ?_, hcycles rfl rfl⟩
  simp [intervals]

end Halted

end Lifetime

end Staging
