import Mathlib
import Staging.Proofs.Recovery.Lifetime
import Staging.Proofs.Repository.Atomicity
import Staging.Proofs.Service.Shutdown

/-!
Shutting a service down while its scanner's worker is anywhere. The call and the worker take turns at
single steps, each with one call on the store at most, and others may halt the scanner, use the store,
or call for the same again between any two of them. As long as no one has the scanner go on, the
worker is gone before the store is closed.
-/

namespace Staging

variable {σ : Type}

structure Collaborators.NeverResumes (k : Collaborators σ) : Prop where
  redeliver : ∀ e d, d.runAllowed = false → (k.redeliver e d).2.runAllowed = false
  send : ∀ destination e d, d.runAllowed = false → (k.send destination e d).2.runAllowed = false

theorem Bench.onShelf_andThen {ε α β : Type} (read : Shelf → Except ε α × Shelf)
    (rest : α → Shelf → Except ε β × Shelf) (b : Bench σ) :
    b.onShelf (Shelf.andThen read rest) =
      match b.onShelf read with
      | (.ok a, b) => b.onShelf (rest a)
      | (.error e, b) => (.error e, b) := by
  simp only [onShelf, Shelf.andThen]
  rcases read b.desk.shelf with ⟨_ | _, s⟩ <;> rfl

namespace Task

variable {t : Task} {k : Collaborators σ} {c : Cycle} {b : Bench σ}

def afterConfirm (c : Cycle) (id : String) (x : Except RepositoryError Bool) (b : Bench σ) :
    Cycle × Bench σ :=
  match x with
  | .ok _ =>
    (leave c id { c.report with escalated := c.report.escalated + 1 },
      { b with counters := b.counters.erase id })
  | .error _ => (leave c id c.report.fail, b)

theorem desk_afterConfirm (c : Cycle) (id : String) (x : Except RepositoryError Bool) (b : Bench σ) :
    (afterConfirm c id x b).2.desk = b.desk := by
  cases x <;> rfl

theorem phase_afterConfirm (c : Cycle) (id : String) (x : Except RepositoryError Bool)
    (b : Bench σ) : (afterConfirm c id x b).1.phase = .fetching := by
  cases x <;> rfl

theorem step_confirming {id : String} (hp : c.phase = .confirming id) :
    t.step k c b = afterConfirm c id (b.onShelf (t.repository.confirm id)).1
      (b.onShelf (t.repository.confirm id)).2 := by
  simp only [step, hp]
  rcases b.onShelf (t.repository.confirm id) with ⟨_ | _, b'⟩ <;> rfl

theorem halted_step (hk : k.NeverResumes) (h : b.desk.runAllowed = false) :
    (t.step k c b).2.desk.runAllowed = false ∧ ∀ id, (t.step k c b).1.phase ≠ .reading id := by
  cases hp : c.phase with
  | fetching =>
    rcases hx : c.cursor.next b.desk.shelf with ⟨_ | x, cursor, s⟩
    · simp [step, hp, Bench.onShelf, hx, h]
    · cases hid : t.repository.completedId? x <;> simp [step, hp, Bench.onShelf, hx, hid, h]
  | deciding found => simp [step, hp, h]
  | reading id =>
    rcases hx : t.repository.recover id b.desk.shelf with ⟨_ | _ | e, s⟩
    · simp [step, hp, Bench.onShelf, hx, h, leave]
    · simp [step, hp, Bench.onShelf, hx, h, leave]
    · simp only [step, hp, Bench.onShelf, hx, handOver]
      refine ⟨h, fun id => ?_⟩
      split_ifs <;> simp
  | redelivering id e =>
    have hd := hk.redeliver e b.desk h
    rcases hx : k.redeliver e b.desk with ⟨_ | _, d⟩ <;> rw [hx] at hd <;>
      simpa [step, hp, Bench.onDesk, hx, leave] using hd
  | escalating id e =>
    have hd := hk.send t.destination e b.desk h
    rcases hx : k.send t.destination e b.desk with ⟨_ | _, d⟩ <;> rw [hx] at hd <;>
      simpa [step, hp, Bench.onDesk, hx, leave] using hd
  | confirming id =>
    rw [step_confirming hp, desk_afterConfirm, phase_afterConfirm]
    exact ⟨h, by simp⟩
  | finished => simp [step, hp, h]

end Task

theorem Scanner.halted_work {k : Collaborators σ} {s : Scanner} {b : Bench σ} (hk : k.NeverResumes)
    (timeout : Bool) (h : b.desk.runAllowed = false) :
    (s.work k timeout b).2.desk.runAllowed = false ∧
      ∀ c id, (s.work k timeout b).1.worker = .cycling c → c.phase ≠ .reading id := by
  cases hw : s.worker with
  | waiting => cases timeout <;> cases ho : s.channelOpen <;> simp [work, hw, ho, h]
  | woken => simp [work, hw, h]
  | exited => simp [work, hw, h]
  | cycling c =>
    by_cases hp : c.phase = .finished
    · simp [work, hw, hp, h]
    · have hwork : s.work k timeout b =
          ({ s with worker := .cycling (s.task.step k c b).1 }, (s.task.step k c b).2) := by
        simp only [work, hw]
      obtain ⟨hflag, hphase⟩ := s.task.halted_step (c := c) hk h
      rw [hwork]
      refine ⟨hflag, ?_⟩
      rintro _ id ⟨⟩
      exact hphase id

theorem Scanner.joined {s s' : Scanner} {b b' : Bench σ} (h : s.stopStep b .join = some (s', b')) :
    s' = s ∧ b' = b ∧ s.worker = .exited := by
  cases hw : s.worker with
  | exited =>
    simp only [stopStep, hw, if_true, Option.some.injEq, Prod.mk.injEq] at h
    exact ⟨h.1.symm, h.2.symm, rfl⟩
  | _ => simp [stopStep, hw] at h

inductive Progress
  | notBegun
  | begun
  | stopping
  | stopped
  | closed
deriving DecidableEq

structure Closing (σ : Type) where
  scanner : Scanner
  bench : Bench σ
  /-- The worker confirms an exchange, has found it, and has not deleted it yet. -/
  deleting : Bool
  progress : Progress
  /-- What is left of stopping the scanner, once a call has taken the worker's handle. -/
  left : Option (List Scanner.StopStep)

namespace Closing

inductive Turn
  | work (timeout : Bool)
  | stopStep
  | shutdownStep
  | stop
  | shutdown
  | halt
  | others (act : Shelf → Shelf)

def start (t : Task) (b : Bench σ) : Closing σ := ⟨Scanner.start t, b, false, .notBegun, none⟩

def confirming? (l : Closing σ) : Option (Cycle × String) :=
  match l.scanner.worker with
  | .cycling c =>
    match c.phase with
    | .confirming id => some (c, id)
    | _ => none
  | _ => none

def confirmed (l : Closing σ) (c : Cycle) (id : String) (x : Except RepositoryError Bool)
    (b : Bench σ) : Closing σ :=
  let (c, b) := Task.afterConfirm c id x b
  { l with scanner := { l.scanner with worker := .cycling c }, bench := b, deleting := false }

def confirm (l : Closing σ) (c : Cycle) (id : String) : Closing σ :=
  let r := l.scanner.task.repository
  if l.deleting then
    let (x, b) := l.bench.onShelf (·.delete (r.keySpace.completedKey id))
    l.confirmed c id ((x.map fun _ => true).mapError (r.storeError id)) b
  else
    match l.bench.onShelf (r.fetch (r.keySpace.completedKey id) id) with
    | (.ok (some _), b) => { l with bench := b, deleting := true }
    | (.ok none, b) => l.confirmed c id (.ok false) b
    | (.error e, b) => l.confirmed c id (.error e) b

def work (k : Collaborators σ) (timeout : Bool) (l : Closing σ) : Closing σ :=
  match l.confirming? with
  | some (c, id) => l.confirm c id
  | none =>
    let (s, b) := l.scanner.work k timeout l.bench
    { l with scanner := s, bench := b }

def stopStep (l : Closing σ) : Closing σ :=
  match l.left with
  | some (x :: left) =>
    match l.scanner.stopStep l.bench x with
    | some (s, b) => { l with scanner := s, bench := b, left := some left }
    | none => l
  | _ => l

def stop (l : Closing σ) : Closing σ :=
  match l.left with
  | none => { l with left := some Scanner.StopStep.inOrder }
  | some _ => l

def shutdownStep (l : Closing σ) : Closing σ :=
  match l.progress with
  | .notBegun | .closed => l
  | .begun =>
    { l.stop with progress := if l.left = none then .stopping else .stopped }
  | .stopping => if l.left = some [] then { l with progress := .stopped } else l
  | .stopped =>
    { l with bench := (l.bench.onShelf l.scanner.task.repository.close).2, progress := .closed }

def shutdown (l : Closing σ) : Closing σ :=
  if l.progress = .notBegun then { l with progress := .begun } else l

def take (k : Collaborators σ) (l : Closing σ) : Turn → Closing σ
  | .work timeout => l.work k timeout
  | .stopStep => l.stopStep
  | .shutdownStep => l.shutdownStep
  | .stop => l.stop
  | .shutdown => l.shutdown
  | .halt => { l with bench := l.bench.halt }
  | .others act => { l with bench := (l.bench.onShelf fun s => ((), act s)).2 }

def after (k : Collaborators σ) (l : Closing σ) (turns : List Turn) : Closing σ :=
  turns.foldl (take k) l

variable {k : Collaborators σ} {l : Closing σ} {x : Turn}

theorem after_append (turns more : List Turn) :
    after k l (turns ++ more) = after k (after k l turns) more :=
  List.foldl_append

theorem worker_of_confirming? {c : Cycle} {id : String} (h : l.confirming? = some (c, id)) :
    l.scanner.worker = .cycling c ∧ c.phase = .confirming id := by
  unfold confirming? at h
  split at h
  · split at h
    · cases h
      exact ⟨‹_›, ‹_›⟩
    · cases h
  · cases h

theorem confirm_cases (l : Closing σ) (c : Cycle) (id : String) :
    ∃ b, b.desk.runAllowed = l.bench.desk.runAllowed ∧
      (l.confirm c id = { l with bench := b, deleting := true } ∨
        ∃ x, l.confirm c id = l.confirmed c id x b) := by
  unfold confirm
  dsimp only
  split_ifs
  · exact ⟨(l.bench.onShelf (·.delete (l.scanner.task.repository.keySpace.completedKey id))).2,
      rfl, Or.inr ⟨_, rfl⟩⟩
  · rcases hx : l.bench.onShelf (l.scanner.task.repository.fetch
      (l.scanner.task.repository.keySpace.completedKey id) id) with ⟨e | _ | v, b⟩
    · exact ⟨b, congrArg (·.2.desk.runAllowed) hx.symm, Or.inr ⟨_, rfl⟩⟩
    · exact ⟨b, congrArg (·.2.desk.runAllowed) hx.symm, Or.inr ⟨_, rfl⟩⟩
    · exact ⟨b, congrArg (·.2.desk.runAllowed) hx.symm, Or.inl rfl⟩

theorem work_confirming {c : Cycle} {id : String} (h : l.confirming? = some (c, id))
    (timeout : Bool) : l.work k timeout = l.confirm c id := by
  rw [work, h]

theorem work_elsewhere (h : l.confirming? = none) (timeout : Bool) :
    l.work k timeout = { l with
      scanner := (l.scanner.work k timeout l.bench).1, bench := (l.scanner.work k timeout l.bench).2 } := by
  rw [work, h]

theorem confirm_frame (l : Closing σ) (c : Cycle) (id : String) :
    (∃ w, (l.confirm c id).scanner = { l.scanner with worker := w }) ∧
      (l.confirm c id).progress = l.progress ∧ (l.confirm c id).left = l.left := by
  obtain ⟨b, -, h | ⟨x, h⟩⟩ := l.confirm_cases c id
  · rw [h]
    exact ⟨⟨l.scanner.worker, rfl⟩, rfl, rfl⟩
  · rw [h]
    exact ⟨⟨_, rfl⟩, rfl, rfl⟩

theorem work_frame (k : Collaborators σ) (timeout : Bool) (l : Closing σ) :
    (∃ w, (l.work k timeout).scanner = { l.scanner with worker := w }) ∧
      (l.work k timeout).progress = l.progress ∧ (l.work k timeout).left = l.left := by
  rcases h : l.confirming? with _ | ⟨c, id⟩
  · rw [work_elsewhere h]
    exact ⟨l.scanner.exists_worker_work k timeout l.bench, rfl, rfl⟩
  · rw [work_confirming h]
    exact l.confirm_frame c id

theorem work_exited (h : l.scanner.worker = .exited) (timeout : Bool) : l.work k timeout = l := by
  have hnone : l.confirming? = none := by
    simp only [confirming?, h]
  rw [work_elsewhere hnone]
  simp only [Scanner.work, h]

theorem halted_work (hk : k.NeverResumes) (timeout : Bool) (h : l.bench.desk.runAllowed = false) :
    (l.work k timeout).bench.desk.runAllowed = false ∧
      ∀ c id, (l.work k timeout).scanner.worker = .cycling c → c.phase ≠ .reading id := by
  rcases hc : l.confirming? with _ | ⟨c, id⟩
  · rw [work_elsewhere hc]
    exact Scanner.halted_work hk timeout h
  · obtain ⟨hw, hp⟩ := worker_of_confirming? hc
    obtain ⟨b, hb, hx | ⟨x, hx⟩⟩ := l.confirm_cases c id
    · rw [work_confirming hc, hx]
      refine ⟨hb.trans h, fun c' id' hw' => ?_⟩
      cases hw.symm.trans hw'
      rw [hp]
      exact nofun
    · rw [work_confirming hc, hx]
      refine ⟨?_, fun c' id' hw' => ?_⟩
      · exact (congrArg Desk.runAllowed (Task.desk_afterConfirm c id x b)).trans (hb.trans h)
      · have hafter : (Task.afterConfirm c id x b).1 = c' := Worker.cycling.inj hw'
        rw [← hafter, Task.phase_afterConfirm]
        exact nofun

theorem stop_frame (l : Closing σ) : l.stop.scanner = l.scanner ∧ l.stop.bench = l.bench := by
  cases hleft : l.left <;> simp [stop, hleft]

def said (left : List Scanner.StopStep) : ScannerStatus :=
  if .announce ∈ left then .running else if .finish ∈ left then .stopping else .stopped

structure Consistent (l : Closing σ) : Prop where
  untaken : l.left = none → l.scanner.state = .running
  taken : ∀ left, l.left = some left → left <:+ Scanner.StopStep.inOrder ∧
    l.scanner.state = said left ∧ (.halt ∉ left → l.bench.desk.runAllowed = false) ∧
      (.join ∉ left → l.scanner.worker = .exited)

theorem consistent_start (t : Task) (b : Bench σ) : (start t b).Consistent :=
  ⟨fun _ => rfl, nofun⟩

theorem Consistent.of_frame {l' : Closing σ} (hl : l.Consistent) (hleft : l'.left = l.left)
    (hstate : l'.scanner.state = l.scanner.state)
    (hflag : l.bench.desk.runAllowed = false → l'.bench.desk.runAllowed = false)
    (hworker : l.scanner.worker = .exited → l'.scanner.worker = .exited) : l'.Consistent where
  untaken h := hstate.trans (hl.untaken (hleft.symm.trans h))
  taken left h := by
    obtain ⟨hsuffix, hsaid, hhalt, hjoin⟩ := hl.taken left (hleft.symm.trans h)
    exact ⟨hsuffix, hstate.trans hsaid, hflag ∘ hhalt, hworker ∘ hjoin⟩

theorem Consistent.work (hl : l.Consistent) (hk : k.NeverResumes) (timeout : Bool) :
    (l.work k timeout).Consistent := by
  obtain ⟨⟨w, hw⟩, -, hleft⟩ := l.work_frame k timeout
  apply hl.of_frame hleft
  · rw [hw]
  · exact fun h => (halted_work hk timeout h).1
  · intro h
    rwa [work_exited h]

theorem Consistent.stop (hl : l.Consistent) : l.stop.Consistent := by
  cases hleft : l.left with
  | none =>
    have hstop : l.stop = { l with left := some Scanner.StopStep.inOrder } := by
      rw [Closing.stop, hleft]
    rw [hstop]
    refine ⟨nofun, ?_⟩
    rintro left ⟨⟩
    have hall : ∀ x, x ∈ Scanner.StopStep.inOrder := by
      intro x
      cases x <;> decide
    exact ⟨List.suffix_rfl, hl.untaken hleft, absurd (hall .halt), absurd (hall .join)⟩
  | some left =>
    have hstop : l.stop = l := by rw [Closing.stop, hleft]
    rwa [hstop]

theorem suffix_inOrder {x : Scanner.StopStep} {left : List Scanner.StopStep}
    (h : x :: left <:+ Scanner.StopStep.inOrder) :
    x = .announce ∧ left = [.halt, .hangUp, .join, .finish] ∨
      x = .halt ∧ left = [.hangUp, .join, .finish] ∨ x = .hangUp ∧ left = [.join, .finish] ∨
      x = .join ∧ left = [.finish] ∨ x = .finish ∧ left = [] := by
  simpa [Scanner.StopStep.inOrder, List.suffix_cons_iff] using h

theorem stopStep_cases (l : Closing σ) :
    l.stopStep = l ∨ ∃ x left s b, l.left = some (x :: left) ∧
      l.scanner.stopStep l.bench x = some (s, b) ∧
      l.stopStep = { l with scanner := s, bench := b, left := some left } := by
  unfold stopStep
  split
  · rename_i x left hleft
    rcases hx : l.scanner.stopStep l.bench x with _ | ⟨s, b⟩
    · exact Or.inl rfl
    · exact Or.inr ⟨x, left, s, b, hleft, hx, rfl⟩
  · exact Or.inl rfl

def Advances (s s' : ScannerStatus) : Prop :=
  s' = s ∨ s = .running ∧ s' = .stopping ∨ s = .stopping ∧ s' = .stopped

theorem Consistent.stopStep (hl : l.Consistent) :
    l.stopStep.Consistent ∧ Advances l.scanner.state l.stopStep.scanner.state := by
  rcases l.stopStep_cases with hs | ⟨x, left, s, b, hleft, hx, hs⟩
  · rw [hs]
    exact ⟨hl, Or.inl rfl⟩
  · obtain ⟨hsuffix, hsaid, hhalt, hjoin⟩ := hl.taken _ hleft
    have hafter : s.state = said left → (.halt ∉ left → b.desk.runAllowed = false) →
        (.join ∉ left → s.worker = .exited) → l.stopStep.Consistent := by
      intro hsaid' hhalt' hjoin'
      rw [hs]
      refine ⟨nofun, ?_⟩
      rintro _ ⟨⟩
      exact ⟨(List.suffix_cons x left).trans hsuffix, hsaid', hhalt', hjoin'⟩
    rw [hs] at hafter ⊢
    rcases suffix_inOrder hsuffix with ⟨rfl, rfl⟩ | ⟨rfl, rfl⟩ | ⟨rfl, rfl⟩ | ⟨rfl, rfl⟩ | ⟨rfl, rfl⟩
    · cases hx
      exact ⟨hafter rfl (by simp) (by simp), Or.inr (Or.inl ⟨hsaid, rfl⟩)⟩
    · cases hx
      exact ⟨hafter hsaid (fun _ => rfl) (by simp), Or.inl rfl⟩
    · cases hx
      exact ⟨hafter hsaid (fun _ => hhalt (by decide)) (by simp), Or.inl rfl⟩
    · obtain ⟨rfl, rfl, hworker⟩ := Scanner.joined hx
      exact ⟨hafter hsaid (fun _ => hhalt (by decide)) (fun _ => hworker), Or.inl rfl⟩
    · cases hx
      exact ⟨hafter rfl (fun _ => hhalt (by decide)) (fun _ => hjoin (by decide)),
        Or.inr (Or.inr ⟨hsaid, rfl⟩)⟩

theorem shutdownStep_frame (l : Closing σ) :
    l.shutdownStep.scanner = l.scanner ∧
      l.shutdownStep.bench.desk.runAllowed = l.bench.desk.runAllowed ∧
      (l.shutdownStep.left = l.left ∨ l.progress = .begun ∧ l.shutdownStep.left = l.stop.left) := by
  unfold shutdownStep
  cases hp : l.progress with
  | begun =>
    cases hleft : l.left <;> simp [stop, hleft]
  | stopping =>
    dsimp only
    split_ifs <;> exact ⟨rfl, rfl, Or.inl rfl⟩
  | notBegun | stopped | closed => exact ⟨rfl, rfl, Or.inl rfl⟩

theorem Consistent.shutdownStep (hl : l.Consistent) : l.shutdownStep.Consistent := by
  obtain ⟨hs, hflag, hleft | ⟨-, hleft⟩⟩ := l.shutdownStep_frame
  · exact hl.of_frame hleft (by rw [hs]) hflag.trans (fun h => by rwa [hs])
  · have hstop := l.stop_frame
    apply hl.stop.of_frame hleft
    · rw [hs, hstop.1]
    · intro h
      rw [hstop.2] at h
      exact hflag.trans h
    · intro h
      rwa [hs, ← hstop.1]

theorem Consistent.take (hl : l.Consistent) (hk : k.NeverResumes) : (l.take k x).Consistent := by
  cases x with
  | work timeout => exact hl.work hk timeout
  | stopStep => exact hl.stopStep.1
  | shutdownStep => exact hl.shutdownStep
  | stop => exact hl.stop
  | shutdown =>
    rw [Closing.take, shutdown]
    split_ifs
    · exact hl.of_frame rfl rfl id id
    · exact hl
  | halt => exact hl.of_frame rfl rfl (fun _ => rfl) id
  | others act => exact hl.of_frame rfl rfl id id

theorem advances_take (hl : l.Consistent) (k : Collaborators σ) (x : Turn) :
    Advances l.scanner.state (l.take k x).scanner.state := by
  cases x with
  | work timeout =>
    obtain ⟨⟨w, hw⟩, -⟩ := l.work_frame k timeout
    rw [take, hw]
    exact Or.inl rfl
  | stopStep => exact hl.stopStep.2
  | shutdownStep =>
    rw [take, l.shutdownStep_frame.1]
    exact Or.inl rfl
  | stop =>
    rw [take, l.stop_frame.1]
    exact Or.inl rfl
  | shutdown =>
    rw [take, shutdown]
    split_ifs <;> exact Or.inl rfl
  | halt | others _ => exact Or.inl rfl

theorem stop_of_taken (h : l.left ≠ none) : l.stop = l := by
  cases hleft : l.left with
  | none => exact absurd hleft h
  | some left => rw [stop, hleft]

theorem left_take {left : List Scanner.StopStep} (h : l.left = some left) :
    ∃ left', (l.take k x).left = some left' ∧ left' <:+ left := by
  have hsame {l' : Closing σ} (hl' : l'.left = l.left) :
      ∃ left', l'.left = some left' ∧ left' <:+ left :=
    ⟨left, hl'.trans h, List.suffix_rfl⟩
  have hstop : l.stop = l := stop_of_taken (by simp [h])
  cases x with
  | work timeout => exact hsame (l.work_frame k timeout).2.2
  | stopStep =>
    rw [take]
    rcases l.stopStep_cases with hs | ⟨x, left', s, b, hleft, -, hs⟩
    · exact hsame (by rw [hs])
    · cases h.symm.trans hleft
      rw [hs]
      exact ⟨left', rfl, List.suffix_cons x left'⟩
  | shutdownStep =>
    rcases l.shutdownStep_frame.2.2 with hleft | ⟨-, hleft⟩
    · exact hsame hleft
    · exact hsame (hleft.trans (by rw [hstop]))
  | stop => exact hsame (by rw [take, hstop])
  | shutdown =>
    refine hsame ?_
    rw [take, shutdown]
    split_ifs <;> rfl
  | halt | others _ => exact hsame rfl

theorem begun_take (h : l.progress ≠ .notBegun) : (l.take k x).progress ≠ .notBegun := by
  cases x with
  | work timeout => rwa [take, (l.work_frame k timeout).2.1]
  | stopStep =>
    rw [take]
    rcases l.stopStep_cases with hs | ⟨_, _, _, _, -, -, hs⟩
    · rwa [hs]
    · rwa [hs]
  | shutdownStep =>
    rw [take, shutdownStep]
    cases hp : l.progress with
    | notBegun => exact absurd hp h
    | begun =>
      dsimp only
      split_ifs <;> exact nofun
    | stopping =>
      dsimp only
      split_ifs
      · exact nofun
      · rw [hp]
        exact nofun
    | stopped => exact nofun
    | closed =>
      rw [hp]
      exact nofun
  | stop =>
    rw [take, stop]
    split <;> exact h
  | shutdown =>
    rw [take, shutdown, if_neg h]
    exact h
  | halt | others _ => exact h

structure Alone (l : Closing σ) : Prop where
  untaken : l.progress = .notBegun ∨ l.progress = .begun → l.left = none
  returned : l.progress = .stopped ∨ l.progress = .closed → l.left = some []

theorem alone_start (t : Task) (b : Bench σ) : (start t b).Alone := ⟨fun _ => rfl, nofun⟩

theorem Alone.take (hl : l.Alone) (hx : x = .stop → l.left ≠ none) : (l.take k x).Alone := by
  cases x with
  | work timeout =>
    obtain ⟨-, hprogress, hleft⟩ := l.work_frame k timeout
    rw [Closing.take]
    constructor
    · rw [hprogress, hleft]
      exact hl.untaken
    · rw [hprogress, hleft]
      exact hl.returned
  | stopStep =>
    rw [Closing.take]
    rcases l.stopStep_cases with hs | ⟨x, left, s, b, hleft, -, hs⟩
    · rwa [hs]
    · rw [hs]
      constructor
      · intro h
        cases (hl.untaken h).symm.trans hleft
      · intro h
        cases (hl.returned h).symm.trans hleft
  | shutdownStep =>
    rw [Closing.take, shutdownStep]
    cases hp : l.progress with
    | notBegun => exact hl
    | begun =>
      have hnone := hl.untaken (Or.inr hp)
      simp only [hnone, if_true]
      exact ⟨nofun, nofun⟩
    | stopping =>
      dsimp only
      split_ifs with hleft
      · exact ⟨nofun, fun _ => hleft⟩
      · exact hl
    | stopped => exact ⟨nofun, fun _ => hl.returned (Or.inl hp)⟩
    | closed => exact hl
  | stop => rwa [Closing.take, stop_of_taken (hx rfl)]
  | shutdown =>
    rw [Closing.take, shutdown]
    split_ifs with hp
    · exact ⟨fun _ => hl.untaken (Or.inl hp), nofun⟩
    · exact hl
  | halt => exact ⟨hl.untaken, hl.returned⟩
  | others act => exact ⟨hl.untaken, hl.returned⟩

def reading (l : Closing σ) : Nat :=
  match l.scanner.worker with
  | .cycling c =>
    match c.phase with
    | .reading _ => 1
    | _ => 0
  | _ => 0

def begins (l : Closing σ) : Turn → Nat
  | .work _ => l.reading
  | _ => 0

def entriesBegun (k : Collaborators σ) : Closing σ → List Turn → Nat
  | _, [] => 0
  | l, x :: turns => l.begins x + entriesBegun k (l.take k x) turns

theorem reading_le (l : Closing σ) : l.reading ≤ 1 := by
  unfold reading
  split
  · split <;> omega
  · omega

theorem reading_congr {l' : Closing σ} (h : l'.scanner.worker = l.scanner.worker) :
    l'.reading = l.reading := by
  rw [reading, reading, h]

theorem reading_eq_zero (h : ∀ c id, l.scanner.worker = .cycling c → c.phase ≠ .reading id) :
    l.reading = 0 := by
  unfold reading
  split
  · rename_i c hw
    split
    · rename_i id hp
      exact absurd hp (h c id hw)
    · rfl
  · rfl

theorem outside_take (hx : ∀ timeout, x ≠ .work timeout) :
    (l.take k x).scanner.worker = l.scanner.worker ∧
      (l.bench.desk.runAllowed = false → (l.take k x).bench.desk.runAllowed = false) := by
  cases x with
  | work timeout => exact absurd rfl (hx timeout)
  | stopStep =>
    rw [take]
    rcases l.stopStep_cases with hs | ⟨x, left, s, b, -, hx, hs⟩
    · rw [hs]
      exact ⟨rfl, id⟩
    · rw [hs]
      cases x with
      | join =>
        obtain ⟨rfl, rfl, -⟩ := Scanner.joined hx
        exact ⟨rfl, id⟩
      | halt =>
        cases hx
        exact ⟨rfl, fun _ => rfl⟩
      | announce | hangUp | finish =>
        cases hx
        exact ⟨rfl, id⟩
  | shutdownStep =>
    obtain ⟨hs, hflag, -⟩ := l.shutdownStep_frame
    exact ⟨congrArg Scanner.worker hs, hflag.trans⟩
  | stop =>
    obtain ⟨hs, hb⟩ := l.stop_frame
    rw [take, hs, hb]
    exact ⟨rfl, id⟩
  | shutdown =>
    rw [take, shutdown]
    split_ifs <;> exact ⟨rfl, id⟩
  | halt => exact ⟨rfl, fun _ => rfl⟩
  | others act => exact ⟨rfl, id⟩

theorem begins_le (hk : k.NeverResumes) (h : l.bench.desk.runAllowed = false) (x : Turn) :
    (l.take k x).bench.desk.runAllowed = false ∧ l.begins x + (l.take k x).reading ≤ l.reading := by
  by_cases hx : ∃ timeout, x = .work timeout
  · obtain ⟨timeout, rfl⟩ := hx
    obtain ⟨hflag, hphase⟩ := halted_work hk timeout h
    exact ⟨hflag, by rw [take, reading_eq_zero hphase, begins, Nat.add_zero]⟩
  · have hnone : l.begins x = 0 := by
      cases x with
      | work timeout => exact absurd ⟨timeout, rfl⟩ hx
      | _ => rfl
    obtain ⟨hworker, hflag⟩ := l.outside_take (k := k) (fun timeout he => hx ⟨timeout, he⟩)
    exact ⟨hflag h, by rw [hnone, reading_congr hworker, Nat.zero_add]⟩

theorem entriesBegun_le (hk : k.NeverResumes) (h : l.bench.desk.runAllowed = false)
    (turns : List Turn) : entriesBegun k l turns ≤ l.reading := by
  induction turns generalizing l with
  | nil => exact Nat.zero_le _
  | cons x turns ih =>
    obtain ⟨hflag, hle⟩ := begins_le hk h x
    have hrest := ih hflag
    rw [entriesBegun]
    omega

theorem consistent_after (hl : l.Consistent) (hk : k.NeverResumes) (turns : List Turn) :
    (after k l turns).Consistent := by
  induction turns generalizing l with
  | nil => exact hl
  | cons x turns ih => exact ih (hl.take hk)

theorem left_after {left : List Scanner.StopStep} (h : l.left = some left) (turns : List Turn) :
    ∃ left', (after k l turns).left = some left' ∧ left' <:+ left := by
  induction turns generalizing l left with
  | nil => exact ⟨left, h, List.suffix_rfl⟩
  | cons x turns ih =>
    obtain ⟨left', h', hsuffix⟩ := left_take (k := k) (x := x) h
    obtain ⟨left'', h'', hsuffix'⟩ := ih h'
    exact ⟨left'', h'', hsuffix'.trans hsuffix⟩

theorem begun_after (h : l.progress ≠ .notBegun) (turns : List Turn) :
    (after k l turns).progress ≠ .notBegun := by
  induction turns generalizing l with
  | nil => exact h
  | cons x turns ih => exact ih (begun_take h)

theorem exited_after (hl : l.Consistent) (hk : k.NeverResumes) {left : List Scanner.StopStep}
    (h : l.left = some left) (hjoin : .join ∉ left) (turns : List Turn) :
    (after k l turns).scanner.worker = .exited := by
  obtain ⟨left', h', hsuffix⟩ := left_after (k := k) h turns
  obtain ⟨-, -, -, hworker⟩ := (consistent_after hl hk turns).taken left' h'
  exact hworker fun hmem => hjoin (hsuffix.subset hmem)

def Further (k : Collaborators σ) (l : Closing σ) (turns : List Turn) : Prop :=
  ∀ pre post, turns = pre ++ .stop :: post → (after k l pre).left ≠ none

theorem alone_after (hl : l.Alone) {turns : List Turn} (h : Further k l turns) :
    (after k l turns).Alone := by
  induction turns generalizing l with
  | nil => exact hl
  | cons x turns ih =>
    refine ih (hl.take ?_) ?_
    · rintro rfl
      exact h [] turns rfl
    · intro pre post hsplit
      exact h (x :: pre) post (congrArg (List.cons x) hsplit)

theorem worker_gone_before_close (hk : k.NeverResumes) (t : Task) (b : Bench σ)
    (turns : List Turn) :
    let l := after k (start t b) turns
    (l.progress = .closed → l.left = some [] ∨ Further k (start t b) turns →
      l.scanner.state = .stopped ∧
        ∀ more timeout, (after k l more).work k timeout = after k l more) ∧
    (l.bench.desk.runAllowed = false → ∀ more, entriesBegun k l more ≤ 1) ∧
    (∀ left, l.left = some left → (.halt ∉ left → l.bench.desk.runAllowed = false) ∧
      (.join ∉ left → ∀ more, (after k l more).scanner.worker = .exited)) ∧
    (∀ x, Advances l.scanner.state (l.take k x).scanner.state) ∧
    (l.progress ≠ .notBegun → ∀ more, (after k l more).shutdown = after k l more) ∧
    (l.left ≠ none → ∀ more, (after k l more).stop = after k l more) := by
  intro l
  have hl : l.Consistent := consistent_after (consistent_start t b) hk turns
  refine ⟨?_, ?_, ?_, ?_, ?_, ?_⟩
  · intro hclosed hown
    have hleft : l.left = some [] := by
      rcases hown with hleft | hfurther
      · exact hleft
      · exact (alone_after (alone_start t b) hfurther).returned (Or.inr hclosed)
    obtain ⟨-, hstate, -, -⟩ := hl.taken [] hleft
    refine ⟨hstate, fun more timeout => work_exited ?_ timeout⟩
    exact exited_after hl hk hleft List.not_mem_nil more
  · intro hflag more
    exact (entriesBegun_le hk hflag more).trans l.reading_le
  · intro left hleft
    obtain ⟨-, -, hhalt, -⟩ := hl.taken left hleft
    exact ⟨hhalt, fun hjoin more => exited_after hl hk hleft hjoin more⟩
  · exact fun x => advances_take hl k x
  · intro hbegun more
    rw [shutdown, if_neg (begun_after hbegun more)]
  · intro htaken more
    obtain ⟨left, hleft⟩ := Option.ne_none_iff_exists'.mp htaken
    obtain ⟨left', hleft', -⟩ := left_after (k := k) hleft more
    exact stop_of_taken (by simp [hleft'])

namespace Caught

def first : Closing Unit := start Station.smallTask Station.small.bench

def upToHalt : List Turn :=
  [.work true, .work false, .work false, .work false, .shutdown, .shutdownStep, .stopStep,
    .stopStep, .stopStep]

def upToClose : List Turn :=
  [.work false, .stop, .stopStep, .shutdown, .work false, .work false, .work false, .work false,
    .stopStep, .stopStep, .shutdownStep, .shutdownStep]

theorem neverResumes_quiet : Service.Refused.quiet.NeverResumes :=
  ⟨fun _ _ h => h, fun _ _ _ h => h⟩

theorem worker_gone_before_close_caught :
    (after Service.Refused.quiet first upToHalt).bench.desk.runAllowed = false ∧
      (after Service.Refused.quiet first upToHalt).reading = 1 ∧
      entriesBegun Service.Refused.quiet (after Service.Refused.quiet first upToHalt) upToClose ≤ 1 ∧
      (after Service.Refused.quiet first (upToHalt ++ upToClose)).progress = .closed ∧
      (after Service.Refused.quiet first (upToHalt ++ upToClose)).scanner.state = .stopped ∧
      ∀ more timeout,
        (after Service.Refused.quiet (after Service.Refused.quiet first (upToHalt ++ upToClose))
            more).work Service.Refused.quiet timeout =
          after Service.Refused.quiet (after Service.Refused.quiet first (upToHalt ++ upToClose))
            more := by
  have hhalted : (after Service.Refused.quiet first upToHalt).bench.desk.runAllowed = false := by
    decide +kernel
  have hclosed : (after Service.Refused.quiet first (upToHalt ++ upToClose)).progress = .closed := by
    decide +kernel
  have hleft : (after Service.Refused.quiet first (upToHalt ++ upToClose)).left = some [] := by
    decide +kernel
  obtain ⟨-, hentries, -⟩ :=
    worker_gone_before_close neverResumes_quiet Station.smallTask Station.small.bench upToHalt
  obtain ⟨hgone, -⟩ := worker_gone_before_close neverResumes_quiet Station.smallTask
    Station.small.bench (upToHalt ++ upToClose)
  obtain ⟨hstopped, hidle⟩ := hgone hclosed (Or.inl hleft)
  exact ⟨hhalted, by decide +kernel, hentries hhalted upToClose, hclosed, hstopped, hidle⟩

end Caught

theorem confirming?_of_worker {c : Cycle} {id : String} (hw : l.scanner.worker = .cycling c)
    (hp : c.phase = .confirming id) : l.confirming? = some (c, id) := by
  simp only [confirming?, hw, hp]

theorem exists_turns_work (hd : l.deleting = false) (timeout : Bool) :
    ∃ turns, after k l turns = { l with
      scanner := (l.scanner.work k timeout l.bench).1,
      bench := (l.scanner.work k timeout l.bench).2 } := by
  obtain ⟨s, b, deleting, progress, left⟩ := l
  obtain rfl : deleting = false := hd
  rcases hc : confirming? ⟨s, b, false, progress, left⟩ with _ | ⟨c, id⟩
  · exact ⟨[.work timeout], work_elsewhere hc timeout⟩
  · obtain ⟨hw, hp⟩ := worker_of_confirming? hc
    replace hw : s.worker = .cycling c := hw
    have hstep : s.work k timeout b =
        ({ s with worker := .cycling (s.task.step k c b).1 }, (s.task.step k c b).2) := by
      simp only [Scanner.work, hw, hp]
    have hfirst : work k false ⟨s, b, false, progress, left⟩ = confirm _ c id :=
      work_confirming hc false
    rw [hstep, Task.step_confirming hp, Repository.confirm_eq, Bench.onShelf_andThen]
    rcases hx : b.onShelf (s.task.repository.fetch (s.task.repository.keySpace.completedKey id) id)
      with ⟨e | _ | v, b'⟩
    · refine ⟨[.work false], hfirst.trans ?_⟩
      simp only [confirm, hx]
      rfl
    · refine ⟨[.work false], hfirst.trans ?_⟩
      simp only [confirm, hx]
      rfl
    · have hfound : work k false ⟨s, b, false, progress, left⟩ = ⟨s, b', true, progress, left⟩ := by
        rw [hfirst]
        simp only [confirm, hx]
        rfl
      have hc' : confirming? ⟨s, b', true, progress, left⟩ = some (c, id) :=
        confirming?_of_worker hw hp
      have hsecond : work k false ⟨s, b', true, progress, left⟩ = confirm _ c id :=
        work_confirming hc' false
      refine ⟨[.work false, .work false], ?_⟩
      change work k false (work k false _) = _
      rw [hfound, hsecond]
      rfl

theorem exists_turns_settleUpTo (hd : l.deleting = false) (fuel : Nat) :
    ∃ turns, after k l turns = { l with
      scanner := (Scanner.settleUpTo k fuel l.scanner l.bench).1,
      bench := (Scanner.settleUpTo k fuel l.scanner l.bench).2 } := by
  induction fuel generalizing l with
  | zero => exact ⟨[], rfl⟩
  | succ fuel ih =>
    rw [Scanner.settleUpTo]
    split_ifs
    · exact ⟨[], rfl⟩
    · obtain ⟨turns, hturns⟩ := exists_turns_work (k := k) hd false
      obtain ⟨more, hmore⟩ := ih (l := { l with
        scanner := (l.scanner.work k false l.bench).1,
        bench := (l.scanner.work k false l.bench).2 }) hd
      refine ⟨turns ++ more, ?_⟩
      rw [after_append, hturns, hmore]

theorem exists_turns_shutdown {credit : σ → Nat} {v : Service} {s : Scanner} {b : Bench σ}
    (hv : v.scanner = some s) (hdown : v.shutDown = false) (hr : s.task.repository = v.repository)
    (hs : s.state = .running) (ho : s.Orderly k credit b) :
    ∃ turns s', (v.shutdown k b).2.1.scanner = some s' ∧
      after k ⟨s, b, false, .notBegun, none⟩ turns =
        ⟨s', (v.shutdown k b).2.2, false, .closed, some []⟩ := by
  have hstopped := Scanner.stop_exited ho hs
  rcases hsettle : Scanner.settle k s.announce.hangUp b.halt with ⟨s₁, b₁⟩
  rcases hwork : Scanner.work k false s₁ b₁ with ⟨s₂, b₂⟩
  have hstop : Scanner.stop k s b = (s₂.finish, b₂) := by
    simp only [Scanner.stop, hs, hsettle, hwork]
  rw [hstop] at hstopped
  have hworker : s₂.worker = .exited := congrArg Scanner.worker hstopped
  have htask : s₂.task.repository = v.repository := (congrArg (·.task.repository) hstopped).trans hr
  have hbegin : after k ⟨s, b, false, .notBegun, none⟩
      [.shutdown, .shutdownStep, .stopStep, .stopStep, .stopStep] =
      ⟨s.announce.hangUp, b.halt, false, .stopping, some [.join, .finish]⟩ := rfl
  obtain ⟨turns, hturns⟩ := exists_turns_settleUpTo (k := k)
    (l := ⟨s.announce.hangUp, b.halt, false, .stopping, some [.join, .finish]⟩) rfl
    (Scanner.stepBound k s.announce.hangUp b.halt)
  obtain ⟨more, hmore⟩ := exists_turns_work (k := k)
    (l := ⟨s₁, b₁, false, .stopping, some [.join, .finish]⟩) rfl false
  have hend : after k ⟨s₂, b₂, false, .stopping, some [.join, .finish]⟩
      [.stopStep, .stopStep, .shutdownStep, .shutdownStep] =
      ⟨s₂.finish, (b₂.onShelf v.repository.close).2, false, .closed, some []⟩ := by
    simp [after, take, stopStep, Scanner.stopStep, hworker, shutdownStep, Scanner.finish, htask]
  rw [Scanner.settle] at hsettle
  rw [hsettle] at hturns
  rw [hwork] at hmore
  refine ⟨[.shutdown, .shutdownStep, .stopStep, .stopStep, .stopStep] ++ (turns ++ (more ++
    [.stopStep, .stopStep, .shutdownStep, .shutdownStep])), s₂.finish, ?_, ?_⟩
  · simp only [Service.shutdown_first hdown, Service.quieted, hv, hstop]
  · rw [after_append, hbegin, after_append, hturns, after_append, hmore, hend]
    simp only [Service.shutdown_first hdown, Service.quieted, hv, hstop]

end Closing

end Staging
