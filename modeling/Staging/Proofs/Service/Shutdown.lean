import Mathlib
import Staging.Service
import Staging.Proofs.Recovery.Interruption
import Staging.Proofs.Recovery.Stopping
import Staging.Proofs.Store.Lifecycle

namespace Staging

variable {σ : Type}

theorem Repository.close_planned {r : Repository} {s : Shelf} {reason : String}
    (h : s.planned .closing = some reason) :
    r.close s = (.error (.store r.name "*" (.backend reason)), s.counted .closing) := by
  rw [close, Shelf.closeStore_planned h]
  rfl

theorem Repository.close_unplanned {r : Repository} {s : Shelf} (h : s.planned .closing = none) :
    r.close s = (.ok (), (s.counted .closing).release) := by
  rw [close, Shelf.closeStore_unplanned h]
  rfl

namespace Service

def quieted (k : Collaborators σ) (v : Service) (b : Bench σ) : Service × Bench σ :=
  match v.scanner with
  | some s => ({ v with scanner := some (s.stop k b).1 }, (s.stop k b).2)
  | none => (v, b)

variable {k : Collaborators σ} {v : Service} {b : Bench σ}

theorem shutdown_again (h : v.shutDown = true) (k : Collaborators σ) (b : Bench σ) :
    v.shutdown k b = (.ok (), v, b) := by
  rw [shutdown, if_pos h]

theorem shutdown_first (h : v.shutDown = false) (k : Collaborators σ) (b : Bench σ) :
    v.shutdown k b =
      (((v.quieted k b).2.onShelf v.repository.close).1, { (v.quieted k b).1 with shutDown := true },
        ((v.quieted k b).2.onShelf v.repository.close).2) := by
  rw [shutdown, if_neg (by simp [h])]
  cases hs : v.scanner <;> simp only [quieted, hs]

theorem shutdown_planned (h : v.shutDown = false) {reason : String}
    (hf : (v.quieted k b).2.desk.shelf.planned .closing = some reason) :
    v.shutdown k b = (.error (.store v.repository.name "*" (.backend reason)),
      { (v.quieted k b).1 with shutDown := true },
      (v.quieted k b).2.withShelf ((v.quieted k b).2.desk.shelf.counted .closing)) := by
  rw [shutdown_first h, Bench.onShelf, Repository.close_planned hf]
  rfl

theorem shutdown_unplanned (h : v.shutDown = false)
    (hf : (v.quieted k b).2.desk.shelf.planned .closing = none) :
    v.shutdown k b = (.ok (), { (v.quieted k b).1 with shutDown := true },
      (v.quieted k b).2.withShelf (((v.quieted k b).2.desk.shelf.counted .closing).release)) := by
  rw [shutdown_first h, Bench.onShelf, Repository.close_unplanned hf]
  rfl

theorem shutDown_shutdown (k : Collaborators σ) (v : Service) (b : Bench σ) :
    (v.shutdown k b).2.1.shutDown = true := by
  cases h : v.shutDown with
  | true => rwa [shutdown_again h]
  | false => rw [shutdown_first h]

theorem status_quieted (h : v.status ≠ .stopping) : (v.quieted k b).1.status = .stopped := by
  unfold quieted
  cases hs : v.scanner with
  | none => simp [status, hs]
  | some s =>
    rw [status, hs] at h
    cases hstate : s.state with
    | stopped => simp [status, Scanner.stop, hstate]
    | running => simp [status, Scanner.stop, hstate, Scanner.finish]
    | stopping => exact absurd hstate h

def Idle (v : Service) : Prop := ∀ s, v.scanner = some s → s.worker = .exited

theorem idle_quieted {credit : σ → Nat}
    (h : ∀ s, v.scanner = some s →
      s.state = .running ∧ s.Orderly k credit b ∨ s.state = .stopped ∧ s.worker = .exited) :
    (v.quieted k b).1.Idle := by
  intro s' hs'
  unfold quieted at hs'
  cases hs : v.scanner with
  | none =>
    simp only [hs] at hs'
    cases hs'
  | some s =>
    simp only [hs] at hs'
    cases hs'
    rcases h s hs with ⟨hstate, horderly⟩ | ⟨hstate, hworker⟩
    · rw [Scanner.stop_exited horderly hstate]
    · simpa [Scanner.stop, hstate] using hworker

structure Attempt (σ : Type) where
  answer : Except RepositoryError Unit
  service : Service
  bench : Bench σ

def Attempt.isOpen (a : Attempt σ) : Bool := a.bench.desk.shelf.isOpen

def attempt (k : Collaborators σ) (v : Service) (b : Bench σ) : Attempt σ :=
  let (x, v, b) := v.shutdown k b
  ⟨x, v, b⟩

def attempts (k : Collaborators σ) : List (Bench σ → Bench σ) → Attempt σ → List (Attempt σ)
  | [], _ => []
  | act :: acts, a =>
    let a := attempt k a.service (act a.bench)
    a :: attempts k acts a

def LeavesClosed (act : Bench σ → Bench σ) : Prop :=
  ∀ b, b.desk.shelf.isOpen = false → (act b).desk.shelf.isOpen = false

theorem attempt_again (h : v.shutDown = true) : attempt k v b = ⟨.ok (), v, b⟩ := by
  rw [attempt, shutdown_again h]

theorem attempts_again {a : Attempt σ} (h : a.service.shutDown = true)
    {acts : List (Bench σ → Bench σ)} :
    ∀ c ∈ attempts k acts a, c.answer = .ok () ∧ c.service = a.service := by
  induction acts generalizing a with
  | nil => simp [attempts]
  | cons act acts ih =>
    intro c hc
    simp only [attempts, attempt_again h, List.mem_cons] at hc
    rcases hc with rfl | hc
    · exact ⟨rfl, rfl⟩
    · exact ih (a := ⟨.ok (), a.service, act a.bench⟩) h c hc

theorem isOpen_attempts {a : Attempt σ} (h : a.service.shutDown = true) (hopen : a.isOpen = false)
    {acts : List (Bench σ → Bench σ)} (hacts : ∀ act ∈ acts, LeavesClosed act) :
    ∀ c ∈ attempts k acts a, c.isOpen = false := by
  induction acts generalizing a with
  | nil => simp [attempts]
  | cons act acts ih =>
    intro c hc
    have hact : (act a.bench).desk.shelf.isOpen = false :=
      hacts act List.mem_cons_self a.bench hopen
    simp only [attempts, attempt_again h, List.mem_cons] at hc
    rcases hc with rfl | hc
    · exact hact
    · exact ih (a := ⟨.ok (), a.service, act a.bench⟩) h hact
        (fun act hmem => hacts act (List.mem_cons_of_mem _ hmem)) c hc

theorem service_attempts {a : Attempt σ} (h : a.service.shutDown = true)
    {acts : List (Bench σ → Bench σ)} : ∀ c ∈ a :: attempts k acts a, c.service = a.service := by
  intro c hc
  rcases List.mem_cons.mp hc with rfl | hc
  · rfl
  · exact (attempts_again h c hc).2

theorem answer_attempt_iff (hv : v.shutDown = false) (k : Collaborators σ) (b : Bench σ) :
    (attempt k v b).answer = .ok () ↔ (v.quieted k b).2.desk.shelf.planned .closing = none := by
  cases hf : (v.quieted k b).2.desk.shelf.planned .closing with
  | none => simp [attempt, shutdown_unplanned hv hf]
  | some reason => simp [attempt, shutdown_planned hv hf]

theorem isOpen_attempt (hv : v.shutDown = false) (hok : (attempt k v b).answer = .ok ()) :
    (attempt k v b).isOpen = false := by
  have hf := (answer_attempt_iff hv k b).mp hok
  simp only [attempt, Attempt.isOpen, shutdown_unplanned hv hf]
  exact Shelf.isOpen_release _

theorem refused_attempt (hv : v.shutDown = false) {e : RepositoryError}
    (he : (attempt k v b).answer = .error e) :
    (∃ reason, e = .store v.repository.name "*" (.backend reason)) ∧
      (v.quieted k b).2.desk.shelf.Same (attempt k v b).bench.desk.shelf := by
  cases hf : (v.quieted k b).2.desk.shelf.planned .closing with
  | none => simp [attempt, shutdown_unplanned hv hf] at he
  | some reason =>
    simp only [attempt, shutdown_planned hv hf] at he ⊢
    cases he
    exact ⟨⟨reason, rfl⟩, Shelf.same_counted _ _⟩

theorem scanner_attempt (hv : v.shutDown = false) (k : Collaborators σ) (b : Bench σ) :
    (attempt k v b).service.scanner = (v.quieted k b).1.scanner := by
  rw [attempt, shutdown_first hv]

theorem first_shutdown_decides (k : Collaborators σ) {v : Service} (hv : v.shutDown = false)
    (b : Bench σ) {acts : List (Bench σ → Bench σ)} (hacts : ∀ act ∈ acts, LeavesClosed act)
    {first : Attempt σ} (hfirst : attempt k v b = first) :
    (first.answer = .ok () ↔ (v.quieted k b).2.desk.shelf.planned .closing = none) ∧
    (first.answer = .ok () →
      ∀ c ∈ first :: attempts k acts first, c.answer = .ok () ∧ c.isOpen = false) ∧
    (∀ e, first.answer = .error e →
      (∃ reason, e = .store v.repository.name "*" (.backend reason)) ∧
      (v.quieted k b).2.desk.shelf.Same first.bench.desk.shelf ∧
      ∀ b', attempt k first.service b' = ⟨.ok (), first.service, b'⟩) ∧
    (v.status ≠ .stopping →
      ∀ c ∈ first :: attempts k acts first, c.service.status = .stopped) ∧
    ∀ credit, (∀ s, v.scanner = some s →
        s.state = .running ∧ s.Orderly k credit b ∨ s.state = .stopped ∧ s.worker = .exited) →
      ∀ c ∈ first :: attempts k acts first, c.service.Idle := by
  subst hfirst
  have hdown : (attempt k v b).service.shutDown = true := shutDown_shutdown k v b
  have hscanner := scanner_attempt hv k b
  refine ⟨answer_attempt_iff hv k b, ?_, ?_, ?_, ?_⟩
  · intro hok c hc
    have hclosed := isOpen_attempt hv hok
    rcases List.mem_cons.mp hc with rfl | hc
    · exact ⟨hok, hclosed⟩
    · exact ⟨(attempts_again hdown c hc).1, isOpen_attempts hdown hclosed hacts c hc⟩
  · intro e he
    obtain ⟨hreason, hsame⟩ := refused_attempt hv he
    exact ⟨hreason, hsame, fun b' => attempt_again hdown⟩
  · intro hs c hc
    rw [service_attempts hdown c hc, status, hscanner]
    exact status_quieted hs
  · intro credit hs c hc s hscan
    rw [service_attempts hdown c hc, hscanner] at hscan
    exact idle_quieted hs s hscan

namespace Refused

def service : Service :=
  ⟨Station.smallTask.repository, some (Scanner.start Station.smallTask), false⟩

def bench (faults : FaultPlan) : Bench Unit :=
  ⟨⟨⟨.memory ⟨.empty, true, none⟩, .empty, faults⟩, true, ()⟩, .empty⟩

def once : FaultPlan := FaultPlan.none.inject .closing 0 (some 1)

def quiet : Collaborators Unit := ⟨fun _ d => (.ok (), d), fun _ _ d => (.ok (), d), 0⟩

theorem readsOnly_quiet : quiet.ReadsOnly := ⟨fun _ _ _ h => h, fun _ _ _ _ h => h⟩

theorem orderly_start (faults : FaultPlan) :
    (Scanner.start Station.smallTask).Orderly quiet (fun _ => 0) (bench faults) where
  tidy := readsOnly_quiet.tidy
  within := readsOnly_quiet.within
  credit_le := Nat.zero_le _
  holds := ⟨MemoryStore.Contents.empty.toTable, rfl⟩
  placed := by
    intro c hc
    cases hc

def refused : Attempt Unit := attempt quiet service (bench once)

def closed : Attempt Unit := attempt quiet service (bench .none)

theorem first_shutdown_decides_refused :
    refused.answer = .error (.store "orders" "*" (.backend "injected close failure")) ∧
      refused.isOpen = true ∧ refused.service.Idle ∧
      (attempt quiet refused.service refused.bench).answer = .ok () ∧
      (attempt quiet refused.service refused.bench).isOpen = true ∧
      ∀ c ∈ closed :: attempts quiet [id, id] closed,
        c.answer = .ok () ∧ c.isOpen = false ∧ c.service.status = .stopped ∧ c.service.Idle := by
  have hacts : ∀ act ∈ [id, id], LeavesClosed (σ := Unit) act := by
    intro act hact
    obtain rfl : act = id := by simpa using hact
    exact fun _ h => h
  have horderly (faults : FaultPlan) (s : Scanner) (hs : service.scanner = some s) :
      s.state = .running ∧ s.Orderly quiet (fun _ => 0) (bench faults) ∨
        s.state = .stopped ∧ s.worker = .exited := by
    cases hs
    exact Or.inl ⟨rfl, orderly_start faults⟩
  have hfirst : attempt quiet service (bench once) = refused := rfl
  have hfirst' : attempt quiet service (bench .none) = closed := rfl
  obtain ⟨-, -, hrefused, -, hidle⟩ := first_shutdown_decides quiet rfl (bench once) hacts hfirst
  obtain ⟨hiff, hok, -, hstopped, hidle'⟩ :=
    first_shutdown_decides quiet rfl (bench .none) hacts hfirst'
  have herror : refused.answer = .error (.store "orders" "*" (.backend "injected close failure")) :=
    rfl
  have hopen : refused.isOpen = true := rfl
  obtain ⟨-, -, hagain⟩ := hrefused _ herror
  have hanswer : closed.answer = .ok () := hiff.mpr rfl
  refine ⟨herror, hopen, hidle _ (horderly once) _ List.mem_cons_self, ?_, ?_, ?_⟩
  · rw [hagain]
  · rw [hagain]
    exact hopen
  · intro c hc
    obtain ⟨hc', hclosed⟩ := hok hanswer c hc
    exact ⟨hc', hclosed, hstopped (by decide) c hc, hidle' _ (horderly .none) c hc⟩

end Refused

end Service

end Staging
