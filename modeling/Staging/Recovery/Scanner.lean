import Staging.Recovery.Task

/-!
A scanner runs cycles, one whenever an interval has passed, until it is stopped. Its worker and those
who stop it take turns at single steps.
-/

namespace Staging

inductive ScannerStatus
  | stopped
  | running
  | stopping
deriving DecidableEq

def ScannerStatus.name : ScannerStatus → String
  | stopped => "stopped"
  | running => "running"
  | stopping => "stopping"

inductive Worker
  | waiting
  /-- The interval has passed; the flag has not been looked at. -/
  | woken
  | cycling (c : Cycle)
  | exited

structure Scanner where
  task : Task
  state : ScannerStatus
  worker : Worker
  channelOpen : Bool

namespace Scanner

variable {σ : Type}

def start (t : Task) : Scanner := ⟨t, .running, .waiting, true⟩

def work (k : Collaborators σ) (timeout : Bool) (s : Scanner) (b : Bench σ) : Scanner × Bench σ :=
  match s.worker with
  | .waiting =>
    if timeout then ({ s with worker := .woken }, b)
    else if s.channelOpen then (s, b)
    else ({ s with worker := .exited }, b)
  | .woken =>
    if b.desk.runAllowed then ({ s with worker := .cycling s.task.begin }, b)
    else ({ s with worker := .exited }, b)
  | .cycling c =>
    match c.phase with
    | .finished => ({ s with worker := .waiting }, b)
    | _ =>
      let (c, b) := s.task.step k c b
      ({ s with worker := .cycling c }, b)
  | .exited => (s, b)

def atRest (s : Scanner) : Bool :=
  match s.worker with
  | .waiting | .exited => true
  | _ => false

def settleUpTo (k : Collaborators σ) : Nat → Scanner → Bench σ → Scanner × Bench σ
  | 0, s, b => (s, b)
  | fuel + 1, s, b =>
    if s.atRest then (s, b)
    else
      let (s, b) := work k false s b
      settleUpTo k fuel s b

def fetched (s : Scanner) : Nat :=
  match s.worker with
  | .cycling c => c.cursor.buffer.length
  | _ => 0

/-- Enough steps for the worker to come to rest: those of a cycle, and five for each fetched entry. -/
def stepBound (k : Collaborators σ) (s : Scanner) (b : Bench σ) : Nat :=
  Task.stepBound k b + 5 * s.fetched + 2

def settle (k : Collaborators σ) (s : Scanner) (b : Bench σ) : Scanner × Bench σ :=
  settleUpTo k (stepBound k s b) s b

def timeout (k : Collaborators σ) (s : Scanner) (b : Bench σ) : Scanner × Bench σ :=
  let (s, b) := work k true s b
  settle k s b

def announce (s : Scanner) : Scanner := { s with state := .stopping }

def hangUp (s : Scanner) : Scanner := { s with channelOpen := false }

def finish (s : Scanner) : Scanner := { s with state := .stopped }

inductive StopStep
  | announce
  | halt
  | hangUp
  | join
  | finish
deriving DecidableEq

def stopStep (s : Scanner) (b : Bench σ) : StopStep → Option (Scanner × Bench σ)
  | .announce => some (s.announce, b)
  | .halt => some (s, b.halt)
  | .hangUp => some (s.hangUp, b)
  | .join => if s.worker matches .exited then some (s, b) else none
  | .finish => some (s.finish, b)

/-- Returns when the worker has left the cycle that it is in, and found the channel closed. A scanner
that has been stopped stays as it is. -/
def stop (k : Collaborators σ) (s : Scanner) (b : Bench σ) : Scanner × Bench σ :=
  match s.state with
  | .running =>
    let (s, b) := settle k s.announce.hangUp b.halt
    let (s, b) := work k false s b
    (s.finish, b)
  | _ => (s, b)

def describe (s : Scanner) (c : Counters) : String :=
  let state := match s.state with
    | .stopped => "Stopped"
    | .running => "Running"
    | .stopping => "Stopping"
  "RecoveryScanner \x7b task: " ++ s.task.describe c ++ ", state: " ++ state ++ " \x7d"

end Scanner

end Staging
