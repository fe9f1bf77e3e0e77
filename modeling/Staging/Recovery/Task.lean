import Staging.Delivery.Basic
import Staging.Repository.Basic

/-!
Recovery of completed exchanges that no one has confirmed. A cycle goes over them in the order of
their identifiers: each is read and its attempt counted, and then it is redelivered, or, when its
attempts are used up, sent to the dead letters and confirmed. A failure concerns its exchange alone.

A cycle is a machine whose steps are single calls, on the store or on a collaborator, so that others
may act between any two of them.
-/

namespace Staging

abbrev Counters := SortedMap String UInt32

namespace Counters

def count (c : Counters) (id : String) : UInt32 := (c.get? id).getD 0

def saturatingSucc (n : UInt32) : UInt32 := if n = 4294967295 then n else n + 1

def increment (c : Counters) (id : String) : UInt32 × Counters :=
  let n := saturatingSucc (c.count id)
  (n, c.insert id n)

def keep (c : Counters) (ids : List String) : Counters := c.filter (fun id _ => ids.contains id)

end Counters

/-- What collaborators can reach while a cycle runs: the store, the flag that lets the cycle go on,
and a world of their own. -/
structure Desk (σ : Type) where
  shelf : Shelf
  runAllowed : Bool
  outside : σ

structure Collaborators (σ : Type) where
  redeliver : Exchange → Desk σ → Except DeliveryError Unit × Desk σ
  send : String → Exchange → Desk σ → Except DeliveryError Unit × Desk σ
  /-- A bound on the entries that they stage during a cycle. -/
  maxStaged : Nat

structure Bench (σ : Type) where
  desk : Desk σ
  counters : Counters

namespace Bench

variable {σ : Type}

def onShelf {α : Type} (act : Shelf → α × Shelf) (b : Bench σ) : α × Bench σ :=
  let (x, shelf) := act b.desk.shelf
  (x, { b with desk := { b.desk with shelf := shelf } })

def onDesk {α : Type} (act : Desk σ → α × Desk σ) (b : Bench σ) : α × Bench σ :=
  let (x, desk) := act b.desk
  (x, { b with desk := desk })

def halt (b : Bench σ) : Bench σ := { b with desk := { b.desk with runAllowed := false } }

def resume (b : Bench σ) : Bench σ := { b with desk := { b.desk with runAllowed := true } }

end Bench

structure CycleSummary where
  scanned : Nat
  redelivered : Nat
  escalated : Nat
  failed : Nat
  aborted : Bool
deriving DecidableEq

namespace CycleSummary

def blank : CycleSummary := ⟨0, 0, 0, 0, false⟩

def toJson (r : CycleSummary) : Json :=
  .object [("scanned", .ofNat r.scanned), ("redelivered", .ofNat r.redelivered),
    ("escalated", .ofNat r.escalated), ("failed", .ofNat r.failed), ("aborted", .bool r.aborted)]

def fail (r : CycleSummary) : CycleSummary := { r with failed := r.failed + 1 }

end CycleSummary

inductive Phase
  | fetching
  | deciding (found : Except RepositoryError String)
  | reading (id : String)
  | redelivering (id : String) (e : Exchange)
  | escalating (id : String) (e : Exchange)
  | confirming (id : String)
  | finished

structure Cycle where
  cursor : Cursor
  visited : List String
  report : CycleSummary
  phase : Phase

structure Task where
  repository : Repository
  destination : String

namespace Task

variable {σ : Type}

def ofRepository (r : Repository) : Except SettingsError Task :=
  if r.settings.useRecovery then
    (fun _ => ⟨r, r.settings.deadLetterUri.getD ""⟩) <$> r.settings.validateRecovery
  else .error (.recoveryDisabled r.name)

def begin (t : Task) : Cycle := ⟨t.repository.completedCursor, [], .blank, .fetching⟩

def leave (c : Cycle) (id : String) (report : CycleSummary) : Cycle :=
  { c with visited := id :: c.visited, report := report, phase := .fetching }

def handOver (t : Task) (id : String) (e : Exchange) (b : Bench σ) : Phase × Bench σ :=
  let maximum := t.repository.settings.maxRedeliveries
  let (attempt, counters) := b.counters.increment id
  let e := e.stamp attempt maximum
  let phase := if maximum.toInt < attempt.toNat then .escalating id e else .redelivering id e
  (phase, { b with counters := counters })

def step (t : Task) (k : Collaborators σ) (c : Cycle) (b : Bench σ) : Cycle × Bench σ :=
  match c.phase with
  | .fetching =>
    let ((found, cursor), b) := b.onShelf fun s =>
      let (found, cursor, s) := c.cursor.next s
      ((found, cursor), s)
    match found with
    | none =>
      ({ c with cursor := cursor, phase := .finished },
        { b with counters := b.counters.keep c.visited })
    | some x =>
      match t.repository.completedId? x with
      | none => ({ c with cursor := cursor }, b)
      | some id => ({ c with cursor := cursor, phase := .deciding id }, b)
  | .deciding found =>
    if b.desk.runAllowed then
      match found with
      | .ok id =>
        ({ c with report := { c.report with scanned := c.report.scanned + 1 },
                  phase := .reading id }, b)
      | .error _ => ({ c with report := c.report.fail, phase := .finished }, b)
    else ({ c with report := { c.report with aborted := true }, phase := .finished }, b)
  | .reading id =>
    match b.onShelf (t.repository.recover id) with
    | (.error _, b) => (leave c id c.report.fail, b)
    | (.ok none, b) => (leave c id c.report, { b with counters := b.counters.erase id })
    | (.ok (some e), b) =>
      let (phase, b) := t.handOver id e b
      ({ c with phase := phase }, b)
  | .redelivering id e =>
    match b.onDesk (k.redeliver e) with
    | (.ok (), b) => (leave c id { c.report with redelivered := c.report.redelivered + 1 }, b)
    | (.error _, b) => (leave c id c.report.fail, b)
  | .escalating id e =>
    match b.onDesk (k.send t.destination e) with
    | (.ok (), b) => ({ c with phase := .confirming id }, b)
    | (.error _, b) => (leave c id c.report.fail, b)
  | .confirming id =>
    match b.onShelf (t.repository.confirm id) with
    | (.ok _, b) =>
      (leave c id { c.report with escalated := c.report.escalated + 1 },
        { b with counters := b.counters.erase id })
    | (.error _, b) => (leave c id c.report.fail, b)
  | .finished => (c, b)

def runUpTo (t : Task) (k : Collaborators σ) : Nat → Cycle → Bench σ → Cycle × Bench σ
  | 0, c, b => (c, b)
  | fuel + 1, c, b =>
    match c.phase with
    | .finished => (c, b)
    | _ =>
      let (c, b) := t.step k c b
      t.runUpTo k fuel c b

/-- Enough steps for a cycle: five for each entry that is stored or may yet be, and five more. -/
def stepBound (k : Collaborators σ) (b : Bench σ) : Nat :=
  5 * (b.desk.shelf.size + k.maxStaged + 1)

def runCycle (t : Task) (k : Collaborators σ) (b : Bench σ) : CycleSummary × Bench σ :=
  let (c, b) := t.runUpTo k (stepBound k b) t.begin b
  (c.report, b)

def describe (t : Task) (c : Counters) : String :=
  "RecoveryTask \x7b repository: " ++ Text.quoted t.repository.name ++ ", destination: " ++
    Text.quoted t.destination ++ ", tracked: " ++ toString c.size ++ " \x7d"

end Task

structure Boxes where
  inbox : Inbox
  dead : DeadLetterBox
deriving DecidableEq

def Boxes.empty : Boxes := ⟨.empty, .empty⟩

inductive Action
  | halt
  | confirm (id : String)
  | stage (key : String) (e : Exchange)
  | reject

abbrev Script := List (String × List Action)

namespace Script

def actions (s : Script) (id : String) : List Action := (s.lookup id).getD []

def length (s : Script) : Nat := (s.flatMap (·.2)).length

def act (r : Repository) : List Action → Desk Boxes → Bool × Desk Boxes
  | [], d => (true, d)
  | .halt :: l, d => act r l { d with runAllowed := false }
  | .confirm id :: l, d => act r l { d with shelf := (r.confirm id d.shelf).2 }
  | .stage key e :: l, d =>
    act r l { d with shelf := (r.remove key e (r.add key e d.shelf).2).2 }
  | .reject :: _, d => (false, d)

def collaborators (r : Repository) (onRedeliver onDead : Script) : Collaborators Boxes where
  redeliver e d :=
    let (goesOn, d) := act r (onRedeliver.actions e.id) d
    if goesOn then
      let (x, inbox) := d.outside.inbox.redeliver e
      (x, { d with outside := { d.outside with inbox := inbox } })
    else (.error (.rejected e.id), d)
  send destination e d :=
    let (goesOn, d) := act r (onDead.actions e.id) d
    if goesOn then
      let (x, dead) := d.outside.dead.send destination e
      (x, { d with outside := { d.outside with dead := dead } })
    else (.error (.rejected e.id), d)
  maxStaged := onRedeliver.length + onDead.length

end Script

end Staging
