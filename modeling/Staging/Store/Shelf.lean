import Staging.Store.Memory
import Staging.Store.Durable

/-!
A store of either kind with the disk it may use, and a plan of the calls on it that fail. A call that
fails by the plan does not reach the store.
-/

namespace Staging

inductive Backend
  | memory (m : MemoryStore)
  | durable (s : DurableStore)
deriving DecidableEq

inductive Primitive
  | get
  | put
  | delete
  | batch
  | scan
  | opening
  | closing
deriving DecidableEq

namespace Primitive

def name : Primitive → String
  | get => "get"
  | put => "put"
  | delete => "delete"
  | batch => "batch"
  | scan => "scan"
  | opening => "open"
  | closing => "close"

def ofName? (s : String) : Option Primitive :=
  [get, put, delete, batch, scan, opening, closing].find? (·.name = s)

end Primitive

/-- The calls made so far, newest first, and why the next call fails after them, if it does. -/
structure FaultPlan where
  reason : List Primitive → Primitive → Option String
  calls : List Primitive

namespace FaultPlan

def none : FaultPlan := ⟨fun _ _ => .none, []⟩

/-- After `skip` more calls of one primitive, the next `times` fail, or all if no number is given.
Other primitives fail as before. -/
def inject (f : FaultPlan) (p : Primitive) (skip : Nat) (times : Option Nat) : FaultPlan :=
  let first := f.calls.count p + skip
  { f with reason := fun calls q =>
      if q = p then
        let n := calls.count p
        if first ≤ n ∧ times.all (n - first < ·) then some ("injected " ++ p.name ++ " failure")
        else .none
      else f.reason calls q }

def heal (f : FaultPlan) : FaultPlan := { f with reason := none.reason }

def crashAt (f : FaultPlan) (call : Nat) : FaultPlan :=
  { f with reason := fun calls p => if call ≤ calls.length then some "crash" else f.reason calls p }

def crashAfter (f : FaultPlan) (n : Nat) : FaultPlan := f.crashAt (f.calls.length + n)

def count (f : FaultPlan) (p : Primitive) : FaultPlan := { f with calls := p :: f.calls }

end FaultPlan

structure Shelf where
  backend : Backend
  disk : Disk
  faults : FaultPlan

namespace Shelf

def isOpen (s : Shelf) : Bool :=
  match s.backend with
  | .memory m => m.isOpen
  | .durable d => d.isOpen

def entries (s : Shelf) : List Entry :=
  match s.backend with
  | .memory m => m.contents.table
  | .durable d =>
    match d.table s.disk with
    | .ok t => t.entries
    | .error _ => []

def size (s : Shelf) : Nat := s.entries.length

def call {α : Type} (s : Shelf) (p : Primitive) (act : Shelf → Except StoreError α × Shelf) :
    Except StoreError α × Shelf :=
  let s' := { s with faults := s.faults.count p }
  match s.faults.reason s.faults.calls p with
  | some reason => (.error (.backend reason), s')
  | none => act s'

def change (onMemory : MemoryStore → Except StoreError Unit × MemoryStore)
    (onDurable : DurableStore → Disk → Except StoreError Unit × DurableStore × Disk) (s : Shelf) :
    Except StoreError Unit × Shelf :=
  match s.backend with
  | .memory m =>
    let (r, m) := onMemory m
    (r, { s with backend := .memory m })
  | .durable d =>
    let (r, d, disk) := onDurable d s.disk
    (r, { s with backend := .durable d, disk := disk })

def look {α : Type} (onMemory : MemoryStore → Except StoreError α)
    (onDurable : DurableStore → Disk → Except StoreError α) (s : Shelf) :
    Except StoreError α × Shelf :=
  match s.backend with
  | .memory m => (onMemory m, s)
  | .durable d => (onDurable d s.disk, s)

def openStore (s : Shelf) : Except StoreError Unit × Shelf :=
  s.call .opening (change (fun m => (.ok (), m.opened)) DurableStore.openOn)

def shut : Shelf → Except StoreError Unit × Shelf :=
  change (fun m => (.ok (), m.closed)) (fun d disk => (.ok (), d.close disk))

def closeStore (s : Shelf) : Except StoreError Unit × Shelf := s.call .closing shut

def release (s : Shelf) : Shelf := s.shut.2

def get (s : Shelf) (key : Bytes) : Except StoreError (Option Bytes) × Shelf :=
  s.call .get (look (·.get key) (·.get · key))

def put (s : Shelf) (key value : Bytes) : Except StoreError Unit × Shelf :=
  s.call .put (change (·.put key value) (·.put · key value))

def delete (s : Shelf) (key : Bytes) : Except StoreError Unit × Shelf :=
  s.call .delete (change (·.delete key) (·.delete · key))

def writeBatch (s : Shelf) (b : Batch) : Except StoreError Unit × Shelf :=
  s.call .batch (change (·.writeBatch b) (·.writeBatch · b))

def scanPage (s : Shelf) (start : Bytes) (after : Option Bytes) (limit : Nat) :
    Except StoreError (List Entry) × Shelf :=
  s.call .scan (look (·.scanPage start after limit) (·.scanPage · start after limit))

end Shelf

end Staging
