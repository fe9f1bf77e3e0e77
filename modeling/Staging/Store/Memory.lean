import Staging.Store.Table

/-!
A store that lives in memory and may be bounded. Every write makes its key the newest; a full store
either refuses a write or drops its oldest keys.
-/

namespace Staging

inductive Eviction
  | reject
  | oldest
deriving DecidableEq

structure Bound where
  capacity : Nat
  positive : 0 < capacity
  eviction : Eviction
deriving DecidableEq

structure Written where
  value : Bytes
  seq : Nat
deriving DecidableEq

namespace MemoryStore

/-- The entries, and their keys by the numbers of the writes, oldest first. -/
structure Contents where
  entries : SortedMap Bytes Written
  writeOrder : SortedMap Nat Bytes
  nextSeq : Nat
deriving DecidableEq

namespace Contents

def empty : Contents := ⟨.empty, .empty, 0⟩

def size (c : Contents) : Nat := c.entries.size

def insert (c : Contents) (key value : Bytes) : Contents :=
  let order := match c.entries.get? key with
    | some old => c.writeOrder.erase old.seq
    | none => c.writeOrder
  ⟨c.entries.insert key ⟨value, c.nextSeq⟩, order.insert c.nextSeq key, c.nextSeq + 1⟩

def remove (c : Contents) (key : Bytes) : Contents :=
  match c.entries.get? key with
  | some old => { c with entries := c.entries.erase key, writeOrder := c.writeOrder.erase old.seq }
  | none => c

def write (c : Contents) : WriteOp → Contents
  | .put key value => c.insert key value
  | .delete key => c.remove key

def writeAll (c : Contents) (b : Batch) : Contents := b.foldl write c

def shrinkAlong (capacity : Nat) : List (Nat × Bytes) → Contents → Contents
  | [], c => c
  | (seq, key) :: order, c =>
    if c.size ≤ capacity then c
    else shrinkAlong capacity order
      { c with entries := c.entries.erase key, writeOrder := c.writeOrder.erase seq }

def shrinkTo (capacity : Nat) (c : Contents) : Contents :=
  shrinkAlong capacity c.writeOrder.entries c

def lastWrites (b : Batch) : SortedMap Bytes Bool :=
  b.foldl (fun m op => m.insert op.key (op matches .put _ _)) .empty

def projectedSize (c : Contents) (b : Batch) : Nat :=
  (lastWrites b).entries.foldl (fun n p =>
    match c.entries.contains p.1, p.2 with
    | false, true => n + 1
    | true, false => n - 1
    | _, _ => n) c.size

def table (c : Contents) : List Entry := c.entries.entries.map (fun p => (p.1, p.2.value))

end Contents

end MemoryStore

structure MemoryStore where
  contents : MemoryStore.Contents
  isOpen : Bool
  bound : Option Bound
deriving DecidableEq

namespace MemoryStore

def new : MemoryStore := ⟨.empty, false, none⟩

def bounded (bound : Bound) : MemoryStore := ⟨.empty, false, some bound⟩

def accept (m : MemoryStore) (projected : Nat) : Except StoreError Unit :=
  match m.bound with
  | some ⟨capacity, _, .reject⟩ =>
    if capacity < projected then .error (.capacityExceeded capacity) else .ok ()
  | _ => .ok ()

def shrink (m : MemoryStore) (c : Contents) : MemoryStore :=
  { m with contents := match m.bound with
    | some b => c.shrinkTo b.capacity
    | none => c }

def opened (m : MemoryStore) : MemoryStore := { m with isOpen := true }

def closed (m : MemoryStore) : MemoryStore := { m with isOpen := false }

def get (m : MemoryStore) (key : Bytes) : Except StoreError (Option Bytes) :=
  if m.isOpen then .ok ((m.contents.entries.get? key).map (·.value)) else .error .closed

def put (m : MemoryStore) (key value : Bytes) : Except StoreError Unit × MemoryStore :=
  if m.isOpen then
    let projected := m.contents.size + if m.contents.entries.contains key then 0 else 1
    match m.accept projected with
    | .ok () => (.ok (), m.shrink (m.contents.insert key value))
    | .error e => (.error e, m)
  else (.error .closed, m)

def delete (m : MemoryStore) (key : Bytes) : Except StoreError Unit × MemoryStore :=
  if m.isOpen then (.ok (), { m with contents := m.contents.remove key }) else (.error .closed, m)

def writeBatch (m : MemoryStore) (b : Batch) : Except StoreError Unit × MemoryStore :=
  if m.isOpen then
    match m.accept (m.contents.projectedSize b) with
    | .ok () => (.ok (), m.shrink (m.contents.writeAll b))
    | .error e => (.error e, m)
  else (.error .closed, m)

def scanPage (m : MemoryStore) (start : Bytes) (after : Option Bytes) (limit : Nat) :
    Except StoreError (List Entry) :=
  if m.isOpen then
    let rest := m.contents.table.dropWhile fun p =>
      match after with
      | some key => p.1 ≤ key
      | none => p.1 < start
    .ok ((rest.takeWhile (fun p => p.1.startsWith start)).take limit)
  else .error .closed

end MemoryStore

end Staging
