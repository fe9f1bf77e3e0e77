import Staging.Store.Connection
import Staging.Text.Characters

namespace Staging

structure DurableStore where
  path : Option String
  sync : Bool
  busyTimeoutMs : Nat
  connection : Option Connection
deriving DecidableEq

namespace DurableStore

def inMemory : DurableStore := ⟨none, false, 5000, none⟩

def onFile (path : String) (sync : Bool) (busyTimeoutMs : Nat) : DurableStore :=
  ⟨some path, sync, busyTimeoutMs, none⟩

def isOpen (s : DurableStore) : Bool := s.connection.isSome

def openOn (s : DurableStore) (d : Disk) : Except StoreError Unit × DurableStore × Disk :=
  if s.isOpen then (.ok (), s, d)
  else match Connection.ofName s.path d with
    | (.ok c, d) => (.ok (), { s with connection := some c }, d)
    | (.error e, d) => (.error e, s, d)

def close (s : DurableStore) (d : Disk) : DurableStore × Disk :=
  match s.connection with
  | some c => ({ s with connection := none }, c.close d)
  | none => (s, d)

def table (s : DurableStore) (d : Disk) : Except StoreError Table :=
  match s.connection with
  | some c => c.table d
  | none => .error .closed

def setTable (s : DurableStore) (d : Disk) (t : Table) : DurableStore × Disk :=
  match s.connection with
  | some c =>
    let (c, d) := c.setTable d t
    ({ s with connection := some c }, d)
  | none => (s, d)

def isReadOnly (s : DurableStore) (d : Disk) : Bool := s.connection.any (·.isReadOnly d)

def get (s : DurableStore) (d : Disk) (key : Bytes) : Except StoreError (Option Bytes) :=
  (fun t => t.get? key) <$> s.table d

def writeBatch (s : DurableStore) (d : Disk) (b : Batch) :
    Except StoreError Unit × DurableStore × Disk :=
  match s.table d with
  | .ok t =>
    if b.isEmpty then (.ok (), s, d)
    else if s.isReadOnly d then (.error .database, s, d)
    else (.ok (), s.setTable d (t.writeAll b))
  | .error e => (.error e, s, d)

def put (s : DurableStore) (d : Disk) (key value : Bytes) :
    Except StoreError Unit × DurableStore × Disk :=
  s.writeBatch d [.put key value]

def delete (s : DurableStore) (d : Disk) (key : Bytes) :
    Except StoreError Unit × DurableStore × Disk :=
  s.writeBatch d [.delete key]

def scanPage (s : DurableStore) (d : Disk) (start : Bytes) (after : Option Bytes) (limit : Nat) :
    Except StoreError (List Entry) := do
  let t ← s.table d
  let above (k : Bytes) : Bool := match after with
    | some key => key < k
    | none => start ≤ k
  let below (k : Bytes) : Bool := match start.successor? with
    | some upper => k < upper
    | none => true
  let rows := (t.entries.filter (fun p => above p.1 && below p.1)).take limit
  return rows.takeWhile (fun p => p.1.startsWith start)

/-- 1 stands for syncing at checkpoints, 2 for syncing every write. -/
def syncLevel (s : DurableStore) : Except StoreError Nat :=
  if s.isOpen then .ok (if s.sync then 2 else 1) else .error .closed

def describe (s : DurableStore) : String :=
  let path := match s.path with
    | some p => "Some(" ++ Text.quoted p ++ ")"
    | none => "None"
  let ms := s.busyTimeoutMs
  let timeout := if ms % 1000 = 0 then toString (ms / 1000) ++ "s" else toString ms ++ "ms"
  "SqliteStore \x7b path: " ++ path ++ ", options: SqliteOptions \x7b sync: " ++
    (if s.sync then "true" else "false") ++ ", busy_timeout: " ++ timeout ++ " \x7d, open: " ++
    (if s.isOpen then "true" else "false") ++ " \x7d"

end DurableStore

end Staging
