import Staging.Bytes
import Staging.SortedMap

namespace Staging

inductive StoreError
  | database
  | io
  | closed
  | capacityExceeded (capacity : Nat)
  | backend (reason : String)
deriving DecidableEq

def StoreError.message : StoreError → String
  | database => "SQLite error: "
  | io => "IO error: "
  | closed => "store is closed"
  | capacityExceeded n => "capacity exceeded: store holds at most " ++ toString n ++ " entries"
  | backend reason => "store failure: " ++ reason

abbrev Entry := Bytes × Bytes

inductive WriteOp
  | put (key value : Bytes)
  | delete (key : Bytes)
deriving DecidableEq

def WriteOp.key : WriteOp → Bytes
  | put key _ => key
  | delete key => key

abbrev Batch := List WriteOp

abbrev Table := SortedMap Bytes Bytes

namespace Table

def write (t : Table) : WriteOp → Table
  | .put key value => t.insert key value
  | .delete key => t.erase key

def writeAll (t : Table) (b : Batch) : Table := b.foldl write t

end Table

def Bytes.successorReversed : Bytes → Option Bytes
  | [] => none
  | b :: r => if b < 255 then some ((b + 1) :: r) else successorReversed r

def Bytes.successor? (start : Bytes) : Option Bytes :=
  (successorReversed start.reverse).map List.reverse

end Staging
