import Staging.Json.Basic
import Staging.Instant.Basic

namespace Staging

inductive NamedValue
  | null
  | bool (b : Bool)
  | int (n : Int64)
  | float (x : Binary64)
  | text (s : String)
  | object (value : Payload)
deriving DecidableEq

namespace NamedValue

def isPrimitive : NamedValue → Bool
  | object _ => false
  | _ => true

def bool? : NamedValue → Option Bool
  | bool b => some b
  | _ => none

def int? : NamedValue → Option Int64
  | int n => some n
  | _ => none

def text? : NamedValue → Option String
  | text s => some s
  | _ => none

end NamedValue

abbrev Headers := SortedMap String NamedValue

structure Exchange where
  id : String
  createdAt : Instant
  body : Payload
  headers : Headers
  properties : Headers
deriving DecidableEq

namespace Exchange

def redeliveredHeader : String := "AggregationRedelivered"

def counterHeader : String := "AggregationRedeliveryCounter"

def maximumHeader : String := "AggregationRedeliveryMaxCounter"

def setHeader (e : Exchange) (name : String) (value : NamedValue) : Exchange :=
  { e with headers := e.headers.insert name value }

def setProperty (e : Exchange) (name : String) (value : NamedValue) : Exchange :=
  { e with properties := e.properties.insert name value }

def header? (e : Exchange) (name : String) : Option NamedValue := e.headers.get? name

def property? (e : Exchange) (name : String) : Option NamedValue := e.properties.get? name

def isRedelivered (e : Exchange) : Bool :=
  ((e.header? redeliveredHeader).bind NamedValue.bool?).getD false

def redeliveryCount (e : Exchange) : UInt32 :=
  match (e.header? counterHeader).bind NamedValue.int? with
  | some n => if 0 ≤ n.toInt ∧ n.toInt < 0x100000000 then UInt32.ofNat n.toInt.toNat else 0
  | none => 0

def stamp (e : Exchange) (attempt : UInt32) (maximum : Int32) : Exchange :=
  ((e.setHeader redeliveredHeader (.bool true)).setHeader counterHeader
    (.int (Int64.ofNat attempt.toNat))).setHeader maximumHeader (.int maximum.toInt64)

def dropObjects (e : Exchange) : Exchange :=
  { e with headers := e.headers.filter (fun _ v => v.isPrimitive) }

end Exchange

end Staging
