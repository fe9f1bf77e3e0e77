import Staging.Exchange.Basic
import Staging.Instant.Reader
import Staging.Json.Reader

/-!
Exchanges as JSON. A header value is an object with its kind and its value, in either order, or an
array of the two; an exchange is an object with its fields, or an array of them.
-/

namespace Staging

open Json (Fault Spelled)

namespace NamedValue

inductive Kind
  | null
  | bool
  | int
  | float
  | text
  | object
deriving DecidableEq

def Kind.name : Kind → String
  | null => "null"
  | bool => "bool"
  | int => "int"
  | float => "float"
  | text => "text"
  | object => "object"

def Kind.ofName? (s : String) : Option Kind :=
  [null, bool, int, float, text, object].find? (·.name = s)

def kind : NamedValue → Kind
  | .null => .null
  | .bool _ => .bool
  | .int _ => .int
  | .float _ => .float
  | .text _ => .text
  | .object _ => .object

def floatJson : Binary64 → Json
  | .finite x => .number (.float x)
  | _ => .null

def content? : NamedValue → Option Json
  | .null => none
  | .bool b => some (.bool b)
  | .int n => some (.ofInt n.toInt)
  | .float x => some (floatJson x)
  | .text s => some (.text s)
  | .object p => some p.json

def toJson (v : NamedValue) : Json :=
  .object (("type", .text v.kind.name) :: (v.content?.map (fun j => ("value", j))).toList)

/-- Arrays and objects that a header's value may open: three are open around it. -/
def room : Nat := Json.maxDepth - 3

def kindNamed (s : String) : Except Fault Kind :=
  match Kind.ofName? s with
  | some k => .ok k
  | none => .error .mismatch

def readKindText (s : Spelled) : Except Fault Kind := s.readText >>= kindNamed

def readKind : Spelled → Except Fault Kind
  | .text s => s >>= kindNamed
  | .object [] cut => .error (cut.getD .malformed)
  | .object ((.missing kept _, _) :: _) _ => .error kept
  | .object ((.unreadable f, _) :: _) _ => .error f
  | .object ((.text s, v) :: more) cut => do
    let k ← kindNamed s
    v.readNull
    if more.isEmpty then
      Spelled.endOf cut
      return k
    else .error .malformed
  | .broken b => .error b.named
  | _ => .error .malformed

def readContent (k : Kind) (s : Spelled) : Except Fault NamedValue :=
  match k with
  | .null => (fun _ => NamedValue.null) <$> s.readNull
  | .bool => NamedValue.bool <$> s.readBool
  | .int => (fun i => NamedValue.int (Int64.ofInt i)) <$> s.readInt (-0x8000000000000000) 0x7fffffffffffffff
  | .float => (fun x => NamedValue.float (.finite x)) <$> s.readFinite
  | .text => NamedValue.text <$> s.readText
  | .object => NamedValue.object <$> s.readPayload room

inductive Draft
  | blank
  | kinded (k : Kind)
  | contained (s : Spelled)
  | done (v : NamedValue)

def readMember (d : Draft) (name : String) (s : Spelled) : Except Fault Draft :=
  if name = "type" then
    match d with
    | .blank => Draft.kinded <$> readKind s
    | .contained c => do
      let k ← readKind s
      let v ← readContent k c
      return .done v
    | _ => .error .mismatch
  else if name = "value" then
    match d with
    | .blank => do
      let _ ← s.readJson room
      return .contained s
    | .kinded k => Draft.done <$> readContent k s
    | _ => .error .mismatch
  else do
    s.skip
    return d

def Draft.finish : Draft → Except Fault NamedValue
  | .done v => .ok v
  | .kinded .null => .ok .null
  | _ => .error .mismatch

def read : Spelled → Except Fault NamedValue
  | .object members cut => do
    let d ← members.foldlM (fun d p => do
      let name ← Spelled.Name.read p.1
      readMember d name p.2) Draft.blank
    Spelled.endOf cut
    d.finish
  | .array (t :: v :: more) cut => do
    let k ← readKindText t
    let v ← readContent k v
    if more.isEmpty then
      Spelled.endOf cut
      return v
    else .error .malformed
  | .array (t :: []) cut => do
    let _ ← readKindText t
    Spelled.endOf cut
    .error .mismatch
  | .array [] cut => do
    Spelled.endOf cut
    .error .mismatch
  | s => .error s.fault

end NamedValue

namespace Headers

def toJson (h : Headers) : Json := .object (h.entries.map (fun p => (p.1, p.2.toJson)))

def read (s : Spelled) : Except Fault Headers := s.readMap NamedValue.read

end Headers

def Instant.read (s : Spelled) : Except Fault Instant := do
  match Instant.read? (← s.readText) with
  | some t => .ok t
  | none => .error .mismatch

namespace Exchange

def members (e : Exchange) : List (String × Json) :=
  [("exchange_id", .text e.id), ("created_at", .text e.createdAt.render), ("body", e.body.json),
    ("headers", Headers.toJson e.headers), ("properties", Headers.toJson e.properties)]

def toJson (e : Exchange) : Json := .object e.members

def fieldNames : List String := ["exchange_id", "created_at", "body", "headers", "properties"]

structure Draft where
  id : Option String
  createdAt : Option Instant
  body : Option Payload
  headers : Option Headers
  properties : Option Headers

def Draft.blank : Draft := ⟨none, none, none, none, none⟩

def readField (d : Draft) (name : String) (s : Spelled) : Except Fault Draft :=
  if name = "exchange_id" then (fun x => { d with id := some x }) <$> s.readText
  else if name = "created_at" then (fun x => { d with createdAt := some x }) <$> Instant.read s
  else if name = "body" then
    (fun x => { d with body := some x }) <$> s.readPayload (Json.maxDepth - 1)
  else if name = "headers" then (fun x => { d with headers := some x }) <$> Headers.read s
  else (fun x => { d with properties := some x }) <$> Headers.read s

def Draft.finish (d : Draft) : Except Fault Exchange :=
  match d.id, d.createdAt, d.body with
  | some id, some createdAt, some body =>
    .ok ⟨id, createdAt, body, d.headers.getD .empty, d.properties.getD .empty⟩
  | _, _, _ => .error .mismatch

def read (s : Spelled) : Except Fault Exchange := do
  let d ← s.readRecord fieldNames readField Draft.blank
  d.finish

end Exchange

end Staging
