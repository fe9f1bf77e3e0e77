import Staging.Exchange.Document
import Staging.Text.Characters

/-!
Snapshots: exchanges as stored bytes. A snapshot is a JSON object with a version and the fields of
the exchange. JSON has no text for numbers that are not finite, so an exchange with one is refused.
-/

namespace Staging

open Json (Fault Spelled)

inductive CodecError
  | json (fault : Fault)
  | unsupportedVersion (version : Nat)
  | nonFinite (field name : String) (value : Binary64)
  | custom (reason : String)
deriving DecidableEq

def Binary64.describe : Binary64 → String
  | .nan => "NaN"
  | .infinite true => "-inf"
  | .infinite false => "inf"
  | .finite _ => "finite"

namespace CodecError

def message : CodecError → String
  | json _ => "JSON error: "
  | unsupportedVersion v => "unsupported snapshot version " ++ toString v
  | nonFinite field name value =>
    field ++ " " ++ Text.quoted name ++ " holds non-finite number " ++ value.describe
  | custom reason => "codec failure: " ++ reason

end CodecError

structure Codec where
  marshal : Bool → Exchange → Except CodecError Bytes
  unmarshal : Bytes → Except CodecError Exchange

namespace Snapshot

def version : Nat := 1

def nonFinite? (h : Headers) : Option (String × Binary64) :=
  h.entries.findSome? fun p =>
    match p.2 with
    | .float x => if x.isFinite then none else some (p.1, x)
    | _ => none

def refuseNonFinite (e : Exchange) : Except CodecError Unit :=
  match nonFinite? e.headers, nonFinite? e.properties with
  | some (name, x), _ => .error (.nonFinite "header" name x)
  | none, some (name, x) => .error (.nonFinite "property" name x)
  | none, none => .ok ()

def toJson (e : Exchange) : Json := .object (("version", .ofNat version) :: e.members)

def marshal (keepObjects : Bool) (e : Exchange) : Except CodecError Bytes := do
  let e := if keepObjects then e else e.dropObjects
  refuseNonFinite e
  return (toJson e).compact

structure Draft where
  version : Option Nat
  exchange : Exchange.Draft

def readField (d : Draft) (name : String) (s : Spelled) : Except Fault Draft :=
  if name = "version" then
    (fun v => { d with version := some v.toNat }) <$> s.readInt 0 0xffffffff
  else (fun x => { d with exchange := x }) <$> Exchange.readField d.exchange name s

def read (s : Spelled) : Except Fault (Nat × Exchange) := do
  let d ← s.readRecord ("version" :: Exchange.fieldNames) readField ⟨none, .blank⟩
  match d.version with
  | none => .error .mismatch
  | some v => return (v, ← d.exchange.finish)

def unmarshal (b : Bytes) : Except CodecError Exchange :=
  match Json.decode read b with
  | .error f => .error (.json f)
  | .ok (v, e) => if v = version then .ok e else .error (.unsupportedVersion v)

def codec : Codec := ⟨marshal, unmarshal⟩

end Snapshot

end Staging
