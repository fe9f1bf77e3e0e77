import Staging.Disk
import Staging.Text.Base64
import Staging.Text.Characters
import Staging.Delivery.Basic

namespace Staging

open Json (Fault Spelled)

structure DeadLetter where
  destination : String
  exchangeId : String
  snapshot : String
  timestamp : String
deriving DecidableEq

namespace DeadLetter

def ofExchange (destination : String) (e : Exchange) (now : Instant) :
    Except CodecError DeadLetter := do
  let b ← Snapshot.marshal true e
  return ⟨destination, e.id, String.ofList (Base64.encode b).asciiChars, now.renderWithOffset⟩

def exchange (r : DeadLetter) : Except DeliveryError Exchange :=
  match Base64.decode? (Bytes.ofString r.snapshot) with
  | none => .error .base64
  | some b => (Snapshot.unmarshal b).mapError .codec

def toJson (r : DeadLetter) : Json :=
  .object [("destination", .text r.destination), ("exchange_id", .text r.exchangeId),
    ("snapshot_b64", .text r.snapshot), ("timestamp", .text r.timestamp)]

def line (r : DeadLetter) : Bytes := r.toJson.compact ++ [Ascii.lineFeed]

def fieldNames : List String := ["destination", "exchange_id", "snapshot_b64", "timestamp"]

structure Draft where
  destination : Option String
  exchangeId : Option String
  snapshot : Option String
  timestamp : Option String

def readField (d : Draft) (name : String) (s : Spelled) : Except Fault Draft := do
  let x ← s.readText
  if name = "destination" then return { d with destination := some x }
  else if name = "exchange_id" then return { d with exchangeId := some x }
  else if name = "snapshot_b64" then return { d with snapshot := some x }
  else return { d with timestamp := some x }

def read (s : Spelled) : Except Fault DeadLetter := do
  match ← s.readRecord fieldNames readField ⟨none, none, none, none⟩ with
  | ⟨some destination, some id, some snapshot, some timestamp⟩ =>
    return ⟨destination, id, snapshot, timestamp⟩
  | _ => .error .mismatch

def ofLine (l : Bytes) : Except DeliveryError (Option DeadLetter) :=
  match l.toString? with
  | none => .error .io
  | some s =>
    if Text.trim s = "" then .ok none
    else match Json.decode read l with
      | .ok r => .ok (some r)
      | .error f => .error (.json f)

def ofText (b : Bytes) : Except DeliveryError (List DeadLetter) := do
  return (← b.lines.mapM ofLine).filterMap id

end DeadLetter

structure DeadLetterFile where
  path : String
  place : Path
deriving DecidableEq

namespace DeadLetterFile

def openOn (path : String) (d : Disk) : Except DeliveryError DeadLetterFile × Disk :=
  match d.makeParents path with
  | (.error _, d) => (.error .io, d)
  | (.ok (), d) =>
    match d.place? path with
    | none => (.error .io, d)
    | some p => (.ok ⟨path, p⟩, d.touch p)

def scheme : String := "file:"

def pathOf? (destination : String) : Option String :=
  match Bytes.dropStart? (Bytes.ofString scheme) (Bytes.ofString destination) with
  | some (b :: r) => Bytes.toString? (b :: r)
  | _ => none

def append (f : DeadLetterFile) (d : Disk) (b : Bytes) : Disk :=
  match d.files.get? f.place with
  | some (.bytes a) => d.put f.place (.bytes (a ++ b))
  | some (.table _) => d
  | none => d.put f.place (.bytes b)

def send (f : DeadLetterFile) (now : Instant) (destination : String) (e : Exchange) (d : Disk) :
    Except DeliveryError Unit × Disk :=
  match DeadLetter.ofExchange destination e now with
  | .error err => (.error (.codec err), d)
  | .ok r => (.ok (), f.append d r.line)

def records (path : String) (d : Disk) : Except DeliveryError (List DeadLetter) :=
  match d.read path with
  | .ok (.bytes b) => DeadLetter.ofText b
  | .ok (.table _) => .error .io
  | .error .notFound => .ok []
  | .error .refused => .error .io

def describe (f : DeadLetterFile) : String :=
  "JsonlDeadLetterFile \x7b path: " ++ Text.quoted f.path ++ " \x7d"

end DeadLetterFile

end Staging
