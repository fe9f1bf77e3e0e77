import Staging.Disk
import Staging.Json.Reader
import Staging.Settings.Overrides

namespace Staging

open Json (Fault Spelled)

inductive LoadError
  | settings (e : SettingsError)
  | io
  | json (f : Fault)
deriving DecidableEq

def LoadError.message : LoadError → String
  | settings e => "Configuration error: " ++ e.message
  | io => "IO error: "
  | json _ => "JSON error: "

namespace Settings

def optionJson : Option String → Json
  | some s => .text s
  | none => .null

def members (s : Settings) : List (String × Json) :=
  [("repository_name", .text s.name), ("persistent_file_name", optionJson s.storePath),
    ("sync", .bool s.sync), ("return_old_exchange", .bool s.returnOld),
    ("use_recovery", .bool s.useRecovery), ("recovery_interval_ms", .ofInt s.intervalMs.toInt),
    ("maximum_redeliveries", .ofInt s.maxRedeliveries.toInt),
    ("dead_letter_uri", optionJson s.deadLetterUri),
    ("allow_serialized_headers", .bool s.keepObjectHeaders)]

def toJson (s : Settings) : Json := .object s.members

def fieldNames : List String :=
  ["repository_name", "persistent_file_name", "sync", "return_old_exchange", "use_recovery",
    "recovery_interval_ms", "maximum_redeliveries", "dead_letter_uri", "allow_serialized_headers"]

def readField (s : Settings) (name : String) (v : Spelled) : Except Fault Settings :=
  if name = "repository_name" then (fun x => { s with name := x }) <$> v.readText
  else if name = "persistent_file_name" then
    (fun x => { s with storePath := x }) <$> v.readOption Spelled.readText
  else if name = "sync" then (fun x => { s with sync := x }) <$> v.readBool
  else if name = "return_old_exchange" then (fun x => { s with returnOld := x }) <$> v.readBool
  else if name = "use_recovery" then (fun x => { s with useRecovery := x }) <$> v.readBool
  else if name = "recovery_interval_ms" then
    (fun i => { s with intervalMs := Int64.ofInt i }) <$> v.readInt (-0x8000000000000000) 0x7fffffffffffffff
  else if name = "maximum_redeliveries" then
    (fun i => { s with maxRedeliveries := Int32.ofInt i }) <$> v.readInt (-0x80000000) 0x7fffffff
  else if name = "dead_letter_uri" then
    (fun x => { s with deadLetterUri := x }) <$> v.readOption Spelled.readText
  else (fun x => { s with keepObjectHeaders := x }) <$> v.readBool

def read (v : Spelled) : Except Fault Settings := v.readRecord fieldNames readField default

def ofText (b : Bytes) : Except LoadError Settings :=
  if b.toString?.isNone then .error .io
  else match Json.decode read b with
    | .ok s => .ok s
    | .error f => .error (.json f)

def loadFile (d : Disk) (path : String) : Except LoadError Settings :=
  match d.read path with
  | .ok (.bytes b) => ofText b
  | _ => .error .io

def load (d : Disk) (path : Option String) (lookup : String → Option String) :
    Except LoadError Settings := do
  let s ← match path with
    | some p => if d.exists? p then loadFile d p else .ok default
    | none => .ok default
  match s.withVariables lookup with
  | (.ok (), s) => .ok s
  | (.error e, _) => .error (.settings e)

def text (s : Settings) : Bytes := s.toJson.pretty

def save (s : Settings) (d : Disk) (path : String) : Except LoadError Unit × Disk :=
  let (x, d) := d.write path s.text
  (x.mapError (fun _ => .io), d)

end Settings

end Staging
