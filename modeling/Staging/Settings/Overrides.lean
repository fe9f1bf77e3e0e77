import Staging.Text.Characters
import Staging.Text.Digits
import Staging.Settings.Basic

/-!
Settings taken from variables of the environment. A blank variable counts as none. The variables are
looked at in a fixed order, and those before the first that cannot be read stay in effect.
-/

namespace Staging.Settings

inductive Variable
  | repositoryName
  | persistentFileName
  | sync
  | returnOldExchange
  | useRecovery
  | recoveryIntervalMs
  | maximumRedeliveries
  | deadLetterUri
  | allowSerializedHeaders
deriving DecidableEq

namespace Variable

def name : Variable → String
  | repositoryName => "AGGREPO_REPOSITORY_NAME"
  | persistentFileName => "AGGREPO_PERSISTENT_FILE_NAME"
  | sync => "AGGREPO_SYNC"
  | returnOldExchange => "AGGREPO_RETURN_OLD_EXCHANGE"
  | useRecovery => "AGGREPO_USE_RECOVERY"
  | recoveryIntervalMs => "AGGREPO_RECOVERY_INTERVAL_MS"
  | maximumRedeliveries => "AGGREPO_MAXIMUM_REDELIVERIES"
  | deadLetterUri => "AGGREPO_DEAD_LETTER_URI"
  | allowSerializedHeaders => "AGGREPO_ALLOW_SERIALIZED_HEADERS"

def all : List Variable :=
  [repositoryName, persistentFileName, sync, returnOldExchange, useRecovery, recoveryIntervalMs,
    maximumRedeliveries, deadLetterUri, allowSerializedHeaders]

end Variable

def bool? (s : String) : Option Bool :=
  let s := String.ofList (s.toList.map Char.toLower)
  if s ∈ ["1", "true", "yes", "on"] then some true
  else if s ∈ ["0", "false", "no", "off"] then some false
  else none

def readBool (v : Variable) (value : String) : Except SettingsError Bool :=
  match bool? value with
  | some b => .ok b
  | none => .error (.notBoolean v.name value)

def readInt (bits : Nat) (v : Variable) (value : String) : Except SettingsError Int :=
  let limit : Int := Nat.pow 2 (bits - 1)
  match Text.int? value with
  | some i => if -limit ≤ i ∧ i < limit then .ok i else .error (.notInteger v.name value)
  | none => .error (.notInteger v.name value)

def set (s : Settings) (v : Variable) (value : String) : Except SettingsError Settings :=
  match v with
  | .repositoryName => .ok { s with name := value }
  | .persistentFileName => .ok { s with storePath := some value }
  | .sync => (fun b => { s with sync := b }) <$> readBool v value
  | .returnOldExchange => (fun b => { s with returnOld := b }) <$> readBool v value
  | .useRecovery => (fun b => { s with useRecovery := b }) <$> readBool v value
  | .recoveryIntervalMs => (fun i => { s with intervalMs := Int64.ofInt i }) <$> readInt 64 v value
  | .maximumRedeliveries =>
    (fun i => { s with maxRedeliveries := Int32.ofInt i }) <$> readInt 32 v value
  | .deadLetterUri => .ok { s with deadLetterUri := some value }
  | .allowSerializedHeaders => (fun b => { s with keepObjectHeaders := b }) <$> readBool v value

def given? (lookup : String → Option String) (v : Variable) : Option String :=
  (lookup v.name).bind fun raw =>
    let text := Text.trim raw
    if text = "" then none else some text

def withEach (lookup : String → Option String) :
    List Variable → Settings → Except SettingsError Unit × Settings
  | [], s => (.ok (), s)
  | v :: vs, s =>
    match given? lookup v with
    | none => withEach lookup vs s
    | some value =>
      match s.set v value with
      | .error e => (.error e, s)
      | .ok s => withEach lookup vs s

def withVariables (s : Settings) (lookup : String → Option String) :
    Except SettingsError Unit × Settings :=
  withEach lookup Variable.all s

end Staging.Settings
