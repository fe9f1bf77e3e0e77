import Staging.KeySpace

namespace Staging

structure Settings where
  name : String
  storePath : Option String
  sync : Bool
  returnOld : Bool
  useRecovery : Bool
  intervalMs : Int64
  maxRedeliveries : Int32
  deadLetterUri : Option String
  keepObjectHeaders : Bool
deriving DecidableEq

inductive SettingsError
  | name (e : NameError)
  | negativeRedeliveries (n : Int32)
  | negativeInterval (n : Int64)
  | zeroInterval
  | noDeadLetter
  | recoveryDisabled (repository : String)
  | noStorePath
  | notBoolean (setting value : String)
  | notInteger (setting value : String)
deriving DecidableEq

def SettingsError.message : SettingsError → String
  | name e => e.message
  | negativeRedeliveries n =>
    "maximum_redeliveries must be zero or positive, got " ++ toString n.toInt
  | negativeInterval n => "recovery_interval_ms must be zero or positive, got " ++ toString n.toInt
  | zeroInterval => "recovery_interval_ms must be positive when recovery is enabled"
  | noDeadLetter => "dead_letter_uri is required when recovery is enabled"
  | recoveryDisabled repository => "recovery is disabled for repository " ++ repository
  | noStorePath => "persistent_file_name is required to open a durable repository"
  | notBoolean setting value => setting ++ " must be a boolean, got " ++ Text.quoted value
  | notInteger setting value => setting ++ " must be an integer, got " ++ Text.quoted value

namespace Settings

def default : Settings := ⟨"", none, false, false, true, 5000, 3, none, false⟩

def named (name : String) : Settings := { default with name := name }

def validate (s : Settings) : Except SettingsError KeySpace :=
  match KeySpace.ofName s.name with
  | .error e => .error (.name e)
  | .ok k =>
    if s.maxRedeliveries < 0 then .error (.negativeRedeliveries s.maxRedeliveries)
    else if s.intervalMs < 0 then .error (.negativeInterval s.intervalMs)
    else .ok k

def validateRecovery (s : Settings) : Except SettingsError Unit := do
  let _ ← s.validate
  if !s.useRecovery then return ()
  else if s.intervalMs = 0 then .error .zeroInterval
  else if s.deadLetterUri.getD "" = "" then .error .noDeadLetter
  else return ()

def interval (s : Settings) : Nat := s.intervalMs.toInt.toNat

end Settings

end Staging
