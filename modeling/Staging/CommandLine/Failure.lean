import Staging.Delivery.Basic
import Staging.Settings.Document
import Staging.Repository.Basic

namespace Staging.CommandLine

inductive Failure
  | noConfigFile (path : String)
  | loading (path : Option String) (cause : LoadError)
  | noStore
  | openingRepository (name : String) (cause : RepositoryError)
  | noDeadLetter
  | unsupportedDestination (destination : String)
  | openingDestination (destination : String) (cause : DeliveryError)
  | noLiveEntry (key : String)
  | noCompletedEntry (id : String)
  | recoveryDisabled (name : String)
  | repository (e : RepositoryError)
  | unrecovered (count : Nat)
deriving DecidableEq

namespace Failure

def message : Failure → String
  | noConfigFile path => "config file " ++ path ++ " does not exist"
  | loading (some path) _ =>
    "failed to load configuration from Some(" ++ Text.quoted path ++ ")"
  | loading none _ => "failed to load configuration from None"
  | noStore => "no store configured: pass --store or set persistent_file_name"
  | openingRepository name _ => "failed to open repository " ++ Text.quoted name
  | noDeadLetter => "dead_letter_uri is not configured"
  | unsupportedDestination destination =>
    "unsupported dead letter destination " ++ Text.quoted destination ++ ", expected file:<path>"
  | openingDestination destination _ =>
    "failed to open dead letter destination " ++ Text.quoted destination
  | noLiveEntry key => "no live entry for key " ++ Text.quoted key
  | noCompletedEntry id => "no completed entry for exchange " ++ Text.quoted id
  | recoveryDisabled name => "recovery is disabled for repository " ++ Text.quoted name
  | repository e => e.message
  | unrecovered count => toString count ++ " exchange(s) could not be recovered"

def cause? : Failure → Option String
  | loading _ cause => some cause.message
  | openingRepository _ cause => some cause.message
  | openingDestination _ cause => some cause.message
  | repository (.store _ _ source) => some source.message
  | repository (.codec _ _ source) => some source.message
  | _ => none

end Failure

end Staging.CommandLine
