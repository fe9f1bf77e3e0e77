import Staging.Snapshot

namespace Staging

open Json (Fault)

inductive DeliveryError
  | rejected (reason : String)
  | io
  | json (fault : Fault)
  | codec (source : CodecError)
  | base64
deriving DecidableEq

def DeliveryError.message : DeliveryError → String
  | rejected reason => "delivery rejected: " ++ reason
  | io => "IO error: "
  | json _ => "JSON error: "
  | codec source => "codec error: " ++ source.message
  | base64 => "base64 decode error: "

structure Inbox where
  delivered : List Exchange
  failing : Bool
deriving DecidableEq

namespace Inbox

def empty : Inbox := ⟨[], false⟩

def redeliver (b : Inbox) (e : Exchange) : Except DeliveryError Unit × Inbox :=
  if b.failing then (.error (.rejected ("redelivery of " ++ e.id ++ " refused")), b)
  else (.ok (), { b with delivered := b.delivered ++ [e] })

def count (b : Inbox) (id : String) : Nat := b.delivered.countP (·.id = id)

end Inbox

structure DeadLetterBox where
  sent : List (String × Exchange)
  failing : Bool
deriving DecidableEq

namespace DeadLetterBox

def empty : DeadLetterBox := ⟨[], false⟩

def send (b : DeadLetterBox) (destination : String) (e : Exchange) :
    Except DeliveryError Unit × DeadLetterBox :=
  if b.failing then
    (.error (.rejected ("dead letter " ++ destination ++ " refused " ++ e.id)), b)
  else (.ok (), { b with sent := b.sent ++ [(destination, e)] })

def count (b : DeadLetterBox) (id : String) : Nat := b.sent.countP (·.2.id = id)

end DeadLetterBox

def Exchange.line (e : Exchange) : Bytes := e.toJson.compact ++ [Ascii.lineFeed]

end Staging
