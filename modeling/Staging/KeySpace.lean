import Staging.Bytes
import Staging.Text.Characters

/-!
The keys of a repository in a store that it shares with others. A live entry stands under
`name NUL key`, a completed one under `name-completed NUL id`.
-/

namespace Staging

inductive NameError
  | missing
  | separator (name : String)
  | completed (name : String)
deriving DecidableEq

namespace KeySpace

def separator : UInt8 := 0

def completedSuffix : String := "-completed"

end KeySpace

def NameError.message : NameError → String
  | missing => "repository_name is required"
  | separator name => "repository_name " ++ Text.quoted name ++ " must not contain the NUL separator"
  | completed name =>
    "repository_name " ++ Text.quoted name ++ " must not end with " ++
      Text.quoted KeySpace.completedSuffix

namespace KeySpace

structure IsName (name : String) : Prop where
  nonempty : name ≠ ""
  noSeparator : separator ∉ Bytes.ofString name
  noSuffix : ¬ Bytes.ofString completedSuffix <:+ Bytes.ofString name

def checkName (name : String) : Except NameError (PLift (IsName name)) :=
  if h₁ : name = "" then .error .missing
  else if h₂ : separator ∈ Bytes.ofString name then .error (.separator name)
  else if h₃ : Bytes.ofString completedSuffix <:+ Bytes.ofString name then .error (.completed name)
  else .ok ⟨h₁, h₂, h₃⟩

end KeySpace

structure KeySpace where
  name : String
  isName : KeySpace.IsName name

namespace KeySpace

def ofName (name : String) : Except NameError KeySpace :=
  (fun h => ⟨name, h.down⟩) <$> checkName name

def completedName (k : KeySpace) : String := k.name ++ completedSuffix

def livePrefix (k : KeySpace) : Bytes := Bytes.ofString k.name ++ [separator]

def completedPrefix (k : KeySpace) : Bytes := Bytes.ofString k.completedName ++ [separator]

def liveKey (k : KeySpace) (key : String) : Bytes := k.livePrefix ++ Bytes.ofString key

def completedKey (k : KeySpace) (id : String) : Bytes := k.completedPrefix ++ Bytes.ofString id

def decodeLive? (k : KeySpace) (raw : Bytes) : Option String :=
  (Bytes.dropStart? k.livePrefix raw).bind Bytes.toString?

def decodeCompleted? (k : KeySpace) (raw : Bytes) : Option String :=
  (Bytes.dropStart? k.completedPrefix raw).bind Bytes.toString?

@[simp] theorem decodeCompleted?_completedKey (k : KeySpace) (id : String) :
    k.decodeCompleted? (k.completedKey id) = some id := by
  simp [decodeCompleted?, completedKey]

end KeySpace

end Staging
