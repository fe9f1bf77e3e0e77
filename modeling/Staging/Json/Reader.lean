import Staging.Json.Spelled

namespace Staging.Json

namespace Spelled

def fault : Spelled → Fault
  | .broken b => b.kept
  | .number (.error f) => f
  | .text (.error f) => f
  | _ => .mismatch

def readText : Spelled → Except Fault String
  | .text (.ok s) => .ok s
  | s => .error s.fault

def readBool : Spelled → Except Fault Bool
  | .bool b => .ok b
  | s => .error s.fault

def readInt (least greatest : Int) : Spelled → Except Fault Int
  | .number (.ok (.int i _)) => if least ≤ i ∧ i ≤ greatest then .ok i else .error .mismatch
  | s => .error s.fault

def readNull : Spelled → Except Fault Unit
  | .null => .ok ()
  | s => .error s.fault

def readFinite : Spelled → Except Fault Binary64.Finite
  | .number (.ok (.int i _)) => .ok (.ofInt i)
  | .number (.ok (.float x)) => .ok x
  | s => .error s.fault

def readOption {α : Type} (read : Spelled → Except Fault α) : Spelled → Except Fault (Option α)
  | .null => .ok none
  | s => some <$> read s

def endOf : Option Fault → Except Fault Unit
  | none => .ok ()
  | some f => .error f

def Name.read : Name → Except Fault String
  | .text s => .ok s
  | .unreadable f => .error f
  | .missing kept _ => .error kept

mutual

def skip : Spelled → Except Fault Unit
  | .array items cut => do
    skipItems items
    endOf cut
  | .object members cut => do
    skipMembers members
    endOf cut
  | .broken b => .error b.skipped
  | _ => .ok ()

def skipItems : List Spelled → Except Fault Unit
  | [] => .ok ()
  | v :: r => do
    skip v
    skipItems r

def skipMembers : List (Name × Spelled) → Except Fault Unit
  | [] => .ok ()
  | (.missing _ skipped, _) :: _ => .error skipped
  | (_, v) :: r => do
    skip v
    skipMembers r

end

mutual

def readJson (room : Nat) : Spelled → Except Fault Json
  | .null => .ok .null
  | .bool b => .ok (.bool b)
  | .number n => Json.number <$> n
  | .text s => Json.text <$> s
  | .array items cut =>
    match room with
    | 0 => .error .malformed
    | room + 1 => do
      let js ← readItems room items
      endOf cut
      return .array js
  | .object members cut =>
    match room with
    | 0 => .error .malformed
    | room + 1 => do
      let js ← readMembers room members
      endOf cut
      return .object js
  | .broken b => .error b.kept

def readItems (room : Nat) : List Spelled → Except Fault (List Json)
  | [] => .ok []
  | v :: r => do
    let j ← readJson room v
    let js ← readItems room r
    return j :: js

def readMembers (room : Nat) : List (Name × Spelled) → Except Fault (List (String × Json))
  | [] => .ok []
  | (k, v) :: r => do
    let k ← Name.read k
    let j ← readJson room v
    let js ← readMembers room r
    return (k, j) :: js

end

def readPayload (room : Nat) (s : Spelled) : Except Fault Payload := Payload.ofJson <$> readJson room s

def readMap {α : Type} (value : Spelled → Except Fault α) :
    Spelled → Except Fault (SortedMap String α)
  | .object members cut => do
    let m ← members.foldlM (fun m p => do
      let k ← Name.read p.1
      let a ← value p.2
      return m.insert k a) SortedMap.empty
    endOf cut
    return m
  | s => .error s.fault

variable {σ : Type}

def readFields (names : List String) (field : σ → String → Spelled → Except Fault σ) :
    List String → σ → List (Name × Spelled) → Except Fault σ
  | _, draft, [] => .ok draft
  | seen, draft, (k, v) :: r => do
    let k ← Name.read k
    if k ∈ names then
      if k ∈ seen then .error .mismatch
      else
        let draft ← field draft k v
        readFields names field (k :: seen) draft r
    else
      skip v
      readFields names field seen draft r

def readRecord (names : List String) (field : σ → String → Spelled → Except Fault σ) (draft : σ) :
    Spelled → Except Fault σ
  | .object members cut => do
    let draft ← readFields names field [] draft members
    endOf cut
    return draft
  | .array items cut => do
    let draft ← (names.zip items).foldlM (fun d p => field d p.1 p.2) draft
    if names.length < items.length then .error .malformed
    else
      endOf cut
      return draft
  | s => .error s.fault

end Spelled

def maxDepth : Nat := 127

def decode {α : Type} (read : Spelled → Except Fault α) (b : Bytes) : Except Fault α := do
  let (s, rest) := Spelled.parse b
  let a ← read s
  if rest.isEmpty then return a else .error .malformed

end Staging.Json
