import Staging.Json.Token

/-!
Documents as they are spelled: every member of an object in its place, however often its name
occurs, and the place where the text goes wrong, if it does. What a document means is left to its
readers, who go through it from left to right and report the first thing they cannot accept.
-/

namespace Staging.Json

inductive Name
  | text (s : String)
  | unreadable (f : Fault)
  /-- No finished text. -/
  | missing (kept skipped : Fault)

inductive Spelled
  | null
  | bool (b : Bool)
  | number (n : Except Fault Number)
  | text (s : Except Fault String)
  /-- `cut` tells what stands where a comma or the closing bracket should. -/
  | array (items : List Spelled) (cut : Option Fault)
  | object (members : List (Name × Spelled)) (cut : Option Fault)
  | broken (b : Break)

namespace Spelled

def absent : Spelled := .broken .absent

def ofToken : Token → Spelled
  | .null => .null
  | .bool b => .bool b
  | .number n => .number n
  | .text s => .text s
  | .openBracket => .array [] none
  | .openBrace => .object [] none
  | .brokenText kept skipped => .broken ⟨kept, skipped, kept⟩
  | .broken b => .broken b
  | .closeBracket | .closeBrace | .colon | .comma => .broken .malformed

def stray : List Token → Name × Spelled
  | [] => (.missing .truncated .truncated, absent)
  | .brokenText kept skipped :: _ => (.missing kept skipped, ofToken (.brokenText kept skipped))
  | t :: _ => (.missing .malformed .malformed, ofToken t)

def nameOf : Except Fault String → Name
  | .ok s => .text s
  | .error f => .unreadable f

def cutAt : List Token → Fault
  | [] => .truncated
  | _ => .malformed

mutual

def valueUpTo : Nat → List Token → Spelled × List Token
  | 0, _ => (absent, [])
  | _ + 1, [] => (absent, [])
  | fuel + 1, .openBracket :: ts =>
    match ts with
    | [] => (.array [] (some .truncated), [])
    | .closeBracket :: ts => (.array [] none, ts)
    | ts =>
      let (items, cut, rest) := itemsUpTo fuel ts
      (.array items cut, rest)
  | fuel + 1, .openBrace :: ts =>
    match ts with
    | [] => (.object [] (some .truncated), [])
    | .closeBrace :: ts => (.object [] none, ts)
    | ts =>
      let (members, cut, rest) := membersUpTo fuel ts
      (.object members cut, rest)
  | _ + 1, t :: ts => (ofToken t, ts)

def itemsUpTo : Nat → List Token → List Spelled × Option Fault × List Token
  | 0, _ => ([absent], none, [])
  | fuel + 1, ts =>
    let (v, ts) := valueUpTo fuel ts
    match ts with
    | .closeBracket :: ts => ([v], none, ts)
    | .comma :: ts =>
      let (vs, cut, rest) := itemsUpTo fuel ts
      (v :: vs, cut, rest)
    | ts => ([v], some (cutAt ts), [])

def membersUpTo : Nat → List Token → List (Name × Spelled) × Option Fault × List Token
  | 0, _ => ([stray []], none, [])
  | fuel + 1, .text s :: .colon :: ts =>
    let (v, ts) := valueUpTo fuel ts
    match ts with
    | .closeBrace :: ts => ([(nameOf s, v)], none, ts)
    | .comma :: ts =>
      let (ms, cut, rest) := membersUpTo fuel ts
      ((nameOf s, v) :: ms, cut, rest)
    | ts => ([(nameOf s, v)], some (cutAt ts), [])
  | _ + 1, .text s :: ts =>
    ([(nameOf s, .broken (if ts.isEmpty then .absent else .malformed))], none, [])
  | _ + 1, ts => ([stray ts], none, [])

end

/-- The document that `b` spells, and the tokens after it. Each step takes a token or goes from a
list to its first entry. -/
def parse (b : Bytes) : Spelled × List Token :=
  let ts := tokens b
  valueUpTo (2 * ts.length + 2) ts

end Spelled

end Staging.Json
