import Staging.SortedMap
import Staging.Binary64.Basic

namespace Staging

namespace Json

inductive Number
  | int (value : Int) (fits : -0x8000000000000000 ≤ value ∧ value < 0x10000000000000000)
  | float (value : Binary64.Finite)
deriving DecidableEq

end Json

inductive Json
  | null
  | bool (b : Bool)
  | number (n : Json.Number)
  | text (s : String)
  | array (items : List Json)
  | object (members : List (String × Json))

namespace Json

def ofInt (i : Int) : Json :=
  if h : -0x8000000000000000 ≤ i ∧ i < 0x10000000000000000 then .number (.int i h) else .number (.int 0 (by decide))

def ofNat (n : Nat) : Json := ofInt n

mutual

def decEq : (a b : Json) → Decidable (a = b)
  | .null, .null => isTrue rfl
  | .bool a, .bool b => if h : a = b then isTrue (h ▸ rfl) else isFalse (by simpa using h)
  | .number a, .number b => if h : a = b then isTrue (h ▸ rfl) else isFalse (by simpa using h)
  | .text a, .text b => if h : a = b then isTrue (h ▸ rfl) else isFalse (by simpa using h)
  | .array a, .array b =>
    match decEqItems a b with
    | isTrue h => isTrue (h ▸ rfl)
    | isFalse h => isFalse (by simpa using h)
  | .object a, .object b =>
    match decEqMembers a b with
    | isTrue h => isTrue (h ▸ rfl)
    | isFalse h => isFalse (by simpa using h)
  | .null, .bool _ | .null, .number _ | .null, .text _ | .null, .array _ | .null, .object _
  | .bool _, .null | .bool _, .number _ | .bool _, .text _ | .bool _, .array _ | .bool _, .object _
  | .number _, .null | .number _, .bool _ | .number _, .text _ | .number _, .array _
  | .number _, .object _
  | .text _, .null | .text _, .bool _ | .text _, .number _ | .text _, .array _ | .text _, .object _
  | .array _, .null | .array _, .bool _ | .array _, .number _ | .array _, .text _
  | .array _, .object _
  | .object _, .null | .object _, .bool _ | .object _, .number _ | .object _, .text _
  | .object _, .array _ => isFalse (by simp)

def decEqItems : (a b : List Json) → Decidable (a = b)
  | [], [] => isTrue rfl
  | x :: a, y :: b =>
    match decEq x y, decEqItems a b with
    | isTrue h, isTrue h' => isTrue (h ▸ h' ▸ rfl)
    | isFalse h, _ => isFalse (by simp [h])
    | _, isFalse h => isFalse (by simp [h])
  | [], _ :: _ | _ :: _, [] => isFalse (by simp)

def decEqMembers : (a b : List (String × Json)) → Decidable (a = b)
  | [], [] => isTrue rfl
  | (j, x) :: a, (k, y) :: b =>
    if hk : j = k then
      match decEq x y, decEqMembers a b with
      | isTrue h, isTrue h' => isTrue (hk ▸ h ▸ h' ▸ rfl)
      | isFalse h, _ => isFalse (by simp [h])
      | _, isFalse h => isFalse (by simp [h])
    else isFalse (by simp [hk])
  | [], _ :: _ | _ :: _, [] => isFalse (by simp)

end

instance : DecidableEq Json := decEq

mutual

def depth : Json → Nat
  | .array items => depthItems items + 1
  | .object members => depthMembers members + 1
  | _ => 0

def depthItems : List Json → Nat
  | [] => 0
  | j :: r => max (depth j) (depthItems r)

def depthMembers : List (String × Json) → Nat
  | [] => 0
  | (_, j) :: r => max (depth j) (depthMembers r)

end

mutual

def Canonical : Json → Prop
  | .array items => CanonicalItems items
  | .object members => Assoc.Ascending members ∧ CanonicalMembers members
  | _ => True

def CanonicalItems : List Json → Prop
  | [] => True
  | j :: r => Canonical j ∧ CanonicalItems r

def CanonicalMembers : List (String × Json) → Prop
  | [] => True
  | (_, j) :: r => Canonical j ∧ CanonicalMembers r

end

theorem canonicalMembers_iff {l : List (String × Json)} :
    CanonicalMembers l ↔ ∀ p ∈ l, p.2.Canonical := by
  induction l with
  | nil => simp [CanonicalMembers]
  | cons p r ih => obtain ⟨k, j⟩ := p; simp [CanonicalMembers, ih]

theorem canonicalMembers_insert {k : String} {j : Json} {l : List (String × Json)}
    (hj : j.Canonical) (hl : CanonicalMembers l) : CanonicalMembers (Assoc.insert k j l) := by
  rw [canonicalMembers_iff] at *
  intro p hp
  rcases Assoc.mem_insert hp with rfl | hp
  · exact hj
  · exact hl p hp

mutual

def sort : Json → Json
  | .null => .null
  | .bool b => .bool b
  | .number n => .number n
  | .text s => .text s
  | .array items => .array (sortItems items)
  | .object members => .object (sortMembers [] members)

def sortItems : List Json → List Json
  | [] => []
  | j :: r => sort j :: sortItems r

def sortMembers (sorted : List (String × Json)) : List (String × Json) → List (String × Json)
  | [] => sorted
  | (k, j) :: r => sortMembers (Assoc.insert k (sort j) sorted) r

end

mutual

theorem canonical_sort (j : Json) : j.sort.Canonical := by
  cases j with
  | null | bool | number | text => trivial
  | array items => exact canonical_sortItems items
  | object members => exact canonical_sortMembers members List.Pairwise.nil trivial

theorem canonical_sortItems (l : List Json) : CanonicalItems (sortItems l) := by
  cases l with
  | nil => trivial
  | cons j r => exact ⟨canonical_sort j, canonical_sortItems r⟩

theorem canonical_sortMembers (l : List (String × Json)) {sorted : List (String × Json)}
    (ha : Assoc.Ascending sorted) (hc : CanonicalMembers sorted) :
    Assoc.Ascending (sortMembers sorted l) ∧ CanonicalMembers (sortMembers sorted l) := by
  cases l with
  | nil => exact ⟨ha, hc⟩
  | cons p r =>
    obtain ⟨k, j⟩ := p
    exact canonical_sortMembers r (Assoc.ascending_insert ha)
      (canonicalMembers_insert (canonical_sort j) hc)

end

def member (j : Json) (name : String) : Json :=
  match j with
  | .object members => (members.lookup name).getD .null
  | _ => .null

def text? : Json → Option String
  | .text s => some s
  | _ => none

def int? : Json → Option Int
  | .number (.int i _) => some i
  | _ => none

def isTrue : Json → Bool
  | .bool b => b
  | _ => false

def items : Json → List Json
  | .array l => l
  | _ => []

def members : Json → List (String × Json)
  | .object l => l
  | _ => []

end Json

structure Payload where
  json : Json
  canonical : json.Canonical
deriving DecidableEq

namespace Payload

def null : Payload := ⟨.null, trivial⟩

def ofJson (j : Json) : Payload := ⟨j.sort, j.canonical_sort⟩

end Payload

end Staging
