import Staging.Text.Digits
import Staging.Text.Hex

/-!
What the name of a durable store says. A name is the path of a file, or a `file` URI with a path and
options. An empty path and the path `:memory:` stand for a table that no file holds.
-/

namespace Staging

inductive Access
  | readOnly
  | existing
  | creating
  | memory
deriving DecidableEq

namespace Access

def ofName? (b : Bytes) : Option Access := do
  [("ro", readOnly), ("rw", existing), ("rwc", creating),
    ("memory", memory)].lookup (← b.toString?)

def rank : Access → Nat
  | readOnly => 0
  | existing => 1
  | creating => 2
  | memory => 3

def restrict? (now : Access) (option : Bytes) : Option Access := do
  let wanted ← ofName? option
  if wanted = memory ∨ wanted.rank ≤ now.rank then some wanted else none

end Access

/-- How a file is reached: with locks on its bytes, with one lock for the whole process, with no
locks, with a second file as its lock, or in memory and so not at all. -/
inductive Backing
  | plain
  | exclusive
  | lockless
  | lockFile
  | memory
deriving DecidableEq

def Backing.ofName? (b : Bytes) : Option Backing := do
  [("unix", plain), ("unix-excl", exclusive), ("unix-none", lockless), ("unix-dotfile", lockFile),
    ("memdb", memory)].lookup (← b.toString?)

structure Location where
  path : Bytes
  access : Access := .creating
  backing : Backing := .plain
  isShared : Bool := false
  isFrozen : Bool := false
  isUnlocked : Bool := false
  leavesLog : Bool := false
  modeOf : Option Bytes := none
deriving DecidableEq

namespace Location

def escaped? (x y : UInt8) : Option UInt8 := do
  return (16 * (← Hex.value? x) + (← Hex.value? y)).toUInt8

def unescape : Bytes → Bytes
  | b :: x :: y :: r =>
    match if b = Ascii.percent then escaped? x y else none with
    | some c => if c = 0 then [] else c :: unescape r
    | none => b :: unescape (x :: y :: r)
  | b => b

def cut (mark : UInt8) (b : Bytes) : Bytes × Bytes :=
  (b.takeWhile (· ≠ mark), (b.dropWhile (· ≠ mark)).tail)

def optionsOf (query : Bytes) : List (Bytes × Bytes) :=
  ((query.splitOn Ascii.ampersand).map fun o =>
    (unescape (cut Ascii.equals o).1, unescape (cut Ascii.equals o).2)).filter (·.1 ≠ [])

def valuesOf (options : List (Bytes × Bytes)) (name : String) : List Bytes :=
  (options.filter (·.1 = Bytes.ofString name)).map (·.2)

def leadingNumber (b : Bytes) : Nat :=
  let hex := match b with
    | z :: x :: r =>
      if z = Ascii.zero ∧ (x = Ascii.lowerX ∨ x = Ascii.upperX) then
        (r.takeWhile (fun d => (Hex.value? d).isSome)).filterMap Hex.value?
      else []
    | _ => []
  let n := match hex with
    | [] => Bytes.digitsValue (b.takeWhile Bytes.isDigit)
    | ds => ds.foldl (fun n d => 16 * n + d) 0
  if n < 0x80000000 then n else 0

def isOn (b : Bytes) : Bool :=
  if b.head?.any Bytes.isDigit then leadingNumber b % 256 ≠ 0
  else b.toString?.any (fun s => s.toLower ∈ ["on", "yes", "true"])

def sharing? (b : Bytes) : Option Bool := do
  [("shared", true), ("private", false)].lookup (← b.toString?)

def withoutHost? (b : Bytes) : Option Bytes :=
  match Bytes.dropStart? [Ascii.slash, Ascii.slash] b with
  | some r =>
    if r.takeWhile (· ≠ Ascii.slash) ∈ [[], Bytes.ofString "localhost"] then
      some (r.dropWhile (· ≠ Ascii.slash))
    else none
  | none => some b

/-- What follows `file:` in a URI. The last sharing and the last backing count, and of a switch the
first value. -/
def ofUri? (b : Bytes) : Option Location := do
  let (b, _) := cut Ascii.hash (← withoutHost? b)
  let (path, query) := cut Ascii.question b
  let values := valuesOf (optionsOf query)
  let switched (name : String) : Bool := (values name).head?.any isOn
  let sharing ← (values "cache").mapM sharing?
  return {
    path := unescape path
    access := ← (values "mode").foldlM Access.restrict? .creating
    backing := ← ((values "vfs").getLast?.map Backing.ofName?).getD (some .plain)
    isShared := sharing.getLast?.getD false
    isFrozen := switched "immutable"
    isUnlocked := switched "nolock"
    leavesLog := switched "readonly_shm"
    modeOf := (values "modeof").head? }

def ofName? (name : String) : Option Location :=
  let b := Bytes.ofString name
  if 0 ∈ b then none
  else match Bytes.dropStart? (Bytes.ofString "file:") b with
    | some uri => ofUri? uri
    | none => some { path := b }

def isPlainMemory (l : Location) : Bool :=
  l.path = [] || l.path = Bytes.ofString ":memory:" || l.access = .memory

def filePath? (l : Location) : Option Bytes :=
  if l.isPlainMemory || l.backing = .memory then none else some l.path

def isRooted (l : Location) : Bool :=
  !l.isPlainMemory && l.backing = .memory && 1 < l.path.length &&
    l.path.head?.any (· ∈ [Ascii.slash, Ascii.backslash])

def isLogging (l : Location) : Bool :=
  !l.isUnlocked && (l.backing = .plain || l.backing = .exclusive)

def needsLog (l : Location) : Bool :=
  l.leavesLog && (l.backing = .plain || l.access = .readOnly)

example : ofName? "o.db" = some { path := Bytes.ofString "o.db" } := by decide +kernel
example : ofName? "file:a%2Fb?mode=ro#x" =
    some { path := Bytes.ofString "a/b", access := .readOnly } := by decide +kernel
example : ofName? "file:a?mode=ro&mode=rw" = none := by decide +kernel
example : ofName? "file:///a?cache=shared&immutable=Yes&immutable=0" =
    some { path := Bytes.ofString "/a", isShared := true, isFrozen := true } := by decide +kernel
example : ["1x", "0x2g", "ON", "2147483647"].all (fun s => isOn (Bytes.ofString s)) ∧
    ["", "x", "256", "0x100", "0x", "2147483649"].all (fun s => !isOn (Bytes.ofString s)) := by
  decide +kernel

end Location

end Staging
