import Staging.Path
import Staging.Store.Location
import Staging.Store.TableFile

/-!
Files and directories, and what is found by name in one process. A file holds bytes or the table of
a durable store. A path is followed name by name, and every name but the last has to be that of a
directory.
-/

namespace Staging

inductive Source
  | own (t : Table)
  | frozen (t : Table)
  | file (p : Path) (readOnly logging : Bool)
  /-- A table in memory that all find by its name, or what it held when it was opened. -/
  | named (name : Bytes) (readOnly : Bool) (seen : Option Table)
deriving DecidableEq

def Source.isReadOnly : Source → Bool
  | own _ => false
  | frozen _ => true
  | file _ readOnly _ => readOnly
  | named _ readOnly seen => readOnly || seen.isSome

inductive SharedName
  | file (backing : Backing) (p : Path)
  | table (backing : Backing) (name : Bytes)
deriving DecidableEq

inductive FileContent
  | bytes (b : Bytes)
  | table (f : TableFile)
deriving DecidableEq

def FileContent.abandon : FileContent → FileContent
  | bytes b => .bytes b
  | table f => .table f.abandon

structure Disk where
  files : SortedMap Path FileContent
  directories : SortedMap Path Unit
  /-- The named tables in memory, and how many connections they have. -/
  named : SortedMap Bytes (Table × Nat)
  shared : List (SharedName × Source × Nat)
deriving DecidableEq

namespace Disk

inductive Fault
  | notFound
  | refused
deriving DecidableEq

def empty : Disk := ⟨.empty, .empty, .empty, []⟩

def isDirectory (d : Disk) (p : Path) : Bool :=
  p.isUpward || p = Path.root || d.directories.contains p

def isFile (d : Disk) (p : Path) : Bool := d.files.contains p

def addDirectory (d : Disk) (p : Path) : Disk := { d with directories := d.directories.insert p () }

def put (d : Disk) (p : Path) (c : FileContent) : Disk := { d with files := d.files.insert p c }

def touch (d : Disk) (p : Path) : Disk := if d.isFile p then d else d.put p (.bytes [])

def tableFile? (d : Disk) (p : Path) : Option TableFile :=
  match d.files.get? p with
  | some (.table f) => some f
  | _ => none

def changeTable (d : Disk) (p : Path) (change : TableFile → TableFile) : Disk :=
  match d.tableFile? p with
  | some f => d.put p (.table (change f))
  | none => d

def keepNamed (d : Disk) (name : Bytes) (t : Table) (connections : Nat) : Disk :=
  { d with named :=
    if connections = 0 then d.named.erase name else d.named.insert name (t, connections) }

def share (d : Disk) (name : SharedName) (s : Source) (holders : Nat) : Disk :=
  { d with shared := (name, s, holders) :: d.shared.filter (·.1 ≠ name) }

def unshare (d : Disk) (name : SharedName) : Disk :=
  { d with shared := d.shared.filter (·.1 ≠ name) }

def crash (d : Disk) : Disk :=
  ⟨d.files.mapValues FileContent.abandon, d.directories, .empty, []⟩

def follow (d : Disk) (p : Path) : List Bytes → Except Fault Path
  | [] => .ok p
  | name :: r =>
    if d.isDirectory p then
      if Path.isTooLong name then .error .refused else d.follow (p.step name) r
    else if d.isFile p then .error .refused
    else .error .notFound

def find (d : Disk) (text : Bytes) : Except Fault Path :=
  match PathText.ofBytes? text with
  | some t => if text = [] then .error .notFound else d.follow t.start t.names
  | none => .error .refused

def stands (d : Disk) (text : Bytes) : Bool :=
  match d.find text with
  | .ok p => d.isDirectory p || d.isFile p
  | .error _ => false

def exists? (d : Disk) (text : String) : Bool := d.stands (Bytes.ofString text)

def read (d : Disk) (text : String) : Except Fault FileContent := do
  let p ← d.find (Bytes.ofString text)
  match d.files.get? p with
  | some c => .ok c
  | none => .error (if d.isDirectory p then .refused else .notFound)

def place? (d : Disk) (text : String) : Option Path :=
  match d.find (Bytes.ofString text) with
  | .ok p => if d.isDirectory p then none else some p
  | .error _ => none

def makeAlong (d : Disk) (p : Path) : List Bytes → Except Fault Unit × Disk
  | [] => (.ok (), d)
  | name :: r =>
    if Path.isTooLong name || d.isFile (p.step name) then (.error .refused, d)
    else if d.isDirectory (p.step name) then d.makeAlong (p.step name) r
    else (d.addDirectory (p.step name)).makeAlong (p.step name) r

def makeParents (d : Disk) (text : String) : Except Fault Unit × Disk :=
  match PathText.ofBytes? (PathText.parentOf (Bytes.ofString text)) with
  | some t => d.makeAlong t.start t.names
  | none => (.error .refused, d)

def write (d : Disk) (text : String) (b : Bytes) : Except Fault Unit × Disk :=
  match d.makeParents text with
  | (.error f, d) => (.error f, d)
  | (.ok (), d) =>
    match d.place? text with
    | some p => (.ok (), d.put p (.bytes b))
    | none => (.error .refused, d)

end Disk

end Staging
