import Staging.Disk

/-!
Connections of durable stores: how one is made from what a store's name says, what it reads and
writes, and what its closing leaves. A file is found before its log is, so a connection that may not
keep a log can change a file and still fail.
-/

namespace Staging

namespace Source

/-- A file that is written through a log cannot be read without one. -/
def table (s : Source) (d : Disk) : Except StoreError Table :=
  match s with
  | own t | frozen t => .ok t
  | file p _ logging =>
    match d.tableFile? p with
    | some f =>
      match f.table with
      | some t => if f.logged && !logging then .error .database else .ok t
      | none => .error .database
    | none => .error .database
  | named _ _ (some t) => .ok t
  | named name _ none =>
    match d.named.get? name with
    | some (t, _) => .ok t
    | none => .error .database

def setTable (s : Source) (d : Disk) (t : Table) : Source × Disk :=
  match s with
  | own _ => (.own t, d)
  | frozen _ => (s, d)
  | file p _ _ => (s, d.changeTable p (·.write t))
  | named name _ _ =>
    match d.named.get? name with
    | some (_, connections) => (s, d.keepNamed name t connections)
    | none => (s, d)

def close (s : Source) (d : Disk) : Disk :=
  match s with
  | own _ | frozen _ | file _ _ false => d
  | file p readOnly true => d.changeTable p (·.leave readOnly)
  | named name _ _ =>
    match d.named.get? name with
    | some (t, connections) => d.keepNamed name t (connections - 1)
    | none => d

end Source

inductive Connection
  | alone (s : Source)
  | shared (name : SharedName)
deriving DecidableEq

namespace Connection

/-- Where names lead if two points take back the name before them, whether or not directories stand
there. No name may stand below a file. -/
def followPlainly? (d : Disk) (p : Path) : List Bytes → Option Path
  | [] => some p
  | name :: r =>
    if Path.isTooLong name || (name ∉ [[], Path.here, Path.above] && d.isFile p) then none
    else followPlainly? d (p.step name) r

/-- The greatest number of bytes in the path of a store's file. From the working directory it is
less by what the path of that directory may take. -/
def pathLimit (p : Path) : Nat := if p.head? = Path.root.head? then 504 else 488

/-- The greatest number of bytes in the name of a store's file: a longer name stands beside it. -/
def nameLimit : Nat := Path.nameLimit - "-journal".length

def tableNameLimit : Nat := 1016

def place? (d : Disk) (path : Bytes) : Option Path := do
  let t ← PathText.ofBytes? path
  let p ← followPlainly? d t.start t.names
  if p.text.length ≤ pathLimit p ∧ d.isDirectory p.dropLast ∧ !d.isDirectory p then some p
  else none

/-- The table that stands in a file. In a file that is empty or can be made the table is still to be
made; a single byte counts for nothing. -/
def tableAt? (d : Disk) (p : Path) (access : Access) : Option TableFile :=
  match d.files.get? p with
  | some (.table f) => some f
  | some (.bytes (_ :: _ :: _)) => none
  | some (.bytes _) => some .blank
  | none => if access = .creating then some .blank else none

def openFrozen (p : Path) (f : TableFile) (d : Disk) : Except StoreError Source × Disk :=
  match f.settled with
  | some t => (.ok (.frozen t), d)
  | none => (.error .database, d.touch p)

def openReadOnly (l : Location) (p : Path) (f : TableFile) (d : Disk) :
    Except StoreError Source × Disk :=
  if f.table.isNone || f.logged != l.isLogging || (l.needsLog && !f.hasLog) then
    (.error .database, d)
  else if l.isLogging then (.ok (.file p true true), d.put p (.table f.join))
  else (.ok (.file p true false), d)

def openWritable (l : Location) (p : Path) (f : TableFile) (d : Disk) :
    Except StoreError Source × Disk :=
  if nameLimit < (p.getLast?.getD []).length then (.error .database, d.touch p)
  else if l.isLogging then
    if l.needsLog && f.holders = 0 then
      if f.hasLog then (.ok (.file p true true), d.put p (.table f.join))
      else (.error .database, d.put p (.table f.toLogged))
    else (.ok (.file p false true), d.put p (.table f.toLogged.made.join))
  else if f.logged then (.error .database, d)
  else (.ok (.file p false false), d.put p (.table f.made))

def openFile (l : Location) (p : Path) (d : Disk) : Except StoreError Source × Disk :=
  match tableAt? d p l.access with
  | none => (.error .database, d)
  | some f =>
    if l.isFrozen then openFrozen p f d
    else if l.access = .readOnly then openReadOnly l p f d
    else openWritable l p f d

def openTable (l : Location) (d : Disk) : Except StoreError Source × Disk :=
  if !l.isPlainMemory && tableNameLimit < l.path.length then (.error .database, d)
  else
    match l.isRooted, d.named.get? l.path with
    | true, some (t, connections) =>
      (.ok (.named l.path (l.access = .readOnly) (if l.isFrozen then some t else none)),
        d.keepNamed l.path t (connections + 1))
    | rooted, _ =>
      if l.access = .readOnly || (!l.isPlainMemory && l.isFrozen) then (.error .database, d)
      else if rooted then (.ok (.named l.path false none), d.keepNamed l.path .empty 1)
      else (.ok (.own .empty), d)

def openSource (l : Location) (d : Disk) : Except StoreError Source × Disk :=
  match l.filePath? with
  | none => openTable l d
  | some path =>
    match place? d path with
    | some p => if l.modeOf.all d.stands then openFile l p d else (.error .database, d)
    | none => (.error .database, d)

def sharedName? (l : Location) (d : Disk) : Option SharedName :=
  if l.isShared ∧ l.path ≠ [] then
    match l.filePath? with
    | some path => (place? d path).map (.file l.backing)
    | none => some (.table l.backing l.path)
  else none

def ofLocation (l : Location) (d : Disk) : Except StoreError Connection × Disk :=
  match sharedName? l d with
  | none =>
    let (x, d) := openSource l d
    (x.map .alone, d)
  | some name =>
    match d.shared.lookup name with
    | some (s, holders) => (.ok (.shared name), d.share name s (holders + 1))
    | none =>
      match openSource l d with
      | (.ok s, d) => (.ok (.shared name), d.share name s 1)
      | (.error e, d) => (.error e, d)

def ofName (name : Option String) (d : Disk) : Except StoreError Connection × Disk :=
  match name with
  | none => (.ok (.alone (.own .empty)), d)
  | some name =>
    match d.makeParents name with
    | (.error _, d) => (.error .io, d)
    | (.ok (), d) =>
      match Location.ofName? name with
      | none => (.error .database, d)
      | some l => ofLocation l d

def source? (c : Connection) (d : Disk) : Option Source :=
  match c with
  | alone s => some s
  | shared name => (d.shared.lookup name).map (·.1)

def table (c : Connection) (d : Disk) : Except StoreError Table :=
  match c.source? d with
  | some s => s.table d
  | none => .error .database

def isReadOnly (c : Connection) (d : Disk) : Bool :=
  (c.source? d).any Source.isReadOnly

def setTable (c : Connection) (d : Disk) (t : Table) : Connection × Disk :=
  match c with
  | alone s =>
    let (s, d) := s.setTable d t
    (.alone s, d)
  | shared name =>
    match d.shared.lookup name with
    | some (s, holders) =>
      let (s, d) := s.setTable d t
      (c, d.share name s holders)
    | none => (c, d)

def close (c : Connection) (d : Disk) : Disk :=
  match c with
  | alone s => s.close d
  | shared name =>
    match d.shared.lookup name with
    | some (s, holders + 2) => d.share name s (holders + 1)
    | some (s, _) => s.close (d.unshare name)
    | none => d

end Connection

end Staging
