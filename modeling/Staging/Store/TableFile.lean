import Staging.Text.Hex
import Staging.Store.Table

/-!
A table in a file. What is written goes to a log beside the file, and into the file itself when the
last connection that keeps the log is closed. If that one cannot write, the log is left for the
next. A file can also be written without a log, until it is first opened with one.
-/

namespace Staging

structure TableFile where
  /-- What connections see. A file whose making was given up has no table. -/
  table : Option Table
  /-- What the file holds without its log. -/
  settled : Option Table
  logged : Bool
  holders : Nat
  logLeft : Bool
deriving DecidableEq

namespace TableFile

def blank : TableFile := ⟨none, none, false, 0, false⟩

def closed (t : Table) (logged : Bool) : TableFile := ⟨some t, some t, logged, 0, false⟩

def write (f : TableFile) (t : Table) : TableFile :=
  { f with table := some t, settled := if f.logged then f.settled else some t }

def made (f : TableFile) : TableFile := f.write (f.table.getD .empty)

def toLogged (f : TableFile) : TableFile := { f with logged := true }

def join (f : TableFile) : TableFile := { f with holders := f.holders + 1 }

def hasLog (f : TableFile) : Bool := 0 < f.holders || f.logLeft

def leave (f : TableFile) (readOnly : Bool) : TableFile :=
  if 1 < f.holders then { f with holders := f.holders - 1 }
  else if readOnly then { f with holders := 0, logLeft := true }
  else { f with settled := f.table, holders := 0, logLeft := false }

def abandon (f : TableFile) : TableFile := { f with holders := 0, logLeft := f.hasLog }

@[simp] theorem table_write (f : TableFile) (t : Table) : (f.write t).table = some t := rfl

@[simp] theorem table_join (f : TableFile) : f.join.table = f.table := rfl

@[simp] theorem table_leave (f : TableFile) (readOnly : Bool) :
    (f.leave readOnly).table = f.table := by
  unfold leave; split
  · rfl
  · split <;> rfl

end TableFile

namespace Table

def encodeEntry (e : Entry) : Bytes :=
  Bytes.ofString (Hex.encode e.1) ++ Ascii.space :: Bytes.ofString (Hex.encode e.2)

def decodeEntry (l : Bytes) : Entry :=
  let key := l.takeWhile (· ≠ Ascii.space)
  let value := l.drop (key.length + 1)
  (Hex.decodeChars (Bytes.asciiChars key), Hex.decodeChars (Bytes.asciiChars value))

end Table

namespace TableFile

def heading (f : TableFile) : Bytes :=
  Bytes.ofString (match f.table, f.logged with
    | some _, true => "staging table"
    | some _, false => "staging table without log"
    | none, _ => "staging table to be made")

def image (f : TableFile) : Bytes :=
  let rows := (f.table.getD .empty).entries.map Table.encodeEntry
  (f.heading :: rows).flatMap (· ++ [Ascii.lineFeed])

def ofImage? (b : Bytes) : Option TableFile :=
  let t : Table := SortedMap.ofList (b.lines.tail.map Table.decodeEntry)
  [.closed t true, .closed t false, blank.toLogged].find? (·.image = b)

end TableFile

end Staging
