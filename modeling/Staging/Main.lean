import Staging.CommandLine.Session
import Staging.Instant.Basic
import Staging.Store.TableFile
import Std.Async.Signal
import Std.Time.DateTime.Timestamp

/-!
The program: it brings the files that a command may touch onto a disk, carries the command out there,
and writes back what has changed.
-/

namespace Staging.CommandLine

def fileContent (b : Bytes) : FileContent :=
  match TableFile.ofImage? b with
  | some f => .table f
  | none => .bytes b

def fileImage : FileContent → Bytes
  | .bytes b => b
  | .table f => f.image

def pathText (p : Path) : IO String :=
  match p.text.toString? with
  | some s => return s
  | none => throw (IO.userError "the name of a file is no text")

def bringPlace (d : Disk) (p : Path) : IO Disk := do
  if d.isFile p || d.isDirectory p || !d.isDirectory p.dropLast then return d
  match ← (do IO.FS.readBinFile (← pathText p) : IO ByteArray).toBaseIO with
  | .ok b => return d.put p (fileContent b.data.toList)
  | .error (.inappropriateType ..) => return d.addDirectory p
  | .error _ => return d

def bring (d : Disk) (path : Option Bytes) : IO Disk :=
  match path.bind PathText.ofBytes? with
  | some t => t.visited.foldlM bringPlace d
  | none => return d

def storePaths (name : String) : List Bytes :=
  match Location.ofName? name with
  | some l => l.filePath?.toList ++ l.modeOf.toList
  | none => []

def replaceFile (path : String) (b : Bytes) : IO Unit := do
  let part := path ++ ".part"
  IO.FS.writeBinFile part ⟨b.toArray⟩
  IO.FS.rename part path

def writeBack (old new : Disk) : IO Unit := do
  for (p, _) in new.directories.entries do
    if !old.isDirectory p then IO.FS.createDirAll (← pathText p)
  for (p, c) in new.files.entries do
    if old.files.get? p ≠ some c then
      replaceFile (← pathText p) (fileImage c)

def clock : IO Instant := do
  let t := (← Std.Time.Timestamp.now).val
  match Instant.ofUnix? t.second.val t.nano.val.toNat with
  | some now => return now
  | none => throw (IO.userError "the clock is out of range")

def tell (o : Outcome) : IO UInt32 := do
  let out ← IO.getStdout
  out.write ⟨o.output.toArray⟩
  out.flush
  if let some report := o.report then
    IO.eprintln ((report.toJson.compact.toString?).getD "")
  if let some f := o.failure then
    IO.eprintln ("Error: " ++ f.message)
    if let some cause := f.cause? then IO.eprintln ("\nCaused by:\n    " ++ cause)
  return o.exitCode.toUInt32

def pause (interrupted : IO Bool) : Nat → IO Bool
  | 0 => return !(← interrupted)
  | ms + 1 => do
    if ← interrupted then return false
    IO.sleep 1
    pause interrupted ms

partial def watchLoop (interrupted : IO Bool) (w : Watch) : IO UInt32 := do
  let go ← pause interrupted w.service.repository.settings.interval
  let before := w.bench.desk.shelf.disk
  let now ← clock
  if go then
    let w := w.timeout now
    writeBack before w.bench.desk.shelf.disk
    let _ ← tell (.printed w.bench.desk.outside)
    watchLoop interrupted w.printed
  else
    let (o, s) := w.stop now
    writeBack before s.release.disk
    tell o

def watch (r : Repository) (s : Shelf) (d : Disk) : IO UInt32 := do
  match Watch.start r s with
  | (.error f, s) =>
    writeBack d s.release.disk
    tell (.failed f)
  | (.ok w, s) =>
    writeBack d s.disk
    let waiter ← Std.Async.Signal.Waiter.mk .sigint false
    let signal ← waiter.wait
    watchLoop (IO.hasFinished signal) w

def userHome? (status users : String) : Option String := do
  let uid ← (status.splitOn "\n").findSome? fun line =>
    match line.splitOn "\t" with
    | "Uid:" :: uid :: _ => some uid
    | _ => none
  (users.splitOn "\n").findSome? fun line =>
    match line.splitOn ":" with
    | [_, _, u, _, _, home, _] => if u = uid then some home else none
    | _ => none

/-- The directory that the environment names, or else the one in the list of users. -/
def homeDirectory : IO (Option String) := do
  match (← IO.getEnv "HOME").filter (· ≠ "") with
  | some home => return some home
  | none =>
    match ← (IO.FS.readFile "/proc/self/status").toBaseIO,
        ← (IO.FS.readFile "/etc/passwd").toBaseIO with
    | .ok status, .ok users => return (userHome? status users).filter (· ≠ "")
    | _, _ => return none

def runReal (c : Command) (o : Options) : IO UInt32 := do
  let home ← homeDirectory
  let given ← Settings.Variable.all.filterMapM fun v => do
    return (← IO.getEnv v.name).map (fun value => (v.name, value))
  let lookup (name : String) : Option String := given.lookup name
  let bringNamed (d : Disk) (path : Option String) : IO Disk := bring d (path.map Bytes.ofString)
  let d ← bringNamed .empty (o.config <|> defaultConfigPath home)
  let d ← match o.load home lookup d with
    | .ok s => do
      let d ← bringNamed d s.storePath
      let d ← (s.storePath.map storePaths).getD [] |>.foldlM (fun d path => bring d (some path)) d
      bringNamed d (s.deadLetterUri.bind DeadLetterFile.pathOf?)
    | .error _ => pure d
  match openSession o home lookup d, c with
  | (.ok r, s), .watch => watch r s d
  | (.ok r, s), c =>
    let (x, s) := execute c r (← clock) s
    writeBack d s.release.disk
    tell x
  | (.error f, s), _ =>
    writeBack d s.disk
    tell (.failed f)

def usage : String :=
  "Usage: aggrepo [OPTIONS] <keys|completed|get KEY|recover ID|confirm ID|scan|watch>\n" ++
  "Options: --config FILE, --store FILE, --repository NAME, -l, --log-level LEVEL, --json-logs"

end Staging.CommandLine

open Staging.CommandLine in
def main (args : List String) : IO UInt32 := do
  match Request.ofArguments? args (← IO.getEnv "AGGREPO_CONFIG") with
  | some .version => tell (.printed (printLine versionText))
  | some .help => tell (.printed (printLine usage))
  | some (.run c o) => runReal c o
  | none =>
    IO.eprintln usage
    return 2
