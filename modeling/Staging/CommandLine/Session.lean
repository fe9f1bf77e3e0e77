import Staging.CommandLine.Arguments
import Staging.CommandLine.Failure
import Staging.Delivery.DeadLetterFile
import Staging.Service

namespace Staging.CommandLine

structure Outcome where
  output : Bytes
  report : Option CycleSummary
  failure : Option Failure
deriving DecidableEq

namespace Outcome

def printed (b : Bytes) : Outcome := ⟨b, none, none⟩

def failed (f : Failure) : Outcome := ⟨[], none, some f⟩

def exitCode (o : Outcome) : Nat := if o.failure.isSome then 1 else 0

end Outcome

def printLine (s : String) : Bytes := Bytes.ofString s ++ [Ascii.lineFeed]

def defaultConfigPath (home : Option String) : Option String :=
  home.map fun h =>
    (if h = "" || h.endsWith "/" then h else h ++ "/") ++ ".aggrepo/config.json"

def Options.override (o : Options) (s : Settings) : Settings :=
  { s with storePath := o.store <|> s.storePath, name := o.repository.getD s.name }

def Options.load (o : Options) (home : Option String) (lookup : String → Option String)
    (d : Disk) : Except Failure Settings :=
  let path := o.config <|> defaultConfigPath home
  match o.config with
  | some p => if d.exists? p then loadFrom path else .error (.noConfigFile p)
  | none => loadFrom path
where
  loadFrom (path : Option String) : Except Failure Settings :=
    match Settings.load d path lookup with
    | .ok s => .ok (o.override s)
    | .error e => .error (.loading path e)

def openNamed (s : Settings) (d : Disk) : Except Failure Repository × Shelf :=
  match s.storePath with
  | none => (.error .noStore, ⟨.memory .new, d, .none⟩)
  | some _ =>
    let (x, shelf) := Repository.openDurable s d
    (x.mapError (.openingRepository s.name), shelf)

def openDestination (s : Settings) (shelf : Shelf) : Except Failure DeadLetterFile × Shelf :=
  match s.deadLetterUri with
  | none => (.error .noDeadLetter, shelf)
  | some uri =>
    match DeadLetterFile.pathOf? uri with
    | none => (.error (.unsupportedDestination uri), shelf)
    | some path =>
      let (x, d) := DeadLetterFile.openOn path shelf.disk
      (x.mapError (.openingDestination uri), { shelf with disk := d })

def printing (f : DeadLetterFile) (now : Instant) : Collaborators Bytes where
  redeliver e desk := (.ok (), { desk with outside := desk.outside ++ e.line })
  send destination e desk :=
    let (x, d) := f.send now destination e desk.shelf.disk
    (x, { desk with shelf := { desk.shelf with disk := d } })
  maxStaged := 0

def bench (s : Shelf) : Bench Bytes := ⟨⟨s, true, []⟩, .empty⟩

def listCompleted : List (Except RepositoryError String) → Outcome
  | [] => .printed []
  | .error e :: _ => .failed (.repository e)
  | .ok id :: r =>
    let o := listCompleted r
    { o with output := printLine id ++ o.output }

def showExchange (missing : Failure) : Except RepositoryError (Option Exchange) → Outcome
  | .ok (some e) => .printed (e.toJson.pretty ++ [Ascii.lineFeed])
  | .ok none => .failed missing
  | .error e => .failed (.repository e)

def scan (r : Repository) (now : Instant) (s : Shelf) : Outcome × Shelf :=
  match openDestination r.settings s with
  | (.error f, s) => (.failed f, s)
  | (.ok file, s) =>
    match Task.ofRepository r with
    | .error e => (.failed (.repository (.settings e)), s)
    | .ok t =>
      let (report, b) := t.runCycle (printing file now) (bench s)
      (⟨b.desk.outside, some report,
        if report.failed = 0 then none else some (.unrecovered report.failed)⟩, b.desk.shelf)

structure Watch where
  service : Service
  file : DeadLetterFile
  bench : Bench Bytes

namespace Watch

def start (r : Repository) (s : Shelf) : Except Failure Watch × Shelf :=
  match openDestination r.settings s with
  | (.error f, s) => (.error f, s)
  | (.ok file, s) =>
    match Service.ofRepository r s with
    | (.error e, s) => (.error (.repository e), s)
    | (.ok v, s) => (.ok ⟨v, file, CommandLine.bench s⟩, s)

def timeout (w : Watch) (now : Instant) : Watch :=
  match w.service.scanner with
  | some s =>
    let (s, b) := s.timeout (printing w.file now) w.bench
    { w with service := { w.service with scanner := some s }, bench := b }
  | none => w

def printed (w : Watch) : Watch :=
  { w with bench := { w.bench with desk := { w.bench.desk with outside := [] } } }

def stop (w : Watch) (now : Instant) : Outcome × Shelf :=
  let (x, _, b) := w.service.shutdown (printing w.file now) w.bench
  let failure := match x with
    | .ok () => none
    | .error e => some (.repository e)
  (⟨b.desk.outside, none, failure⟩, b.desk.shelf)

end Watch

def execute (c : Command) (r : Repository) (now : Instant) (s : Shelf) : Outcome × Shelf :=
  match c with
  | .keys =>
    match r.keys s with
    | (.ok ks, s) => (.printed (ks.flatMap printLine), s)
    | (.error e, s) => (.failed (.repository e), s)
  | .completed =>
    let (ids, s) := r.completedIds s.size s
    (listCompleted ids, s)
  | .get key =>
    let (x, s) := r.get key s
    (showExchange (.noLiveEntry key) x, s)
  | .recover id =>
    if r.settings.useRecovery then
      let (x, s) := r.recover id s
      (showExchange (.noCompletedEntry id) x, s)
    else (.failed (.recoveryDisabled r.name), s)
  | .confirm id =>
    match r.confirm id s with
    | (.ok true, s) => (.printed (printLine ("confirmed " ++ id)), s)
    | (.ok false, s) => (.printed (printLine ("nothing to confirm for " ++ id)), s)
    | (.error e, s) => (.failed (.repository e), s)
  | .scan => scan r now s
  | .watch =>
    match Watch.start r s with
    | (.error f, s) => (.failed f, s)
    | (.ok w, _) => w.stop now

def openSession (o : Options) (home : Option String) (lookup : String → Option String)
    (d : Disk) : Except Failure Repository × Shelf :=
  match o.load home lookup d with
  | .error f => (.error f, ⟨.memory .new, d, .none⟩)
  | .ok s => openNamed s d

def run (c : Command) (o : Options) (home : Option String) (lookup : String → Option String)
    (now : Instant) (d : Disk) : Outcome × Disk :=
  match openSession o home lookup d with
  | (.error f, s) => (.failed f, s.disk)
  | (.ok r, s) =>
    let (x, s) := execute c r now s
    (x, s.release.disk)

def versionText : String := "aggrepo 0.1.0"

end Staging.CommandLine
