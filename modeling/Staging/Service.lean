import Staging.Recovery.Scanner

namespace Staging

structure Service where
  repository : Repository
  scanner : Option Scanner
  shutDown : Bool

namespace Service

variable {σ : Type}

def ofRepository (r : Repository) (s : Shelf) : Except RepositoryError Service × Shelf :=
  if r.settings.useRecovery then
    match Task.ofRepository r with
    | .ok t => (.ok ⟨r, some (Scanner.start t), false⟩, s)
    | .error e => (.error (.settings e), (r.close s).2)
  else (.ok ⟨r, none, false⟩, s)

def start (settings : Settings) (s : Shelf) : Except RepositoryError Service × Shelf :=
  match settings.validateRecovery with
  | .error e => (.error (.settings e), s)
  | .ok () =>
    match Repository.openOn settings Snapshot.codec s with
    | (.error e, s) => (.error e, s)
    | (.ok r, s) => ofRepository r s

def status (v : Service) : ScannerStatus :=
  match v.scanner with
  | some s => s.state
  | none => .stopped

def shutdown (k : Collaborators σ) (v : Service) (b : Bench σ) :
    Except RepositoryError Unit × Service × Bench σ :=
  if v.shutDown then (.ok (), v, b)
  else
    let (scanner, b) := match v.scanner with
      | some s =>
        let (s, b) := s.stop k b
        (some s, b)
      | none => (none, b)
    let (x, b) := b.onShelf v.repository.close
    (x, { v with scanner := scanner, shutDown := true }, b)

def describe (v : Service) (b : Bench σ) : String :=
  let scanner := match v.scanner with
    | some s => "Some(" ++ s.describe b.counters ++ ")"
    | none => "None"
  "AggregationService \x7b repository: " ++ v.repository.describe b.desk.shelf ++ ", scanner: " ++
    scanner ++ ", shut_down: " ++ (if v.shutDown then "true" else "false") ++ " \x7d"

end Service

end Staging
