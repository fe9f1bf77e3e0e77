import Staging.Snapshot
import Staging.Settings.Basic
import Staging.Store.Cursor

/-!
Repositories: named stagings of exchanges in a store that may be shared. A live entry holds the
exchange in progress for a key; completing it moves it, in one batch, to an entry under its
identifier, which stays until it is confirmed.
-/

namespace Staging

inductive RepositoryError
  | settings (e : SettingsError)
  | store (repository key : String) (source : StoreError)
  | codec (repository key : String) (source : CodecError)
deriving DecidableEq

def RepositoryError.message : RepositoryError → String
  | settings e => "Configuration error: " ++ e.message
  | store repository key source =>
    "store error in repository " ++ repository ++ " for key " ++ key ++ ": " ++ source.message
  | codec repository key source =>
    "codec error in repository " ++ repository ++ " for key " ++ key ++ ": " ++ source.message

structure Repository where
  settings : Settings
  keySpace : KeySpace
  codec : Codec

namespace Repository

def name (r : Repository) : String := r.keySpace.name

def allKeys : String := "*"

def storeError (r : Repository) (key : String) (e : StoreError) : RepositoryError :=
  .store r.name key e

def marshal (r : Repository) (key : String) (e : Exchange) : Except RepositoryError Bytes :=
  (r.codec.marshal r.settings.keepObjectHeaders e).mapError (.codec r.name key)

def unmarshal (r : Repository) (key : String) (b : Bytes) : Except RepositoryError Exchange :=
  (r.codec.unmarshal b).mapError (.codec r.name key)

def fetch (r : Repository) (raw : Bytes) (key : String) (s : Shelf) :
    Except RepositoryError (Option Bytes) × Shelf :=
  let (x, s) := s.get raw
  (x.mapError (r.storeError key), s)

def fetchExchange (r : Repository) (raw : Bytes) (key : String) (s : Shelf) :
    Except RepositoryError (Option Exchange) × Shelf :=
  match r.fetch raw key s with
  | (.error e, s) => (.error e, s)
  | (.ok none, s) => (.ok none, s)
  | (.ok (some b), s) => (some <$> r.unmarshal key b, s)

def add (r : Repository) (key : String) (e : Exchange) (s : Shelf) :
    Except RepositoryError (Option Exchange) × Shelf :=
  match r.marshal key e with
  | .error err => (.error err, s)
  | .ok b =>
    let (old, s) :=
      if r.settings.returnOld then r.fetchExchange (r.keySpace.liveKey key) key s else (.ok none, s)
    match old with
    | .error err => (.error err, s)
    | .ok old =>
      match s.put (r.keySpace.liveKey key) b with
      | (.ok (), s) => (.ok old, s)
      | (.error err, s) => (.error (r.storeError key err), s)

def get (r : Repository) (key : String) (s : Shelf) :
    Except RepositoryError (Option Exchange) × Shelf :=
  r.fetchExchange (r.keySpace.liveKey key) key s

def handOff (r : Repository) (key id : String) (b : Bytes) : Batch :=
  [.delete (r.keySpace.liveKey key), .put (r.keySpace.completedKey id) b]

def remove (r : Repository) (key : String) (e : Exchange) (s : Shelf) :
    Except RepositoryError Unit × Shelf :=
  match r.marshal key e with
  | .error err => (.error err, s)
  | .ok b =>
    match r.fetch (r.keySpace.liveKey key) key s with
    | (.error err, s) => (.error err, s)
    | (.ok none, s) => (.ok (), s)
    | (.ok (some _), s) =>
      let (x, s) := s.writeBatch (r.handOff key e.id b)
      (x.mapError (r.storeError key), s)

def stage (r : Repository) (key : String) (e : Exchange) (s : Shelf) :
    Except RepositoryError Unit × Shelf :=
  match r.add key e s with
  | (.error err, s) => (.error err, s)
  | (.ok _, s) => r.remove key e s

def confirm (r : Repository) (id : String) (s : Shelf) : Except RepositoryError Bool × Shelf :=
  match r.fetch (r.keySpace.completedKey id) id s with
  | (.error err, s) => (.error err, s)
  | (.ok none, s) => (.ok false, s)
  | (.ok (some _), s) =>
    match s.delete (r.keySpace.completedKey id) with
    | (.ok (), s) => (.ok true, s)
    | (.error err, s) => (.error (r.storeError id err), s)

def recover (r : Repository) (id : String) (s : Shelf) :
    Except RepositoryError (Option Exchange) × Shelf :=
  if r.settings.useRecovery then r.fetchExchange (r.keySpace.completedKey id) id s
  else (.ok none, s)

def scan (r : Repository) (start : Bytes) (s : Shelf) : Except RepositoryError (List Entry) × Shelf :=
  let (x, s) := (Cursor.new start).collect s
  (x.mapError (r.storeError allKeys), s)

def keys (r : Repository) (s : Shelf) : Except RepositoryError (List String) × Shelf :=
  let (x, s) := r.scan r.keySpace.livePrefix s
  (x.map (fun es => es.filterMap (fun e => r.keySpace.decodeLive? e.1)), s)

def completed (r : Repository) (s : Shelf) : Except RepositoryError (List String) × Shelf :=
  let (x, s) := r.scan r.keySpace.completedPrefix s
  (x.map (fun es => es.filterMap (fun e => r.keySpace.decodeCompleted? e.1)), s)

def size (r : Repository) (s : Shelf) : Except RepositoryError Nat × Shelf :=
  let (x, s) := r.scan r.keySpace.livePrefix s
  (x.map List.length, s)

def completedSize (r : Repository) (s : Shelf) : Except RepositoryError Nat × Shelf :=
  let (x, s) := r.scan r.keySpace.completedPrefix s
  (x.map List.length, s)

def completedCursor (r : Repository) : Cursor := Cursor.new r.keySpace.completedPrefix

def completedId? (r : Repository) : Except StoreError Entry → Option (Except RepositoryError String)
  | .ok e => (r.keySpace.decodeCompleted? e.1).map .ok
  | .error err => some (.error (r.storeError allKeys err))

def completedIds (r : Repository) (count : Nat) (s : Shelf) :
    List (Except RepositoryError String) × Shelf :=
  go (s.size + 2) count r.completedCursor s
where
  go : Nat → Nat → Cursor → Shelf → List (Except RepositoryError String) × Shelf
    | 0, _, _, s | _, 0, _, s => ([], s)
    | fuel + 1, count + 1, c, s =>
      match c.next s with
      | (none, _, s) => ([], s)
      | (some x, c, s) =>
        match r.completedId? x with
        | none => go fuel (count + 1) c s
        | some id =>
          let (ids, s) := go fuel count c s
          (id :: ids, s)

def close (r : Repository) (s : Shelf) : Except RepositoryError Unit × Shelf :=
  let (x, s) := s.closeStore
  (x.mapError (r.storeError allKeys), s)

def inventory (r : Repository) (s : Shelf) : Except RepositoryError (Nat × Nat) × Shelf :=
  match r.size s with
  | (.error e, s) => (.error e, s)
  | (.ok live, s) =>
    match r.completedSize s with
    | (.error e, s) => (.error e, s)
    | (.ok completed, s) => (.ok (live, completed), s)

/-- Opens the store and takes the inventory. If the inventory fails the store is closed, even one
that was open before. -/
def openOn (settings : Settings) (codec : Codec) (s : Shelf) :
    Except RepositoryError Repository × Shelf :=
  match settings.validate with
  | .error e => (.error (.settings e), s)
  | .ok k =>
    let r : Repository := ⟨settings, k, codec⟩
    match s.openStore with
    | (.error e, s) => (.error (r.storeError allKeys e), s)
    | (.ok (), s) =>
      match r.inventory s with
      | (.ok _, s) => (.ok r, s)
      | (.error e, s) => (.error e, s.closeStore.2)

def storeOf (settings : Settings) : Except SettingsError DurableStore :=
  match settings.storePath with
  | some path => .ok (.onFile path settings.sync 5000)
  | none => .error .noStorePath

def openDurable (settings : Settings) (d : Disk) :
    Except RepositoryError Repository × Shelf :=
  match storeOf settings with
  | .error e => (.error (.settings e), ⟨.memory .new, d, .none⟩)
  | .ok store => openOn settings Snapshot.codec ⟨.durable store, d, .none⟩

def openInMemory (settings : Settings) (d : Disk) : Except RepositoryError Repository × Shelf :=
  openOn settings Snapshot.codec ⟨.memory .new, d, .none⟩

def describe (r : Repository) (s : Shelf) : String :=
  "AggregationRepository \x7b name: " ++ Text.quoted r.name ++ ", store_open: " ++
    (if s.isOpen then "true" else "false") ++ " \x7d"

end Repository

end Staging
