import Staging.Store.Shelf

namespace Staging

structure Cursor where
  start : Bytes
  pageSize : Nat
  buffer : List Entry
  lastKey : Option Bytes
  exhausted : Bool
deriving DecidableEq

namespace Cursor

def defaultPageSize : Nat := 256

def new (start : Bytes) : Cursor := ⟨start, defaultPageSize, [], none, false⟩

def withPageSize (c : Cursor) (n : Nat) : Cursor := { c with pageSize := max n 1 }

def restart (c : Cursor) : Cursor := { c with buffer := [], lastKey := none, exhausted := false }

def resumeAfter (c : Cursor) (key : Bytes) : Cursor :=
  { c with buffer := [], lastKey := some key, exhausted := false }

def pop (c : Cursor) : Option Entry × Cursor :=
  match c.buffer with
  | [] => (none, c)
  | e :: r => (some e, { c with buffer := r, lastKey := some e.1 })

def next (c : Cursor) (s : Shelf) : Option (Except StoreError Entry) × Cursor × Shelf :=
  if c.buffer.isEmpty then
    if c.exhausted then (none, c, s)
    else match s.scanPage c.start c.lastKey c.pageSize with
      | (.error e, s) => (some (.error e), { c with exhausted := true }, s)
      | (.ok page, s) =>
        let (e, c) := { c with buffer := page, exhausted := page.length < c.pageSize }.pop
        (e.map .ok, c, s)
  else
    let (e, c) := c.pop
    (e.map .ok, c, s)

def drainUpTo : Nat → Cursor → Shelf → List (Except StoreError Entry) × Shelf
  | 0, _, s => ([], s)
  | fuel + 1, c, s =>
    match c.next s with
    | (none, _, s) => ([], s)
    | (some r, c, s) =>
      let (rs, s) := drainUpTo fuel c s
      (r :: rs, s)

def drain (c : Cursor) (s : Shelf) : List (Except StoreError Entry) × Shelf :=
  drainUpTo (c.buffer.length + s.size + 2) c s

def collectUpTo : Nat → Cursor → Shelf → Except StoreError (List Entry) × Shelf
  | 0, _, s => (.ok [], s)
  | fuel + 1, c, s =>
    match c.next s with
    | (none, _, s) => (.ok [], s)
    | (some (.error e), _, s) => (.error e, s)
    | (some (.ok e), c, s) =>
      match collectUpTo fuel c s with
      | (.ok es, s) => (.ok (e :: es), s)
      | (.error err, s) => (.error err, s)

def collect (c : Cursor) (s : Shelf) : Except StoreError (List Entry) × Shelf :=
  collectUpTo (c.buffer.length + s.size + 2) c s

end Cursor

end Staging
