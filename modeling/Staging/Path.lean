import Staging.Bytes

/-!
Places in the tree of directories, and the texts that name them. A place is a list of names from the
working directory. It begins with a slash if it starts at the root, and with two points for each
directory that it goes up from the working directory. A name is any run of bytes but zero and slash.
-/

namespace Staging

abbrev Path := List Bytes

namespace Path

def here : Bytes := [Ascii.point]

def above : Bytes := [Ascii.point, Ascii.point]

def root : Path := [[Ascii.slash]]

def isUpward (p : Path) : Bool := p.all (· = above)

def step (p : Path) (name : Bytes) : Path :=
  if name = [] || name = here then p
  else if name = above then
    if p = root then p
    else if p.isUpward then p ++ [above]
    else p.dropLast
  else p ++ [name]

def text (p : Path) : Bytes :=
  if p.head? = root.head? then Ascii.slash :: [Ascii.slash].intercalate p.tail
  else [Ascii.slash].intercalate p

def nameLimit : Nat := 255

def isTooLong (name : Bytes) : Bool := nameLimit < name.length

end Path

structure PathText where
  start : Path
  names : List Bytes

namespace PathText

def byteLimit : Nat := 4096

def namesOf (b : Bytes) : List Bytes := b.splitOn Ascii.slash

def ofBytes? (b : Bytes) : Option PathText :=
  if b.length < byteLimit ∧ 0 ∉ b then
    some ⟨if b.head? = some Ascii.slash then Path.root else [], namesOf b⟩
  else none

def trimNames (names : List Bytes) : List Bytes :=
  (names.reverse.dropWhile (fun n => n = [] || n = Path.here)).reverse

def parentOf (b : Bytes) : Bytes :=
  [Ascii.slash].intercalate (trimNames (trimNames (namesOf b)).dropLast)

def visited (t : PathText) : List Path := t.names.scanl Path.step t.start

example : [("a/b//./", "a"), ("x/..", "x"), ("./s", "")].all
    (fun p => parentOf (Bytes.ofString p.1) = Bytes.ofString p.2) := by
  decide +kernel

end PathText

end Staging
