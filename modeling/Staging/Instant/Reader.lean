import Staging.Text.Characters
import Staging.Instant.Basic

/-!
Reading an instant from text with an offset. The reader is milder than the RFC 3339 grammar: white
space may stand before any number and around any sign, a space may stand for the `T`, numbers need
not have leading zeros, the colon of the offset may be missing or doubled, and `UTC` is an offset.
-/

namespace Staging.Instant

open Text (trimStart isBlank)

def digitsOf (ds : List Char) : Nat := ds.foldl (fun n c => 10 * n + (c.toNat - 48)) 0

def readDigits? (width : Nat) (cs : List Char) : Option (Nat × List Char) :=
  let ds := (cs.take width).takeWhile Char.isDigit
  if ds.isEmpty then none else some (digitsOf ds, cs.drop ds.length)

def readNumber? (cs : List Char) : Option (Nat × List Char) := readDigits? 2 (trimStart cs)

def readYear? (cs : List Char) : Option (Int × List Char) :=
  match trimStart cs with
  | '-' :: r => (readDigits? r.length r).map (fun p => (-(p.1 : Int), p.2))
  | '+' :: r => (readDigits? r.length r).map (fun p => ((p.1 : Int), p.2))
  | cs => (readDigits? 4 cs).map (fun p => ((p.1 : Int), p.2))

def readMark? (c : Char) (cs : List Char) : Option (List Char) :=
  match trimStart cs with
  | d :: r => if d = c then some r else none
  | [] => none

def readNano? : List Char → Option (Nat × List Char)
  | '.' :: r => do
    let (n, rest) ← readDigits? 9 r
    let used := r.length - rest.length
    return (n * Nat.pow 10 (9 - used), rest.dropWhile Char.isDigit)
  | cs => some (0, cs)

def readTwo? : List Char → Option (Nat × List Char)
  | a :: b :: r => if a.isDigit && b.isDigit then some (digitsOf [a, b], r) else none
  | _ => none

def readOffset? (cs : List Char) : Option (Int × List Char) :=
  if (cs.take 3).map Char.toLower = ['u', 't', 'c'] then some (0, cs.drop 3)
  else match cs with
    | 'Z' :: r | 'z' :: r => some (0, r)
    | sign :: r => do
      let negative ← if sign = '+' then some false
        else if sign = '-' || sign = '\u2212' then some true else none
      let (hours, r) ← readTwo? r
      let (minutes, r) ← readTwo? (r.dropWhile (fun c => c = ':' || isBlank c))
      if minutes < 60 ∧ hours < 24 then
        let n : Int := hours * 60 + minutes
        return (if negative then -n else n, r)
      else none
    | [] => none

def read? (s : String) : Option Instant := do
  let (year, cs) ← readYear? s.toList
  let cs ← readMark? '-' cs
  let (month, cs) ← readNumber? cs
  let cs ← readMark? '-' cs
  let (day, cs) ← readNumber? cs
  let cs ← match cs with
    | 'T' :: r | 't' :: r | ' ' :: r => some r
    | _ => none
  let (hour, cs) ← readNumber? cs
  let cs ← readMark? ':' cs
  let (minute, cs) ← readNumber? cs
  let cs ← readMark? ':' cs
  let (second, cs) ← readNumber? cs
  let (nano, cs) ← readNano? cs
  let (offset, cs) ← readOffset? (trimStart cs)
  let shown ← ofParts? year month day hour minute second nano
  if (trimStart cs).isEmpty then shown.ofLocal? offset else none

def dropChar? (c : Char) : List Char → Option (List Char)
  | d :: r => if d = c then some r else none
  | [] => none

def readFour? (cs : List Char) : Option (Nat × List Char) := do
  let (a, cs) ← readTwo? cs
  let (b, cs) ← readTwo? cs
  return (100 * a + b, cs)

def readStrictOffset? : List Char → Option Int
  | ['Z'] | ['z'] => some 0
  | [sign, a, b, ':', c, d] => do
    let (hours, _) ← readTwo? [a, b]
    let (minutes, _) ← readTwo? [c, d]
    let n : Int := hours * 60 + minutes
    if minutes < 60 ∧ hours < 24 then
      if sign = '+' then some n else if sign = '-' || sign = '\u2212' then some (-n) else none
    else none
  | _ => none

def readStrict? (s : String) : Option (Instant × Int) := do
  let (year, cs) ← readFour? s.toList
  let (month, cs) ← readTwo? (← dropChar? '-' cs)
  let (day, cs) ← readTwo? (← dropChar? '-' cs)
  let cs ← match cs with
    | 'T' :: r | 't' :: r | ' ' :: r => some r
    | _ => none
  let (hour, cs) ← readTwo? cs
  let (minute, cs) ← readTwo? (← dropChar? ':' cs)
  let (second, cs) ← readTwo? (← dropChar? ':' cs)
  let (nano, cs) ← readNano? cs
  let offset ← readStrictOffset? cs
  return (← ofParts? year month day hour minute second nano, offset)

def isUtcText (s : String) : Bool := (readStrict? s).any (·.2 = 0)

example : isUtcText "2024-01-01T00:00:00+0000" = false := by decide +kernel

end Staging.Instant
