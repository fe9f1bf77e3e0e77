import Staging.Bytes

namespace Staging

namespace Bytes

def digit (d : Nat) : UInt8 := Ascii.zero + d.toUInt8

def isDigit (b : UInt8) : Bool := Ascii.zero ≤ b && b ≤ Ascii.nine

def digitValue (b : UInt8) : Nat := b.toNat - 48

def digitsUpTo : Nat → Nat → Bytes
  | 0, n => [digit (n % 10)]
  | fuel + 1, n => if n < 10 then [digit n] else digitsUpTo fuel (n / 10) ++ [digit (n % 10)]

def ofNat (n : Nat) : Bytes := digitsUpTo n n

def ofInt (i : Int) : Bytes := if i < 0 then Ascii.minus :: ofNat i.natAbs else ofNat i.natAbs

def digitsValue (b : Bytes) : Nat := b.foldl (fun n d => 10 * n + digitValue d) 0

def ofNatPadded (width n : Nat) : Bytes :=
  let ds := ofNat n
  List.replicate (width - ds.length) Ascii.zero ++ ds

example : ofNat 0 = [48] ∧ ofNat 1024 = [49, 48, 50, 52] := by decide
example : ofInt (-7) = [45, 55] := by decide

end Bytes

namespace Text

def int? (s : String) : Option Int :=
  let number (cs : List Char) : Option Nat :=
    if cs.isEmpty || !cs.all Char.isDigit then none
    else some (cs.foldl (fun n c => 10 * n + (c.toNat - 48)) 0)
  match s.toList with
  | '-' :: r => (number r).map (fun n => -(n : Int))
  | '+' :: r => (number r).map (fun n => (n : Int))
  | cs => (number cs).map (fun n => (n : Int))

end Text

end Staging
