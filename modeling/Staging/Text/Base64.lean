import Staging.Bytes

namespace Staging.Base64

def letter (n : Nat) : UInt8 :=
  if n < 26 then Ascii.upperA + n.toUInt8
  else if n < 52 then Ascii.lowerA + (n - 26).toUInt8
  else if n < 62 then Ascii.zero + (n - 52).toUInt8
  else if n = 62 then Ascii.plus
  else Ascii.slash

def value? (c : UInt8) : Option Nat :=
  if Ascii.upperA ≤ c && c ≤ Ascii.upperZ then some (c.toNat - 65)
  else if Ascii.lowerA ≤ c && c ≤ Ascii.lowerZ then some (c.toNat - 71)
  else if Ascii.zero ≤ c && c ≤ Ascii.nine then some (c.toNat + 4)
  else if c = Ascii.plus then some 62
  else if c = Ascii.slash then some 63
  else none

abbrev pad : UInt8 := Ascii.equals

def encode : Bytes → Bytes
  | a :: b :: c :: r =>
    let n := a.toNat * 65536 + b.toNat * 256 + c.toNat
    letter (n / 262144) :: letter (n / 4096 % 64) :: letter (n / 64 % 64) :: letter (n % 64) :: encode r
  | [a, b] =>
    let n := a.toNat * 65536 + b.toNat * 256
    [letter (n / 262144), letter (n / 4096 % 64), letter (n / 64 % 64), pad]
  | [a] =>
    let n := a.toNat * 65536
    [letter (n / 262144), letter (n / 4096 % 64), pad, pad]
  | [] => []

def decodeLast (p q r s : UInt8) : Option Bytes := do
  let a ← value? p
  let b ← value? q
  if s = pad then
    if r = pad then
      if b % 16 = 0 then some [(a * 4 + b / 16).toUInt8] else none
    else
      let c ← value? r
      if c % 4 = 0 then some [(a * 4 + b / 16).toUInt8, (b % 16 * 16 + c / 4).toUInt8] else none
  else
    let c ← value? r
    let d ← value? s
    some [(a * 4 + b / 16).toUInt8, (b % 16 * 16 + c / 4).toUInt8, (c % 4 * 64 + d).toUInt8]

def decode? : Bytes → Option Bytes
  | [] => some []
  | [p, q, r, s] => decodeLast p q r s
  | p :: q :: r :: s :: t => do
    let a ← value? p
    let b ← value? q
    let c ← value? r
    let d ← value? s
    let rest ← decode? t
    some ((a * 4 + b / 16).toUInt8 :: (b % 16 * 16 + c / 4).toUInt8 :: (c % 4 * 64 + d).toUInt8 :: rest)
  | _ => none

example : encode [102, 111, 111, 98] = Bytes.ofString "Zm9vYg==" := by decide +kernel
example : decode? (Bytes.ofString "Zm9vYg==") = some [102, 111, 111, 98] := by decide +kernel
example : decode? (Bytes.ofString "Zm9vYh==") = none := by decide +kernel

end Staging.Base64
