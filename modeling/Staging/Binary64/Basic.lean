namespace Staging

namespace Binary64

def Canonical (significand : Nat) (exponent : Int) : Prop :=
  significand < 0x20000000000000 ∧ -1074 ≤ exponent ∧ exponent ≤ 971 ∧
    (0x10000000000000 ≤ significand ∨ exponent = -1074)

instance (m : Nat) (e : Int) : Decidable (Canonical m e) := by unfold Canonical; infer_instance

/-- The number `± significand * 2 ^ exponent`. Zero has both signs. -/
structure Finite where
  negative : Bool
  significand : Nat
  exponent : Int
  canonical : Canonical significand exponent
deriving DecidableEq

def Finite.zero (negative : Bool) : Finite := ⟨negative, 0, -1074, by decide⟩

end Binary64

inductive Binary64
  | finite (x : Binary64.Finite)
  | infinite (negative : Bool)
  | nan
deriving DecidableEq

def Binary64.isFinite : Binary64 → Bool
  | .finite _ => true
  | _ => false

structure Decimal where
  digits : Nat
  exponent : Int
deriving DecidableEq

def roundQuotient (n d : Nat) : Nat :=
  let q := n / d
  let r := n % d
  if 2 * r < d ∨ (2 * r = d ∧ q % 2 = 0) then q else q + 1

namespace Binary64.Finite

def scaled (n d : Nat) (e : Int) : Nat × Nat :=
  if 0 ≤ e then (n, d * Nat.pow 2 e.toNat) else (n * Nat.pow 2 (-e).toNat, d)

def exponentFor (n d : Nat) : Int :=
  let e := max ((n.log2 : Int) - d.log2 - 53) (-1074)
  let s := scaled n d e
  if s.1 / s.2 < 0x20000000000000 then e else e + 1

def ofParts? (negative : Bool) (significand : Nat) (exponent : Int) : Option Finite :=
  if h : Canonical significand exponent then some ⟨negative, significand, exponent, h⟩ else none

def ofQuotient? (negative : Bool) (n d : Nat) : Option Finite :=
  let e := exponentFor n d
  let s := scaled n d e
  let m := roundQuotient s.1 s.2
  if m = 0x20000000000000 then ofParts? negative 0x10000000000000 (e + 1) else ofParts? negative m e

def ofInt (i : Int) : Finite :=
  (ofQuotient? (i < 0) i.natAbs 1).getD (zero (i < 0))

def ofDecimal? (negative : Bool) (x : Decimal) : Option Finite :=
  if x.digits = 0 then some (zero negative)
  else if 0 ≤ x.exponent then ofQuotient? negative (x.digits * Nat.pow 10 x.exponent.toNat) 1
  else ofQuotient? negative x.digits (Nat.pow 10 (-x.exponent).toNat)

def isZero (x : Finite) : Bool := x.significand = 0

def quotient (x : Finite) : Nat × Nat := scaled x.significand 1 (-x.exponent)

def mul? (x y : Finite) : Option Finite :=
  let negative := x.negative != y.negative
  if x.isZero || y.isZero then some (zero negative)
  else ofQuotient? negative (x.quotient.1 * y.quotient.1) (x.quotient.2 * y.quotient.2)

def div? (x y : Finite) : Option Finite :=
  let negative := x.negative != y.negative
  if y.isZero then none
  else if x.isZero then some (zero negative)
  else ofQuotient? negative (x.quotient.1 * y.quotient.2) (x.quotient.2 * y.quotient.1)

def greatestPower : Nat := 308

def powerOfTen? (n : Nat) : Option Finite := ofDecimal? false ⟨1, n⟩

def scaleUpTo : Nat → Finite → Int → Option Finite
  | 0, x, _ => some x
  | fuel + 1, x, e =>
    if e.natAbs ≤ greatestPower then do
      let p ← powerOfTen? e.natAbs
      if 0 ≤ e then x.mul? p else x.div? p
    else if x.isZero then some x
    else if 0 ≤ e then none
    else do
      let y ← x.div? (← powerOfTen? greatestPower)
      scaleUpTo fuel y (e + greatestPower)

/-- `± n * 10 ^ e`; none if it lies beyond the greatest finite number. A number of 64 bits is zero
after two divisions by the greatest power. -/
def ofScaled? (negative : Bool) (n : Nat) (e : Int) : Option Finite :=
  (fun x => { x with negative := negative }) <$> scaleUpTo 3 (ofInt n) e

end Binary64.Finite

end Staging
