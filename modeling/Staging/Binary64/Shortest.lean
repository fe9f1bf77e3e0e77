import Staging.Text.Digits
import Staging.Binary64.Basic

namespace Staging

def digitCountUpTo : Nat → Nat → Nat
  | 0, _ => 1
  | fuel + 1, n => if n < 10 then 1 else digitCountUpTo fuel (n / 10) + 1

def digitCount (n : Nat) : Nat := digitCountUpTo (n.log2 + 1) n

def Decimal.stripZerosUpTo : Nat → Decimal → Decimal
  | 0, x => x
  | fuel + 1, x =>
    if x.digits ≠ 0 ∧ x.digits % 10 = 0 then stripZerosUpTo fuel ⟨x.digits / 10, x.exponent + 1⟩ else x

namespace Binary64.Finite

def exact (x : Finite) : Decimal :=
  if 0 ≤ x.exponent then ⟨x.significand * Nat.pow 2 x.exponent.toNat, 0⟩
  else ⟨x.significand * Nat.pow 5 (-x.exponent).toNat, x.exponent⟩

def withDigits? (x : Finite) (n : Nat) : Option Decimal :=
  let v := x.exact
  let dropped := digitCount v.digits - n
  let low := v.digits / Nat.pow 10 dropped
  let high := low + 1
  let r := 2 * (v.digits % Nat.pow 10 dropped)
  let nearLow := r < Nat.pow 10 dropped ∨ (r = Nat.pow 10 dropped ∧ low % 2 = 0)
  let order := if nearLow then [low, high] else [high, low]
  (order.map (fun d => (⟨d, v.exponent + dropped⟩ : Decimal))).find?
    (fun y => ofDecimal? x.negative y = some x)

/-- The fewest digits that read back as `x`, and of those the nearest; the exact value if no
seventeen digits do. -/
def shortest (x : Finite) : Decimal :=
  if x.significand = 0 then ⟨0, 0⟩
  else
    let y := ((List.range 17).findSome? (fun n => x.withDigits? (n + 1))).getD x.exact
    Decimal.stripZerosUpTo (digitCount y.digits) y

end Binary64.Finite

structure DecimalLayout where
  least : Int
  greatest : Int

def DecimalLayout.render (layout : DecimalLayout) (negative : Bool) (x : Decimal) : Bytes :=
  let ds := Bytes.ofNat x.digits
  let lead := (ds.length : Int) - 1 + x.exponent
  let zeros (n : Int) : Bytes := List.replicate n.toNat Ascii.zero
  let body :=
    if x.digits = 0 then ds ++ [Ascii.point, Ascii.zero]
    else if layout.least ≤ lead ∧ lead ≤ layout.greatest then
      if 0 ≤ x.exponent then ds ++ zeros x.exponent ++ [Ascii.point, Ascii.zero]
      else if 0 ≤ lead then
        let whole := (lead + 1).toNat
        ds.take whole ++ [Ascii.point] ++ ds.drop whole
      else [Ascii.zero, Ascii.point] ++ zeros (-lead - 1) ++ ds
    else
      let tail := ds.drop 1
      ds.take 1 ++ (if tail.isEmpty then [] else Ascii.point :: tail) ++ [Ascii.lowerE] ++
        (if 0 ≤ lead then [Ascii.plus] else [Ascii.minus]) ++ Bytes.ofNat lead.natAbs
  if negative then Ascii.minus :: body else body

end Staging
