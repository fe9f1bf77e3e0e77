import Staging.Bytes

namespace Staging.Hex

def digit (n : Nat) : Char := Nat.digitChar (n % 16)

def value (c : Char) : Nat :=
  if c.isDigit then c.toNat - 48
  else if 'a' ≤ c ∧ c ≤ 'f' then c.toNat - 87
  else c.toNat - 55

def value? (b : UInt8) : Option Nat :=
  if Ascii.zero ≤ b && b ≤ Ascii.nine then some (b.toNat - 48)
  else if Ascii.lowerA ≤ b && b ≤ Ascii.lowerF then some (b.toNat - 87)
  else if Ascii.upperA ≤ b && b ≤ Ascii.upperF then some (b.toNat - 55)
  else none

def encodeChars (b : Bytes) : List Char := b.flatMap (fun x => [digit (x.toNat / 16), digit x.toNat])

def encode (b : Bytes) : String := String.ofList (encodeChars b)

def decodeChars : List Char → Bytes
  | a :: b :: r => (value a * 16 + value b).toUInt8 :: decodeChars r
  | _ => []

def decode (s : String) : Bytes := decodeChars s.toList

theorem value_digit (n : Nat) (h : n < 16) : value (digit n) = n := by
  revert n; decide

theorem decodeChars_encodeChars (b : Bytes) : decodeChars (encodeChars b) = b := by
  induction b with
  | nil => rfl
  | cons x r ih =>
    have hx := x.toNat_lt
    have hlow : value (digit x.toNat) = x.toNat % 16 := by
      rw [show digit x.toNat = digit (x.toNat % 16) by simp [digit]]
      exact value_digit _ (Nat.mod_lt _ (by decide))
    have hbyte : (x.toNat / 16 * 16 + x.toNat % 16).toUInt8 = x := by
      rw [Nat.mul_comm, Nat.div_add_mod]; simp
    change (value (digit (x.toNat / 16)) * 16 + value (digit x.toNat)).toUInt8 ::
      decodeChars (encodeChars r) = x :: r
    rw [value_digit _ (by omega), hlow, ih, hbyte]

end Staging.Hex
