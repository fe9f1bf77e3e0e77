import Staging.Text.Ascii

namespace Staging

abbrev Bytes := List UInt8

namespace Bytes

instance isLinearOrder : Std.IsLinearOrder Bytes := inferInstance

instance lawfulOrderLT : Std.LawfulOrderLT Bytes := inferInstance

instance lawfulBEq : LawfulBEq Bytes := inferInstance

def ofString (s : String) : Bytes := s.toByteArray.data.toList

def toString? (b : Bytes) : Option String := String.fromUTF8? ⟨b.toArray⟩

def asciiChars (b : Bytes) : List Char := b.map (fun x => Char.ofNat x.toNat)

def dropStart? : Bytes → Bytes → Option Bytes
  | [], b => some b
  | _ :: _, [] => none
  | x :: xs, y :: ys => if x = y then dropStart? xs ys else none

def startsWith (b start : Bytes) : Bool := (dropStart? start b).isSome

def lines : Bytes → List Bytes
  | [] => []
  | [b] => if b = Ascii.lineFeed then [[]] else [[b]]
  | b :: c :: r =>
    if b = Ascii.lineFeed then [] :: lines (c :: r)
    else if b = Ascii.carriageReturn ∧ c = Ascii.lineFeed then [] :: lines r
    else match lines (c :: r) with
      | [] => [[b]]
      | l :: ls => (b :: l) :: ls

@[simp] theorem toString?_ofString (s : String) : toString? (ofString s) = some s := by
  have h : (⟨(ofString s).toArray⟩ : ByteArray) = s.toByteArray := by simp [ofString]
  simp only [toString?, h, String.fromUTF8?, s.isValidUTF8, dif_pos]
  rfl

theorem ofString_of_toString? {b : Bytes} {s : String} (h : toString? b = some s) :
    ofString s = b := by
  unfold toString? String.fromUTF8? at h
  split at h
  · cases h; simp [ofString, String.fromUTF8]
  · cases h

theorem ofString_injective {s t : String} (h : ofString s = ofString t) : s = t := by
  have := toString?_ofString s
  rw [h, toString?_ofString] at this
  exact (Option.some.inj this).symm

theorem ofString_append (s t : String) : ofString (s ++ t) = ofString s ++ ofString t := by
  simp [ofString]

@[simp] theorem dropStart?_append (p r : Bytes) : dropStart? p (p ++ r) = some r := by
  induction p with
  | nil => rfl
  | cons x p ih => simp [dropStart?, ih]

theorem dropStart?_eq_some_iff {p b r : Bytes} : dropStart? p b = some r ↔ b = p ++ r := by
  induction p generalizing b with
  | nil => simp [dropStart?]
  | cons x p ih =>
    cases b with
    | nil => simp [dropStart?]
    | cons y b =>
      by_cases h : x = y
      · simp [dropStart?, h, ih]
      · simp [dropStart?, h, Ne.symm h]

end Bytes

end Staging
