import Staging.Json.Basic
import Staging.Binary64.Shortest

namespace Staging.Json

def layout : DecimalLayout := ⟨-5, 15⟩

def Number.render : Number → Bytes
  | .int i _ => Bytes.ofInt i
  | .float x => layout.render x.negative x.shortest

def hexDigit (n : Nat) : UInt8 := if n < 10 then Ascii.zero + n.toUInt8 else Ascii.lowerA + (n - 10).toUInt8

def escape (b : UInt8) : Bytes :=
  if b = Ascii.quote then [Ascii.backslash, Ascii.quote]
  else if b = Ascii.backslash then [Ascii.backslash, Ascii.backslash]
  else if b = Ascii.backspace then [Ascii.backslash, Ascii.lowerB]
  else if b = Ascii.formFeed then [Ascii.backslash, Ascii.lowerF]
  else if b = Ascii.lineFeed then [Ascii.backslash, Ascii.lowerN]
  else if b = Ascii.carriageReturn then [Ascii.backslash, Ascii.lowerR]
  else if b = Ascii.tab then [Ascii.backslash, Ascii.lowerT]
  else if b < Ascii.space then
    [Ascii.backslash, Ascii.lowerU, Ascii.zero, Ascii.zero,
      hexDigit (b.toNat / 16), hexDigit (b.toNat % 16)]
  else [b]

def renderText (s : String) : Bytes :=
  Ascii.quote :: (Bytes.ofString s).flatMap escape ++ [Ascii.quote]

def nullWord : Bytes := Bytes.ofString "null"
def trueWord : Bytes := Bytes.ofString "true"
def falseWord : Bytes := Bytes.ofString "false"

mutual

def compact : Json → Bytes
  | .null => nullWord
  | .bool true => trueWord
  | .bool false => falseWord
  | .number n => n.render
  | .text s => renderText s
  | .array items => Ascii.openBracket :: compactItems items ++ [Ascii.closeBracket]
  | .object members => Ascii.openBrace :: compactMembers members ++ [Ascii.closeBrace]

def compactItems : List Json → Bytes
  | [] => []
  | [j] => compact j
  | j :: r => compact j ++ Ascii.comma :: compactItems r

def compactMembers : List (String × Json) → Bytes
  | [] => []
  | [(k, j)] => renderText k ++ Ascii.colon :: compact j
  | (k, j) :: r => renderText k ++ Ascii.colon :: compact j ++ Ascii.comma :: compactMembers r

end

def newLine (indent : Nat) : Bytes := Ascii.lineFeed :: List.replicate (2 * indent) Ascii.space

mutual

def prettyAt (indent : Nat) : Json → Bytes
  | .array [] => [Ascii.openBracket, Ascii.closeBracket]
  | .array (j :: r) =>
    Ascii.openBracket :: prettyItems (indent + 1) (j :: r) ++ newLine indent ++ [Ascii.closeBracket]
  | .object [] => [Ascii.openBrace, Ascii.closeBrace]
  | .object (m :: r) =>
    Ascii.openBrace :: prettyMembers (indent + 1) (m :: r) ++ newLine indent ++ [Ascii.closeBrace]
  | .null => nullWord
  | .bool true => trueWord
  | .bool false => falseWord
  | .number n => n.render
  | .text s => renderText s

def prettyItems (indent : Nat) : List Json → Bytes
  | [] => []
  | [j] => newLine indent ++ prettyAt indent j
  | j :: r => newLine indent ++ prettyAt indent j ++ Ascii.comma :: prettyItems indent r

def prettyMembers (indent : Nat) : List (String × Json) → Bytes
  | [] => []
  | [(k, j)] => newLine indent ++ renderText k ++ [Ascii.colon, Ascii.space] ++ prettyAt indent j
  | (k, j) :: r =>
    newLine indent ++ renderText k ++ [Ascii.colon, Ascii.space] ++ prettyAt indent j ++
      Ascii.comma :: prettyMembers indent r

end

def pretty (j : Json) : Bytes := prettyAt 0 j

end Staging.Json
