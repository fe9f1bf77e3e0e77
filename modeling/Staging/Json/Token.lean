import Staging.Binary64.Basic
import Staging.Json.Printer
import Staging.Text.Hex

/-!
The tokens of JSON text. A token that is not finished, or that the grammar has no place for, is a
token too, and the last one.
-/

namespace Staging.Json

inductive Fault
  | malformed
  | truncated
  | mismatch
deriving DecidableEq

/-- What readers of a broken token report: one that keeps the value, one that only skips it, and one
that wants a name. A reader that skips a text is content with less. -/
structure Break where
  kept : Fault
  skipped : Fault
  named : Fault
deriving DecidableEq

namespace Break

def malformed : Break := ⟨.malformed, .malformed, .malformed⟩

def absent : Break := ⟨.truncated, .truncated, .truncated⟩

def cutWord : Break := ⟨.truncated, .truncated, .malformed⟩

def cutNumber : Break := ⟨.truncated, .malformed, .malformed⟩

end Break

inductive Token
  | openBracket
  | closeBracket
  | openBrace
  | closeBrace
  | colon
  | comma
  | null
  | bool (b : Bool)
  | number (n : Except Fault Number)
  | text (s : Except Fault String)
  | brokenText (kept skipped : Fault)
  | broken (b : Break)

inductive TextScan
  | closed (content : Except Fault Bytes) (rest : Bytes)
  | broken (kept skipped : Fault)

namespace TextScan

def prepend (b : Bytes) : TextScan → TextScan
  | closed (.ok c) rest => closed (.ok (b ++ c)) rest
  | s => s

def spoil (f : Fault) : TextScan → TextScan
  | closed _ rest => closed (.error f) rest
  | broken _ skipped => broken f skipped

end TextScan

def codeUnit? (a b c d : UInt8) : Option Nat := do
  let a ← Hex.value? a
  let b ← Hex.value? b
  let c ← Hex.value? c
  let d ← Hex.value? d
  some (a * 4096 + b * 256 + c * 16 + d)

def isLead (n : Nat) : Bool := 0xd800 ≤ n && n < 0xdc00

def isTrail (n : Nat) : Bool := 0xdc00 ≤ n && n < 0xe000

def trailingHalf : Bytes → Except Fault Nat
  | [] => .error .truncated
  | b :: r =>
    if b ≠ Ascii.backslash then .error .malformed
    else match r with
      | [] => .error .truncated
      | u :: r =>
        if u ≠ Ascii.lowerU then .error .malformed
        else match r with
          | h₁ :: h₂ :: h₃ :: h₄ :: _ =>
            match codeUnit? h₁ h₂ h₃ h₄ with
            | some n => if isTrail n then .ok n else .error .malformed
            | none => .error .malformed
          | _ => .error .truncated

def encodeCodePoint (n : Nat) : Bytes := Bytes.ofString (Char.ofNat n).toString

def unescape? (e : UInt8) : Option UInt8 :=
  if e = Ascii.quote || e = Ascii.backslash || e = Ascii.slash then some e
  else if e = Ascii.lowerB then some Ascii.backspace
  else if e = Ascii.lowerF then some Ascii.formFeed
  else if e = Ascii.lowerN then some Ascii.lineFeed
  else if e = Ascii.lowerR then some Ascii.carriageReturn
  else if e = Ascii.lowerT then some Ascii.tab
  else none

def scanText : Bytes → TextScan
  | [] => .broken .truncated .truncated
  | b :: r =>
    if b = Ascii.quote then .closed (.ok []) r
    else if b = Ascii.backslash then
      match r with
      | [] => .broken .truncated .truncated
      | e :: r =>
        if e = Ascii.lowerU then
          match r with
          | h₁ :: h₂ :: h₃ :: h₄ :: r =>
            match codeUnit? h₁ h₂ h₃ h₄ with
            | none => .broken .malformed .malformed
            | some n =>
              if isTrail n then (scanText r).spoil .malformed
              else if isLead n then
                match trailingHalf r, r with
                | .ok m, _ :: _ :: _ :: _ :: _ :: _ :: r =>
                  (scanText r).prepend
                    (encodeCodePoint (0x10000 + (n - 0xd800) * 1024 + (m - 0xdc00)))
                | .ok _, r => (scanText r).spoil .truncated
                | .error f, r => (scanText r).spoil f
              else (scanText r).prepend (encodeCodePoint n)
          | _ => .broken .truncated .truncated
        else
          match unescape? e with
          | some c => (scanText r).prepend [c]
          | none => .broken .malformed .malformed
    else if b < Ascii.space then .broken .malformed .malformed
    else (scanText r).prepend [b]

def textToken : TextScan → Token × Bytes
  | .closed (.ok c) rest =>
    match c.toString? with
    | some s => (.text (.ok s), rest)
    | none => (.text (.error .malformed), rest)
  | .closed (.error f) rest => (.text (.error f), rest)
  | .broken kept skipped => (.brokenText kept skipped, [])

def appendDigits (n : Nat) : Bytes → Nat × Bytes
  | [] => (n, [])
  | d :: r =>
    let m := 10 * n + Bytes.digitValue d
    if m < 0x10000000000000000 then appendDigits m r else (n, d :: r)

def leading (whole fraction : Bytes) : Nat × Int :=
  let (n, dropped) := appendDigits 0 whole
  let (n, unused) := appendDigits n fraction
  (n, dropped.length + unused.length - fraction.length)

def Number.ofSpelling (negative : Bool) (whole fraction : Bytes) (power : Option Int) :
    Except Fault Number :=
  let n := Bytes.digitsValue whole
  let value : Int := if negative then -(n : Int) else n
  if h : (fraction = [] ∧ power = none ∧ ¬(negative = true ∧ n = 0)) ∧
      -0x8000000000000000 ≤ value ∧ value < 0x10000000000000000 then
    .ok (.int value h.2)
  else
    let (n, e) := leading whole fraction
    match Binary64.Finite.ofScaled? negative n (e + power.getD 0) with
    | some x => .ok (.float x)
    | none => .error .malformed

def missingDigit (rest : Bytes) : Token × Bytes :=
  (.broken (if rest.isEmpty then .cutNumber else .malformed), [])

def scanExponent (negative : Bool) (whole fraction : Bytes) (b : Bytes) : Token × Bytes :=
  match b with
  | e :: r =>
    if e = Ascii.lowerE || e = Ascii.upperE then
      let down := r.head? = some Ascii.minus
      let r := if down || r.head? = some Ascii.plus then r.drop 1 else r
      let ds := r.takeWhile Bytes.isDigit
      let rest := r.dropWhile Bytes.isDigit
      if ds.isEmpty then missingDigit rest
      else
        let n : Int := Bytes.digitsValue ds
        (.number (Number.ofSpelling negative whole fraction (some (if down then -n else n))), rest)
    else (.number (Number.ofSpelling negative whole fraction none), b)
  | [] => (.number (Number.ofSpelling negative whole fraction none), [])

def scanNumber (b : Bytes) : Token × Bytes :=
  let negative := b.head? = some Ascii.minus
  let b := if negative then b.drop 1 else b
  let whole := b.takeWhile Bytes.isDigit
  let rest := b.dropWhile Bytes.isDigit
  if whole.isEmpty then missingDigit rest
  else if whole.head? = some Ascii.zero && 1 < whole.length then (.broken .malformed, [])
  else match rest with
    | p :: r =>
      if p = Ascii.point then
        let fraction := r.takeWhile Bytes.isDigit
        let rest := r.dropWhile Bytes.isDigit
        if fraction.isEmpty then missingDigit rest
        else scanExponent negative whole fraction rest
      else scanExponent negative whole [] rest
    | [] => scanExponent negative whole [] []

def scanWord (t : Token) : Bytes → Bytes → Token × Bytes
  | [], r => (t, r)
  | _ :: _, [] => (.broken .cutWord, [])
  | x :: word, y :: r => if x = y then scanWord t word r else (.broken .malformed, [])

def isSpace (b : UInt8) : Bool :=
  b = Ascii.space || b = Ascii.tab || b = Ascii.lineFeed || b = Ascii.carriageReturn

def nextToken? (b : Bytes) : Option (Token × Bytes) :=
  match b.dropWhile isSpace with
  | [] => none
  | c :: r => some <|
    if c = Ascii.openBracket then (.openBracket, r)
    else if c = Ascii.closeBracket then (.closeBracket, r)
    else if c = Ascii.openBrace then (.openBrace, r)
    else if c = Ascii.closeBrace then (.closeBrace, r)
    else if c = Ascii.colon then (.colon, r)
    else if c = Ascii.comma then (.comma, r)
    else if c = Ascii.quote then textToken (scanText r)
    else if c = Ascii.minus || Bytes.isDigit c then scanNumber (c :: r)
    else if c = Ascii.lowerN then scanWord .null (nullWord.drop 1) r
    else if c = Ascii.lowerT then scanWord (.bool true) (trueWord.drop 1) r
    else if c = Ascii.lowerF then scanWord (.bool false) (falseWord.drop 1) r
    else (.broken .malformed, [])

def tokensUpTo : Nat → Bytes → List Token
  | 0, _ => []
  | fuel + 1, b =>
    match nextToken? b with
    | none => []
    | some (t, r) => t :: tokensUpTo fuel r

def tokens (b : Bytes) : List Token := tokensUpTo b.length b

end Staging.Json
