import Staging.Text.Digits

namespace Staging

namespace Instant

def isLeapYear (year : Int) : Bool :=
  year % 4 = 0 && (year % 100 ≠ 0 || year % 400 = 0)

def daysIn (year : Int) (month : Nat) : Nat :=
  match month with
  | 2 => if isLeapYear year then 29 else 28
  | 4 | 6 | 9 | 11 => 30
  | _ => 31

def IsYear (year : Int) : Prop := -262143 ≤ year ∧ year ≤ 262142

instance (y : Int) : Decidable (IsYear y) := by unfold IsYear; infer_instance

def IsDate (year : Int) (month day : Nat) : Prop :=
  IsYear year ∧ 1 ≤ month ∧ month ≤ 12 ∧ 1 ≤ day ∧ day ≤ daysIn year month

instance (y : Int) (m d : Nat) : Decidable (IsDate y m d) := by unfold IsDate; infer_instance

def IsTime (hour minute second nano : Nat) : Prop :=
  hour < 24 ∧ minute < 60 ∧ second ≤ 60 ∧ nano < 1000000000

instance (h m s n : Nat) : Decidable (IsTime h m s n) := by unfold IsTime; infer_instance

end Instant

structure Instant where
  year : Int
  month : Nat
  day : Nat
  hour : Nat
  minute : Nat
  second : Nat
  nano : Nat
  isDate : Instant.IsDate year month day
  isTime : Instant.IsTime hour minute second nano
deriving DecidableEq

namespace Instant

def ofParts? (year : Int) (month day hour minute second nano : Nat) : Option Instant :=
  if hd : IsDate year month day then
    if ht : IsTime hour minute second nano then
      some ⟨year, month, day, hour, minute, second, nano, hd, ht⟩
    else none
  else none

def dayBefore (year : Int) (month day : Nat) : Int × Nat × Nat :=
  if 1 < day then (year, month, day - 1)
  else if 1 < month then (year, month - 1, daysIn year (month - 1))
  else (year - 1, 12, 31)

def dayAfter (year : Int) (month day : Nat) : Int × Nat × Nat :=
  if day < daysIn year month then (year, month, day + 1)
  else if month < 12 then (year, month + 1, 1)
  else (year + 1, 1, 1)

/-- The instant at which a clock that is `offset` minutes ahead, by less than a day, shows `t`. -/
def ofLocal? (t : Instant) (offset : Int) : Option Instant :=
  let minutes := (60 * t.hour + t.minute : Int) - offset
  let (date, minutes) :=
    if minutes < 0 then (dayBefore t.year t.month t.day, minutes + 1440)
    else if 1440 ≤ minutes then (dayAfter t.year t.month t.day, minutes - 1440)
    else ((t.year, t.month, t.day), minutes)
  ofParts? date.1 date.2.1 date.2.2 (minutes.toNat / 60) (minutes.toNat % 60) t.second t.nano

def renderYear (year : Int) : Bytes :=
  if 0 ≤ year ∧ year ≤ 9999 then Bytes.ofNatPadded 4 year.toNat
  else (if year < 0 then Ascii.minus else Ascii.plus) :: Bytes.ofNatPadded 4 year.natAbs

def renderNano (nano : Nat) : Bytes :=
  if nano = 0 then []
  else if nano % 1000000 = 0 then Ascii.point :: Bytes.ofNatPadded 3 (nano / 1000000)
  else if nano % 1000 = 0 then Ascii.point :: Bytes.ofNatPadded 6 (nano / 1000)
  else Ascii.point :: Bytes.ofNatPadded 9 nano

def renderClock (t : Instant) : Bytes :=
  renderYear t.year ++ Ascii.minus :: Bytes.ofNatPadded 2 t.month ++
    Ascii.minus :: Bytes.ofNatPadded 2 t.day ++ Ascii.upperT :: Bytes.ofNatPadded 2 t.hour ++
    Ascii.colon :: Bytes.ofNatPadded 2 t.minute ++ Ascii.colon :: Bytes.ofNatPadded 2 t.second ++
    renderNano t.nano

def render (t : Instant) : String :=
  String.ofList ((renderClock t).asciiChars ++ ['Z'])

def renderWithOffset (t : Instant) : String :=
  String.ofList ((renderClock t).asciiChars ++ ['+', '0', '0', ':', '0', '0'])

def dateAfter (days : Int) : Int × Nat × Nat :=
  let cycle := days / 146097
  let day := (days % 146097).toNat
  let year := (day - day / 1460 + day / 36524 - day / 146096) / 365
  let dayOfYear := day - (365 * year + year / 4 - year / 100)
  let m := (5 * dayOfYear + 2) / 153
  let month := if m < 10 then m + 3 else m - 9
  (400 * cycle + year + if month ≤ 2 then 1 else 0, month, dayOfYear - (153 * m + 2) / 5 + 1)

def ofUnix? (seconds : Int) (nano : Nat) : Option Instant :=
  let (year, month, day) := dateAfter (seconds / 86400 + 719468)
  let s := (seconds % 86400).toNat
  ofParts? year month day (s / 3600) (s / 60 % 60) (s % 60) nano

example : dateAfter 719468 = (1970, 1, 1) := by decide
example : dateAfter 730484 = (2000, 2, 29) ∧ dateAfter 730485 = (2000, 3, 1) := by decide
example : dateAfter 693959 = (1900, 2, 28) ∧ dateAfter 693960 = (1900, 3, 1) := by decide

end Instant

end Staging
