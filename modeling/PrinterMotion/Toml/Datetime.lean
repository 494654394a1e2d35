/-
Dates and times: a date, a time, or both with an optional offset. They are checked against the calendar
and the clock and written in one normal form.
-/
import PrinterMotion.Text.Number
import PrinterMotion.Toml.Rules

namespace PrinterMotion.Toml

open PrinterMotion.Text (digitsValue)

/-- Reads exactly `n` digits. -/
def digitsExactly (n : Nat) (cs : List Char) : Option (Nat × List Char) :=
  let ds := cs.take n
  if ds.length = n ∧ ds.all Char.isDigit then some (digitsValue ds, cs.drop n) else none

/-- Reads one given character. -/
def expect (c : Char) : List Char → Option (List Char)
  | d :: rest => if d = c then some rest else none
  | [] => none

/-- Days of a month. -/
def daysIn (year month : Nat) : Nat :=
  if month = 2 then
    if year % 4 = 0 ∧ (year % 100 ≠ 0 ∨ year % 400 = 0) then 29 else 28
  else if month = 4 ∨ month = 6 ∨ month = 9 ∨ month = 11 then 30
  else 31

/-- A number with leading zeros. -/
def padded (width n : Nat) : String :=
  let cs := Nat.toDigits 10 n
  String.ofList (List.replicate (width - cs.length) '0' ++ cs)

/-- Reads `year-month-day`. -/
def readDate (cs : List Char) : Option (String × List Char) := do
  let (year, cs) ← digitsExactly 4 cs
  let (month, cs) ← digitsExactly 2 (← expect '-' cs)
  let (day, cs) ← digitsExactly 2 (← expect '-' cs)
  if 1 ≤ month ∧ month ≤ 12 ∧ 1 ≤ day ∧ day ≤ daysIn year month then
    some (padded 4 year ++ "-" ++ padded 2 month ++ "-" ++ padded 2 day, cs)
  else none

/-- The fraction of a second without zeros at its end, but with at least one digit; nine digits count. -/
def fractionText (ds : List Char) : String :=
  let kept := ((ds.take 9).reverse.dropWhile (· = '0')).reverse
  String.ofList ('.' :: if kept.isEmpty then ['0'] else kept)

/-- Reads seconds with an optional fraction. -/
def readSeconds (cs : List Char) : Option (String × List Char) := do
  let (second, cs) ← digitsExactly 2 cs
  if 60 < second then none
  else
    match cs with
    | '.' :: rest =>
      let ds := rest.takeWhile Char.isDigit
      if ds.isEmpty then none
      else some (padded 2 second ++ fractionText ds, rest.dropWhile Char.isDigit)
    | _ => some (padded 2 second, cs)

/-- Reads `hour:minute:second`, or `hour:minute` where that is allowed. -/
def readTime (rules : Rules) (cs : List Char) : Option (String × List Char) := do
  let (hour, cs) ← digitsExactly 2 cs
  let (minute, cs) ← digitsExactly 2 (← expect ':' cs)
  if 23 < hour ∨ 59 < minute then none
  else
    let clock := padded 2 hour ++ ":" ++ padded 2 minute
    match cs with
    | ':' :: rest => (readSeconds rest).map fun (seconds, rest) => (clock ++ ":" ++ seconds, rest)
    | _ => if rules.shortTimes then some (clock, cs) else none

/-- Reads an offset from universal time, or nothing. An offset of zero is positive. -/
def readOffset : List Char → Option (String × List Char)
  | 'Z' :: rest => some ("Z", rest)
  | 'z' :: rest => some ("Z", rest)
  | c :: rest =>
    if c = '+' ∨ c = '-' then do
      let (hour, rest) ← digitsExactly 2 rest
      let (minute, rest) ← digitsExactly 2 (← expect ':' rest)
      if 23 < hour ∨ 59 < minute then none
      else
        let sign := if c = '-' ∧ (hour, minute) ≠ (0, 0) then "-" else "+"
        some (sign ++ padded 2 hour ++ ":" ++ padded 2 minute, rest)
    else some ("", c :: rest)
  | [] => some ("", [])

/-- Reads a date, a time, or a date and a time, as a whole; the result is in normal form. -/
def readDatetime (rules : Rules) (cs : List Char) : Option String :=
  match readDate cs with
  | some (date, []) => some date
  | some (date, sep :: rest) =>
    if sep = 'T' ∨ sep = 't' ∨ sep = ' ' then do
      let (time, rest) ← readTime rules rest
      let (offset, rest) ← readOffset rest
      if rest.isEmpty then some (date ++ "T" ++ time ++ offset) else none
    else none
  | none => do
    let (time, rest) ← readTime rules cs
    if rest.isEmpty then some time else none

end PrinterMotion.Toml
