import ColorCensus.Text.Word
import ColorCensus.Yaml.Fault
import ColorCensus.Yaml.Number

/-!
# Dates and times in a YAML document

A plain scalar that looks like a date, or like a date with a time of day, is one, and has to
exist in the calendar. It is kept in one spelling: year, month and day with dashes, then the
time, the microseconds if there are any, and the offset from universal time.
-/

namespace ColorCensus.Yaml

open Text

/-- A number of `least` to `most` digits. -/
def takeNumber? (least most : Nat) (cs : List Char) : Option (Nat × List Char) :=
  let ds := (cs.take most).takeWhile isAsciiDigit
  if ds.length < least then none else some (digitsValue 10 ds, cs.drop ds.length)

def dropMark? (mark : Char) : List Char → Option (List Char)
  | [] => none
  | c :: rest => if c == mark then some rest else none

structure Day where
  year : Nat
  month : Nat
  day : Nat

structure Time where
  hour : Nat
  minute : Nat
  second : Nat
  microsecond : Nat
  /-- Minutes from universal time, if that is said. -/
  offset : Option Int

def padded (width n : Nat) : List Char :=
  let ds := Nat.toDigits 10 n
  List.replicate (width - ds.length) '0' ++ ds

def daysOf (year month : Nat) : Nat :=
  if month == 2 then
    if year % 4 == 0 && (year % 100 != 0 || year % 400 == 0) then 29 else 28
  else if [4, 6, 9, 11].contains month then 30
  else 31

namespace Day

def fault? (d : Day) : Option Fault :=
  if d.year == 0 then some .year
  else if d.month == 0 || 12 < d.month then some .month
  else if d.day == 0 || daysOf d.year d.month < d.day then some .day
  else none

def text (d : Day) : List Char :=
  padded 4 d.year ++ '-' :: padded 2 d.month ++ '-' :: padded 2 d.day

/-- A day of a number of digits each for month and day. -/
def take? (least : Nat) (cs : List Char) : Option (Day × List Char) := do
  let (year, cs) ← takeNumber? 4 4 cs
  let (month, cs) ← takeNumber? least 2 (← dropMark? '-' cs)
  let (day, cs) ← takeNumber? least 2 (← dropMark? '-' cs)
  pure (⟨year, month, day⟩, cs)

end Day

namespace Time

def offsetFault? (t : Time) : Option Fault := (t.offset.filter (1440 ≤ ·.natAbs)).map .offset

def fault? (t : Time) : Option Fault :=
  if 23 < t.hour then some .hour
  else if 59 < t.minute then some .minute
  else if 59 < t.second then some .second
  else none

def offsetText (minutes : Int) : List Char :=
  (if minutes < 0 then '-' else '+') :: padded 2 (minutes.natAbs / 60) ++
    ':' :: padded 2 (minutes.natAbs % 60)

def text (t : Time) : List Char :=
  padded 2 t.hour ++ ':' :: padded 2 t.minute ++ ':' :: padded 2 t.second ++
    (if t.microsecond == 0 then [] else '.' :: padded 6 t.microsecond) ++
    (t.offset.map offsetText).getD []

/-- What follows the seconds up to the end: the offset, if any. -/
def offset? (cs : List Char) : Option (Option Int) :=
  match cs.dropWhile fun c => c == ' ' || c == '\t' with
  | [] => if cs.isEmpty then some none else none
  | ['Z'] => some (some 0)
  | sign :: rest => do
      if sign != '+' && sign != '-' then none
      let (hours, rest) ← takeNumber? 1 2 rest
      let (minutes, rest) ← match rest with
        | ':' :: rest => takeNumber? 2 2 rest
        | _ => pure (0, rest)
      if !rest.isEmpty then none
      let total : Int := hours * 60 + minutes
      pure (some (if sign == '-' then -total else total))

def ofText? (cs : List Char) : Option Time := do
  let (hour, cs) ← takeNumber? 1 2 cs
  let (minute, cs) ← takeNumber? 2 2 (← dropMark? ':' cs)
  let (second, cs) ← takeNumber? 2 2 (← dropMark? ':' cs)
  let (fraction, cs) := match cs with
    | '.' :: rest => (rest.takeWhile isAsciiDigit, rest.dropWhile isAsciiDigit)
    | _ => ([], cs)
  let offset ← offset? cs
  let six := fraction.take 6
  pure ⟨hour, minute, second, digitsValue 10 six * Nat.pow 10 (6 - six.length), offset⟩

end Time

/-- The blanks or the letter between a date and a time. -/
def dropGap? : List Char → Option (List Char)
  | [] => none
  | c :: rest =>
      if c == 'T' || c == 't' then some rest
      else if c == ' ' || c == '\t' then some (rest.dropWhile fun c => c == ' ' || c == '\t')
      else none

/-- The text of the date or time that a scalar looks like. -/
def moment? (cs : List Char) : Option (Except Fault (List Char)) :=
  match Day.take? 2 cs with
  | some (day, []) => some (match day.fault? with
      | some f => .error f
      | none => .ok day.text)
  | _ => do
      let (day, rest) ← Day.take? 1 cs
      let time ← Time.ofText? (← dropGap? rest)
      pure (match time.offsetFault? <|> day.fault? <|> time.fault? with
        | some f => .error f
        | none => .ok (day.text ++ ' ' :: time.text))

end ColorCensus.Yaml
