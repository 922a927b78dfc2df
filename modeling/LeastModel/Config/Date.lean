import LeastModel.Number.Total

/-!
# Dates

A date is a year of four digits, a month and a day. A time may follow: after the
letter T with its distance from universal time, or after a space without.
-/

namespace LeastModel.Config

/-- The value of a list of decimal digits. -/
def decimal (ds : List Char) : Nat := ds.foldl (fun n d => n * 10 + (d.toNat - 0x30)) 0

/-- A time of the day. -/
structure Clock where
  hour : Nat := 0
  minute : Nat := 0
  second : Nat := 0
  nanosecond : Nat := 0
  deriving DecidableEq

/-- What a clock shows. -/
inductive Zone where
  /-- Universal time. -/
  | universal
  /-- A time so many minutes ahead of universal time. -/
  | ahead (minutes : Int)
  deriving DecidableEq

/-- A day with a time. -/
structure Date where
  year : Nat
  month : Nat
  day : Nat
  clock : Clock := {}
  zone : Zone := .universal
  deriving DecidableEq

/-- The number of days of a month. -/
def monthDays (year month : Nat) : Nat :=
  if month = 2 then
    if year % 4 = 0 ∧ (year % 100 ≠ 0 ∨ year % 400 = 0) then 29 else 28
  else if month ∈ [4, 6, 9, 11] then 30
  else 31

namespace Date

/-- The number of days before a date, from the start of the year zero on. -/
def daysBefore (d : Date) : Nat :=
  let leapYears := (d.year + 3) / 4 - (d.year + 99) / 100 + (d.year + 399) / 400
  let months := (List.range d.month).drop 1
  d.year * 365 + leapYears + Number.total (months.map (monthDays d.year)) + (d.day - 1)

/-- The seconds of universal time before a date. -/
def seconds (d : Date) : Int :=
  let shown : Nat :=
    ((d.daysBefore * 24 + d.clock.hour) * 60 + d.clock.minute) * 60 + d.clock.second
  match d.zone with
  | .universal => shown
  | .ahead minutes => shown - minutes * 60

/-- Whether two dates are the same. Dates whose distance from universal time is
written out are different, unless the distance is none. -/
def same (a b : Date) : Bool :=
  match a.zone with
  | .universal => a == b
  | .ahead minutes => minutes == 0 && a == b

/-- The order of dates: first by the fraction of a second, then by the time. -/
def le (a b : Date) : Bool :=
  a.clock.nanosecond < b.clock.nanosecond ||
    (a.clock.nanosecond == b.clock.nanosecond && a.seconds ≤ b.seconds)

end Date

/-- A number of one or two digits, and what follows it. -/
def shortNumber? : List Char → Option (Nat × List Char)
  | a :: b :: cs =>
    if a.isDigit then if b.isDigit then some (decimal [a, b], cs) else some (decimal [a], b :: cs)
    else none
  | [a] => if a.isDigit then some (decimal [a], []) else none
  | [] => none

/-- What follows a given character. -/
def afterChar? (c : Char) (cs : List Char) : Option (List Char) :=
  if cs.head? = some c then some (cs.drop 1) else none

/-- The fraction of a second, which may be missing, in nanoseconds, and what follows
it. Digits after the ninth do not count. -/
def fraction (cs : List Char) : Nat × List Char :=
  match cs with
  | point :: digit :: _ =>
    if (point = '.' ∨ point = ',') ∧ digit.isDigit then
      let digits := (cs.drop 1).takeWhile Char.isDigit
      (decimal ((digits ++ List.replicate 9 '0').take 9), (cs.drop 1).dropWhile Char.isDigit)
    else (0, cs)
  | _ => (0, cs)

/-- A time of the day: hours, minutes and seconds between colons, and what follows. -/
def clock? (cs : List Char) : Option (Clock × List Char) := do
  let (hour, cs) ← shortNumber? cs
  let (minute, cs) ← shortNumber? (← afterChar? ':' cs)
  let (second, cs) ← shortNumber? (← afterChar? ':' cs)
  if hour < 24 ∧ minute < 60 ∧ second < 60 then
    let (nanosecond, cs) := fraction cs
    some (⟨hour, minute, second, nanosecond⟩, cs)
  else none

/-- A distance from universal time: none, or hours and minutes. -/
def zone? (cs : List Char) : Option Zone :=
  match cs with
  | ['Z'] => some .universal
  | [sign, a, b, colon, c, d] =>
    if (sign = '+' ∨ sign = '-') ∧ colon = ':' ∧ [a, b, c, d].all Char.isDigit ∧
        decimal [a, b] ≤ 24 ∧ decimal [c, d] ≤ 60 then
      let minutes : Int := decimal [a, b] * 60 + decimal [c, d]
      some (.ahead (if sign = '-' then -minutes else minutes))
    else none
  | _ => none

/-- The time in what follows the day of a date. -/
def time? (cs : List Char) : Option (Clock × Zone) :=
  match cs with
  | [] => some ({}, .universal)
  | c :: rest =>
    if c = 'T' ∨ c = 't' then do
      let (clock, rest) ← clock? rest
      return (clock, ← zone? rest)
    else if c = ' ' then do
      let (clock, rest) ← clock? (rest.dropWhile (· = ' '))
      if rest.isEmpty then some (clock, .universal) else none
    else none

/-- The date that a text is, maybe with a time. -/
def date? (cs : List Char) : Option Date := do
  let year := cs.takeWhile Char.isDigit
  let (month, cs) ← shortNumber? (← afterChar? '-' (cs.drop year.length))
  let (day, cs) ← shortNumber? (← afterChar? '-' cs)
  let (clock, zone) ← time? cs
  if year.length = 4 ∧ 1 ≤ month ∧ month ≤ 12 ∧ 1 ≤ day ∧ day ≤ monthDays (decimal year) month then
    some ⟨decimal year, month, day, clock, zone⟩
  else none

end LeastModel.Config
