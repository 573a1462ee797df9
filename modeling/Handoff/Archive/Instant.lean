import Handoff.Archive.Date
import Handoff.Decimal.Numeral
import Handoff.Text.Character

set_option autoImplicit false
set_option relaxedAutoImplicit false

/-!
Points in time, kept in universal time.

They are written with a date, a time of day and the mark of universal time. They are read in any zone, and with
white space where it does no harm.
-/

namespace Handoff.Archive

structure Instant where
  date : Date
  hour : Fin 24
  minute : Fin 60
  /-- The second of the minute, which is 60 in a leap second. -/
  second : Fin 61
  nano : Fin 1000000000
  deriving DecidableEq

namespace Instant

def wholeChars (t : Instant) : List Char :=
  t.date.chars ++ 'T' :: Date.padded 2 t.hour ++ ':' :: Date.padded 2 t.minute
    ++ ':' :: Date.padded 2 t.second

/-- The fraction of a second in as many digits as it needs: none, three, six or nine. -/
def exactFraction (nano : Nat) : List Char :=
  if nano = 0 then []
  else if nano % 1000000 = 0 then '.' :: Date.padded 3 (nano / 1000000)
  else if nano % 1000 = 0 then '.' :: Date.padded 6 (nano / 1000)
  else '.' :: Date.padded 9 nano

def exactText (t : Instant) : String :=
  String.ofList (t.wholeChars ++ exactFraction t.nano ++ ['Z'])

/-- The instant as text, down to its last full millisecond. -/
def milliText (t : Instant) : String :=
  String.ofList (t.wholeChars ++ '.' :: Date.padded 3 (t.nano / 1000000) ++ ['Z'])

def skipBlank (cs : List Char) : List Char :=
  cs.dropWhile Text.isBlank

/-- The number that one digit or more write, up to a width, and what follows them. -/
def readNumber (width : Nat) (cs : List Char) : Option (Nat × List Char) :=
  match (cs.take width).takeWhile Char.isDigit with
  | [] => none
  | ds => some (Numeral.digitsValue ds, cs.drop ds.length)

/-- A year: up to four digits, or any number of digits after a sign. -/
def readYear (cs : List Char) : Option (Int × List Char) :=
  match cs with
  | '-' :: rest => (readNumber rest.length rest).map fun (n, rest) => (-(n : Int), rest)
  | '+' :: rest => (readNumber rest.length rest).map fun (n, rest) => ((n : Int), rest)
  | rest => (readNumber 4 rest).map fun (n, rest) => ((n : Int), rest)

def readMark (mark : Char) (cs : List Char) : Option (List Char) :=
  match cs with
  | c :: rest => if c = mark then some rest else none
  | [] => none

def readDate (cs : List Char) : Option (Date × List Char) := do
  let (year, cs) ← readYear (skipBlank cs)
  let cs ← readMark '-' (skipBlank cs)
  let (month, cs) ← readNumber 2 (skipBlank cs)
  let cs ← readMark '-' (skipBlank cs)
  let (day, cs) ← readNumber 2 (skipBlank cs)
  let date ← Date.ofParts? year month day
  return (date, cs)

/-- The letter or the space between date and time of day. -/
def readSeparator (cs : List Char) : Option (List Char) :=
  match cs with
  | c :: rest => if c = 'T' ∨ c = 't' ∨ c = ' ' then some rest else none
  | [] => none

/-- A fraction of a second in billionths; further digits are skipped. -/
def readFraction (cs : List Char) : Option (Nat × List Char) :=
  match cs with
  | '.' :: rest =>
    match Numeral.takeDigits rest with
    | ([], _) => none
    | (ds, rest) =>
      let kept := ds.take 9
      some (Numeral.digitsValue kept * Nat.pow 10 (9 - kept.length), rest)
  | rest => some (0, rest)

def readPair (bound : Nat) (cs : List Char) : Option (Nat × List Char) :=
  match cs with
  | a :: b :: rest =>
    let n := Numeral.digitsValue [a, b]
    if a.isDigit ∧ b.isDigit ∧ n < bound then some (n, rest) else none
  | _ => none

/-- The minutes by which a zone is ahead, for its sign. -/
def readOffset (sign : Int) (cs : List Char) : Option (Int × List Char) := do
  let (hours, cs) ← readPair 24 cs
  let (minutes, cs) ← readPair 60 (cs.dropWhile fun c => c = ':' || Text.isBlank c)
  return (sign * (60 * hours + minutes), cs)

/-- A zone, by its name or by how many minutes it is ahead. -/
def readZone (cs : List Char) : Option (Int × List Char) :=
  if (cs.take 3).map Char.toLower = ['u', 't', 'c'] then some (0, cs.drop 3)
  else match cs with
    | [] => none
    | c :: rest =>
      if c = 'Z' ∨ c = 'z' then some (0, rest)
      else if c = '+' then readOffset 1 rest
      else if c = '-' ∨ c = '\u2212' then readOffset (-1) rest
      else none

/-- The day that is `0`, `-1` or `1` days away. -/
def shiftDate (date : Date) (days : Int) : Option Date :=
  if days < 0 then date.previous? else if 0 < days then date.next? else some date

/-- The instant of a date and a time of day in a zone that is some minutes ahead. -/
def ofLocal? (date : Date) (hour minute second nano : Nat) (ahead : Int) : Option Instant :=
  if hour < 24 ∧ minute < 60 then
    let total := (60 * hour + minute : Int) - ahead
    let rest := (total % 1440).toNat
    match shiftDate date (total / 1440) with
    | some date =>
      if h : rest / 60 < 24 ∧ second < 61 ∧ nano < 1000000000 then
        some ⟨date, ⟨rest / 60, h.1⟩, ⟨rest % 60, Nat.mod_lt _ (by decide)⟩, ⟨second, h.2.1⟩, ⟨nano, h.2.2⟩⟩
      else none
    | none => none
  else none

/-- The instant that a text writes. -/
def read (s : String) : Option Instant := do
  let (date, cs) ← readDate s.toList
  let cs ← readSeparator cs
  let (hour, cs) ← readNumber 2 (skipBlank cs)
  let cs ← readMark ':' (skipBlank cs)
  let (minute, cs) ← readNumber 2 (skipBlank cs)
  let cs ← readMark ':' (skipBlank cs)
  let (second, cs) ← readNumber 2 (skipBlank cs)
  let (nano, cs) ← readFraction cs
  let (ahead, cs) ← readZone (skipBlank cs)
  if (skipBlank cs).isEmpty then ofLocal? date hour minute second nano ahead else none

end Instant
end Handoff.Archive
