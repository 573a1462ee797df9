import Handoff.Text.Character
import Handoff.Text.LetterCase.Tables

set_option autoImplicit false
set_option relaxedAutoImplicit false

/-!
Capital and small forms of letters and texts.

A letter may have a form of several characters. The small form of a capital sigma depends on its place: it is
the final one at the end of a word.
-/

namespace Handoff.Text.LetterCase

def Run.holds (run : Run) (code : Nat) : Bool :=
  Nat.ble run.first code && Nat.ble code run.last && (code - run.first) % run.step == 0

/-- The code point that the runs move `code` to; itself when they do not have it. -/
def shifted (runs : List Run) (code : Nat) : Nat :=
  match runs.find? (·.holds code) with
  | some run => ((code : Int) + run.shift).toNat
  | none => code

def form (sequences : List (Nat × List Nat)) (runs : List Run) (c : Char) : List Char :=
  match sequences.lookup c.toNat with
  | some codes => codes.map Char.ofNat
  | none => [Char.ofNat (shifted runs c.toNat)]

def upper (c : Char) : List Char :=
  if c.toNat < 0x80 then [c.toUpper] else form upperSequences upperRuns c

def lower (c : Char) : List Char :=
  if c.toNat < 0x80 then [c.toLower] else form lowerSequences lowerRuns c

def isCased (c : Char) : Bool :=
  if c.toNat < 0x80 then c.isAlpha else inRanges casedRanges c.toNat

/-- Characters that are passed over between a letter and its neighbours in a word. -/
def isPassed (c : Char) : Bool :=
  if c.toNat < 0x80 then ['\'', '.', ':', '^', Char.ofNat 0x60].contains c
  else inRanges passedRanges c.toNat

/-- True when the first character that is not passed over is a cased letter. -/
def meetsCased (cs : List Char) : Bool :=
  match cs.dropWhile isPassed with
  | c :: _ => isCased c
  | [] => false

def capitalSigma : Char := Char.ofNat 0x3A3
def smallSigma : Char := Char.ofNat 0x3C3
def finalSigma : Char := Char.ofNat 0x3C2

/-- The small forms of a text's characters; `before` holds those already passed, last first. -/
def lowerFrom (before : List Char) : List Char → List Char
  | [] => []
  | c :: rest =>
    let small :=
      if c = capitalSigma then
        if meetsCased before && !meetsCased rest then [finalSigma] else [smallSigma]
      else lower c
    small ++ lowerFrom (c :: before) rest

def lowerText (cs : List Char) : List Char :=
  lowerFrom [] cs

def upperText (cs : List Char) : List Char :=
  cs.flatMap upper

end Handoff.Text.LetterCase
