import Handoff.Text.Character
import Handoff.Text.Quoted.Tables

set_option autoImplicit false
set_option relaxedAutoImplicit false

/-!
A text in quotes, as messages show it: every character is visible, those without a glyph by their number.
-/

namespace Handoff.Text.Quoted

def isHidden (c : Char) : Bool :=
  if c.toNat < 0x80 then c.toNat < 0x20 || c.toNat == 0x7F else inRanges hiddenRanges c.toNat

def shown (c : Char) : List Char :=
  if c = '"' then ['\\', '"']
  else if c = '\\' then ['\\', '\\']
  else if c = '\n' then ['\\', 'n']
  else if c = '\r' then ['\\', 'r']
  else if c = '\t' then ['\\', 't']
  else if c.toNat = 0 then ['\\', '0']
  else if isHidden c then ['\\', 'u', '\x7b'] ++ Nat.toDigits 16 c.toNat ++ ['\x7d']
  else [c]

def quote (s : String) : String :=
  String.ofList ('"' :: s.toList.flatMap shown ++ ['"'])

end Handoff.Text.Quoted
