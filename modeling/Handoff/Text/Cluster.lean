import Handoff.Text.Character
import Handoff.Text.Cluster.Tables

set_option autoImplicit false
set_option relaxedAutoImplicit false

/-!
Clusters of characters that a reader takes for one: a letter with its marks, a syllable block, a flag, pictures
tied by a joiner.
-/

namespace Handoff.Text.Cluster

/-- The part that a character plays in a cluster. -/
inductive Part where
  | carriageReturn
  | lineFeed
  | control
  | extend
  | joiner
  | spacing
  | leading
  | regional
  | leadingJamo
  | vowelJamo
  | trailingJamo
  | openSyllable
  | closedSyllable
  | picture
  | other
  deriving DecidableEq, Repr

def Part.ofCode (code : Nat) : Part :=
  if code = 0x200D then .joiner
  else if 0x1F1E6 ≤ code ∧ code ≤ 0x1F1FF then .regional
  else if (0x1100 ≤ code ∧ code ≤ 0x115F) ∨ (0xA960 ≤ code ∧ code ≤ 0xA97C) then .leadingJamo
  else if (0x1160 ≤ code ∧ code ≤ 0x11A7) ∨ (0xD7B0 ≤ code ∧ code ≤ 0xD7C6) then .vowelJamo
  else if (0x11A8 ≤ code ∧ code ≤ 0x11FF) ∨ (0xD7CB ≤ code ∧ code ≤ 0xD7FB) then .trailingJamo
  else if 0xAC00 ≤ code ∧ code ≤ 0xD7A3 then
    if (code - 0xAC00) % 28 = 0 then .openSyllable else .closedSyllable
  else if inRanges controlRanges code then .control
  else if inRanges extendRanges code then .extend
  else if inRanges spacingRanges code then .spacing
  else if inRanges leadingRanges code then .leading
  else if inRanges pictureRanges code then .picture
  else .other

def Part.of (c : Char) : Part :=
  let code := c.toNat
  if code = 0xD then .carriageReturn
  else if code = 0xA then .lineFeed
  else if code < 0x20 ∨ code = 0x7F then .control
  else if code < 0x80 then .other
  else .ofCode code

/-- What the cluster read so far says about its next character. -/
structure State where
  last : Part
  /-- Inside a picture with marks after it. -/
  inPicture : Bool
  /-- A picture, its marks and a joiner end the cluster. -/
  tied : Bool
  /-- The number of regional signs at the end is odd. -/
  oddRegional : Bool

def State.start (part : Part) : State :=
  ⟨part, part == .picture, false, part == .regional⟩

def State.push (s : State) (part : Part) : State :=
  { last := part
    inPicture := part == .picture || (s.inPicture && part == .extend)
    tied := s.inPicture && part == .joiner
    oddRegional := part == .regional && !s.oddRegional }

def Part.standsAlone : Part → Bool
  | .carriageReturn | .lineFeed | .control => true
  | _ => false

def State.joins (s : State) (next : Part) : Bool :=
  if s.last == .carriageReturn && next == .lineFeed then true
  else if s.last.standsAlone || next.standsAlone then false
  else match s.last, next with
    | _, .extend | _, .joiner | _, .spacing => true
    | .leading, _ => true
    | .leadingJamo, .leadingJamo | .leadingJamo, .vowelJamo => true
    | .leadingJamo, .openSyllable | .leadingJamo, .closedSyllable => true
    | .openSyllable, .vowelJamo | .openSyllable, .trailingJamo => true
    | .vowelJamo, .vowelJamo | .vowelJamo, .trailingJamo => true
    | .closedSyllable, .trailingJamo | .trailingJamo, .trailingJamo => true
    | .joiner, .picture => s.tied
    | .regional, .regional => s.oddRegional
    | _, _ => false

/-- The clusters of a text, with `current` the one that is being read, last character first. -/
def splitFrom (s : State) (current : List Char) : List Char → List (List Char)
  | [] => [current.reverse]
  | c :: rest =>
    let part := Part.of c
    if s.joins part then splitFrom (s.push part) (c :: current) rest
    else current.reverse :: splitFrom (.start part) [c] rest

def split : List Char → List (List Char)
  | [] => []
  | c :: rest => splitFrom (.start (Part.of c)) [c] rest

end Handoff.Text.Cluster
