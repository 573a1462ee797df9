import Handoff.Text.Cluster
import Handoff.Text.LetterCase

set_option autoImplicit false
set_option relaxedAutoImplicit false

/-!
Words of an identifier in any spelling, and the two spellings that the outputs use.

A hyphen, an underscore or a space ends a word and is dropped. A word also starts where a capital follows a small
letter, where a digit and a letter meet, and at the last capital of a run that a small letter follows.
-/

namespace Handoff.Text.Words

/-- How a cluster takes part in finding words. -/
inductive Kind where
  | separator
  | capital
  | small
  | digit
  | other
  deriving DecidableEq, Repr

def isSeparator (c : Char) : Bool :=
  c = '-' || c = '_' || c = ' '

/-- A cluster is a capital when it has two cases and is in its capital one; likewise for small letters. -/
def Kind.of (cluster : List Char) : Kind :=
  match cluster with
  | [c] =>
    if isSeparator c then .separator
    else if c.isDigit then .digit
    else lettered [c]
  | cs => lettered cs
where
  lettered (cs : List Char) : Kind :=
    let capital := LetterCase.upperText cs
    let small := LetterCase.lowerText cs
    if capital = small then .other
    else if cs = capital then .capital
    else if cs = small then .small
    else .other

def startsBetween : Kind → Kind → Bool
  | .small, .capital | .capital, .digit | .digit, .capital | .digit, .small | .small, .digit => true
  | _, _ => false

/-- Whether a word starts at `here`, given the cluster before it and the one after it. -/
def starts (before here : Kind) (after : Option Kind) : Bool :=
  startsBetween before here || (before == .capital && here == .capital && after == some .small)

/-- The words of a row of clusters, empty ones included; `word` is the one being read, last cluster first. -/
def splitFrom (before : Option Kind) (word : List (List Char)) :
    List (List Char × Kind) → List (List Char)
  | [] => [word.reverse.flatten]
  | (cluster, kind) :: rest =>
    if kind == .separator then word.reverse.flatten :: splitFrom (some kind) [] rest
    else if before.any fun b => starts b kind (rest.head?.map (·.2)) then
      word.reverse.flatten :: splitFrom (some kind) [cluster] rest
    else splitFrom (some kind) (cluster :: word) rest

def split (cs : List Char) : List (List Char) :=
  (splitFrom none [] ((Cluster.split cs).map fun cluster => (cluster, Kind.of cluster))).filter
    (!·.isEmpty)

/-- A word with its first character in capital form and the rest small. -/
def capitalize : List Char → List Char
  | [] => []
  | c :: rest => LetterCase.upper c ++ LetterCase.lowerText rest

def kebab (s : String) : String :=
  String.ofList (List.intercalate ['-'] ((split s.toList).map LetterCase.lowerText))

def pascal (s : String) : String :=
  String.ofList ((split s.toList).map capitalize).flatten

end Handoff.Text.Words
