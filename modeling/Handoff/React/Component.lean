import Handoff.React.Element
import Handoff.Json.Reader
import Handoff.Json.Slots
import Handoff.Text.Words

set_option autoImplicit false
set_option relaxedAutoImplicit false

/-!
The source of a component: as a function or a class, with types or without.
-/

namespace Handoff.React
open Design

/-- The name of a component whose own name has nothing to make one of. -/
def defaultName : String := "DesignComponent"

structure Options where
  componentName : String := defaultName
  typed : Bool := true
  functional : Bool := true
  /-- Named frames, stacks and groups are marked. -/
  comments : Bool := true
  deriving DecidableEq, Repr

namespace Options

def encode (options : Options) : Json :=
  .object [("componentName", .string options.componentName), ("typed", .bool options.typed),
    ("functional", .bool options.functional), ("comments", .bool options.comments)]

def decode (w : Written) : Option Options :=
  match w.slots ["componentName", "typed", "functional", "comments"] with
  | some [componentName, typed, functional, comments] => do
    let componentName ← Written.slotD Written.text? defaultName componentName
    let typed ← Written.slotD Written.flag? true typed
    let functional ← Written.slotD Written.flag? true functional
    let comments ← Written.slotD Written.flag? true comments
    return { componentName, typed, functional, comments }
  | _ => none

def named (options : Options) (name : String) : Options :=
  { options with componentName := name }

def untyped (options : Options) : Options :=
  { options with typed := false }

def asClass (options : Options) : Options :=
  { options with functional := false }

def withoutComments (options : Options) : Options :=
  { options with comments := false }

def extension (options : Options) : String :=
  if options.typed then "tsx" else "jsx"

end Options

def isNameChar (c : Char) : Bool :=
  c.isAlphanum || c == '_'

/-- The component's name: the configured one as capitalized words, as far as it has letters and digits of ASCII. -/
def componentName (configured : String) : String :=
  match (Text.Words.pascal configured).toList.filter isNameChar with
  | [] => defaultName
  | first :: rest => if first.isDigit then defaultName else String.ofList (first :: rest)

/-- The lines around the body of a component, and the depth of the body. -/
structure Shell where
  opening : List String
  closing : List String
  depth : Nat

def Shell.of (options : Options) (name : String) : Shell :=
  match options.functional, options.typed with
  | true, true => ⟨["export const " ++ name ++ ": React.FC = () => \x7b"], ["\x7d;"], 1⟩
  | true, false => ⟨["export function " ++ name ++ "() \x7b"], ["\x7d"], 1⟩
  | false, true =>
    ⟨["export class " ++ name ++ " extends React.Component<Record<string, never>> \x7b",
      "  render(): React.ReactNode \x7b"], ["  \x7d", "\x7d"], 2⟩
  | false, false =>
    ⟨["export class " ++ name ++ " extends React.Component \x7b", "  render() \x7b"], ["  \x7d", "\x7d"], 2⟩

/-- The lines of the body: the name of the root as a comment, and the markup that is returned. -/
def bodyLines (options : Options) (depth : Nat) (root : Node) : List String :=
  (markerName options.comments root).toList.map (fun name => Text.indent depth ++ "// " ++ commentText name)
    ++ [Text.indent depth ++ "return ("]
    ++ (element options.comments .root root).lines (depth + 1)
    ++ [Text.indent depth ++ ");"]

/-- The lines of the component's source. -/
def componentLines (options : Options) (tree : Tree) : List String :=
  let name := componentName options.componentName
  let shell := Shell.of options name
  ["import React from 'react';", ""] ++ shell.opening ++ bodyLines options shell.depth tree.root
    ++ shell.closing ++ ["", "export default " ++ name ++ ";"]

/-- The source of the component for a design. -/
def generate (options : Options) (tree : Tree) : String :=
  Text.unlines (componentLines options tree)

end Handoff.React
