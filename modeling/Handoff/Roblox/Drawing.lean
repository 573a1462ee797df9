import Handoff.Roblox.Widget
import Handoff.Json.Reader
import Handoff.Json.Slots

set_option autoImplicit false
set_option relaxedAutoImplicit false

/-!
The script that draws a design, and the nodes that it leaves out.

Instances are numbered through the whole script. Those of containers stay in scope, because later ones are put
under them; a leaf with its decorations is a block, and so is each decoration of a container.
-/

namespace Handoff.Roblox
open Design

structure Options where
  /-- The name of the screen. -/
  guiName : String := "DesignComponent"
  resetOnSpawn : Bool := false
  deriving DecidableEq, Repr

namespace Options

def encode (options : Options) : Json :=
  .object [("guiName", .string options.guiName), ("resetOnSpawn", .bool options.resetOnSpawn)]

def decode (w : Written) : Option Options :=
  match w.slots ["guiName", "resetOnSpawn"] with
  | some [guiName, resetOnSpawn] => do
    let guiName ← Written.slotD Written.text? "DesignComponent" guiName
    let resetOnSpawn ← Written.slotD Written.flag? false resetOnSpawn
    return { guiName, resetOnSpawn }
  | _ => none

end Options

/-- A node that has no instance. -/
structure Skipped where
  id : String
  type : String
  deriving DecidableEq, Repr

/-- A part of a script, the nodes that it leaves out, and the last number that it gives. -/
structure Drawing where
  script : List Chunk
  skipped : List Skipped
  last : Nat
  deriving DecidableEq

/-- The statements of each decoration of an instance, numbered from the one after `last`. -/
def decorate (target : Variable) (last : Nat) : List Widget → List (List Statement)
  | [] => []
  | w :: ws => w.statements (.numbered w.cls (last + 1)) target :: decorate target (last + 1) ws

def ranksChildren : Container → Bool
  | .stack _ => true
  | _ => false

mutual

/-- Draws a node under a parent, with its rank among its siblings if it has one. -/
def draw (parent : Variable) (order : Option Nat) (last : Nat) : Node → Drawing
  | .leaf header kind =>
    match leafWidget? header order kind with
    | none => ⟨[], [⟨header.id, kind.typeName⟩], last⟩
    | some w =>
      let v := Variable.numbered w.cls (last + 1)
      let decorations := leafDecorations header kind
      ⟨[.block (w.statements v parent ++ (decorate v (last + 1) decorations).flatten)], [],
        last + 1 + decorations.length⟩
  | .container header kind children =>
    let w := containerWidget header order kind
    let v := Variable.numbered w.cls (last + 1)
    let decorations := containerDecorations header kind
    let own := (w.statements v parent).map Chunk.statement
      ++ (decorate v (last + 1) decorations).map Chunk.block
    let below := drawAll v (ranksChildren kind) 1 (last + 1 + decorations.length) children
    ⟨own ++ below.script, below.skipped, below.last⟩

/-- Draws siblings, the first of which has the given rank. -/
def drawAll (parent : Variable) (ranked : Bool) (rank last : Nat) : List Node → Drawing
  | [] => ⟨[], [], last⟩
  | node :: rest =>
    let here := draw parent (if ranked then some rank else none) last node
    let after := drawAll parent ranked (rank + 1) here.last rest
    ⟨here.script ++ after.script, here.skipped ++ after.skipped, after.last⟩

end

def screenWidget (options : Options) : Widget :=
  ⟨.screenGui, [(.name, .text options.guiName), (.resetOnSpawn, .flag options.resetOnSpawn),
    (.zIndexBehavior, .choice "ZIndexBehavior" "Sibling")]⟩

def preamble (options : Options) : List Chunk :=
  let finding : List Statement :=
    [.declare .players (.service "Players"), .declare .player (.member .players "LocalPlayer"),
      .declare .playerGui (.child .player "PlayerGui")]
  (finding ++ (screenWidget options).statements .screenGui .playerGui).map Chunk.statement

/-- The script for a design. -/
def scriptOf (options : Options) (tree : Tree) : Drawing :=
  let drawing := draw .screenGui none 0 tree.root
  { drawing with script := preamble options ++ drawing.script }

/-- The text of the script for a design. -/
def generate (options : Options) (units : Units) (tree : Tree) : String :=
  print units (scriptOf options tree).script

/-- The text of a script, and the nodes that it leaves out. -/
structure Report where
  script : String
  skipped : List Skipped
  deriving DecidableEq, Repr

/-- The script for a design with the nodes that it leaves out. -/
def report (options : Options) (units : Units) (tree : Tree) : Report :=
  ⟨generate options units tree, (scriptOf options tree).skipped⟩

end Handoff.Roblox
