import Handoff.Design.Field
import Handoff.Design.Node

set_option autoImplicit false
set_option relaxedAutoImplicit false

/-!
Designs from JSON.

A node's common attributes are read first, then its type is taken out of the others, then these are read as the
attributes of its kind. What is in neither set is kept as extra, in order.
-/

namespace Handoff.Design

def idField : Field String := ⟨"id", readText⟩
def nameField : Field (Option String) := optionalField "name" readText
def positionField : Field (Option Point) := optionalField "position" readPoint
def sizeField : Field (Option Size) := optionalField "size" readSize
def opacityField : Field (Option Float) := optionalField "opacity" readNumber

def headerRecord : Record Header where
  checks := [idField.check, nameField.check, positionField.check, sizeField.check, opacityField.check]
  required := ["id"]
  build ms :=
    { id := idField.getD ms ""
      name := nameField.getD ms none
      position := positionField.getD ms none
      size := sizeField.getD ms none
      opacity := opacityField.getD ms none }

def backgroundField : Field (Option String) := optionalField "background" readText
def paddingField : Field (Option Padding) := optionalField "padding" readPadding
def radiusField : Field (Option Float) := optionalField "radius" readNumber
def gapField : Field (Option Float) := optionalField "gap" readNumber
def directionField : Field Direction := ⟨"direction", readChoice Direction.words⟩
def alignField : Field (Option Align) := optionalField "align" (readChoice Align.words)
def justifyField : Field (Option Justify) := optionalField "justify" (readChoice Justify.words)
def columnsField : Field UInt32 := ⟨"columns", readWord⟩
def fillField : Field (Option String) := optionalField "fill" readText
def strokeField : Field (Option String) := optionalField "stroke" readText
def strokeWidthField : Field (Option Float) := optionalField "strokeWidth" readNumber
def textField : Field String := ⟨"text", readText⟩
def colorField : Field (Option String) := optionalField "color" readText
def fontFamilyField : Field (Option String) := optionalField "fontFamily" readText
def fontSizeField : Field (Option Float) := optionalField "fontSize" readNumber
def fontWeightField : Field (Option FontWeight) := optionalField "fontWeight" readFontWeight
def fontStyleField : Field (Option FontStyle) := optionalField "fontStyle" (readChoice FontStyle.words)
def textAlignField : Field (Option TextAlign) := optionalField "align" (readChoice TextAlign.words)
def variantField : Field (Option TextVariant) := optionalField "variant" (readChoice TextVariant.words)
def srcField : Field String := ⟨"src", readText⟩
def altField : Field (Option String) := optionalField "alt" readText
def objectFitField : Field (Option ObjectFit) := optionalField "objectFit" (readChoice ObjectFit.words)
def segmentField : Field Segment := ⟨"points", readSegment⟩
def pointsField : Field (List Float) := ⟨"points", readNumbers⟩
def closedField : Field Bool := ⟨"closed", readFlag⟩

def rectRecord : Record Rect where
  checks := [fillField.check, strokeField.check, strokeWidthField.check, radiusField.check]
  build ms :=
    { fill := fillField.getD ms none
      stroke := strokeField.getD ms none
      strokeWidth := strokeWidthField.getD ms none
      radius := radiusField.getD ms none }

def ellipseRecord : Record Ellipse where
  checks := [fillField.check, strokeField.check, strokeWidthField.check]
  build ms :=
    { fill := fillField.getD ms none
      stroke := strokeField.getD ms none
      strokeWidth := strokeWidthField.getD ms none }

def labelRecord : Record Label where
  checks := [textField.check, colorField.check, fontFamilyField.check, fontSizeField.check,
    fontWeightField.check, fontStyleField.check, textAlignField.check, variantField.check]
  build ms :=
    { text := textField.getD ms ""
      color := colorField.getD ms none
      fontFamily := fontFamilyField.getD ms none
      fontSize := fontSizeField.getD ms none
      fontWeight := fontWeightField.getD ms none
      fontStyle := fontStyleField.getD ms none
      align := textAlignField.getD ms none
      variant := variantField.getD ms none }

def imageRecord : Record Image where
  checks := [srcField.check, altField.check, radiusField.check, objectFitField.check]
  build ms :=
    { src := srcField.getD ms ""
      alt := altField.getD ms none
      radius := radiusField.getD ms none
      objectFit := objectFitField.getD ms none }

def lineRecord : Record Line where
  checks := [segmentField.check, strokeField.check, strokeWidthField.check]
  build ms :=
    { points := segmentField.getD ms {}
      stroke := strokeField.getD ms none
      strokeWidth := strokeWidthField.getD ms none }

def pathRecord : Record Path where
  checks := [pointsField.check, closedField.check, fillField.check, strokeField.check,
    strokeWidthField.check]
  build ms :=
    { points := pointsField.getD ms []
      closed := closedField.getD ms false
      fill := fillField.getD ms none
      stroke := strokeField.getD ms none
      strokeWidth := strokeWidthField.getD ms none }

abbrev Kids := Except Fault (List Node)

def kidsCheck (kids : Kids) : Check :=
  ("children", fun _ => match kids with
    | .ok _ => none
    | .error fault => some fault)

def Kids.nodes : Kids → List Node
  | .ok nodes => nodes
  | .error _ => []

def panelRecord (role : PanelRole) (kids : Kids) : Record Container where
  checks := [kidsCheck kids, backgroundField.check, paddingField.check, radiusField.check]
  build ms := .panel role
    { background := backgroundField.getD ms none
      padding := paddingField.getD ms none
      radius := radiusField.getD ms none }

def stackRecord (kids : Kids) : Record Container where
  checks := [directionField.check, gapField.check, alignField.check, justifyField.check,
    backgroundField.check, paddingField.check, kidsCheck kids]
  build ms := .stack
    { direction := directionField.getD ms .column
      gap := gapField.getD ms none
      align := alignField.getD ms none
      justify := justifyField.getD ms none
      background := backgroundField.getD ms none
      padding := paddingField.getD ms none }

def gridRecord (kids : Kids) : Record Container where
  checks := [columnsField.check, gapField.check, backgroundField.check, paddingField.check,
    kidsCheck kids]
  build ms := .grid
    { columns := columnsField.getD ms 1
      gap := gapField.getD ms none
      background := backgroundField.getD ms none
      padding := paddingField.getD ms none }

/-- A container of a kind, with the members beyond its attributes as extra. -/
def decodeContainer (record : Record Container) (kids : Kids) (header : Header) (members : Members) :
    Except Fault Node :=
  (record.decode members).map fun kind =>
    .container { header with extra := members.without record.keys } kind kids.nodes

/-- A leaf of a kind, with the members beyond its attributes as extra. -/
def decodeLeaf {α : Type} (record : Record α) (leaf : α → Leaf) (header : Header)
    (members : Members) : Except Fault Node :=
  (record.decode members).map fun attrs =>
    .leaf { header with extra := members.without record.keys } (leaf attrs)

/-- A node of a type, from the members beyond the common ones. -/
def decodeKind (type : String) (kids : Kids) (header : Header) (members : Members) :
    Except Fault Node :=
  match type with
  | "frame" => decodeContainer (panelRecord .frame kids) kids header members
  | "box" => decodeContainer (panelRecord .box kids) kids header members
  | "group" => decodeContainer (panelRecord .group kids) kids header members
  | "stack" => decodeContainer (stackRecord kids) kids header members
  | "grid" => decodeContainer (gridRecord kids) kids header members
  | "rect" => decodeLeaf rectRecord .rect header members
  | "ellipse" => decodeLeaf ellipseRecord .ellipse header members
  | "text" => decodeLeaf labelRecord .text header members
  | "image" => decodeLeaf imageRecord .image header members
  | "line" => decodeLeaf lineRecord .line header members
  | "curve" => decodeLeaf pathRecord (.path .curve) header members
  | "polygon" => decodeLeaf pathRecord (.path .polygon) header members
  | "draw" => decodeLeaf pathRecord (.path .draw) header members
  | type => .ok (.leaf { header with extra := members } (.unknown type))

/-- A node from the members of its object. The last of the members that are not common takes the place of the
type. -/
def decodeMembers (kids : Kids) (members : Members) : Except Fault Node :=
  match headerRecord.decode members with
  | .error fault => .error fault
  | .ok header =>
    match (members.without headerRecord.keys).takeOut "type" with
    | none => .error (.missing "type")
    | some (.string type, attributes) => decodeKind type kids header attributes
    | some (found, _) => .error (.typeNotText found)

mutual

def Node.decode : Reader Node
  | .object members => decodeMembers (decodeKids members) members
  | v => .error (.wrongKind v .node)

/-- The nodes under `children`, when there is such a member. -/
def decodeKids : List (String × Json) → Kids
  | [] => .ok []
  | (key, v) :: rest => if key = "children" then decodeItems v else decodeKids rest

def decodeItems : Json → Kids
  | .array items => decodeAll items
  | v => .error (.wrongKind v .sequence)

def decodeAll : List Json → Kids
  | [] => .ok []
  | v :: vs =>
    match Node.decode v with
    | .error fault => .error fault
    | .ok node =>
      match decodeAll vs with
      | .error fault => .error fault
      | .ok nodes => .ok (node :: nodes)

end

def versionField : Field (Option String) := optionalField "version" readText
def rootField : Field Node := ⟨"root", Node.decode⟩

def treeRecord : Record Tree where
  checks := [versionField.check, nameField.check, rootField.check]
  required := ["root"]
  build ms :=
    { version := versionField.getD ms none
      name := nameField.getD ms none
      root := rootField.getD ms (.leaf { id := "" } (.unknown ""))
      extra := [] }

def Tree.decode : Reader Tree
  | .object members =>
    (treeRecord.decode members).map fun tree =>
      { tree with extra := Entries.without members treeRecord.keys }
  | v => .error (.wrongKind v .tree)

end Handoff.Design
