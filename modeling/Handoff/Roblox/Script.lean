import Handoff.Decimal.Pixel
import Handoff.Text.Split

set_option autoImplicit false
set_option relaxedAutoImplicit false

/-!
Luau scripts that build a screen: declarations of instances, their properties and their parents.

A script is a row of statements and of blocks of statements, whose locals end with the block. Lengths stay in
design pixels; a script is printed for a unit of the engine.
-/

namespace Handoff.Roblox

inductive Class where
  | screenGui
  | frame
  | textLabel
  | imageLabel
  | corner
  | stroke
  | padding
  | listLayout
  | gridLayout
  deriving DecidableEq, Repr

def Class.name : Class → String
  | .screenGui => "ScreenGui"
  | .frame => "Frame"
  | .textLabel => "TextLabel"
  | .imageLabel => "ImageLabel"
  | .corner => "UICorner"
  | .stroke => "UIStroke"
  | .padding => "UIPadding"
  | .listLayout => "UIListLayout"
  | .gridLayout => "UIGridLayout"

inductive Variable where
  | players
  | player
  | playerGui
  | screenGui
  /-- An instance, by its class and its number in the script. -/
  | numbered (cls : Class) (n : Nat)
  deriving DecidableEq, Repr

def Variable.name : Variable → String
  | .players => "Players"
  | .player => "player"
  | .playerGui => "playerGui"
  | .screenGui => "screenGui"
  | .numbered cls n => cls.name ++ "_" ++ toString n

inductive Origin where
  | service (name : String)
  | member (of : Variable) (name : String)
  | child (of : Variable) (name : String)
  | fresh (cls : Class)
  deriving DecidableEq, Repr

inductive Property where
  | name
  | resetOnSpawn
  | zIndexBehavior
  | position
  | size
  | layoutOrder
  | backgroundColor
  | backgroundTransparency
  | borderSize
  | clipsDescendants
  | text
  | textColor
  | textTransparency
  | textSize
  | fontFace
  | textXAlignment
  | textWrapped
  | image
  | scaleType
  | imageTransparency
  | cornerRadius
  | color
  | thickness
  | transparency
  | applyStrokeMode
  | paddingTop
  | paddingRight
  | paddingBottom
  | paddingLeft
  | fillDirection
  | padding
  | sortOrder
  | horizontalAlignment
  | verticalAlignment
  | cellSize
  | cellPadding
  | fillDirectionMaxCells
  deriving DecidableEq, Repr

def Property.label : Property → String
  | .name => "Name"
  | .resetOnSpawn => "ResetOnSpawn"
  | .zIndexBehavior => "ZIndexBehavior"
  | .position => "Position"
  | .size => "Size"
  | .layoutOrder => "LayoutOrder"
  | .backgroundColor => "BackgroundColor3"
  | .backgroundTransparency => "BackgroundTransparency"
  | .borderSize => "BorderSizePixel"
  | .clipsDescendants => "ClipsDescendants"
  | .text => "Text"
  | .textColor => "TextColor3"
  | .textTransparency => "TextTransparency"
  | .textSize => "TextSize"
  | .fontFace => "FontFace"
  | .textXAlignment => "TextXAlignment"
  | .textWrapped => "TextWrapped"
  | .image => "Image"
  | .scaleType => "ScaleType"
  | .imageTransparency => "ImageTransparency"
  | .cornerRadius => "CornerRadius"
  | .color => "Color"
  | .thickness => "Thickness"
  | .transparency => "Transparency"
  | .applyStrokeMode => "ApplyStrokeMode"
  | .paddingTop => "PaddingTop"
  | .paddingRight => "PaddingRight"
  | .paddingBottom => "PaddingBottom"
  | .paddingLeft => "PaddingLeft"
  | .fillDirection => "FillDirection"
  | .padding => "Padding"
  | .sortOrder => "SortOrder"
  | .horizontalAlignment => "HorizontalAlignment"
  | .verticalAlignment => "VerticalAlignment"
  | .cellSize => "CellSize"
  | .cellPadding => "CellPadding"
  | .fillDirectionMaxCells => "FillDirectionMaxCells"

inductive Value where
  | text (s : String)
  | flag (b : Bool)
  | count (n : Nat)
  /-- A number that has no unit. -/
  | ratio (x : Float)
  /-- A length in design pixels. -/
  | length (px : Float)
  /-- A distance in design pixels. -/
  | offset (px : Float)
  /-- A distance to the right and one down, in design pixels. -/
  | offsets (x y : Float)
  /-- Half of the instance's own extent. -/
  | half
  | rgb (r g b : UInt8)
  | choice (family item : String)
  | font (asset weight style : String)
  deriving DecidableEq

inductive Statement where
  | declare (v : Variable) (origin : Origin)
  | set (v : Variable) (property : Property) (value : Value)
  | attach (v parent : Variable)
  deriving DecidableEq

/-- A statement of the script, or a block with statements of its own. -/
inductive Chunk where
  | statement (s : Statement)
  | block (body : List Statement)
  deriving DecidableEq

/-- A conversion of design pixels into units of the engine. -/
abbrev Units := Float → Float

/-- One unit for each pixel. -/
def pixelUnits : Units := fun px => px

/-- The same number of units for each pixel. -/
def scaledUnits (factor : Float) : Units := fun px => px * factor

def literalChar (c : Char) : List Char :=
  if c = '\\' then ['\\', '\\']
  else if c = '"' then ['\\', '"']
  else if c = '\n' then ['\\', 'n']
  else if c = '\r' then ['\\', 'r']
  else [c]

/-- A text as a literal between double quotes. -/
def literal (s : String) : String :=
  String.ofList ('"' :: s.toList.flatMap literalChar ++ ['"'])

def flagText (b : Bool) : String :=
  if b then "true" else "false"

def enumText (family item : String) : String :=
  "Enum." ++ family ++ "." ++ item

def lengthText (units : Units) (px : Float) : String :=
  pixelText (units px)

def Value.expression (units : Units) : Value → String
  | .text s => literal s
  | .flag b => flagText b
  | .count n => toString n
  | .ratio x => pixelText x
  | .length px => lengthText units px
  | .offset px => "UDim.new(0," ++ lengthText units px ++ ")"
  | .offsets x y => "UDim2.new(0," ++ lengthText units x ++ ",0," ++ lengthText units y ++ ")"
  | .half => "UDim.new(0.5,0)"
  | .rgb r g b =>
    "Color3.fromRGB(" ++ toString r.toNat ++ "," ++ toString g.toNat ++ "," ++ toString b.toNat ++ ")"
  | .choice family item => enumText family item
  | .font asset weight style =>
    "Font.new(" ++ literal asset ++ ", " ++ enumText "FontWeight" weight ++ ", "
      ++ enumText "FontStyle" style ++ ")"

def Origin.expression : Origin → String
  | .service name => "game:GetService(" ++ literal name ++ ")"
  | .member of name => of.name ++ "." ++ name
  | .child of name => of.name ++ ":WaitForChild(" ++ literal name ++ ")"
  | .fresh cls => "Instance.new(" ++ literal cls.name ++ ")"

def Statement.line (units : Units) : Statement → String
  | .declare v origin => "local " ++ v.name ++ " = " ++ origin.expression
  | .set v property value => v.name ++ "." ++ property.label ++ " = " ++ value.expression units
  | .attach v parent => v.name ++ ".Parent = " ++ parent.name

/-- The empty line before an instance that is declared outside of blocks. -/
def Statement.lead : Statement → List String
  | .declare _ (.fresh _) => [""]
  | _ => []

def Chunk.lines (units : Units) : Chunk → List String
  | .statement s => s.lead ++ [s.line units]
  | .block body => ["", "do"] ++ body.map (fun s => "\t" ++ s.line units) ++ ["end"]

def statements (script : List Chunk) : List Statement :=
  script.flatMap fun
    | .statement s => [s]
    | .block body => body

/-- The text of a script. -/
def print (units : Units) (script : List Chunk) : String :=
  Text.unlines (script.flatMap (Chunk.lines units))

end Handoff.Roblox
