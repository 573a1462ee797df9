import Handoff.Proofs.Design.Preorder
import Handoff.Proofs.React.Mirror

set_option autoImplicit false
set_option relaxedAutoImplicit false

/-!
The elements of a component, node by node.

Each node of a known type has one element. It stands in those of the nodes above it, and its attributes follow from the
node and from how the node above it places its children.
-/

namespace Handoff.React
open Design

namespace Tag

def given? (tag : Tag) (name : String) : Option Given :=
  List.lookup name tag.attributes

/-- The entries of an inline style; an element without one has none. -/
def style (tag : Tag) : List (String × Expression) :=
  match tag.given? "style" with
  | some (.style entries) => entries
  | _ => []

def classes (tag : Tag) : List String :=
  match tag.given? "className" with
  | some (.quoted s) => (Text.splitAt ' ' s.toList).map String.ofList
  | _ => []

end Tag

section Looks

private theorem attributes_look (classes : List String) (style : Style) :
    (look classes style).flatMap Jsx.attributeView =
      Jsx.attributeView (.classes classes) ++ Jsx.attributeView (.style style) := by
  rw [look, List.flatMap_cons, List.flatMap_singleton]

theorem style_look (name : String) (classes : List String) (style : Style) :
    (tagView name (look classes style)).style = style.map Jsx.entryView := by
  rw [tagView, Tag.style, Tag.given?, attributes_look]
  cases classes <;> cases style <;> rfl

theorem classes_look (name : String) {classes : List String} (style : Style)
    (plain : Jsx.PlainAttribute (.classes classes)) : (tagView name (look classes style)).classes = classes := by
  have apart : ∀ c ∈ classes, ' ' ∉ c.toList := by
    intro c member space
    exact absurd (List.all_eq_true.mp (plain c member) ' ' space) (by decide)
  rw [tagView, Tag.classes, Tag.given?, attributes_look]
  cases classes with
  | nil => cases style <;> rfl
  | cons c cs =>
    have parts : Text.splitAt ' ' (List.intercalate [' '] ((c :: cs).map String.toList)) =
        (c :: cs).map String.toList :=
      Text.splitAt_intercalate (by simp) (List.forall_mem_map.mpr apart)
    have text : (String.intercalate " " (c :: cs)).toList = List.intercalate [' '] ((c :: cs).map String.toList) := by
      rw [String.toList_intercalate]
      rfl
    simp only [Jsx.attributeView, List.cons_append, List.lookup_cons_self, text, parts, List.map_map]
    simp [Function.comp_def]

private theorem given?_text {key other : String} (apart : other ≠ key) (name value : String)
    (attributes : List Attribute) :
    (tagView name (.text key value :: attributes)).given? other = (tagView name attributes).given? other := by
  rw [tagView, Tag.given?, List.flatMap_cons, Jsx.attributeView, List.singleton_append, List.lookup_cons,
    beq_false_of_ne apart]
  rfl

theorem style_text {key : String} (apart : "style" ≠ key) (name value : String) (attributes : List Attribute) :
    (tagView name (.text key value :: attributes)).style = (tagView name attributes).style := by
  rw [Tag.style, given?_text apart, Tag.style]

theorem classes_text {key : String} (apart : "className" ≠ key) (name value : String)
    (attributes : List Attribute) :
    (tagView name (.text key value :: attributes)).classes = (tagView name attributes).classes := by
  rw [Tag.classes, given?_text apart, Tag.classes]

end Looks

section Keys

/-- True of a style whose keys are among some names. -/
def KeysIn (names : List String) (style : Style) : Prop :=
  ∀ entry ∈ style, entry.1 ∈ names

theorem KeysIn.apart {names others : List String} {style : Style} (keys : KeysIn names style)
    (apart : ∀ name ∈ names, name ∉ others) : ∀ entry ∈ style, entry.1 ∉ others :=
  fun entry member => apart _ (keys entry member)

private theorem keysIn_nil (names : List String) : KeysIn names [] :=
  nofun

private theorem keysIn_singleton (name : String) (value : StyleValue) : KeysIn [name] [(name, value)] := by
  simp [KeysIn]

theorem keysIn_geometry (h : Header) (placement : Placement) :
    KeysIn ["left", "top", "width", "height"] (geometry h placement) := by
  unfold geometry
  cases h.size <;> split <;> simp [KeysIn]

theorem keysIn_number (name : String) (x : Option Float) : KeysIn [name] (numberEntry name x) := by
  cases x with
  | none => exact keysIn_nil _
  | some x => exact keysIn_singleton name _

theorem keysIn_text (name : String) (s : Option String) : KeysIn [name] (textEntry name s) := by
  cases s with
  | none => exact keysIn_nil _
  | some s => exact keysIn_singleton name _

theorem keysIn_border (stroke : Option String) (width : Option Float) :
    KeysIn ["borderWidth", "borderStyle", "borderColor"] (border stroke width) := by
  unfold border
  cases paintOf stroke <;> simp [KeysIn]

theorem keysIn_padding (padding : Option Padding) : KeysIn ["padding"] (paddingEntry padding) := by
  unfold paddingEntry
  split
  · exact keysIn_singleton _ _
  · exact keysIn_singleton _ _
  · exact keysIn_nil _

theorem keysIn_size (t : Label) : KeysIn ["fontSize"] (sizeEntry t) := by
  unfold sizeEntry
  split
  · exact keysIn_singleton _ _
  · exact keysIn_nil _

theorem keysIn_weight (weight : Option FontWeight) : KeysIn ["fontWeight"] (weightEntry weight) := by
  unfold weightEntry
  split
  · split
    · exact keysIn_nil _
    · split <;> exact keysIn_singleton _ _
  · exact keysIn_nil _

end Keys

def tagName : Node → String
  | .container _ _ _ | .leaf _ (.rect _) | .leaf _ (.ellipse _) => "div"
  | .leaf _ (.text a) => textTag a.variant
  | .leaf _ (.image _) => "img"
  | .leaf _ (.line _) | .leaf _ (.path _ _) => "svg"
  | .leaf _ (.unknown _) => ""

def lookOf (placement : Placement) : Node → List Attribute
  | .container h kind _ => containerLook h placement kind
  | .leaf h (.rect a) => rectLook h placement a
  | .leaf h (.ellipse a) => ellipseLook h placement a
  | .leaf h (.text a) => labelLook h placement a
  | .leaf h (.image a) => imageLook h placement a
  | .leaf h (.line _) | .leaf h (.path _ _) =>
    look (placement.classes ++ ["overflow-visible"]) (geometry h placement ++ opacityEntry h)
  | .leaf _ (.unknown _) => []

theorem plain_lookOf (placement : Placement) (node : Node) : ∀ a ∈ lookOf placement node, Jsx.PlainAttribute a := by
  have plain := plain_element true placement node
  match node with
  | .container h kind [] => cases plain with | void _ all => exact all
  | .container h kind (child :: rest) => cases plain with | group _ all => exact all
  | .leaf h kind =>
    cases kind with
    | rect | ellipse | image => cases plain with | void _ all => exact all
    | text => cases plain with | label _ _ all => exact all
    | line | path => cases plain with | group _ all => exact all
    | unknown => exact nofun

def tagOf (placement : Placement) (node : Node) : Tag :=
  tagView (tagName node) (lookOf placement node)

theorem classes_lookOf {placement : Placement} {node : Node} {classes : List String} {style : Style}
    (form : lookOf placement node = look classes style) : (tagOf placement node).classes = classes := by
  have plain := plain_lookOf placement node
  rw [form] at plain
  rw [tagOf, form]
  exact classes_look _ style (plain _ List.mem_cons_self)

theorem classes_image (placement : Placement) (h : Header) (a : Image) :
    (tagOf placement (.leaf h (.image a))).classes =
      placement.classes ++ (a.objectFit.map fun fit => "object-" ++ fit.name).toList ++ roundedClass a.radius := by
  have plain := plain_lookOf placement (.leaf h (.image a))
  rw [tagOf, lookOf, imageLook, classes_text (by decide), classes_text (by decide)]
  exact classes_look _ _ (plain _ (List.mem_cons_of_mem _ (List.mem_cons_of_mem _ List.mem_cons_self)))

theorem style_image (placement : Placement) (h : Header) (a : Image) :
    (tagOf placement (.leaf h (.image a))).style =
      (geometry h placement ++ cornerEntry a.radius ++ opacityEntry h).map Jsx.entryView := by
  rw [tagOf, lookOf, imageLook, style_text (by decide), style_text (by decide), style_look]

theorem not_mem_gridClasses {name : String} (other : name.toList.head? ≠ some 'g') (n : Nat) :
    name ∉ ["grid", "grid-cols-" ++ toString n] := by
  rw [List.mem_pair, not_or]
  constructor
  · rintro rfl
    exact other rfl
  · rintro rfl
    exact other (by rw [String.toList_append]; rfl)

/-- How a node comes to its place below another one, if there is one. -/
def placementUnder : Option Node → Placement
  | none => .root
  | some (.container _ kind _) => childPlacement kind
  | some (.leaf _ _) => .flow

/-- The tags of nodes each of which holds the next one. -/
def tagsAlong (parent : Option Node) : List Node → List Tag
  | [] => []
  | node :: rest => tagOf (placementUnder parent) node :: tagsAlong (some node) rest

theorem tagsAlong_append (parent : Option Node) (above : List Node) (node : Node) :
    tagsAlong parent (above ++ [node]) =
      tagsAlong parent above ++ [tagOf (placementUnder (above.getLast?.or parent)) node] := by
  induction above generalizing parent with
  | nil => rfl
  | cons first rest ih =>
    rw [List.cons_append, tagsAlong, tagsAlong, ih, List.cons_append, List.getLast?_cons]
    cases rest.getLast? <;> rfl

/-- The elements around that of a node, and its own. -/
def nestOf (t : Trail) : List Tag :=
  tagsAlong none t.way

theorem nestOf_eq (t : Trail) :
    nestOf t = tagsAlong none t.above ++ [tagOf (placementUnder t.above.getLast?) t.node] := by
  rw [nestOf, Trail.way, tagsAlong_append, Option.or_none]

section Elements

private theorem nests_leafMarkup (around : List Tag) (placement : Placement) (h : Header) (kind : Leaf)
    (known : isKnown (.leaf h kind) = true) :
    (leafMarkup h placement kind).nests around = [around ++ [tagOf placement (.leaf h kind)]] := by
  cases kind with
  | unknown => cases known
  | rect | ellipse | text | image => rfl
  | line | path => rw [leafMarkup, drawingArea, Markup.nests, if_pos rfl]; rfl

private theorem nestsAll_append (around : List Tag) (first second : List Markup) :
    Markup.nestsAll around (first ++ second) = Markup.nestsAll around first ++ Markup.nestsAll around second := by
  induction first with
  | nil => rfl
  | cons m rest ih => rw [List.cons_append, Markup.nestsAll, Markup.nestsAll, ih, List.append_assoc]

private theorem nestsAll_markers (around : List Tag) (comments : Bool) (placement : Placement) (node : Node) :
    Markup.nestsAll around (markers comments placement node) = [] := by
  unfold markers
  split
  · rfl
  · cases markerName comments node <;> rfl

variable (comments : Bool)

private theorem nests_container (around : List Tag) (placement : Placement) (h : Header) (kind : Container)
    (children : List Node) :
    (element comments placement (.container h kind children)).nests around =
      (around ++ [tagOf placement (.container h kind children)])
        :: Markup.nestsAll (around ++ [tagOf placement (.container h kind children)])
          (elements comments (childPlacement kind) children) := by
  cases children with
  | nil => rfl
  | cons child rest =>
    rw [element, Markup.nests, if_neg (by decide), elements]
    rfl

mutual

/-- The elements of a node and of those below it, in the order of visits. -/
theorem nests_element (above : List Node) (address : Address) (node : Node) :
    (element comments (placementUnder above.getLast?) node).nests (tagsAlong none above) =
      ((node.trails above address).filter fun t => isKnown t.node).map nestOf := by
  match node with
  | .leaf h kind =>
    rw [Node.trails]
    cases here : isKnown (.leaf h kind) with
    | true =>
      rw [element, nests_leafMarkup _ _ h kind here, List.filter_cons_of_pos (by exact here), List.filter_nil,
        List.map_singleton, nestOf_eq]
    | false =>
      rw [List.filter_cons_of_neg (by simp [here])]
      cases kind with
      | unknown => rfl
      | rect | ellipse | text | image | line | path => cases here
  | .container h kind children =>
    have last : (above ++ [Node.container h kind children]).getLast? = some (.container h kind children) :=
      List.getLast?_concat
    have around := tagsAlong_append none above (.container h kind children)
    rw [Option.or_none] at around
    have below := nestsAll_elements (above ++ [.container h kind children]) address 0 children
    rw [last, around] at below
    rw [nests_container, Node.trails, List.filter_cons_of_pos rfl, List.map_cons, nestOf_eq]
    exact congrArg _ below

theorem nestsAll_elements (above : List Node) (address : Address) (place : Nat) (nodes : List Node) :
    Markup.nestsAll (tagsAlong none above) (elements comments (placementUnder above.getLast?) nodes) =
      ((Node.trailsAll above address place nodes).filter fun t => isKnown t.node).map nestOf := by
  match nodes with
  | [] => rfl
  | node :: rest =>
    rw [elements, nestsAll_append, nestsAll_markers, List.nil_append, Markup.nestsAll,
      nests_element above (address ++ [place]) node, nestsAll_elements above address (place + 1) rest,
      Node.trailsAll, List.filter_append, List.map_append]

end

end Elements

/-- The elements of a component are those of the nodes of known types, in the order of visits, and each stands in those
of the nodes above its own. -/
theorem nestsOf_eq_map_trails (options : Options) (tree : Tree) :
    Jsx.nestsOf (generate options tree) =
      ((tree.root.trails [] []).filter fun t => isKnown t.node).map nestOf := by
  rw [nestsOf_generate]
  exact nests_element options.comments [] [] tree.root

end Handoff.React
