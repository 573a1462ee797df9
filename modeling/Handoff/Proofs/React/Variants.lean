import Handoff.Proofs.React.Elements

set_option autoImplicit false
set_option relaxedAutoImplicit false

/-!
What the options of a component change: the lines around what is returned, the depth of these, and the comments that
mark nodes.

The lines of a node are the same at every depth but for the spaces before them. A component without comments has the
lines of one with them, less one for each marked node.
-/

namespace Handoff.React
open Design

/-- The lines of a node: the comment that marks it, if one does, and its element. -/
def nodeLines (comments : Bool) (placement : Placement) (depth : Nat) (node : Node) : List String :=
  Markup.linesAll depth (markers comments placement node ++ [element comments placement node])

/-- The lines of a component: those of a shell around what is returned, whose own depth is none. -/
def Shell.around (shell : Shell) (name : String) (mark : Option String) (body : List String) : List String :=
  ["import React from 'react';", ""] ++ shell.opening
    ++ mark.toList.map (fun name => Text.indent shell.depth ++ "// " ++ commentText name)
    ++ [Text.indent shell.depth ++ "return ("] ++ body.map (Text.indent (shell.depth + 1) ++ ·)
    ++ [Text.indent shell.depth ++ ");"] ++ shell.closing ++ ["", "export default " ++ name ++ ";"]

section Depth

private theorem indent_add (depth more : Nat) : Text.indent (depth + more) = Text.indent depth ++ Text.indent more := by
  rw [Text.indent, Nat.mul_add, ← List.replicate_append_replicate, String.ofList_append]
  rfl

mutual

private theorem Markup.lines_add (m : Markup) (depth more : Nat) :
    m.lines (depth + more) = (m.lines more).map (Text.indent depth ++ ·) := by
  match m with
  | .comment text => simp only [Markup.lines, List.map_singleton, indent_add, String.append_assoc]
  | .void tag attributes => simp only [Markup.lines, List.map_singleton, indent_add, String.append_assoc]
  | .label tag attributes text => simp only [Markup.lines, List.map_singleton, indent_add, String.append_assoc]
  | .group tag attributes children =>
    have below := Markup.linesAll_add children depth (more + 1)
    rw [← Nat.add_assoc] at below
    simp only [Markup.lines, below, List.map_append, List.map_cons, List.map_nil, indent_add, String.append_assoc]

private theorem Markup.linesAll_add (ms : List Markup) (depth more : Nat) :
    Markup.linesAll (depth + more) ms = (Markup.linesAll more ms).map (Text.indent depth ++ ·) := by
  match ms with
  | [] => rfl
  | m :: rest => rw [Markup.linesAll, Markup.linesAll, Markup.lines_add m, Markup.linesAll_add rest, List.map_append]

end

private theorem nodeLines_eq (comments : Bool) (placement : Placement) (depth : Nat) (node : Node) :
    nodeLines comments placement depth node = (nodeLines comments placement 0 node).map (Text.indent depth ++ ·) :=
  Markup.linesAll_add _ depth 0

end Depth

private theorem linesAll_append (depth : Nat) (first second : List Markup) :
    Markup.linesAll depth (first ++ second) = Markup.linesAll depth first ++ Markup.linesAll depth second := by
  induction first with
  | nil => rfl
  | cons m rest ih => rw [List.cons_append, Markup.linesAll, Markup.linesAll, ih, List.append_assoc]

section Nodes

variable (comments : Bool) (placement : Placement) (depth : Nat)

private theorem linesAll_elements (nodes : List Node) :
    Markup.linesAll depth (elements comments placement nodes) = nodes.flatMap (nodeLines comments placement depth) := by
  induction nodes with
  | nil => rfl
  | cons node rest ih =>
    rw [elements, ← List.singleton_append (l := elements _ _ _), ← List.append_assoc, linesAll_append, ih,
      List.flatMap_cons, nodeLines]

def openingLine (node : Node) : String :=
  Text.indent depth ++ tagHead "div" (lookOf placement node) ++ if node.children.isEmpty then " />" else ">"

/-- The lines of a container's element after the first: those of its children, and one that closes it. -/
private def innerLines (kind : Container) (children : List Node) : List String :=
  if children.isEmpty then []
  else children.flatMap (nodeLines comments (childPlacement kind) (depth + 1)) ++ [Text.indent depth ++ "</div>"]

private theorem lines_container (header : Header) (kind : Container) (children : List Node) :
    (element comments placement (.container header kind children)).lines depth =
      openingLine placement depth (.container header kind children) :: innerLines comments depth kind children := by
  cases children with
  | nil => rfl
  | cons child rest =>
    have below := linesAll_elements comments (childPlacement kind) (depth + 1) (child :: rest)
    rw [elements] at below
    have closing : Text.indent depth ++ "</" ++ "div" ++ ">" = Text.indent depth ++ "</div>" := by
      rw [String.append_assoc, String.append_assoc]
      rfl
    rw [element, Markup.lines, below, innerLines, if_neg (by simp), List.cons_append, closing]
    rfl

private theorem infix_innerLines (kind : Container) (children : List Node) :
    children.flatMap (nodeLines comments (childPlacement kind) (depth + 1)) <:+:
      innerLines comments depth kind children := by
  cases children with
  | nil => exact List.infix_rfl
  | cons child rest => exact (List.prefix_append ..).isInfix

private theorem nodeLines_container (header : Header) (kind : Container) (children : List Node) :
    nodeLines comments placement depth (.container header kind children) =
      Markup.linesAll depth (markers comments placement (.container header kind children))
        ++ openingLine placement depth (.container header kind children) :: innerLines comments depth kind children := by
  rw [nodeLines, linesAll_append, Markup.linesAll, lines_container, Markup.linesAll, List.append_nil]

end Nodes

section Subtrees

variable (comments : Bool) (depth : Nat)

mutual

private theorem infix_of_mem_trails (above : List Node) (address : Address) (node : Node) :
    ∀ t ∈ node.trails above address,
      nodeLines comments (placementUnder t.above.getLast?) (depth + t.above.length) t.node <:+:
        nodeLines comments (placementUnder above.getLast?) (depth + above.length) node := by
  intro t member
  match node with
  | .leaf header kind =>
    obtain rfl := List.mem_singleton.mp member
    exact List.infix_rfl
  | .container header kind children =>
    rcases List.mem_cons.mp member with rfl | below
    · exact List.infix_rfl
    have inner := infix_of_mem_trailsAll (above ++ [.container header kind children]) address 0 children t below
    rw [List.getLast?_concat, List.length_append, List.length_singleton, ← Nat.add_assoc] at inner
    rw [nodeLines_container]
    refine (inner.trans (infix_innerLines comments _ kind children)).trans ?_
    exact ((List.suffix_cons ..).trans (List.suffix_append ..)).isInfix

private theorem infix_of_mem_trailsAll (above : List Node) (address : Address) (place : Nat) (nodes : List Node) :
    ∀ t ∈ Node.trailsAll above address place nodes,
      nodeLines comments (placementUnder t.above.getLast?) (depth + t.above.length) t.node <:+:
        nodes.flatMap (nodeLines comments (placementUnder above.getLast?) (depth + above.length)) := by
  intro t member
  match nodes with
  | [] => exact absurd member List.not_mem_nil
  | node :: rest =>
    rw [List.flatMap_cons]
    rcases List.mem_append.mp member with here | later
    · exact (infix_of_mem_trails above (address ++ [place]) node t here).trans (List.prefix_append ..).isInfix
    · exact (infix_of_mem_trailsAll above address (place + 1) rest t later).trans (List.suffix_append ..).isInfix

end

end Subtrees

/-- Lines that have marks among them: the marks, each with the line that it stands above, and the other lines. -/
inductive Marked : List String → List (String × String) → List String → Prop
  | nil : Marked [] [] []
  | line (line : String) {lines others : List String} {marks : List (String × String)} :
      Marked lines marks others → Marked (line :: lines) marks (line :: others)
  | mark (mark line : String) {lines others : List String} {marks : List (String × String)} :
      Marked lines marks others → Marked (mark :: line :: lines) ((mark, line) :: marks) (line :: others)

section Joining

private theorem Marked.refl (lines : List String) : Marked lines [] lines := by
  induction lines with
  | nil => exact .nil
  | cons line rest ih => exact .line line ih

private theorem Marked.append {lines more others rest : List String} {marks later : List (String × String)}
    (h : Marked lines marks others) (h' : Marked more later rest) :
    Marked (lines ++ more) (marks ++ later) (others ++ rest) := by
  induction h with
  | nil => exact h'
  | line line _ ih => exact .line line ih
  | mark mark line _ ih => exact .mark mark line ih

end Joining

/-- The name that a node is marked by: that of a frame, a group or a stack, unless it is blank. -/
def markOf : Node → Option String
  | .container header (.panel .frame _) _ | .container header (.panel .group _) _ | .container header (.stack _) _ =>
    header.displayName
  | _ => none

/-- The line that marks a node and the line that it stands above. A component that returns at a depth marks its root
above the line that opens what is returned, and other nodes above their elements. -/
def markAt (depth : Nat) (t : Trail) : Option (String × String) :=
  (markOf t.node).map fun name =>
    match t.above.getLast? with
    | none => (Text.indent depth ++ "// " ++ commentText name, Text.indent depth ++ "return (")
    | some parent =>
      (Text.indent (depth + 1 + t.above.length) ++ "\x7b/* " ++ commentText name ++ " */\x7d",
        openingLine (placementUnder (some parent)) (depth + 1 + t.above.length) t.node)

section Marks

private theorem markerName_true (node : Node) : markerName true node = markOf node := by
  match node with
  | .leaf _ _ => rfl
  | .container _ (.panel role _) _ => cases role <;> rfl
  | .container _ (.stack _) _ | .container _ (.grid _) _ => rfl

private theorem markerName_false (node : Node) : markerName false node = none := by
  cases node <;> rfl

private theorem markers_under (comments : Bool) (parent node : Node) :
    markers comments (placementUnder (some parent)) node =
      if comments then (markOf node).toList.map .comment else [] := by
  have below : placementUnder (some parent) ≠ .root := by
    match parent with
    | .leaf _ _ => exact Placement.noConfusion
    | .container _ (.panel _ _) _ | .container _ (.stack _) _ | .container _ (.grid _) _ =>
      exact Placement.noConfusion
  rw [markers, if_neg below]
  cases comments with
  | true => rw [markerName_true, if_pos rfl]
  | false => rw [markerName_false, if_neg Bool.false_ne_true]; rfl

variable (depth : Nat)

private theorem marked_container (above : List Node) (parent : Node) (address : Address) (header : Header)
    (kind : Container) (children : List Node) {below : List Trail}
    (inner : Marked (innerLines true (depth + 1 + (above ++ [parent]).length) kind children)
      (below.filterMap (markAt depth)) (innerLines false (depth + 1 + (above ++ [parent]).length) kind children)) :
    Marked
      (nodeLines true (placementUnder (some parent)) (depth + 1 + (above ++ [parent]).length)
        (.container header kind children))
      (List.filterMap (markAt depth) (⟨address, above ++ [parent], .container header kind children⟩ :: below))
      (nodeLines false (placementUnder (some parent)) (depth + 1 + (above ++ [parent]).length)
        (.container header kind children)) := by
  rw [nodeLines_container, nodeLines_container, markers_under, markers_under, if_pos rfl,
    if_neg Bool.false_ne_true, List.filterMap_cons, markAt, List.getLast?_concat]
  cases markOf (.container header kind children) with
  | none => exact .line _ inner
  | some name => exact .mark _ _ inner

private theorem marked_innerLines (kind : Container) (children : List Node) {marks : List (String × String)}
    (below : Marked (children.flatMap (nodeLines true (childPlacement kind) (depth + 1))) marks
      (children.flatMap (nodeLines false (childPlacement kind) (depth + 1))))
    (childless : children = [] → marks = []) :
    Marked (innerLines true depth kind children) marks (innerLines false depth kind children) := by
  cases children with
  | nil =>
    rw [childless rfl]
    exact .nil
  | cons child rest =>
    have closed := below.append (.refl [Text.indent depth ++ "</div>"])
    rw [List.append_nil] at closed
    exact closed

mutual

private theorem marked_node (above : List Node) (parent : Node) (address : Address) (node : Node) :
    Marked (nodeLines true (placementUnder (some parent)) (depth + 1 + (above ++ [parent]).length) node)
      ((node.trails (above ++ [parent]) address).filterMap (markAt depth))
      (nodeLines false (placementUnder (some parent)) (depth + 1 + (above ++ [parent]).length) node) := by
  match node with
  | .leaf header kind => exact Marked.refl (nodeLines false _ _ (.leaf header kind))
  | .container header kind children =>
    have below := marked_nodes (above ++ [parent]) (.container header kind children) address 0 children
    rw [List.length_append, List.length_singleton, ← Nat.add_assoc] at below
    refine marked_container depth above parent address header kind children (marked_innerLines _ kind children below ?_)
    rintro rfl
    rfl

private theorem marked_nodes (above : List Node) (parent : Node) (address : Address) (place : Nat) (nodes : List Node) :
    Marked (nodes.flatMap (nodeLines true (placementUnder (some parent)) (depth + 1 + (above ++ [parent]).length)))
      ((Node.trailsAll (above ++ [parent]) address place nodes).filterMap (markAt depth))
      (nodes.flatMap (nodeLines false (placementUnder (some parent)) (depth + 1 + (above ++ [parent]).length))) := by
  match nodes with
  | [] => exact .nil
  | node :: rest =>
    have here := marked_node above parent (address ++ [place]) node
    rw [List.flatMap_cons, List.flatMap_cons, Node.trailsAll, List.filterMap_append]
    exact here.append (marked_nodes above parent address (place + 1) rest)

end

private theorem nodeLines_root (comments : Bool) (node : Node) :
    nodeLines comments .root depth node = (element comments .root node).lines depth := by
  rw [nodeLines, markers, if_pos rfl, List.nil_append, Markup.linesAll, Markup.linesAll, List.append_nil]

/-- The root is marked above the line that opens what is returned, and the nodes below it as the inner lines are. -/
private theorem marked_root (root : Node) :
    Marked ((markOf root).toList.map (fun name => Text.indent depth ++ "// " ++ commentText name)
        ++ (Text.indent depth ++ "return (") :: nodeLines true .root (depth + 1) root)
      ((root.trails [] []).filterMap (markAt depth))
      ((Text.indent depth ++ "return (") :: nodeLines false .root (depth + 1) root) := by
  rw [nodeLines_root, nodeLines_root]
  cases root with
  | leaf header kind => exact Marked.refl _
  | container header kind children =>
    have below := marked_nodes depth [] (.container header kind children) [] 0 children
    have inner := marked_innerLines (depth + 1) kind children below (by rintro rfl; rfl)
    rw [lines_container, lines_container, Node.trails, List.filterMap_cons, markAt, List.getLast?_nil]
    cases markOf (.container header kind children) with
    | none => exact .line _ (.line _ inner)
    | some name => exact .mark _ _ (.line _ inner)

end Marks

section Components

variable (name : String) (typed functional : Bool) (tree : Tree)

private theorem componentLines_eq (comments : Bool) :
    componentLines ⟨name, typed, functional, comments⟩ tree =
      (Shell.of ⟨name, typed, functional, comments⟩ (componentName name)).around (componentName name)
        (if comments then markOf tree.root else none) (nodeLines comments .root 0 tree.root) := by
  have mark : markerName comments tree.root = if comments then markOf tree.root else none := by
    cases comments with
    | true => exact markerName_true tree.root
    | false => exact markerName_false tree.root
  rw [componentLines, bodyLines, mark, Shell.around, ← nodeLines_eq, nodeLines_root]
  simp only [List.append_assoc]

private theorem marked_componentLines :
    Marked (componentLines ⟨name, typed, functional, true⟩ tree)
      ((tree.root.trails [] []).filterMap
        (markAt (Shell.of ⟨name, typed, functional, true⟩ (componentName name)).depth))
      (componentLines ⟨name, typed, functional, false⟩ tree) := by
  let shell := Shell.of ⟨name, typed, functional, true⟩ (componentName name)
  have form (comments : Bool) : componentLines ⟨name, typed, functional, comments⟩ tree =
      (["import React from 'react';", ""] ++ shell.opening)
        ++ ((if comments then markOf tree.root else none).toList.map
            (fun name => Text.indent shell.depth ++ "// " ++ commentText name)
          ++ (Text.indent shell.depth ++ "return (") :: nodeLines comments .root (shell.depth + 1) tree.root)
        ++ ([Text.indent shell.depth ++ ");"] ++ shell.closing
          ++ ["", "export default " ++ componentName name ++ ";"]) := by
    have same : Shell.of ⟨name, typed, functional, comments⟩ (componentName name) = shell := rfl
    rw [componentLines_eq, same, Shell.around, ← nodeLines_eq]
    simp only [List.append_assoc, List.singleton_append]
  have whole := ((Marked.refl (["import React from 'react';", ""] ++ shell.opening)).append
    (marked_root shell.depth tree.root)).append (.refl ([Text.indent shell.depth ++ ");"] ++ shell.closing
      ++ ["", "export default " ++ componentName name ++ ";"]))
  rw [List.nil_append, List.append_nil] at whole
  rw [form true, form false]
  exact whole

end Components

/-- What the options change. Whatever the component is made as, its lines are those of the shell around one body,
indented as the shell has it. The lines of a node are the same at every depth but for the spaces before them, and stand
together among those of the component. Without comments just the marks are missing: one for each frame, group and
stack that has a name, in the order of visits, the root's above the line that opens what is returned, and each other
one above the element of its node. -/
theorem componentLines_variants (name : String) (tree : Tree) :
    (∀ typed functional comments, componentLines ⟨name, typed, functional, comments⟩ tree =
      (Shell.of ⟨name, typed, functional, comments⟩ (componentName name)).around (componentName name)
        (if comments then markOf tree.root else none) (nodeLines comments .root 0 tree.root)) ∧
    (∀ comments placement node, ∃ bare : List String, ∀ depth,
      nodeLines comments placement depth node = bare.map (Text.indent depth ++ ·)) ∧
    (∀ comments depth, ∀ t ∈ tree.root.trails [] [],
      nodeLines comments (placementUnder t.above.getLast?) (depth + t.above.length) t.node <:+:
        nodeLines comments .root depth tree.root) ∧
    ∀ typed functional, Marked (componentLines ⟨name, typed, functional, true⟩ tree)
      ((tree.root.trails [] []).filterMap
        (markAt (Shell.of ⟨name, typed, functional, true⟩ (componentName name)).depth))
      (componentLines ⟨name, typed, functional, false⟩ tree) := by
  refine ⟨fun typed functional => componentLines_eq name typed functional tree, fun comments placement node => ?_,
    fun comments depth => ?_, fun typed functional => marked_componentLines name typed functional tree⟩
  · exact ⟨_, fun depth => nodeLines_eq comments placement depth node⟩
  · exact infix_of_mem_trails comments depth [] [] tree.root

end Handoff.React
