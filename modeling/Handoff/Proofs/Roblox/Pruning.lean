import Handoff.Proofs.Roblox.Ranks

set_option autoImplicit false
set_option relaxedAutoImplicit false

/-!
Designs without the nodes that scripts leave out.

A node that has no instance takes no number, no name and no line, so the script is that of the design without such
nodes. Only the ranks differ, since they count all the children of a stack.
-/

namespace Handoff.Roblox
open Design

/-- True of the nodes that have no instance: lines, paths, and those of other types. -/
def isLeftOut : Node → Bool
  | .leaf _ (.line _) | .leaf _ (.path ..) | .leaf _ (.unknown _) => true
  | _ => false

mutual

/-- A node without those below it that are left out. -/
def prune : Node → Node
  | .leaf header kind => .leaf header kind
  | .container header kind children => .container header kind (pruneAll children)

def pruneAll : List Node → List Node
  | [] => []
  | node :: rest => if isLeftOut node then pruneAll rest else prune node :: pruneAll rest

end

def pruneTree (tree : Tree) : Tree :=
  { tree with root := prune tree.root }

/-- The entry of a node in the list of those that are left out. -/
def skippedOf (node : Node) : Skipped :=
  ⟨node.id, node.typeName⟩

/-- Lines that are the same, or give a rank to the same local. -/
def SameButRank (line other : String) : Prop :=
  line = other ∨ ∃ (lead : String) (v : Variable) (m n : Nat), lead ∈ ["", "\t"] ∧
    line = lead ++ v.name ++ ".LayoutOrder = " ++ toString m ∧
      other = lead ++ v.name ++ ".LayoutOrder = " ++ toString n

section Skipped

private theorem leafWidget?_eq_none {kind : Leaf} {h : Header} (left : isLeftOut (.leaf h kind) = true)
    (order : Option Nat) : leafWidget? h order kind = none := by
  cases kind with
  | rect | ellipse | text | image => cases left
  | line | path | unknown => rfl

private theorem exists_leafWidget {kind : Leaf} {h : Header} (kept : isLeftOut (.leaf h kind) = false)
    (order : Option Nat) : ∃ w, leafWidget? h order kind = some w := by
  cases kind with
  | rect | ellipse | text | image => exact ⟨_, rfl⟩
  | line | path | unknown => cases kept

private theorem draw_left_out {node : Node} (left : isLeftOut node = true) (parent : Variable) (order : Option Nat)
    (last : Nat) : draw parent order last node = ⟨[], [skippedOf node], last⟩ := by
  cases node with
  | container h kind children => cases left
  | leaf h kind =>
    rw [draw, leafWidget?_eq_none left]
    rfl

mutual

theorem draw_skipped (parent : Variable) (order : Option Nat) (last : Nat) (node : Node) :
    (draw parent order last node).skipped = (node.preorder.filter isLeftOut).map skippedOf := by
  cases node with
  | leaf h kind =>
    by_cases left : isLeftOut (.leaf h kind) = true
    · rw [draw_left_out left, Node.preorder, List.filter_cons_of_pos left]
      rfl
    · obtain ⟨w, chosen⟩ := exists_leafWidget (Bool.not_eq_true _ ▸ left) order
      rw [draw, Node.preorder, List.filter_cons_of_neg left, chosen]
      rfl
  | container h kind children =>
    rw [draw, Node.preorder, List.filter_cons_of_neg (by simp [isLeftOut])]
    exact drawAll_skipped _ _ _ _ children

theorem drawAll_skipped (parent : Variable) (ranked : Bool) (rank last : Nat) (nodes : List Node) :
    (drawAll parent ranked rank last nodes).skipped = ((Node.preorders nodes).filter isLeftOut).map skippedOf := by
  cases nodes with
  | nil => rfl
  | cons node rest =>
    rw [drawAll, Node.preorders, List.filter_append, List.map_append, ← draw_skipped, ← drawAll_skipped]

end

mutual

theorem filter_prune (node : Node) (kept : isLeftOut node = false) : (prune node).preorder.filter isLeftOut = [] := by
  cases node with
  | leaf h kind =>
    rw [prune, Node.preorder, List.filter_cons_of_neg (by simp [kept]), List.filter_nil]
  | container h kind children =>
    rw [prune, Node.preorder, List.filter_cons_of_neg (by simp [isLeftOut])]
    exact filter_pruneAll children

theorem filter_pruneAll (nodes : List Node) : (Node.preorders (pruneAll nodes)).filter isLeftOut = [] := by
  cases nodes with
  | nil => rfl
  | cons node rest =>
    rw [pruneAll]
    split
    · exact filter_pruneAll rest
    · rename_i kept
      rw [Node.preorders, List.filter_append, filter_prune node (Bool.not_eq_true _ ▸ kept), filter_pruneAll rest,
        List.append_nil]

end

end Skipped

section Alike

/-- Statements that are the same, or give a rank to the same local. -/
def Statement.Alike (s t : Statement) : Prop :=
  s = t ∨ ∃ v m n, s = .set v .layoutOrder (.count m) ∧ t = .set v .layoutOrder (.count n)

/-- Parts of scripts that are alike statement by statement. -/
inductive Chunk.Alike : Chunk → Chunk → Prop
  | statement {s t : Statement} (same : s.Alike t) : Alike (.statement s) (.statement t)
  | block {body other : List Statement} (same : List.Forall₂ Statement.Alike body other) :
      Alike (.block body) (.block other)

private theorem alike_refl (list : List Statement) : List.Forall₂ Statement.Alike list list :=
  List.forall₂_same.mpr fun _ _ => .inl rfl

private theorem alike_chunks {list other : List Statement} (same : List.Forall₂ Statement.Alike list other) :
    List.Forall₂ Chunk.Alike (list.map .statement) (other.map .statement) := by
  rw [List.forall₂_map_left_iff, List.forall₂_map_right_iff]
  exact same.imp fun _ _ => .statement

private theorem alike_blocks (bodies : List (List Statement)) :
    List.Forall₂ Chunk.Alike (bodies.map .block) (bodies.map .block) := by
  rw [List.forall₂_map_left_iff, List.forall₂_map_right_iff]
  exact List.forall₂_same.mpr fun body _ => .block (alike_refl body)

private theorem alike_common (v : Variable) (h : Header) {order other : Option Nat}
    (both : order.isSome = other.isSome) :
    List.Forall₂ Statement.Alike ((commonSettings h order).map fun s => .set v s.1 s.2)
      ((commonSettings h other).map fun s => .set v s.1 s.2) := by
  cases order with
  | none =>
    obtain rfl : other = none := by simpa using both.symm
    exact alike_refl _
  | some m =>
    obtain ⟨n, rfl⟩ : ∃ n, other = some n := Option.isSome_iff_exists.mp both.symm
    exact .cons (.inl rfl) (.cons (.inl rfl) (.cons (.inl rfl) (.cons (.inr ⟨v, m, n, rfl, rfl⟩) .nil)))

private theorem alike_main {node : Node} {order other : Option Nat} (both : order.isSome = other.isSome)
    {w : Widget} (main : mainWidget? order node = some w) :
    ∃ w', mainWidget? other node = some w' ∧ w.cls = w'.cls ∧
      ∀ v parent, List.Forall₂ Statement.Alike (w.statements v parent) (w'.statements v parent) := by
  obtain ⟨cls, looks, -, -, form, rfl⟩ := exists_of_mainWidget main
  refine ⟨_, form other, rfl, fun v parent => ?_⟩
  simp only [Widget.statements, List.map_append]
  exact List.rel_append (.cons (.inl rfl) (List.rel_append (alike_common v node.header both) (alike_refl _)))
    (alike_refl _)

mutual

/-- What is drawn for a node and for the node once it is pruned is alike, and ends with the same number. -/
theorem draw_prune (parent : Variable) {order other : Option Nat} (both : order.isSome = other.isSome) (last : Nat)
    (node : Node) (kept : isLeftOut node = false) :
    List.Forall₂ Chunk.Alike (draw parent order last node).script (draw parent other last (prune node)).script ∧
      (draw parent order last node).last = (draw parent other last (prune node)).last := by
  cases node with
  | leaf h kind =>
    obtain ⟨w, chosen⟩ := exists_leafWidget kept order
    have main : mainWidget? order (.leaf h kind) = some w := chosen
    obtain ⟨w', chosen', cls, alike⟩ := alike_main both main
    simp only [mainWidget?] at chosen'
    simp only [prune, draw, chosen, chosen', cls]
    exact ⟨.cons (.block (List.rel_append (alike _ parent) (alike_refl _))) .nil, trivial⟩
  | container h kind children =>
    have main : mainWidget? order (.container h kind children) = some (containerWidget h order kind) := rfl
    obtain ⟨w', chosen', cls, alike⟩ := alike_main both main
    obtain rfl := Option.some.inj chosen'
    obtain ⟨below, number⟩ := drawAll_prune (.numbered (containerWidget h other kind).cls (last + 1))
      (ranksChildren kind) 1 1 (last + 1 + (containerDecorations h kind).length) children
    simp only [prune, draw, cls]
    exact ⟨List.rel_append (List.rel_append (alike_chunks (alike _ parent)) (alike_blocks _)) below, number⟩

/-- Siblings keep their numbers when some of them are left out, though their ranks may change. -/
theorem drawAll_prune (parent : Variable) (ranked : Bool) (rank other last : Nat) (nodes : List Node) :
    List.Forall₂ Chunk.Alike (drawAll parent ranked rank last nodes).script
        (drawAll parent ranked other last (pruneAll nodes)).script ∧
      (drawAll parent ranked rank last nodes).last = (drawAll parent ranked other last (pruneAll nodes)).last := by
  cases nodes with
  | nil => exact ⟨.nil, rfl⟩
  | cons node rest =>
    rw [pruneAll]
    split
    · rename_i left
      simp only [drawAll, draw_left_out left, List.nil_append]
      exact drawAll_prune parent ranked (rank + 1) other last rest
    · rename_i kept
      have both : (if ranked then some rank else none).isSome = (if ranked then some other else none).isSome := by
        cases ranked <;> rfl
      obtain ⟨here, number⟩ := draw_prune parent both last node (Bool.not_eq_true _ ▸ kept)
      obtain ⟨after, final⟩ := drawAll_prune parent ranked (rank + 1) (other + 1)
        (draw parent (if ranked then some other else none) last (prune node)).last rest
      simp only [drawAll, number]
      exact ⟨List.rel_append here after, final⟩

end

end Alike

section Lines

variable (units : Units)

private theorem sameButRank_line {lead : String} (tabs : lead ∈ ["", "\t"]) {s t : Statement} (alike : s.Alike t) :
    SameButRank (lead ++ s.line units) (lead ++ t.line units) := by
  rcases alike with rfl | ⟨v, m, n, rfl, rfl⟩
  · exact .inl rfl
  · have line (k : ℕ) : lead ++ (Statement.set v .layoutOrder (.count k)).line units =
        lead ++ v.name ++ ".LayoutOrder = " ++ toString k := by
      have dot : ".LayoutOrder = " = "." ++ "LayoutOrder" ++ " = " := by decide
      rw [dot, Statement.line]
      simp only [String.append_assoc]
      rfl
    exact .inr ⟨lead, v, m, n, tabs, line m, line n⟩

private theorem sameButRank_lines {chunk other : Chunk} (alike : chunk.Alike other) :
    List.Forall₂ SameButRank (chunk.lines units) (other.lines units) := by
  have same (lines : List String) : List.Forall₂ SameButRank lines lines := List.forall₂_same.mpr fun _ _ => .inl rfl
  cases alike with
  | @statement s t alike =>
    have lead : s.lead = t.lead := by
      rcases alike with rfl | ⟨v, m, n, rfl, rfl⟩ <;> rfl
    have line := sameButRank_line units List.mem_cons_self alike
    rw [String.empty_append, String.empty_append] at line
    simp only [Chunk.lines, lead]
    exact List.rel_append (same _) (.cons line .nil)
  | block alike =>
    have tabs : "\t" ∈ ["", "\t"] := by simp
    have inner := alike.imp fun _ _ => sameButRank_line units tabs
    refine List.rel_append (List.rel_append (same _) ?_) (same _)
    rw [List.forall₂_map_left_iff, List.forall₂_map_right_iff]
    exact inner

private theorem sameButRank_script {script other : List Chunk} (alike : List.Forall₂ Chunk.Alike script other) :
    List.Forall₂ SameButRank (script.flatMap (Chunk.lines units)) (other.flatMap (Chunk.lines units)) := by
  induction alike with
  | nil => exact .nil
  | cons first _ ih => exact List.rel_append (sameButRank_lines units first) ih

end Lines

/-- Leaving out nodes is exact, and cannot be seen in the script apart from ranks. A design with an instance for its
root is told to leave out the nodes that have none, in the order of visits; without these nodes it leaves out nothing,
and its script is the same line by line up to the numbers of ranks. Both scripts have the lines of their statements and
run to their ends, and the ranks that they give to instances rise among the children of a stack, and are given nowhere
else. -/
theorem report_without_left_out (options : Options) (units : Units) (tree : Tree) (kept : isLeftOut tree.root = false) :
    (report options units tree).skipped = (tree.root.preorder.filter isLeftOut).map skippedOf ∧
      (report options units (pruneTree tree)).skipped = [] ∧
      List.Forall₂ SameButRank (Text.lines (report options units tree).script)
        (Text.lines (report options units (pruneTree tree)).script) ∧
      ∀ design ∈ [tree, pruneTree tree],
        Text.lines (generate options units design) =
            (scriptOf options design).script.flatMap (Chunk.lines units) ++ [""] ∧
          ∃ (final : Machine) (list : List Figure),
            Machine.execute units (scriptOf options design).script {} = some final ∧
              final.made = list.map Figure.made ∧ Rebuilds units design.root list ∧ Ranked design.root list := by
  refine ⟨draw_skipped _ _ _ _, ?_, ?_, fun design _ => ?_⟩
  · have left : (report options units (pruneTree tree)).skipped =
        ((prune tree.root).preorder.filter isLeftOut).map skippedOf := draw_skipped _ _ _ _
    rw [left, filter_prune tree.root kept, List.map_nil]
  · have unranked : (none : Option Nat).isSome = (none : Option Nat).isSome := rfl
    obtain ⟨drawn, -⟩ := draw_prune .screenGui unranked 0 tree.root kept
    have opening : List.Forall₂ Chunk.Alike (preamble options) (preamble options) := alike_chunks (alike_refl _)
    simp only [report, lines_generate]
    exact List.rel_append (sameButRank_script units (List.rel_append opening drawn)) (.cons (.inl rfl) .nil)
  · obtain ⟨locals, run⟩ := execute_scriptOf options units design
    exact ⟨lines_generate options units design, _, screenFigures options units design, run, rfl,
      rebuilds_screenFigures options units design, ranked_screenFigures options units design⟩

/-- A row of a line and a rectangle. -/
def ruledRow : Tree :=
  { root := .container { id := "row" } (.stack { direction := .row })
      [.leaf { id := "rule" } (.line {}), .leaf { id := "tile" } (.rect {})] }

/-- The line is left out, and without it the script is the same up to the rectangle's rank. -/
theorem report_ruledRow :
    isLeftOut ruledRow.root = false ∧ (report {} pixelUnits ruledRow).skipped = [⟨"rule", "line"⟩] ∧
      (report {} pixelUnits (pruneTree ruledRow)).skipped = [] ∧
      List.Forall₂ SameButRank (Text.lines (report {} pixelUnits ruledRow).script)
        (Text.lines (report {} pixelUnits (pruneTree ruledRow)).script) := by
  obtain ⟨left, none, same, -⟩ := report_without_left_out {} pixelUnits ruledRow rfl
  exact ⟨rfl, left, none, same⟩

end Handoff.Roblox
