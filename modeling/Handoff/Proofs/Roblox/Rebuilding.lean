import Handoff.Proofs.Roblox.Line

set_option autoImplicit false
set_option relaxedAutoImplicit false

/-!
The instances of a script stand under one another as the design has it.

Each node that is drawn has its own instance under that of the node above, and the decorations that it asks for stand
under that. Each instance gets one parent, after all else.
-/

namespace Handoff.Roblox
open Design

def decorationClasses : List Class :=
  [.corner, .stroke, .padding, .listLayout, .gridLayout]

/-- An instance that gets one parent, after all its properties. -/
def Instance.HeldBy (i : Instance) (holder : Thing) : Prop :=
  ∃ properties : List (String × String),
    i.log = properties.map (fun p => .property p.1 p.2) ++ [.parent holder]

/-- The address and the class of an instance that stands for a node. -/
def Figure.main? (f : Figure) : Option (Address × Class) :=
  match f.part with
  | .main address => some (address, f.made.cls)
  | _ => none

/-- A figure other than the screen stands under the one that holds its part, and has a class for its part. -/
structure Placed (all : List Figure) (f : Figure) : Prop where
  not_screen : f.part ≠ .screen
  decoration_class : ∀ address, f.part = .decoration address → f.made.cls ∈ decorationClasses
  held : ∃ n holder, all[n]? = some holder ∧ holder.part = f.part.holder ∧ f.made.HeldBy (.made n)

def cornerKinds (radius : Option Float) : List Class :=
  if radius.any (0 < ·) then [.corner] else []

def paddingKinds (padding : Option Padding) : List Class :=
  if padding.isSome then [.padding] else []

def strokeKinds (stroke : Option String) : List Class :=
  if (paint? stroke).isSome then [.stroke] else []

/-- The classes of the decorations that a node asks for. -/
def decorationKinds : Node → List Class
  | .container _ (.panel _ a) _ => cornerKinds a.radius ++ paddingKinds a.padding
  | .container _ (.stack a) _ => paddingKinds a.padding ++ [.listLayout]
  | .container _ (.grid a) _ => paddingKinds a.padding ++ [.gridLayout]
  | .leaf _ (.rect a) => cornerKinds a.radius ++ strokeKinds a.stroke
  | .leaf _ (.ellipse a) => .corner :: strokeKinds a.stroke
  | .leaf _ (.image a) => cornerKinds a.radius
  | .leaf _ _ => []

/-- The decorations of a node are those that it asks for, and stand under its own instance. -/
structure Decorated (units : Units) (list : List Figure) (address : Address) (node : Node) : Prop where
  kinds : (instancesAt list (.decoration address)).map Instance.cls = decorationKinds node
  own : ∃ n, ((mainClass? node).isSome = true → ∃ i, list[n]? = some ⟨.main address, i⟩) ∧
    instancesAt list (.decoration address) = (decorationWidgets node).map (·.under units (.made n))

/-- Instances that are a screen with the nodes of a design on it: one for each node that is drawn, in the order of
visits, and the decorations of each. -/
structure Rebuilds (units : Units) (root : Node) (list : List Figure) : Prop where
  screen : ∃ i rest, list = ⟨.screen, i⟩ :: rest ∧ i.cls = .screenGui ∧ i.HeldBy playerScreens ∧
    ∀ f ∈ rest, Placed list f
  mains : list.filterMap Figure.main? =
    (root.located []).filterMap fun entry => (mainClass? entry.2).map fun cls => (entry.1, cls)
  mains_nodup : ((list.filterMap Figure.main?).map Prod.fst).Nodup
  decorated : ∀ entry ∈ root.located [], Decorated units list entry.1 entry.2

section Placing

variable (units : Units)

private theorem heldBy_under (w : Widget) (holder : Thing) : (w.under units holder).HeldBy holder := by
  refine ⟨w.settings.map fun s => (s.1.label, s.2.expression units), ?_⟩
  simp [Widget.under, Widget.written, Function.comp_def]

theorem holder_child (address : Address) (place : Nat) :
    (Part.main (address ++ [place])).holder = .main address := by
  cases address with
  | nil => rfl
  | cons i rest => simp [Part.holder, List.dropLast_cons_of_ne_nil]

theorem cls_mem_cornerWidgets (radius : Option Float) :
    ∀ w ∈ cornerWidgets radius, w.cls = .corner := by
  intro w member
  unfold cornerWidgets at member
  split at member
  · split at member
    · rw [List.mem_singleton.mp member]
    · exact absurd member List.not_mem_nil
  · exact absurd member List.not_mem_nil

theorem cls_mem_strokeWidgets (h : Header) (stroke : Option String) (width : Option Float) :
    ∀ w ∈ strokeWidgets h stroke width, w.cls = .stroke := by
  intro w member
  unfold strokeWidgets at member
  split at member
  · rw [List.mem_singleton.mp member]
  · exact absurd member List.not_mem_nil

theorem cls_mem_paddingWidgets (padding : Option Padding) :
    ∀ w ∈ paddingWidgets padding, w.cls = .padding := by
  intro w member
  unfold paddingWidgets at member
  split at member
  · rw [List.mem_singleton.mp member]; rfl
  · rw [List.mem_singleton.mp member]; rfl
  · exact absurd member List.not_mem_nil

theorem cls_mem_containerDecorations (h : Header) (kind : Container) :
    ∀ w ∈ containerDecorations h kind, w.cls ∈ decorationClasses := by
  intro w member
  cases kind with
  | panel role a =>
    rcases List.mem_append.mp member with member | member
    · rw [cls_mem_cornerWidgets _ w member]; decide
    · rw [cls_mem_paddingWidgets _ w member]; decide
  | stack a =>
    rcases List.mem_append.mp member with member | member
    · rw [cls_mem_paddingWidgets _ w member]; decide
    · rw [List.mem_singleton.mp member]
      simp only [listWidget]
      decide
  | grid a =>
    rcases List.mem_append.mp member with member | member
    · rw [cls_mem_paddingWidgets _ w member]; decide
    · rw [List.mem_singleton.mp member]
      simp only [gridWidget]
      decide

theorem cls_mem_leafDecorations (h : Header) (kind : Leaf) :
    ∀ w ∈ leafDecorations h kind, w.cls ∈ decorationClasses := by
  intro w member
  cases kind with
  | rect a =>
    rcases List.mem_append.mp member with member | member
    · rw [cls_mem_cornerWidgets _ w member]; decide
    · rw [cls_mem_strokeWidgets _ _ _ w member]; decide
  | ellipse a =>
    rcases List.mem_cons.mp member with rfl | member
    · simp only [roundWidget]
      decide
    · rw [cls_mem_strokeWidgets _ _ _ w member]; decide
  | image a => rw [cls_mem_cornerWidgets _ w member]; decide
  | text a => exact absurd member List.not_mem_nil
  | line a => exact absurd member List.not_mem_nil
  | path role a => exact absurd member List.not_mem_nil
  | unknown type => exact absurd member List.not_mem_nil

private theorem placed_main (all : List Figure) (w : Widget) (address : Address) (holder : Nat) (g : Figure)
    (above : all[holder]? = some g) (part : g.part = (Part.main address).holder) :
    Placed all ⟨.main address, w.under units (.made holder)⟩ where
  not_screen := by simp
  decoration_class := by simp
  held := ⟨holder, g, above, part, heldBy_under units w _⟩

private theorem placed_decorations (all : List Figure) (main : Nat) (address : Address) (ws : List Widget)
    (classes : ∀ w ∈ ws, w.cls ∈ decorationClasses) (g : Figure) (above : all[main]? = some g)
    (part : g.part = .main address) : ∀ f ∈ decorationFigures units main address ws, Placed all f := by
  intro f member
  obtain ⟨w, hw, rfl⟩ := List.mem_map.mp member
  exact ⟨by simp, fun _ _ => classes w hw, main, g, above, part, heldBy_under units w _⟩

private theorem getElem?_after {α : Type} (before : List α) (a : α) (after : List α) :
    (before ++ a :: after)[before.length]? = some a := by
  simp

mutual

/-- The figures of a node are placed in any row that they stand in with their numbers. -/
theorem placed_figures (all before after : List Figure) (holder : Nat) (order : Option Nat) (last : Nat)
    (address : Address) (node : Node)
    (row : all = before ++ figures units holder order last address node ++ after)
    (number : before.length = last + 1)
    (above : ∃ g, all[holder]? = some g ∧ g.part = (Part.main address).holder) :
    ∀ f ∈ figures units holder order last address node, Placed all f := by
  obtain ⟨g, held, part⟩ := above
  cases node with
  | leaf header kind =>
    rw [figures] at row ⊢
    cases chosen : leafWidget? header order kind with
    | none => simp
    | some w =>
      simp only [chosen] at row ⊢
      have self : all[last + 1]? = some ⟨.main address, w.under units (.made holder)⟩ := by
        rw [row, ← number, List.append_assoc, List.cons_append]
        exact getElem?_after _ _ _
      intro f member
      rcases List.mem_cons.mp member with rfl | member
      · exact placed_main units all w address holder g held part
      · exact placed_decorations units all (last + 1) address _ (cls_mem_leafDecorations header kind) _ self
          rfl f member
  | container header kind children =>
    rw [figures] at row ⊢
    let main : Figure := ⟨.main address, (containerWidget header order kind).under units (.made holder)⟩
    let decorations := decorationFigures units (last + 1) address (containerDecorations header kind)
    have self : all[last + 1]? = some main := by
      rw [row, ← number]
      simp [main]
    have below := placed_figuresAll all (before ++ main :: decorations) after (last + 1) (ranksChildren kind) 1
      (last + 1 + (containerDecorations header kind).length) address 0 children
      (by rw [row]; simp [main, decorations, List.append_assoc])
      (by simp [decorations, number, length_decorationFigures]; omega) ⟨main, self, rfl⟩
    intro f member
    rcases List.mem_append.mp member with member | member
    · rcases List.mem_cons.mp member with rfl | member
      · exact placed_main units all _ address holder g held part
      · exact placed_decorations units all (last + 1) address _ (cls_mem_containerDecorations header kind) _
          self rfl f member
    · exact below f member

theorem placed_figuresAll (all before after : List Figure) (holder : Nat) (ranked : Bool) (rank last : Nat)
    (above : Address) (place : Nat) (nodes : List Node)
    (row : all = before ++ figuresAll units holder ranked rank last above place nodes ++ after)
    (number : before.length = last + 1)
    (held : ∃ g, all[holder]? = some g ∧ g.part = .main above) :
    ∀ f ∈ figuresAll units holder ranked rank last above place nodes, Placed all f := by
  cases nodes with
  | nil => simp [figuresAll]
  | cons node rest =>
    simp only [figuresAll] at row ⊢
    let here := figures units holder (if ranked then some rank else none) last (above ++ [place]) node
    obtain ⟨g, parent, part⟩ := held
    have first := placed_figures all before
      (figuresAll units holder ranked (rank + 1) (last + here.length) above (place + 1) rest ++ after) holder
      (if ranked then some rank else none) last (above ++ [place]) node
      (by rw [row]; simp [here, List.append_assoc]) number ⟨g, parent, by rw [part, holder_child]⟩
    have others := placed_figuresAll all (before ++ here) after holder ranked (rank + 1) (last + here.length)
      above (place + 1) rest (by rw [row]; simp [here, List.append_assoc])
      (by simp [number]; omega) ⟨g, parent, part⟩
    intro f member
    rcases List.mem_append.mp member with member | member
    · exact first f member
    · exact others f member

end

private theorem main?_decorationFigures (main : Nat) (address : Address) (ws : List Widget) :
    (decorationFigures units main address ws).filterMap Figure.main? = [] := by
  simp [decorationFigures, Figure.main?, List.filterMap_map, Function.comp_def]

private theorem cls_leafWidget? (h : Header) (order : Option Nat) (kind : Leaf) :
    (leafWidget? h order kind).map Widget.cls = mainClass? (.leaf h kind) := by
  cases kind <;> rfl

private theorem cls_containerWidget (h : Header) (order : Option Nat) (kind : Container) :
    (containerWidget h order kind).cls = .frame := by
  cases kind <;> rfl

/-- The node at an address with the class of its instance. -/
private def drawn? (entry : Address × Node) : Option (Address × Class) :=
  (mainClass? entry.2).map fun cls => (entry.1, cls)

private theorem map_fst_drawn_sublist (entries : List (Address × Node)) :
    ((entries.filterMap drawn?).map Prod.fst).Sublist (entries.map Prod.fst) := by
  induction entries with
  | nil => exact List.Sublist.refl _
  | cons entry rest ih =>
    cases cls : mainClass? entry.2 with
    | none => simpa [drawn?, cls] using ih.cons _
    | some c => simpa [drawn?, cls] using ih

mutual

theorem mains_figures (holder : Nat) (order : Option Nat) (last : Nat) (address : Address) (node : Node) :
    (figures units holder order last address node).filterMap Figure.main? =
      (node.located address).filterMap drawn? := by
  cases node with
  | leaf header kind =>
    have cls := cls_leafWidget? header order kind
    rw [figures, Node.located]
    cases chosen : leafWidget? header order kind with
    | none =>
      rw [chosen] at cls
      simp [drawn?, ← cls]
    | some w =>
      rw [chosen] at cls
      simp [drawn?, ← cls, main?_decorationFigures, Figure.main?, Widget.under]
  | container header kind children =>
    have below := mains_figuresAll (last + 1) (ranksChildren kind) 1
      (last + 1 + (containerDecorations header kind).length) address 0 children
    rw [figures, Node.located, List.filterMap_append, List.filterMap_cons, List.filterMap_cons, below,
      main?_decorationFigures]
    simp [drawn?, Figure.main?, Widget.under, mainClass?, cls_containerWidget]

theorem mains_figuresAll (holder : Nat) (ranked : Bool) (rank last : Nat) (above : Address) (place : Nat)
    (nodes : List Node) :
    (figuresAll units holder ranked rank last above place nodes).filterMap Figure.main? =
      (Node.locatedAll above place nodes).filterMap drawn? := by
  cases nodes with
  | nil => rfl
  | cons node rest =>
    simp only [figuresAll, Node.locatedAll, List.filterMap_append]
    rw [mains_figures, mains_figuresAll]

end

end Placing

section Decorations

variable (options : Options) (units : Units) (tree : Tree)

private theorem kinds_corner (radius : Option Float) : (cornerWidgets radius).map Widget.cls = cornerKinds radius := by
  cases radius with
  | none => rfl
  | some r =>
    by_cases round : 0 < r
    · simp [cornerWidgets, cornerKinds, round]
    · simp [cornerWidgets, cornerKinds, round]

private theorem kinds_padding (padding : Option Padding) :
    (paddingWidgets padding).map Widget.cls = paddingKinds padding := by
  unfold paddingWidgets
  split <;> rfl

private theorem kinds_stroke (h : Header) (stroke : Option String) (width : Option Float) :
    (strokeWidgets h stroke width).map Widget.cls = strokeKinds stroke := by
  unfold strokeWidgets strokeKinds
  cases paint? stroke <;> rfl

private theorem kinds_decorations (node : Node) : (decorationWidgets node).map Widget.cls = decorationKinds node := by
  cases node with
  | container h kind children =>
    cases kind with
    | panel role a =>
      rw [decorationWidgets, containerDecorations, List.map_append, kinds_corner, kinds_padding, decorationKinds]
    | stack a =>
      rw [decorationWidgets, containerDecorations, List.map_append, kinds_padding, decorationKinds]
      rfl
    | grid a =>
      rw [decorationWidgets, containerDecorations, List.map_append, kinds_padding, decorationKinds]
      rfl
  | leaf h kind =>
    cases kind with
    | rect a => rw [decorationWidgets, leafDecorations, List.map_append, kinds_corner, kinds_stroke, decorationKinds]
    | ellipse a =>
      rw [decorationWidgets, leafDecorations, List.map_cons, kinds_stroke, decorationKinds]
      rfl
    | image a => exact kinds_corner a.radius
    | text | line | path | unknown => rfl

private theorem eq_of_heldBy_under {w : Widget} {holder other : Thing} (held : (w.under units holder).HeldBy other) :
    holder = other := by
  obtain ⟨properties, log⟩ := held
  have last := congrArg List.getLast? log
  rw [Widget.under, List.getLast?_concat, List.getLast?_concat, Option.some.injEq, Assignment.parent.injEq] at last
  exact last

private theorem exists_of_mem_instancesAt {list : List Figure} {part : Part} {i : Instance}
    (member : i ∈ instancesAt list part) : ⟨part, i⟩ ∈ list := by
  obtain ⟨f, held, rfl⟩ := List.mem_map.mp member
  obtain ⟨inside, rfl⟩ := List.mem_filter.mp held |>.imp_right of_decide_eq_true
  exact inside

theorem placed_screenFigures :
    ∀ f ∈ figures units 0 none 0 [] tree.root, Placed (screenFigures options units tree) f :=
  placed_figures units (screenFigures options units tree) [screenFigure options units] [] 0 none 0 [] tree.root
    (by simp [screenFigures]) rfl ⟨screenFigure options units, rfl, rfl⟩

private theorem main_of_decoration {address : Address} {w : Widget} {main : Nat}
    (member : w.under units (.made main) ∈ instancesAt (screenFigures options units tree) (.decoration address)) :
    ∃ i, (screenFigures options units tree)[main]? = some ⟨.main address, i⟩ := by
  have inside := exists_of_mem_instancesAt member
  have below := (List.mem_cons.mp inside).resolve_left (fun screen => Part.noConfusion (congrArg Figure.part screen))
  obtain ⟨n, ⟨_, i⟩, found, part, held⟩ := (placed_screenFigures options units tree _ below).held
  obtain rfl := Thing.made.inj (eq_of_heldBy_under units held)
  obtain rfl := part
  exact ⟨i, found⟩

theorem decorated_screenFigures :
    ∀ entry ∈ tree.root.located [], Decorated units (screenFigures options units tree) entry.1 entry.2 := by
  intro entry located
  obtain ⟨order, holder, main, own, decorations⟩ := instancesAt_screenFigures options units tree entry located
  refine ⟨?_, ?_⟩
  · rw [decorations, List.map_map, ← kinds_decorations]
    rfl
  · cases ws : decorationWidgets entry.2 with
    | cons w rest =>
      rw [ws] at decorations
      have member : w.under units (.made main) ∈
          instancesAt (screenFigures options units tree) (.decoration entry.1) := by
        rw [decorations]
        exact List.mem_cons_self
      exact ⟨main, fun _ => main_of_decoration options units tree member, decorations⟩
    | nil =>
      -- Without decorations, any place in the row would do where the node has no instance.
      rw [ws] at decorations
      cases drawn : (mainClass? entry.2).isSome with
      | false => exact ⟨0, nofun, decorations⟩
      | true =>
        obtain ⟨w, chosen⟩ := exists_mainWidget order drawn
        have member : w.under units (.made holder) ∈ instancesAt (screenFigures options units tree) (.main entry.1) := by
          rw [own, chosen]
          exact List.mem_cons_self
        obtain ⟨n, found⟩ := List.getElem?_of_mem (exists_of_mem_instancesAt member)
        exact ⟨n, fun _ => ⟨_, found⟩, decorations⟩

end Decorations

theorem rebuilds_screenFigures (options : Options) (units : Units) (tree : Tree) :
    Rebuilds units tree.root (screenFigures options units tree) := by
  have mains : (screenFigures options units tree).filterMap Figure.main? = (tree.root.located []).filterMap drawn? :=
    mains_figures units 0 none 0 [] tree.root
  refine ⟨⟨_, _, rfl, rfl, heldBy_under units _ _, placed_screenFigures options units tree⟩, mains, ?_,
    decorated_screenFigures options units tree⟩
  rw [mains]
  exact (Node.nodup_located [] tree.root).sublist (map_fst_drawn_sublist _)

/-- The script of a design has the lines of its statements, and these run to their end, whatever the unit of the engine.
The instances that they make are the screen, one for each node that is drawn, and for each of these nodes the
decorations that it asks for. Each stands under the one that holds it in the design, a decoration under that of its own
node, and is put there after all else has been assigned to it. -/
theorem execute_script (options : Options) (units : Units) (tree : Tree) :
    Text.lines (generate options units tree) = (scriptOf options tree).script.flatMap (Chunk.lines units) ++ [""] ∧
      ∃ final : Machine, Machine.execute units (scriptOf options tree).script {} = some final ∧
        final.made = (screenFigures options units tree).map Figure.made ∧
        Rebuilds units tree.root (screenFigures options units tree) := by
  obtain ⟨locals, run⟩ := execute_scriptOf options units tree
  exact ⟨lines_generate options units tree, _, run, rfl, rebuilds_screenFigures options units tree⟩

end Handoff.Roblox
