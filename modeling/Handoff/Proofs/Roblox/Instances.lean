import Mathlib.Data.List.Forall2
import Handoff.Proofs.Roblox.Hierarchy

set_option autoImplicit false
set_option relaxedAutoImplicit false

/-!
The instances of a script, node by node, and what they are given.

Each node that is drawn has one instance of its own, and the decorations that its kind asks for. What they are given can
be read off from the node and its rank among its siblings.
-/

namespace Handoff.Roblox
open Design

/-- What a property has been given last, as it is written in the script. -/
def Instance.value? (i : Instance) (name : String) : Option String :=
  (i.log.filterMap fun
    | .property given value => if given = name then some value else none
    | .parent _ => none).getLast?

/-- The instances that play a part in a design. -/
def instancesAt (list : List Figure) (part : Part) : List Instance :=
  (list.filter fun f => f.part = part).map Figure.made

/-- The main instance of a node, if it has one. -/
def mainWidget? (order : Option Nat) : Node → Option Widget
  | .leaf h kind => leafWidget? h order kind
  | .container h kind _ => some (containerWidget h order kind)

theorem exists_mainWidget (order : Option Nat) {node : Node} (drawn : (mainClass? node).isSome = true) :
    ∃ w, mainWidget? order node = some w := by
  cases node with
  | container h kind children => exact ⟨_, rfl⟩
  | leaf h kind =>
    cases kind with
    | rect | ellipse | text | image => exact ⟨_, rfl⟩
    | line | path | unknown => cases drawn

def decorationWidgets : Node → List Widget
  | .leaf h kind => leafDecorations h kind
  | .container h kind _ => containerDecorations h kind

def Part.address? : Part → Option Address
  | .screen => none
  | .main address | .decoration address => some address

section Values

def Property.all : List Property :=
  [.name, .resetOnSpawn, .zIndexBehavior, .position, .size, .layoutOrder, .backgroundColor, .backgroundTransparency,
    .borderSize, .clipsDescendants, .text, .textColor, .textTransparency, .textSize, .fontFace, .textXAlignment,
    .textWrapped, .image, .scaleType, .imageTransparency, .cornerRadius, .color, .thickness, .transparency,
    .applyStrokeMode, .paddingTop, .paddingRight, .paddingBottom, .paddingLeft, .fillDirection, .padding, .sortOrder,
    .horizontalAlignment, .verticalAlignment, .cellSize, .cellPadding, .fillDirectionMaxCells]

private theorem find?_label (p : Property) : Property.all.find? (fun q => q.label = p.label) = some p := by
  cases p <;> rfl

theorem Property.label_injective : Function.Injective Property.label := by
  intro a b same
  have first := find?_label a
  rw [same, find?_label b, Option.some.injEq] at first
  exact first.symm

/-- What settings give a property, in order. -/
def given (p : Property) (settings : List (Property × Value)) : List Value :=
  settings.filterMap fun s => if s.1 = p then some s.2 else none

@[simp]
theorem given_nil (p : Property) : given p [] = [] :=
  rfl

@[simp]
theorem given_cons (p : Property) (s : Property × Value) (rest : List (Property × Value)) :
    given p (s :: rest) = if s.1 = p then s.2 :: given p rest else given p rest := by
  unfold given
  rw [List.filterMap_cons]
  split <;> simp_all

@[simp]
theorem given_append (p : Property) (first second : List (Property × Value)) :
    given p (first ++ second) = given p first ++ given p second :=
  List.filterMap_append

private theorem filterMap_written (units : Units) (p : Property) (settings : List (Property × Value)) :
    (settings.filterMap fun s => if s.1.label = p.label then some (s.2.expression units) else none) =
      (given p settings).map (Value.expression units) := by
  rw [given, List.map_filterMap]
  refine List.filterMap_congr fun s _ => ?_
  by_cases same : s.1 = p
  · rw [if_pos same, if_pos (congrArg _ same), Option.map_some]
  · rw [if_neg same, if_neg (fun equal => same (Property.label_injective equal)), Option.map_none]

/-- What the instance of a widget has been given is written as its last setting says. -/
theorem value?_under (units : Units) (w : Widget) (holder : Thing) (p : Property) :
    (w.under units holder).value? p.label = (given p w.settings).getLast?.map (Value.expression units) := by
  rw [← List.getLast?_map, ← filterMap_written]
  simp only [Instance.value?, Widget.under, Widget.written, List.filterMap_append, List.filterMap_map]
  rw [List.filterMap_cons_none rfl, List.filterMap_nil, List.append_nil]
  rfl

end Values

/-- The rank that a node has among its siblings in a stack, counted from one. -/
def rankOf (t : Trail) : Option Nat :=
  match t.above.getLast?, t.address.getLast? with
  | some (.container _ kind _), some place => if ranksChildren kind then some (place + 1) else none
  | _, _ => none

private theorem rankOf_child (above : List Node) (h : Header) (kind : Container) (children : List Node)
    (address : Address) (place : Nat) (node : Node) :
    rankOf ⟨address ++ [place], above ++ [.container h kind children], node⟩ =
      if ranksChildren kind then some (place + 1) else none := by
  simp [rankOf]

section Groups

variable (units : Units)

/-- The instances that belong to a node: its own one, under the one that holds it, and its decorations under that. -/
def IsGroup (t : Trail) (group : List Figure) : Prop :=
  ∃ holder main, group =
    (mainWidget? (rankOf t) t.node).toList.map (fun w => ⟨.main t.address, w.under units (.made holder)⟩)
      ++ decorationFigures units main t.address (decorationWidgets t.node)

private theorem isGroup_leaf (holder : Nat) (last : Nat) (t : Trail) {h : Header} {kind : Leaf}
    (leaf : t.node = .leaf h kind) :
    IsGroup units t (figures units holder (rankOf t) last t.address (.leaf h kind)) := by
  refine ⟨holder, last + 1, ?_⟩
  rw [leaf, figures, mainWidget?, decorationWidgets]
  cases kind <;> rfl

mutual

/-- The figures of a node and of those below it are their groups, in the order of visits. -/
theorem groups_figures (holder last : Nat) (above : List Node) (address : Address) (node : Node) :
    ∃ groups, figures units holder (rankOf ⟨address, above, node⟩) last address node = groups.flatten ∧
      List.Forall₂ (IsGroup units) (node.trails above address) groups := by
  cases node with
  | leaf h kind =>
    exact ⟨[_], (List.append_nil _).symm,
      .cons (isGroup_leaf units holder last ⟨address, above, .leaf h kind⟩ rfl) .nil⟩
  | container h kind children =>
    obtain ⟨groups, flat, all⟩ := groups_figuresAll (last + 1) (last + 1 + (containerDecorations h kind).length) above
      h kind children address 0 children
    refine ⟨_ :: groups, ?_, .cons ⟨holder, last + 1, rfl⟩ all⟩
    rw [figures, flat]
    rfl

theorem groups_figuresAll (holder last : Nat) (above : List Node) (h : Header) (kind : Container) (children : List Node)
    (address : Address) (place : Nat) (nodes : List Node) :
    ∃ groups, figuresAll units holder (ranksChildren kind) (place + 1) last address place nodes = groups.flatten ∧
      List.Forall₂ (IsGroup units)
        (Node.trailsAll (above ++ [.container h kind children]) address place nodes) groups := by
  cases nodes with
  | nil => exact ⟨[], rfl, .nil⟩
  | cons node rest =>
    obtain ⟨first, here, own⟩ := groups_figures holder last (above ++ [.container h kind children])
      (address ++ [place]) node
    rw [rankOf_child] at here
    obtain ⟨others, after, all⟩ := groups_figuresAll holder (last + first.flatten.length) above h kind children address
      (place + 1) rest
    refine ⟨first ++ others, ?_, List.rel_append own all⟩
    rw [figuresAll, here, after, List.flatten_append]

end

variable {units}

private theorem IsGroup.address?_eq {t : Trail} {group : List Figure} (own : IsGroup units t group) :
    ∀ f ∈ group, f.part.address? = some t.address := by
  obtain ⟨holder, main, rfl⟩ := own
  intro f member
  rcases List.mem_append.mp member with member | member
  · obtain ⟨w, -, rfl⟩ := List.mem_map.mp member
    rfl
  · obtain ⟨w, -, rfl⟩ := List.mem_map.mp member
    rfl

private theorem instancesAt_append (first second : List Figure) (part : Part) :
    instancesAt (first ++ second) part = instancesAt first part ++ instancesAt second part := by
  rw [instancesAt, List.filter_append, List.map_append]
  rfl

private theorem instancesAt_eq_nil {list : List Figure} {part : Part}
    (elsewhere : ∀ f ∈ list, f.part.address? ≠ part.address?) : instancesAt list part = [] := by
  rw [instancesAt, List.filter_eq_nil_iff.mpr, List.map_nil]
  intro f member same
  exact elsewhere f member (congrArg Part.address? (of_decide_eq_true same))

private theorem address?_of_mem_flatten {trails : List Trail} {groups : List (List Figure)}
    (all : List.Forall₂ (IsGroup units) trails groups) :
    ∀ f ∈ groups.flatten, ∃ t ∈ trails, f.part.address? = some t.address := by
  induction all with
  | nil => exact fun f member => absurd member List.not_mem_nil
  | @cons first _ _ _ own _ ih =>
    intro f member
    rcases List.mem_append.mp member with member | member
    · exact ⟨first, List.mem_cons_self, own.address?_eq f member⟩
    · obtain ⟨t, held, same⟩ := ih f member
      exact ⟨t, List.mem_cons_of_mem _ held, same⟩

private theorem instancesAt_flatten {trails : List Trail} {groups : List (List Figure)}
    (all : List.Forall₂ (IsGroup units) trails groups) (apart : (trails.map Trail.address).Nodup) :
    ∀ t ∈ trails, ∃ group, IsGroup units t group ∧
      ∀ part, part.address? = some t.address → instancesAt groups.flatten part = instancesAt group part := by
  -- Groups belong to different addresses: at the address of one, the others have no instance.
  induction all with
  | nil => exact fun t member => absurd member List.not_mem_nil
  | @cons first group trails groups own others ih =>
    rw [List.map_cons, List.nodup_cons] at apart
    intro t member
    rcases List.mem_cons.mp member with rfl | member
    · refine ⟨group, own, fun part here => ?_⟩
      have elsewhere : ∀ f ∈ groups.flatten, f.part.address? ≠ part.address? := by
        intro f inner same
        obtain ⟨other, held, belongs⟩ := address?_of_mem_flatten others f inner
        rw [belongs, here, Option.some.injEq] at same
        exact apart.1 (same ▸ List.mem_map_of_mem held)
      rw [List.flatten_cons, instancesAt_append, instancesAt_eq_nil elsewhere, List.append_nil]
    · obtain ⟨found, its, same⟩ := ih apart.2 t member
      refine ⟨found, its, fun part here => ?_⟩
      have elsewhere : ∀ f ∈ group, f.part.address? ≠ part.address? := by
        intro f inner equal
        rw [own.address?_eq f inner, here, Option.some.injEq] at equal
        exact apart.1 (equal ▸ List.mem_map_of_mem member)
      rw [List.flatten_cons, instancesAt_append, instancesAt_eq_nil elsewhere, List.nil_append]
      exact same part here

private theorem instancesAt_main_group (holder main : Nat) (t : Trail) :
    instancesAt ((mainWidget? (rankOf t) t.node).toList.map (fun w => ⟨.main t.address, w.under units (.made holder)⟩)
        ++ decorationFigures units main t.address (decorationWidgets t.node)) (.main t.address) =
      (mainWidget? (rankOf t) t.node).toList.map (·.under units (.made holder)) := by
  rw [instancesAt_append]
  cases mainWidget? (rankOf t) t.node <;> simp [instancesAt, decorationFigures, List.filter_map, Function.comp_def]

private theorem instancesAt_decoration_group (holder main : Nat) (t : Trail) :
    instancesAt ((mainWidget? (rankOf t) t.node).toList.map (fun w => ⟨.main t.address, w.under units (.made holder)⟩)
        ++ decorationFigures units main t.address (decorationWidgets t.node)) (.decoration t.address) =
      (decorationWidgets t.node).map (·.under units (.made main)) := by
  have all (ws : List Widget) : instancesAt (decorationFigures units main t.address ws) (.decoration t.address) =
      ws.map (·.under units (.made main)) := by
    rw [instancesAt, List.filter_eq_self.mpr, decorationFigures, List.map_map]
    · rfl
    · intro f member
      obtain ⟨w, -, rfl⟩ := List.mem_map.mp member
      exact decide_eq_true rfl
  rw [instancesAt_append, all]
  cases mainWidget? (rankOf t) t.node <;> simp [instancesAt]

end Groups

section Screen

variable (options : Options) (units : Units) (tree : Tree)

private theorem groups_root :
    ∃ groups, screenFigures options units tree = screenFigure options units :: groups.flatten ∧
      List.Forall₂ (IsGroup units) (tree.root.trails [] []) groups := by
  obtain ⟨groups, flat, all⟩ := groups_figures units 0 0 [] [] tree.root
  refine ⟨groups, ?_, all⟩
  rw [← flat]
  rfl

theorem address?_screenFigures :
    ∀ f ∈ screenFigures options units tree, f.part ≠ .screen →
      ∃ t ∈ tree.root.trails [] [], f.part.address? = some t.address := by
  intro f member other
  obtain ⟨groups, flat, all⟩ := groups_root options units tree
  rw [flat] at member
  rcases List.mem_cons.mp member with rfl | member
  · exact absurd rfl other
  · exact address?_of_mem_flatten all f member

/-- The instances of a node in the script of a design: its own one, with its rank, and its decorations. -/
theorem instancesAt_trail :
    ∀ t ∈ tree.root.trails [] [], ∃ holder main,
      instancesAt (screenFigures options units tree) (.main t.address) =
        (mainWidget? (rankOf t) t.node).toList.map (·.under units (.made holder)) ∧
      instancesAt (screenFigures options units tree) (.decoration t.address) =
        (decorationWidgets t.node).map (·.under units (.made main)) := by
  intro t member
  obtain ⟨groups, flat, all⟩ := groups_root options units tree
  obtain ⟨_, ⟨holder, main, rfl⟩, own⟩ := instancesAt_flatten all (Node.nodup_trails tree.root) t member
  have below (part : Part) (here : part.address? = some t.address) :
      instancesAt (screenFigures options units tree) part = instancesAt groups.flatten part := by
    have other : (screenFigure options units).part ≠ part := by
      rintro rfl
      cases here
    rw [flat, instancesAt, List.filter_cons_of_neg (by simpa using other)]
    rfl
  refine ⟨holder, main, ?_, ?_⟩
  · rw [below _ rfl, own _ rfl, instancesAt_main_group]
  · rw [below _ rfl, own _ rfl, instancesAt_decoration_group]

/-- The instances of a node by its address: its own one, whatever its rank, and its decorations. -/
theorem instancesAt_screenFigures :
    ∀ entry ∈ tree.root.located [], ∃ order holder main,
      instancesAt (screenFigures options units tree) (.main entry.1) =
        (mainWidget? order entry.2).toList.map (·.under units (.made holder)) ∧
      instancesAt (screenFigures options units tree) (.decoration entry.1) =
        (decorationWidgets entry.2).map (·.under units (.made main)) := by
  intro entry member
  rw [← Node.map_trails []] at member
  obtain ⟨t, held, rfl⟩ := List.mem_map.mp member
  exact ⟨rankOf t, instancesAt_trail options units tree t held⟩

end Screen

end Handoff.Roblox
