import Handoff.Proofs.Design.Preorder
import Handoff.Proofs.Roblox.Machine

set_option autoImplicit false
set_option relaxedAutoImplicit false

/-!
Running the script of a design makes the instances of its nodes, put together as the nodes are.

`figures` says which instances a node leads to, each with the part that it plays in the design. Running what is
drawn for the node makes exactly these.
-/

namespace Handoff.Roblox
open Design

/-- The settings of a widget as they are written in a script. -/
def Widget.written (units : Units) (w : Widget) : List Assignment :=
  w.settings.map fun s => .property s.1.label (s.2.expression units)

def Widget.under (units : Units) (w : Widget) (holder : Thing) : Instance :=
  ⟨w.cls, w.written units ++ [.parent holder]⟩

/-- The part of an instance in a design. -/
inductive Part where
  | screen
  /-- The instance of the node at an address. -/
  | main (address : Address)
  /-- A decoration of the node at an address. -/
  | decoration (address : Address)
  deriving DecidableEq, Repr

/-- The part that holds another one: a node is held by the node above it, the root by the screen, a decoration by
its node. -/
def Part.holder : Part → Part
  | .screen => .screen
  | .main [] => .screen
  | .main (place :: rest) => .main (place :: rest).dropLast
  | .decoration address => .main address

structure Figure where
  part : Part
  made : Instance

/-- The decorations of a node whose instance has a number. -/
def decorationFigures (units : Units) (main : Nat) (address : Address) (ws : List Widget) : List Figure :=
  ws.map fun w => ⟨.decoration address, w.under units (.made main)⟩

mutual

/-- The instances for a node under the instance `parent`, the first of which has the number `last + 1`. -/
def figures (units : Units) (parent : Nat) (order : Option Nat) (last : Nat) (address : Address) :
    Node → List Figure
  | .leaf header kind =>
    match leafWidget? header order kind with
    | none => []
    | some w =>
      ⟨.main address, w.under units (.made parent)⟩
        :: decorationFigures units (last + 1) address (leafDecorations header kind)
  | .container header kind children =>
    let decorations := containerDecorations header kind
    ⟨.main address, (containerWidget header order kind).under units (.made parent)⟩
      :: decorationFigures units (last + 1) address decorations
      ++ figuresAll units (last + 1) (ranksChildren kind) 1 (last + 1 + decorations.length) address 0 children

/-- The instances for siblings, the first of which has the given rank and place. -/
def figuresAll (units : Units) (parent : Nat) (ranked : Bool) (rank last : Nat) (above : Address)
    (place : Nat) : List Node → List Figure
  | [] => []
  | node :: rest =>
    let here := figures units parent (if ranked then some rank else none) last (above ++ [place]) node
    here ++ figuresAll units parent ranked (rank + 1) (last + here.length) above (place + 1) rest

end

section Simulation

variable (units : Units)

private theorem lookup_other {name other : String} (h : name ≠ other) (thing : Thing)
    (locals : Entries Thing) :
    List.lookup name ((other, thing) :: locals) = List.lookup name locals := by
  rw [List.lookup_cons, beq_false_of_ne h]

private theorem modify_last {α : Type} (list : List α) (a : α) (f : α → α) :
    (list ++ [a]).modify list.length f = list ++ [f a] := by
  induction list with
  | nil => rfl
  | cons b rest ih => simp [List.modify_succ_cons, ih]

private theorem assign_last (v : Variable) (locals : Entries Thing) (made : List Instance) (i : Instance)
    (a : Assignment) (h : List.lookup v.name locals = some (.made made.length)) :
    Machine.assign ⟨locals, made ++ [i]⟩ v a = some ⟨locals, made ++ [⟨i.cls, i.log ++ [a]⟩]⟩ := by
  simp only [Machine.assign, Machine.resolve?, h, modify_last]

private theorem run_settings (v : Variable) (locals : Entries Thing) (made : List Instance) (cls : Class)
    (log : List Assignment) (settings : List (Property × Value))
    (h : List.lookup v.name locals = some (.made made.length)) :
    Machine.run units (settings.map fun s => .set v s.1 s.2) ⟨locals, made ++ [⟨cls, log⟩]⟩ =
      some ⟨locals, made ++ [⟨cls, log ++ (Widget.mk cls settings).written units⟩]⟩ := by
  induction settings generalizing log with
  | nil => simp [Machine.run, Widget.written]
  | cons s rest ih =>
    simp only [List.map_cons, Machine.run, Machine.step]
    rw [assign_last v locals made ⟨cls, log⟩ _ h, Option.bind_some, ih]
    simp [Widget.written]

/-- A widget's statements make its instance, as the last one, and leave its local in scope. -/
theorem run_widget (w : Widget) (v parent : Variable) (m : Machine) (holder : Thing)
    (held : m.resolve? parent = some holder) (other : parent.name ≠ v.name) :
    Machine.run units (w.statements v parent) m =
      some ⟨(v.name, .made m.made.length) :: m.locals, m.made ++ [w.under units holder]⟩ := by
  obtain ⟨locals, made⟩ := m
  obtain ⟨cls, settings⟩ := w
  have self : List.lookup v.name ((v.name, .made made.length) :: locals) = some (.made made.length) :=
    List.lookup_cons_self
  have above : List.lookup parent.name ((v.name, .made made.length) :: locals) = some holder := by
    rw [lookup_other other]
    exact held
  simp only [Widget.statements, List.cons_append, Machine.run, Machine.step, Option.bind_some]
  rw [Machine.run_append, run_settings units v _ made cls [] settings self, Option.bind_some]
  simp only [Machine.run, Machine.step, Machine.resolve?, above, Option.bind_some]
  rw [assign_last v _ made _ _ self]
  rfl

/-- True of the names that a script has given out when `last` is the last of its numbers. -/
def Variable.Given (last : Nat) : Variable → Prop
  | .numbered _ n => n ≤ last
  | _ => True

theorem Variable.Given.name_ne {v : Variable} {last n : Nat} (given : v.Given last)
    (later : last < n) (cls : Class) : v.name ≠ (Variable.numbered cls n).name := by
  intro same
  obtain rfl := Variable.name_injective same
  simp only [Variable.Given] at given
  omega

theorem Variable.Given.mono {v : Variable} {last later : Nat} (given : v.Given last)
    (le : last ≤ later) : v.Given later := by
  cases v with
  | numbered cls n => exact Nat.le_trans given le
  | _ => trivial

private theorem run_decorate (target : Variable) (main last : Nat) (address : Address) (ws : List Widget)
    (m : Machine) (held : m.resolve? target = some (.made main)) (given : target.Given last) :
    ∃ inner, Machine.run units (decorate target last ws).flatten m =
      some ⟨inner, m.made ++ (decorationFigures units main address ws).map Figure.made⟩ := by
  induction ws generalizing last m with
  | nil => exact ⟨m.locals, by simp [decorate, decorationFigures, Machine.run]⟩
  | cons w ws ih =>
    have other := given.name_ne (Nat.lt_succ_self last) w.cls
    have first := run_widget units w (.numbered w.cls (last + 1)) target m (.made main) held other
    obtain ⟨inner, rest⟩ := ih (last + 1) ⟨_, m.made ++ [w.under units (.made main)]⟩
      ((lookup_other other _ _).trans held) (given.mono (Nat.le_succ last))
    refine ⟨inner, ?_⟩
    rw [decorate, List.flatten_cons, Machine.run_append, first, Option.bind_some, rest]
    simp [decorationFigures, List.append_assoc]

private theorem execute_decorate (target : Variable) (main last : Nat) (address : Address) (ws : List Widget)
    (m : Machine) (held : m.resolve? target = some (.made main)) (given : target.Given last) :
    Machine.execute units ((decorate target last ws).map Chunk.block) m =
      some ⟨m.locals, m.made ++ (decorationFigures units main address ws).map Figure.made⟩ := by
  induction ws generalizing last m with
  | nil => simp [decorate, decorationFigures, Machine.execute]
  | cons w ws ih =>
    have other := given.name_ne (Nat.lt_succ_self last) w.cls
    have first := run_widget units w (.numbered w.cls (last + 1)) target m (.made main) held other
    have rest := ih (last + 1) ⟨m.locals, m.made ++ [w.under units (.made main)]⟩ held
      (given.mono (Nat.le_succ last))
    rw [decorate, List.map_cons, Machine.execute, first, Option.bind_some, rest]
    simp [decorationFigures, List.append_assoc]

/-- Running a script makes the instances of figures, and adds locals with numbers after `last` only. -/
def Makes (script : List Chunk) (last : Nat) (m : Machine) (list : List Figure) : Prop :=
  ∃ inner : Entries Thing,
    (∀ entry ∈ inner, ∃ cls n, last < n ∧ entry.1 = (Variable.numbered cls n).name) ∧
      Machine.execute units script m = some ⟨inner ++ m.locals, m.made ++ list.map Figure.made⟩

private theorem lookup_append_later {v : Variable} {last : Nat} (given : v.Given last)
    (inner locals : Entries Thing)
    (later : ∀ entry ∈ inner, ∃ cls n, last < n ∧ entry.1 = (Variable.numbered cls n).name) :
    List.lookup v.name (inner ++ locals) = List.lookup v.name locals := by
  induction inner with
  | nil => rfl
  | cons entry rest ih =>
    obtain ⟨key, thing⟩ := entry
    obtain ⟨cls, n, number, rfl⟩ := later (key, thing) List.mem_cons_self
    rw [List.cons_append, lookup_other (given.name_ne number cls)]
    exact ih fun e he => later e (List.mem_cons_of_mem _ he)

theorem length_decorationFigures (main : Nat) (address : Address) (ws : List Widget) :
    (decorationFigures units main address ws).length = ws.length := by
  simp [decorationFigures]

mutual

theorem draw_last (parent : Variable) (holder : Nat) (order : Option Nat) (last : Nat) (address : Address)
    (node : Node) :
    (draw parent order last node).last = last + (figures units holder order last address node).length := by
  cases node with
  | leaf header kind =>
    rw [draw, figures]
    cases leafWidget? header order kind with
    | none => rfl
    | some w =>
      simp only [List.length_cons, length_decorationFigures]
      omega
  | container header kind children =>
    have below := drawAll_last (.numbered (containerWidget header order kind).cls (last + 1)) (last + 1)
      (ranksChildren kind) 1 (last + 1 + (containerDecorations header kind).length) address 0 children
    rw [draw, figures]
    simp only [List.cons_append, List.length_cons, List.length_append, length_decorationFigures, below]
    omega

theorem drawAll_last (parent : Variable) (holder : Nat) (ranked : Bool) (rank last : Nat) (above : Address)
    (place : Nat) (nodes : List Node) :
    (drawAll parent ranked rank last nodes).last =
      last + (figuresAll units holder ranked rank last above place nodes).length := by
  cases nodes with
  | nil => rfl
  | cons node rest =>
    have here := draw_last parent holder (if ranked then some rank else none) last (above ++ [place]) node
    have after := drawAll_last parent holder ranked (rank + 1)
      (draw parent (if ranked then some rank else none) last node).last above (place + 1) rest
    simp only [drawAll, figuresAll, List.length_append]
    rw [after, here]
    omega

end

private theorem makes_leaf (parent : Variable) (holder : Nat) (order : Option Nat) (last : Nat)
    (address : Address) (header : Header) (kind : Leaf) (m : Machine)
    (held : m.resolve? parent = some (.made holder)) (given : parent.Given last)
    (count : m.made.length = last + 1) :
    Makes units (draw parent order last (.leaf header kind)).script last m
      (figures units holder order last address (.leaf header kind)) := by
  refine ⟨[], by simp, ?_⟩
  rw [draw, figures]
  cases leafWidget? header order kind with
  | none => simp [Machine.execute]
  | some w =>
    -- The block opens with the main instance, which the decorations are then put under.
    have main := run_widget units w (.numbered w.cls (last + 1)) parent m (.made holder) held
      (given.name_ne (Nat.lt_succ_self last) w.cls)
    obtain ⟨inner, rest⟩ := run_decorate units (.numbered w.cls (last + 1)) (last + 1) (last + 1) address
      (leafDecorations header kind)
      ⟨((Variable.numbered w.cls (last + 1)).name, .made m.made.length) :: m.locals,
        m.made ++ [w.under units (.made holder)]⟩
      (by rw [Machine.resolve?, List.lookup_cons_self, count]) (Nat.le_refl _)
    simp only [Machine.execute]
    rw [Machine.run_append, main, Option.bind_some, rest]
    simp [List.append_assoc]

mutual

theorem makes_figures (parent : Variable) (holder : Nat) (order : Option Nat) (last : Nat)
    (address : Address) (node : Node) (m : Machine) (held : m.resolve? parent = some (.made holder))
    (given : parent.Given last) (count : m.made.length = last + 1) :
    Makes units (draw parent order last node).script last m
      (figures units holder order last address node) := by
  cases node with
  | leaf header kind => exact makes_leaf units parent holder order last address header kind m held given count
  | container header kind children =>
    let w := containerWidget header order kind
    let v := Variable.numbered w.cls (last + 1)
    let decorations := containerDecorations header kind
    have other := given.name_ne (Nat.lt_succ_self last) w.cls
    have main := run_widget units w v parent m (.made holder) held other
    have named : List.lookup v.name ((v.name, .made m.made.length) :: m.locals) = some (.made (last + 1)) := by
      rw [List.lookup_cons_self, count]
    have adorned := execute_decorate units v (last + 1) (last + 1) address decorations
      ⟨(v.name, .made m.made.length) :: m.locals, m.made ++ [w.under units (.made holder)]⟩ named
      (Nat.le_refl _)
    obtain ⟨inner, later, below⟩ := makes_figuresAll v (last + 1) (ranksChildren kind) 1
      (last + 1 + decorations.length) address 0 children
      ⟨(v.name, .made m.made.length) :: m.locals, m.made ++ [w.under units (.made holder)]
        ++ (decorationFigures units (last + 1) address decorations).map Figure.made⟩
      named (Nat.le_add_right _ _)
      (by simp [count, length_decorationFigures]; omega)
    refine ⟨inner ++ [(v.name, .made m.made.length)], ?_, ?_⟩
    · intro entry member
      rcases List.mem_append.mp member with member | member
      · obtain ⟨cls, n, number, name⟩ := later entry member
        exact ⟨cls, n, by omega, name⟩
      · obtain rfl := List.mem_singleton.mp member
        exact ⟨w.cls, last + 1, Nat.lt_succ_self last, rfl⟩
    · rw [draw, figures]
      rw [Machine.execute_append, Machine.execute_append, Machine.execute_statements, main, Option.bind_some,
        adorned, Option.bind_some, below]
      simp [w, decorations, List.append_assoc]

theorem makes_figuresAll (parent : Variable) (holder : Nat) (ranked : Bool) (rank last : Nat)
    (above : Address) (place : Nat) (nodes : List Node) (m : Machine)
    (held : m.resolve? parent = some (.made holder)) (given : parent.Given last)
    (count : m.made.length = last + 1) :
    Makes units (drawAll parent ranked rank last nodes).script last m
      (figuresAll units holder ranked rank last above place nodes) := by
  cases nodes with
  | nil => exact ⟨[], by simp, by simp [drawAll, figuresAll, Machine.execute]⟩
  | cons node rest =>
    let order := if ranked then some rank else none
    have numbers := draw_last units parent holder order last (above ++ [place]) node
    obtain ⟨inner, later, here⟩ := makes_figures parent holder order last (above ++ [place]) node m held
      given count
    obtain ⟨outer, latest, after⟩ := makes_figuresAll parent holder ranked (rank + 1)
      (draw parent order last node).last above (place + 1) rest
      ⟨inner ++ m.locals, m.made ++ (figures units holder order last (above ++ [place]) node).map Figure.made⟩
      ((lookup_append_later given inner m.locals later).trans held)
      (given.mono (by omega)) (by simp [count, numbers]; omega)
    refine ⟨outer ++ inner, ?_, ?_⟩
    · intro entry member
      rcases List.mem_append.mp member with member | member
      · obtain ⟨cls, n, number, name⟩ := latest entry member
        exact ⟨cls, n, by omega, name⟩
      · exact later entry member
    · simp only [drawAll, figuresAll]
      rw [Machine.execute_append, here, Option.bind_some, after]
      simp [order, numbers, List.append_assoc]

end

end Simulation

/-- The class of the instance that stands for a node, for the nodes that have one. -/
def mainClass? : Node → Option Class
  | .container _ _ _ => some .frame
  | .leaf _ (.rect _) => some .frame
  | .leaf _ (.ellipse _) => some .frame
  | .leaf _ (.text _) => some .textLabel
  | .leaf _ (.image _) => some .imageLabel
  | .leaf _ (.line _) => none
  | .leaf _ (.path _ _) => none
  | .leaf _ (.unknown _) => none

/-- The player's screens, among which a script puts its own. -/
def playerScreens : Thing :=
  .child (.member (.service "Players") "LocalPlayer") "PlayerGui"

def screenFigure (options : Options) (units : Units) : Figure :=
  ⟨.screen, (screenWidget options).under units playerScreens⟩

theorem execute_preamble (options : Options) (units : Units) :
    ∃ locals, Machine.execute units (preamble options) {} = some ⟨locals, [(screenFigure options units).made]⟩ ∧
      List.lookup Variable.screenGui.name locals = some (.made 0) := by
  let found : Machine :=
    ((Machine.bind {} .players (.service "Players")).bind .player
      (.member (.service "Players") "LocalPlayer")).bind .playerGui playerScreens
  have screen := run_widget units (screenWidget options) .screenGui .playerGui found playerScreens (by decide)
    (by decide)
  refine ⟨(Variable.screenGui.name, .made 0) :: found.locals, ?_, List.lookup_cons_self⟩
  rw [preamble, Machine.execute_statements, Machine.run_append]
  exact screen

/-- The screen and what stands on it. -/
def screenFigures (options : Options) (units : Units) (tree : Tree) : List Figure :=
  screenFigure options units :: figures units 0 none 0 [] tree.root

theorem execute_scriptOf (options : Options) (units : Units) (tree : Tree) :
    ∃ locals, Machine.execute units (scriptOf options tree).script {} =
      some ⟨locals, (screenFigures options units tree).map Figure.made⟩ := by
  obtain ⟨locals, opening, named⟩ := execute_preamble options units
  obtain ⟨inner, -, drawing⟩ := makes_figures units .screenGui 0 none 0 [] tree.root
    ⟨locals, [(screenFigure options units).made]⟩ named trivial rfl
  refine ⟨inner ++ locals, ?_⟩
  rw [scriptOf, Machine.execute_append, opening, Option.bind_some, drawing]
  rfl

end Handoff.Roblox
