import Handoff.Proofs.Roblox.Instances

set_option autoImplicit false
set_option relaxedAutoImplicit false

/-!
The statements of a script, and what holds of all of them.

A script is made of the statements of widgets. What holds of each widget's statements holds of those that are drawn for
a design, whatever the parents, ranks and numbers.
-/

namespace Handoff.Roblox
open Design

theorem statements_append (first second : List Chunk) :
    statements (first ++ second) = statements first ++ statements second :=
  List.flatMap_append

theorem statements_map_statement (list : List Statement) : statements (list.map .statement) = list := by
  induction list with
  | nil => rfl
  | cons s rest ih =>
    rw [statements] at ih ⊢
    rw [List.map_cons, List.flatMap_cons, ih]
    rfl

theorem statements_map_block (bodies : List (List Statement)) : statements (bodies.map .block) = bodies.flatten := by
  rw [statements, List.flatMap_map, ← List.flatMap_id]
  rfl

/-- What holds of the statements of every instance that nodes lead to. -/
structure HoldsOfWidgets (P : Statement → Prop) : Prop where
  fresh : ∀ v cls, P (.declare v (.fresh cls))
  attach : ∀ v parent, P (.attach v parent)
  main : ∀ order node, ∀ w ∈ mainWidget? order node, ∀ s ∈ w.settings, ∀ v, P (.set v s.1 s.2)
  decoration : ∀ node, ∀ w ∈ decorationWidgets node, ∀ s ∈ w.settings, ∀ v, P (.set v s.1 s.2)

namespace HoldsOfWidgets

variable {P : Statement → Prop}

theorem widget (holds : HoldsOfWidgets P) {w : Widget} (settings : ∀ s ∈ w.settings, ∀ v, P (.set v s.1 s.2))
    (v parent : Variable) : ∀ s ∈ w.statements v parent, P s := by
  have inner : ∀ s ∈ w.settings.map fun s => Statement.set v s.1 s.2, P s := by
    intro s member
    obtain ⟨setting, held, rfl⟩ := List.mem_map.mp member
    exact settings setting held v
  exact List.forall_mem_append.mpr
    ⟨List.forall_mem_cons.mpr ⟨holds.fresh v w.cls, inner⟩, List.forall_mem_singleton.mpr (holds.attach v parent)⟩

private theorem decorate (holds : HoldsOfWidgets P) (target : Variable) (last : Nat) {ws : List Widget}
    (settings : ∀ w ∈ ws, ∀ s ∈ w.settings, ∀ v, P (.set v s.1 s.2)) :
    ∀ s ∈ (decorate target last ws).flatten, P s := by
  induction ws generalizing last with
  | nil => simp [Roblox.decorate]
  | cons w ws ih =>
    obtain ⟨first, others⟩ := List.forall_mem_cons.mp settings
    rw [Roblox.decorate, List.flatten_cons]
    exact List.forall_mem_append.mpr ⟨holds.widget first _ _, ih (last + 1) others⟩

mutual

theorem draw (holds : HoldsOfWidgets P) (parent : Variable) (order : Option Nat) (last : Nat) (node : Node) :
    ∀ s ∈ statements (draw parent order last node).script, P s := by
  cases node with
  | leaf header kind =>
    rw [Roblox.draw]
    cases main : leafWidget? header order kind with
    | none => simp [statements]
    | some w =>
      have own := holds.main order (.leaf header kind) w main
      have all := List.forall_mem_append.mpr
        ⟨holds.widget own (.numbered w.cls (last + 1)) parent,
          holds.decorate (.numbered w.cls (last + 1)) (last + 1) (holds.decoration (.leaf header kind))⟩
      simpa [statements, decorationWidgets] using all
  | container header kind children =>
    rw [Roblox.draw, statements_append, statements_append, statements_map_statement, statements_map_block]
    exact List.forall_mem_append.mpr ⟨List.forall_mem_append.mpr
      ⟨holds.widget (holds.main order (.container header kind children) _ rfl) _ _,
        holds.decorate _ _ (holds.decoration (.container header kind children))⟩,
      holds.drawAll _ _ _ _ children⟩

theorem drawAll (holds : HoldsOfWidgets P) (parent : Variable) (ranked : Bool) (rank last : Nat)
    (nodes : List Node) :
    ∀ s ∈ statements (drawAll parent ranked rank last nodes).script, P s := by
  cases nodes with
  | nil => simp [Roblox.drawAll, statements]
  | cons node rest =>
    rw [Roblox.drawAll, statements_append]
    exact List.forall_mem_append.mpr ⟨holds.draw _ _ _ node, holds.drawAll _ _ _ _ rest⟩

end

end HoldsOfWidgets

end Handoff.Roblox
