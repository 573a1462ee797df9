import Mathlib.Data.List.Nodup
import Mathlib.Order.Monotone.Defs
import Handoff.Proofs.Roblox.Rebuilding
import Handoff.Proofs.Roblox.Settings

set_option autoImplicit false
set_option relaxedAutoImplicit false

/-!
The ranks that a script gives to instances.

The children of a stack get ranks that rise from child to child, whichever of them are drawn; no other instance gets
one.
-/

namespace Handoff.Roblox
open Design

section Settings

theorem given_layoutOrder {order : Option Nat} {node : Node} {w : Widget} (main : mainWidget? order node = some w) :
    given .layoutOrder w.settings = (order.map Value.count).toList := by
  obtain ⟨cls, looks, -, facets, -, rfl⟩ := exists_of_mainWidget main
  rw [given_append, facets.given (by decide), List.append_nil]
  cases order <;> simp [commonSettings]

theorem given_layoutOrder_decoration (node : Node) :
    ∀ w ∈ decorationWidgets node, given .layoutOrder w.settings = [] :=
  fun w member => (facets_decoration node w member).given (by decide)

end Settings

def isStack : Node → Bool
  | .container _ kind _ => ranksChildren kind
  | .leaf _ _ => false

/-- The ranks of the instances that are made for a design. Those of a stack's children rise from child to child, and
nothing outside of stacks has one. -/
structure Ranked (root : Node) (list : List Figure) : Prop where
  rising : ∀ stack ∈ root.located [], isStack stack.2 = true → ∃ rank : ℕ → ℕ, StrictMono rank ∧
    ∀ i, ∀ child ∈ instancesAt list (.main (stack.1 ++ [i])),
      child.value? "LayoutOrder" = some (toString (rank i))
  none_outside : ∀ f ∈ list, f.made.value? "LayoutOrder" ≠ none → ∃ stack ∈ root.located [],
    isStack stack.2 = true ∧ ∃ i, f.part = .main (stack.1 ++ [i])

section Ranks

variable (options : Options) (units : Units) (tree : Tree)

private theorem value?_rank (w : Widget) (holder : Thing) :
    (w.under units holder).value? "LayoutOrder" =
      (given .layoutOrder w.settings).getLast?.map (Value.expression units) :=
  value?_under units w holder .layoutOrder

theorem value?_main {t : Trail} (member : t ∈ tree.root.trails [] []) {i : Instance}
    (own : i ∈ instancesAt (screenFigures options units tree) (.main t.address)) :
    i.value? "LayoutOrder" = (rankOf t).map toString := by
  obtain ⟨holder, main, its, -⟩ := instancesAt_trail options units tree t member
  rw [its] at own
  obtain ⟨w, chosen, rfl⟩ := List.mem_map.mp own
  rw [value?_rank, given_layoutOrder (Option.mem_toList.mp chosen)]
  cases rankOf t <;> rfl

/-- A trail that goes on from a stack has its place there, counted from one, as its rank. -/
theorem rankOf_step {p t : Trail} {i : ℕ} (address : t.address = p.address ++ [i]) (way : t.above = p.way) :
    rankOf t = if isStack p.node then some (i + 1) else none := by
  rw [rankOf, address, way, Trail.way, List.getLast?_concat, List.getLast?_concat]
  cases p.node <;> rfl

private theorem value?_decoration {t : Trail} (member : t ∈ tree.root.trails [] []) {i : Instance}
    (own : i ∈ instancesAt (screenFigures options units tree) (.decoration t.address)) :
    i.value? "LayoutOrder" = none := by
  obtain ⟨holder, main, -, its⟩ := instancesAt_trail options units tree t member
  rw [its] at own
  obtain ⟨w, chosen, rfl⟩ := List.mem_map.mp own
  rw [value?_rank, given_layoutOrder_decoration t.node w chosen]
  rfl

private theorem value?_screen {f : Figure} (member : f ∈ screenFigures options units tree) (screen : f.part = .screen) :
    f.made.value? "LayoutOrder" = none := by
  obtain ⟨i, rest, row, -, -, placed⟩ := (rebuilds_screenFigures options units tree).screen
  rw [row] at member
  rcases List.mem_cons.mp member with rfl | below
  · have first : i = (screenFigure options units).made := congrArg Figure.made (List.cons.inj row).1.symm
    rw [first]
    exact value?_rank units (screenWidget options) playerScreens
  · exact absurd screen (placed f below).not_screen

/-- The trail of an instance that stands for a child of a node goes on from the trail of that node. -/
private theorem trail_of_child {stack : Address × Node} (member : stack ∈ tree.root.located []) {i : ℕ}
    {child : Instance} (own : child ∈ instancesAt (screenFigures options units tree) (.main (stack.1 ++ [i]))) :
    ∃ t ∈ tree.root.trails [] [], t.address = stack.1 ++ [i] ∧
      rankOf t = if isStack stack.2 then some (i + 1) else none := by
  obtain ⟨f, held, -⟩ := List.mem_map.mp own
  obtain ⟨inside, part⟩ := List.mem_filter.mp held
  have part := of_decide_eq_true part
  obtain ⟨t, trail, address⟩ := address?_screenFigures options units tree f inside (by rw [part]; nofun)
  rw [part, Part.address?, Option.some.injEq] at address
  refine ⟨t, trail, address.symm, ?_⟩
  rcases Node.start_or_step_of_mem_trails [] [] tree.root t trail with rfl | ⟨p, above, j, here, way⟩
  · simp at address
  · rw [here, List.append_singleton_inj] at address
    obtain ⟨same, rfl⟩ := address
    have node : stack = (p.address, p.node) := List.inj_on_of_nodup_map (Node.nodup_located [] tree.root) member
      (Node.mem_located above) same
    rw [rankOf_step here way, node]

theorem ranked_screenFigures : Ranked tree.root (screenFigures options units tree) where
  rising stack member ranks := by
    refine ⟨fun i => i + 1, fun i j lt => Nat.succ_lt_succ lt, fun i child own => ?_⟩
    obtain ⟨t, trail, address, rank⟩ := trail_of_child options units tree member own
    rw [value?_main options units tree trail (address ▸ own), rank, if_pos ranks]
    rfl
  none_outside f member ranked := by
    have own : f.made ∈ instancesAt (screenFigures options units tree) f.part :=
      List.mem_map_of_mem (List.mem_filter.mpr ⟨member, decide_eq_true rfl⟩)
    by_cases screen : f.part = .screen
    · exact absurd (value?_screen options units tree member screen) ranked
    obtain ⟨t, trail, address⟩ := address?_screenFigures options units tree f member screen
    cases part : f.part with
    | screen => exact absurd part screen
    | decoration above =>
      rw [part, Part.address?, Option.some.injEq] at address
      rw [part, address] at own
      exact absurd (value?_decoration options units tree trail own) ranked
    | main above =>
      rw [part, Part.address?, Option.some.injEq] at address
      rw [part, address] at own
      rw [value?_main options units tree trail own] at ranked
      rcases Node.start_or_step_of_mem_trails [] [] tree.root t trail with rfl | ⟨p, held, i, here, way⟩
      · exact absurd rfl ranked
      · rw [rankOf_step here way] at ranked
        have stack : isStack p.node = true := by
          by_contra other
          rw [if_neg other] at ranked
          exact ranked rfl
        exact ⟨_, Node.mem_located held, stack, i, by rw [address, here]⟩

end Ranks

end Handoff.Roblox
