import Handoff.Proofs.React.Placement
import Handoff.Proofs.Roblox.Ranks

set_option autoImplicit false
set_option relaxedAutoImplicit false

/-!
Nodes come to their places as the nodes right above them say, in both outputs and at any depth.

A component says it by the classes and the sides of an element, a script by the rank of an instance.
-/

namespace Handoff
open Design

namespace Roblox

/-- A node's rank is its place among the children of a stack, counted from one. -/
theorem rankOf_isChild {t : Trail} {parent : Node} {place : Nat} (child : t.IsChild parent place) :
    rankOf t = if parent.isStack then some (place + 1) else none := by
  have last : t.above.getLast? = some parent := child.held
  rw [rankOf, last, child.address]
  cases parent with
  | leaf header kind => rfl
  | container header kind children => cases kind <;> rfl

theorem rankOf_root {t : Trail} (root : t.parent? = none) : rankOf t = none := by
  have none : t.above.getLast? = none := root
  rw [rankOf, none]

/-- True of an instance that is ranked as the node above its own says: in a stack by the place of its node there,
counted from one, and nowhere else. -/
structure RankedUnder (t : Trail) (i : Instance) : Prop where
  ranked : (i.value? "LayoutOrder").isSome = true ↔ ∃ p ∈ t.parent?, p.isStack = true
  rank : ∀ rank ∈ i.value? "LayoutOrder", ∃ p place, t.IsChild p place ∧ rank = toString (place + 1)

theorem rankedUnder_of_value {root : Node} {t : Trail} (member : t ∈ root.trails [] []) {i : Instance}
    (value : i.value? "LayoutOrder" = (rankOf t).map toString) : RankedUnder t i := by
  cases held : t.parent? with
  | none =>
    rw [rankOf_root held] at value
    refine ⟨?_, ?_⟩
    · rw [value, held]
      exact iff_of_false nofun nofun
    · rw [value]
      exact nofun
  | some p =>
    obtain ⟨place, child⟩ := Node.exists_isChild member held
    rw [rankOf_isChild child] at value
    by_cases stack : p.isStack = true
    · rw [if_pos stack, Option.map_some] at value
      refine ⟨?_, ?_⟩
      · rw [value, held]
        exact iff_of_true rfl ⟨p, rfl, stack⟩
      · rintro rank given
        rw [value, Option.mem_some_iff] at given
        exact ⟨p, place, child, given.symm⟩
    · rw [if_neg stack, Option.map_none] at value
      refine ⟨?_, ?_⟩
      · rw [value, held]
        exact iff_of_false nofun fun ⟨_, same, ranks⟩ => stack (Option.some.inj same ▸ ranks)
      · rw [value]
        exact nofun

/-- True of a script that gives the main instance of every node the rank that the node above says. -/
def RanksByParent (options : Options) (units : Units) (tree : Tree) : Prop :=
  Text.lines (generate options units tree) = (scriptOf options tree).script.flatMap (Chunk.lines units) ++ [""] ∧
    ∃ final, Machine.execute units (scriptOf options tree).script {} = some final ∧
      final.made = (screenFigures options units tree).map Figure.made ∧
      ∀ t ∈ tree.root.trails [] [], (mainClass? t.node).isSome = true →
        ∃ i, instancesAt (screenFigures options units tree) (.main t.address) = [i] ∧ RankedUnder t i

theorem ranksByParent (options : Options) (units : Units) (tree : Tree) : RanksByParent options units tree := by
  obtain ⟨locals, run⟩ := execute_scriptOf options units tree
  refine ⟨lines_generate options units tree, _, run, rfl, fun t member drawn => ?_⟩
  obtain ⟨holder, main, its, -⟩ := instancesAt_trail options units tree t member
  obtain ⟨w, chosen⟩ := exists_mainWidget (rankOf t) drawn
  rw [chosen, Option.toList_some, List.map_singleton] at its
  have value := value?_main options units tree member (its ▸ List.mem_singleton_self _)
  exact ⟨_, its, rankedUnder_of_value member value⟩

end Roblox

/-- Every element of a component has the classes, the offsets and the size that its node and the one right above it call
for, and every main instance of a script has the rank. -/
theorem placed_by_parent (react : React.Options) (roblox : Roblox.Options) (units : Roblox.Units) (tree : Tree) :
    List.Forall₂ (fun t nest => ∃ tag ∈ nest.getLast?, React.PlacedUnder t.parent? t.node tag)
        ((tree.root.trails [] []).filter fun t => React.isKnown t.node)
        (React.Jsx.nestsOf (React.generate react tree)) ∧
      Roblox.RanksByParent roblox units tree :=
  ⟨React.placedUnder_generate react tree, Roblox.ranksByParent roblox units tree⟩

end Handoff
