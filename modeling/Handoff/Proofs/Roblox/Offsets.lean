import Handoff.Proofs.Decimal.Pixel
import Handoff.Proofs.Design.Position
import Handoff.Proofs.Roblox.Rebuilding
import Handoff.Proofs.Roblox.Settings
import Handoff.Proofs.Text.Lines

set_option autoImplicit false
set_option relaxedAutoImplicit false

/-!
How far the instances of a script are from the corner of the screen.

An instance is as far from the one that holds it as its position says. These offsets are read off the script and added
up along the instances that hold one another.
-/

namespace Handoff.Roblox
open Design

/-- The whole numbers in a text such as `UDim2.new(0,20,0,30)`, which has no share of what holds the instance. -/
def offsets? (value : String) : Option (ℤ × ℤ) :=
  match Text.splitAt ',' value.toList with
  | [lead, x, share, y] =>
    if lead = "UDim2.new(0".toList ∧ share = ['0'] ∧ y.getLast? = some ')' then
      (String.ofList x).toInt?.bind fun x => (String.ofList y.dropLast).toInt?.map fun y => (x, y)
    else none
  | _ => none

namespace Instance

/-- What holds an instance: the last that it was put under. -/
def parent? (i : Instance) : Option Thing :=
  (i.log.filterMap fun
    | .property _ _ => none
    | .parent holder => some holder).getLast?

def position? (i : Instance) : Option (ℤ × ℤ) :=
  (i.value? "Position").bind offsets?

end Instance

/-- The offsets of an instance with the given number, added up from the screen on. -/
inductive FromScreen (made : List Instance) : ℕ → ℤ × ℤ → Prop where
  | screen {n : ℕ} {i : Instance} (found : made[n]? = some i) (screen : i.cls = .screenGui) : FromScreen made n 0
  | under {n k : ℕ} {i : Instance} {own above : ℤ × ℤ} (found : made[n]? = some i) (other : i.cls ≠ .screenGui)
      (position : i.position? = some own) (parent : i.parent? = some (.made k)) (held : FromScreen made k above) :
      FromScreen made n (above + own)

theorem FromScreen.unique {made : List Instance} {n : ℕ} {a b : ℤ × ℤ} (first : FromScreen made n a)
    (second : FromScreen made n b) : a = b := by
  induction first generalizing b with
  | screen found screen =>
    cases second with
    | screen => rfl
    | under found' other =>
      rw [found, Option.some.injEq] at found'
      exact absurd (found' ▸ screen) other
  | under found other position parent _ ih =>
    cases second with
    | screen found' screen =>
      rw [found, Option.some.injEq] at found'
      exact absurd (found' ▸ screen) other
    | under found' _ position' parent' held =>
      obtain rfl : _ = _ := Option.some.inj (found.symm.trans found')
      rw [position, Option.some.injEq] at position'
      rw [parent, Option.some.injEq, Thing.made.injEq] at parent'
      subst position' parent'
      rw [ih held]

section Reading

private theorem comma_not_mem_pixelText (x : Float) : ',' ∉ (pixelText x).toList := by
  intro member
  have mark := mem_pixelText member
  revert mark
  decide

theorem offsets?_expression {x y : Float} {position : ℤ × ℤ} (left : pixelText x = position.1.repr)
    (top : pixelText y = position.2.repr) :
    offsets? ((Value.offsets x y).expression pixelUnits) = some position := by
  have written : (Value.offsets x y).expression pixelUnits =
      "UDim2.new(0," ++ pixelText x ++ ",0," ++ pixelText y ++ ")" := rfl
  have text : ((Value.offsets x y).expression pixelUnits).toList =
      List.intercalate [','] ["UDim2.new(0".toList, (pixelText x).toList, ['0'], (pixelText y).toList ++ [')']] := by
    have lead : "UDim2.new(0,".toList = "UDim2.new(0".toList ++ [','] := by decide
    have share : ",0,".toList = [',', '0', ','] := by decide
    simp only [written, String.toList_append, lead, share, List.append_assoc, List.cons_append, List.nil_append,
      List.intercalate_cons_cons, List.intercalate_singleton]
    rfl
  have parts : Text.splitAt ',' ((Value.offsets x y).expression pixelUnits).toList =
      ["UDim2.new(0".toList, (pixelText x).toList, ['0'], (pixelText y).toList ++ [')']] := by
    rw [text]
    refine Text.splitAt_intercalate (List.cons_ne_nil _ _) ?_
    simp [comma_not_mem_pixelText]
  have reads (n : ℤ) : n.repr.toInt? = some n := Int.toInt?_repr n
  simp only [offsets?, parts, List.getLast?_concat, List.dropLast_concat, String.ofList_toList, left, top, reads]
  rfl

end Reading

theorem Instance.HeldBy.parent? {i : Instance} {holder : Thing} (h : i.HeldBy holder) : i.parent? = some holder := by
  obtain ⟨properties, log⟩ := h
  simp [Instance.parent?, log, List.filterMap_map]

section Mains

variable {order : Option Nat} {node : Node} {w : Widget}

theorem given_position (main : mainWidget? order node = some w) :
    given .position w.settings = [.offsets node.header.positionOrOrigin.x node.header.positionOrOrigin.y] := by
  obtain ⟨cls, looks, -, facets, -, rfl⟩ := exists_of_mainWidget main
  rw [given_append, facets.given (by decide), List.append_nil]
  cases order <;> rfl

private theorem cls_mainWidget (main : mainWidget? order node = some w) : w.cls ≠ .screenGui := by
  obtain ⟨cls, looks, other, -, -, rfl⟩ := exists_of_mainWidget main
  exact other

theorem position?_main (main : mainWidget? order node = some w) {own : ℤ × ℤ} (stands : node.StandsAt own)
    (holder : Thing) : (w.under pixelUnits holder).position? = some own := by
  rw [Instance.position?, show "Position" = Property.label .position from rfl, value?_under, given_position main]
  exact offsets?_expression stands.text_x stands.text_y

end Mains

section Screen

variable {options : Options} {tree : Tree} {t : Trail}

/-- The node of a trail has an instance of its own in the script, if it is drawn. -/
theorem exists_main (member : t ∈ tree.root.trails [] []) (drawn : (mainClass? t.node).isSome = true) :
    ∃ (n : ℕ) (f : Figure), (screenFigures options pixelUnits tree)[n]? = some f ∧ f.part = .main t.address := by
  obtain ⟨order, holder, main, own, -⟩ := instancesAt_screenFigures options pixelUnits tree _ (Node.mem_located member)
  obtain ⟨w, chosen⟩ := exists_mainWidget order drawn
  have made : w.under pixelUnits (.made holder) ∈
      instancesAt (screenFigures options pixelUnits tree) (.main t.address) := by
    rw [own, chosen]
    exact List.mem_singleton_self _
  obtain ⟨f, held, -⟩ := List.mem_map.mp made
  obtain ⟨inside, part⟩ := List.mem_filter.mp held
  obtain ⟨n, found⟩ := List.mem_iff_getElem?.mp inside
  exact ⟨n, f, found, of_decide_eq_true part⟩

private theorem fromScreen_screen {k : ℕ} {g : Figure}
    (found : (screenFigures options pixelUnits tree)[k]? = some g) (screen : g.part = .screen) :
    FromScreen ((screenFigures options pixelUnits tree).map Figure.made) k 0 := by
  obtain ⟨i, rest, row, cls, -, placed⟩ := (rebuilds_screenFigures options pixelUnits tree).screen
  refine .screen (by rw [List.getElem?_map, found]; rfl) ?_
  have inside := List.mem_of_getElem? found
  rw [row] at inside
  rcases List.mem_cons.mp inside with rfl | below
  · exact cls
  · exact absurd screen (placed g below).not_screen

private theorem fromScreen_main (member : t ∈ tree.root.trails [] []) {own above : ℤ × ℤ} (stands : t.node.StandsAt own)
    {n : ℕ} {f : Figure} (found : (screenFigures options pixelUnits tree)[n]? = some f)
    (part : f.part = .main t.address)
    (held : ∀ k g, (screenFigures options pixelUnits tree)[k]? = some g → g.part = (Part.main t.address).holder →
      FromScreen ((screenFigures options pixelUnits tree).map Figure.made) k above) :
    FromScreen ((screenFigures options pixelUnits tree).map Figure.made) n (above + own) := by
  obtain ⟨order, holder, main, its, -⟩ := instancesAt_screenFigures options pixelUnits tree _ (Node.mem_located member)
  obtain ⟨i, rest, row, -, -, placed⟩ := (rebuilds_screenFigures options pixelUnits tree).screen
  have inside := List.mem_of_getElem? found
  have made : f.made ∈ instancesAt (screenFigures options pixelUnits tree) (.main t.address) :=
    List.mem_map_of_mem (List.mem_filter.mpr ⟨inside, decide_eq_true part⟩)
  rw [its, List.mem_map] at made
  obtain ⟨w, chosen, form⟩ := made
  rw [Option.mem_toList] at chosen
  have below : f ∈ rest := by
    rw [row] at inside
    rcases List.mem_cons.mp inside with rfl | inside
    · cases part
    · exact inside
  obtain ⟨-, -, k, g, there, holds, heldBy⟩ := placed f below
  rw [part] at holds
  refine .under (by rw [List.getElem?_map, found]; rfl) ?_ ?_ heldBy.parent? (held k g there holds)
  · rw [← form]
    exact cls_mainWidget chosen
  · rw [← form]
    exact position?_main chosen stands _

/-- Below panels, an instance is as far from the screen as the positions of its node and of those above it add up to. -/
theorem fromScreen_of_stands (options : Options) (tree : Tree) :
    ∀ t ∈ tree.root.trails [] [], ∀ above own, t.Stands above own →
      ∀ n f, (screenFigures options pixelUnits tree)[n]? = some f → f.part = .main t.address →
        FromScreen ((screenFigures options pixelUnits tree).map Figure.made) n (above.sum + own) := by
  refine Node.trails_induction ?_ ?_
  · intro above own stands n f found part
    obtain rfl := List.forall₂_nil_left_iff.mp stands.positions
    exact fromScreen_main (Node.start_mem_trails _ _ _) stands.own found part fun k g => fromScreen_screen
  · intro p member ih t later i address way above own stands n f found part
    obtain ⟨before, last, rfl, parent, -⟩ := stands.parent way
    refine fromScreen_main later stands.own found part fun k g here holds => ?_
    rw [List.sum_append, List.sum_singleton]
    rw [address, holder_child] at holds
    exact ih before last parent k g here holds

end Screen

/-- True of a script whose instances are at certain places: those of the nodes that stand somewhere below panels, at
what `place` makes of the positions above a node and its own. -/
def ShownAt (options : Options) (tree : Tree) (place : List (ℤ × ℤ) → ℤ × ℤ → ℤ × ℤ) : Prop :=
  ∃ final, Machine.execute pixelUnits (scriptOf options tree).script {} = some final ∧
    final.made = (screenFigures options pixelUnits tree).map Figure.made ∧
    ∀ t ∈ tree.root.trails [] [], (mainClass? t.node).isSome = true → ∀ above own, t.Stands above own →
      ∃ (n : ℕ) (f : Figure), (screenFigures options pixelUnits tree)[n]? = some f ∧ f.part = .main t.address ∧
        FromScreen final.made n (place above own)

theorem shownAt_iff (options : Options) (tree : Tree) (place : List (ℤ × ℤ) → ℤ × ℤ → ℤ × ℤ) :
    ShownAt options tree place ↔ ∀ t ∈ tree.root.trails [] [], (mainClass? t.node).isSome = true →
      ∀ above own, t.Stands above own → place above own = above.sum + own := by
  constructor
  · rintro ⟨final, -, made, shown⟩ t member drawn above own stands
    obtain ⟨n, f, found, part, seen⟩ := shown t member drawn above own stands
    rw [made] at seen
    exact seen.unique (fromScreen_of_stands options tree t member above own stands n f found part)
  · intro equal
    obtain ⟨locals, run⟩ := execute_scriptOf options pixelUnits tree
    refine ⟨_, run, rfl, fun t member drawn above own stands => ?_⟩
    obtain ⟨n, f, found, part⟩ := exists_main member drawn
    rw [equal t member drawn above own stands]
    exact ⟨n, f, found, part, fromScreen_of_stands options tree t member above own stands n f found part⟩

end Handoff.Roblox
