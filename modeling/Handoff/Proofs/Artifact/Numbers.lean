import Handoff.Proofs.Decimal.Short
import Handoff.Proofs.React.Offsets
import Handoff.Proofs.Roblox.Units

set_option autoImplicit false
set_option relaxedAutoImplicit false

/-!
The numbers in the outputs of a design.

Lengths and other numbers are written by one function in both outputs. What it writes is a short number for all that can
be scaled by a thousand, and the name of an infinite value for the finite numbers that cannot.
-/

namespace Handoff
open Design

namespace React

private def PadsInNumbers (style : Style) : Prop :=
  ∀ entry ∈ style, entry.1 = "padding" → ∃ padding, entry ∈ paddingEntry padding

private theorem padsInNumbers_append {first second : Style} :
    PadsInNumbers (first ++ second) ↔ PadsInNumbers first ∧ PadsInNumbers second :=
  List.forall_mem_append

private theorem KeysIn.padsInNumbers {names : List String} {style : Style} (keys : KeysIn names style)
    (other : "padding" ∉ names) : PadsInNumbers style :=
  fun entry member same => absurd (same ▸ keys entry member) other

private theorem padsInNumbers_geometry (h : Header) (placement : Placement) : PadsInNumbers (geometry h placement) :=
  (keysIn_geometry h placement).padsInNumbers (by decide)

private theorem padsInNumbers_padding (padding : Option Padding) : PadsInNumbers (paddingEntry padding) :=
  fun _ member _ => ⟨padding, member⟩

private theorem padsInNumbers_text {key : String} (other : "padding" ∉ [key]) (s : Option String) :
    PadsInNumbers (textEntry key s) :=
  (keysIn_text key s).padsInNumbers other

private theorem padsInNumbers_number {key : String} (other : "padding" ∉ [key]) (x : Option Float) :
    PadsInNumbers (numberEntry key x) :=
  (keysIn_number key x).padsInNumbers other

private theorem padsInNumbers_border (stroke : Option String) (width : Option Float) :
    PadsInNumbers (border stroke width) :=
  (keysIn_border stroke width).padsInNumbers (by decide)

private theorem exists_padsInNumbers (placement : Placement) {node : Node} (known : isKnown node = true) :
    ∃ style, (tagOf placement node).style = style.map Jsx.entryView ∧ PadsInNumbers style := by
  have geometry := padsInNumbers_geometry node.header placement
  have opacity : PadsInNumbers (opacityEntry node.header) := padsInNumbers_number (by decide) _
  cases node with
  | container h kind children =>
    cases kind with
    | panel role a =>
      refine ⟨_, style_look _ _ _, ?_⟩
      simp only [padsInNumbers_append]
      exact ⟨⟨⟨⟨geometry, padsInNumbers_text (by decide) _⟩, padsInNumbers_padding _⟩,
        padsInNumbers_number (by decide) _⟩, opacity⟩
    | stack a | grid a =>
      refine ⟨_, style_look _ _ _, ?_⟩
      simp only [padsInNumbers_append]
      exact ⟨⟨⟨⟨geometry, padsInNumbers_number (by decide) _⟩, padsInNumbers_text (by decide) _⟩,
        padsInNumbers_padding _⟩, opacity⟩
  | leaf h kind =>
    cases kind with
    | rect a =>
      refine ⟨_, style_look _ _ _, ?_⟩
      simp only [padsInNumbers_append]
      exact ⟨⟨⟨⟨geometry, padsInNumbers_text (by decide) _⟩, padsInNumbers_border _ _⟩,
        padsInNumbers_number (by decide) _⟩, opacity⟩
    | ellipse a =>
      refine ⟨_, style_look _ _ _, ?_⟩
      simp only [padsInNumbers_append]
      exact ⟨⟨⟨geometry, padsInNumbers_text (by decide) _⟩, padsInNumbers_border _ _⟩, opacity⟩
    | text a =>
      refine ⟨_, style_look _ _ _, ?_⟩
      simp only [padsInNumbers_append]
      exact ⟨⟨⟨⟨⟨geometry, padsInNumbers_text (by decide) _⟩, padsInNumbers_text (by decide) _⟩,
        (keysIn_size a).padsInNumbers (by decide)⟩, (keysIn_weight _).padsInNumbers (by decide)⟩, opacity⟩
    | image a =>
      refine ⟨_, style_image placement h a, ?_⟩
      simp only [padsInNumbers_append]
      exact ⟨⟨geometry, padsInNumbers_number (by decide) _⟩, opacity⟩
    | line | path =>
      exact ⟨_, style_look _ _ _, padsInNumbers_append.mpr ⟨geometry, opacity⟩⟩
    | unknown => cases known

/-- True of an entry of an inline style whose numbers are written as drawings write them: a number as it is, the padding
of four sides as a row of them. -/
structure InNumbers (entry : String × Expression) : Prop where
  word : ∀ w, entry.2 = .word w → ∃ x, w = pixelText x
  padding : ∀ s, entry = ("padding", .literal s) →
    ∃ sides : List Float, s = String.intercalate " " (sides.map (pixelText · ++ "px"))

theorem inNumbers_entryView {entry : String × StyleValue}
    (padding : entry.1 = "padding" → ∃ padding, entry ∈ paddingEntry padding) : InNumbers (Jsx.entryView entry) := by
  obtain ⟨key, value⟩ := entry
  cases value with
  | number x =>
    refine ⟨fun w same => ⟨x, ?_⟩, nofun⟩
    cases same
    rfl
  | text s =>
    refine ⟨nofun, fun t same => ?_⟩
    obtain ⟨rfl, literal⟩ := Prod.mk.inj same
    cases literal
    obtain ⟨given, member⟩ := padding rfl
    unfold paddingEntry at member
    split at member
    · simp at member
    · rename_i top right bottom left
      refine ⟨[top, right, bottom, left], ?_⟩
      simpa using member
    · cases member

/-- All numbers in the styles of a component are written as drawings write them. -/
theorem inNumbers_generate (options : Options) (tree : Tree) :
    ∀ nest ∈ Jsx.nestsOf (generate options tree), ∀ tag ∈ nest.getLast?, ∀ entry ∈ tag.style, InNumbers entry := by
  rw [nestsOf_eq_map_trails, List.forall_mem_map]
  intro t member tag last entry held
  obtain ⟨-, known⟩ := List.mem_filter.mp member
  rw [nestOf_eq, List.getLast?_concat, Option.mem_some_iff] at last
  subst last
  obtain ⟨style, same, pads⟩ := exists_padsInNumbers (placementUnder t.above.getLast?) known
  rw [same] at held
  obtain ⟨own, inside, rfl⟩ := List.mem_map.mp held
  exact inNumbers_entryView (pads own inside)

end React

/-- Both outputs of a design write all their numbers by one function. It writes a short number for exactly those that
can be scaled by a thousand, and for the others an infinite value. -/
theorem numbers_written (react : React.Options) (roblox : Roblox.Options) (units : Roblox.Units) (tree : Tree) :
    (∀ x, IsShortNumber (pixelText x) ↔ IsScalable x) ∧
    (∀ x, ¬ IsScalable x → pixelText x ∈ ["-inf", "inf"]) ∧
    (∀ nest ∈ React.Jsx.nestsOf (React.generate react tree), ∀ tag ∈ nest.getLast?, ∀ entry ∈ tag.style,
      React.InNumbers entry) ∧
    ∀ line ∈ Text.lines (Roblox.generate roblox units tree), ∀ label ∈ Roblox.measuredLabels, ∀ value,
      Roblox.Line.assigned? line = some (label, value) →
        value = "UDim.new(0.5,0)" ∨
          ∃ extent : Roblox.Extent, label ∈ extent.labels ∧ value = Roblox.Row.line units extent.row :=
  ⟨isShortNumber_pixelText_iff, fun _ => pixelText_of_not_isScalable, React.inNumbers_generate react tree,
    Roblox.assigned_lengths roblox units tree⟩

/-- A width of a one with 306 zeros is written as an infinite value. -/
theorem not_isShortNumber_wide : ¬ IsShortNumber (pixelText 1e306) := by
  have large : ¬ IsScalable 1e306 := by
    unfold IsScalable
    decide +kernel
  exact fun short => large ((isShortNumber_pixelText_iff _).mp short)

end Handoff
