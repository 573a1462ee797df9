import Handoff.Proofs.Roblox.Instances
import Handoff.Proofs.Roblox.Names

set_option autoImplicit false
set_option relaxedAutoImplicit false

/-!
What the instances of nodes are set to.

A main instance is given its name, its place and its rank, and then how it looks; what decorates it is given looks
alone. So what holds of those four settings and of every look holds of all settings.
-/

namespace Handoff.Roblox
open Design

/-- A property that says how an instance looks, with a value of the kind that it takes. -/
inductive Facet : Property → Value → Prop where
  | paint {p : Property} (c : Rgba) : p ∈ [.backgroundColor, .textColor, .color] → Facet p (rgb c)
  | ratio {p : Property} (alpha opacity : Float) :
      p ∈ [.backgroundTransparency, .textTransparency, .imageTransparency, .transparency] →
        Facet p (.ratio (transparency alpha opacity))
  | count {p : Property} (n : Nat) :
      p ∈ [.backgroundTransparency, .borderSize, .fillDirectionMaxCells] → Facet p (.count n)
  | flag {p : Property} (value : Bool) : p ∈ [.clipsDescendants, .textWrapped] → Facet p (.flag value)
  | text {p : Property} (s : String) : p ∈ [.text, .image] → Facet p (.text s)
  | font {weight style : String} (asset : String) :
      IsWord weight → IsWord style → Facet .fontFace (.font asset weight style)
  | choice {p : Property} {item : String} :
      p ∈ [.textXAlignment, .scaleType, .applyStrokeMode, .fillDirection, .sortOrder, .horizontalAlignment,
        .verticalAlignment] → IsWord item → Facet p (.choice p.label item)
  | number {p : Property} (px : Float) : p ∈ [.textSize, .thickness] → Facet p (.length px)
  | span {p : Property} (px : Float) :
      p ∈ [.cornerRadius, .paddingTop, .paddingRight, .paddingBottom, .paddingLeft, .padding] → Facet p (.offset px)
  | half : Facet .cornerRadius .half
  | point {p : Property} (x y : Float) : p ∈ [.cellSize, .cellPadding] → Facet p (.offsets x y)

namespace Facet

variable {p : Property} {value : Value}

theorem apart (facet : Facet p value) : p ∉ [.name, .position, .size, .layoutOrder] := by
  cases facet with
  | font | half => decide
  | paint | ratio | count | flag | text | choice | number | span | point =>
    rename_i member
    revert p
    decide

theorem plain (facet : Facet p value) : value.Plain := by
  cases facet with
  | font _ weight style => exact ⟨weight, style⟩
  | choice _ item => exact ⟨isWord_label p, item⟩
  | ratio alpha opacity => exact isScalable_clamp (1 - alpha * opacity)
  | paint | count | flag | text | number | span | half | point => exact True.intro

end Facet

def Facets (settings : List (Property × Value)) : Prop :=
  ∀ s ∈ settings, Facet s.1 s.2

namespace Facets

theorem nil : Facets [] :=
  List.forall_mem_nil _

theorem cons {p : Property} {value : Value} {rest : List (Property × Value)} (first : Facet p value)
    (others : Facets rest) : Facets ((p, value) :: rest) :=
  List.forall_mem_cons.mpr ⟨first, others⟩

theorem singleton {p : Property} {value : Value} (only : Facet p value) : Facets [(p, value)] :=
  cons only nil

theorem append {first second : List (Property × Value)} (before : Facets first) (after : Facets second) :
    Facets (first ++ second) :=
  List.forall_mem_append.mpr ⟨before, after⟩

theorem given {settings : List (Property × Value)} (facets : Facets settings) {p : Property}
    (common : p ∈ [.name, .position, .size, .layoutOrder]) : given p settings = [] := by
  rw [Roblox.given, List.filterMap_eq_nil_iff]
  intro s member
  have other : s.1 ≠ p := fun same => (facets s member).apart (same ▸ common)
  exact if_neg other

end Facets

section Looks

private theorem facets_nonzero {p : Property} {x : Float} (faint : Facet p (.ratio x)) : Facets (nonzero p x) := by
  unfold nonzero
  split
  · exact .nil
  · exact .singleton faint

private theorem facets_opacity {p : Property} (h : Header)
    (faint : Facet p (.ratio (transparency 1 h.effectiveOpacity))) :
    Facets (if h.effectiveOpacity < 1 then [(p, .ratio (transparency 1 h.effectiveOpacity))] else []) := by
  split
  · exact .singleton faint
  · exact .nil

private theorem facets_choice {p : Property} {item : Option String}
    (chosen : ∀ s ∈ item, Facet p (.choice p.label s)) : Facets (choiceSetting p item) := by
  cases item with
  | none => exact .nil
  | some s => exact .singleton (chosen s rfl)

private theorem facets_background (h : Header) (paint : Option String) : Facets (backgroundSettings h paint) := by
  refine .append ?_ (.singleton (.count 0 (by decide)))
  cases paint? paint with
  | none => exact .singleton (.count 1 (by decide))
  | some c => exact .cons (.paint c (by decide)) (.singleton (.ratio _ _ (by decide)))

private theorem facets_clear : Facets clearSettings :=
  .cons (.count 1 (by decide)) (.singleton (.count 0 (by decide)))

private theorem facet_font (t : Label) : Facet .fontFace (fontValue t) := by
  refine .font _ ?_ ?_ <;> split <;> decide

private theorem facets_textPaint (h : Header) (t : Label) : Facets (textPaint h t) := by
  unfold textPaint
  cases paint? t.color with
  | none => exact facets_opacity h (.ratio _ _ (by decide))
  | some c => exact .cons (.paint c (by decide)) (facets_nonzero (.ratio _ _ (by decide)))

private theorem facets_list (a : Stack) : Facets (listWidget a).settings := by
  have across (s : String) (member : s ∈ a.align.bind alignHorizontal) : IsWord s := by
    obtain ⟨align, -, named⟩ := Option.mem_bind_iff.mp member
    cases align <;> cases named <;> decide
  have up (s : String) (member : s ∈ a.align.bind alignVertical) : IsWord s := by
    obtain ⟨align, -, named⟩ := Option.mem_bind_iff.mp member
    cases align <;> cases named <;> decide
  have justified (s : String) (member : s ∈ a.justify.bind justifyHorizontal) : IsWord s := by
    obtain ⟨justify, -, named⟩ := Option.mem_bind_iff.mp member
    cases justify <;> cases named <;> decide
  have spread (s : String) (member : s ∈ a.justify.bind justifyVertical) : IsWord s := by
    obtain ⟨justify, -, named⟩ := Option.mem_bind_iff.mp member
    cases justify <;> cases named <;> decide
  have along (axis : String) (word : IsWord axis) :
      Facets [(.fillDirection, .choice "FillDirection" axis), (.padding, .offset (a.gap.getD 0)),
        (.sortOrder, .choice "SortOrder" "LayoutOrder")] := by
    have axis : Facet .fillDirection (.choice "FillDirection" axis) := .choice (by decide) word
    have order : Facet .sortOrder (.choice "SortOrder" "LayoutOrder") := .choice (by decide) (by decide)
    exact .cons axis (.cons (.span _ (by decide)) (.singleton order))
  unfold listWidget
  cases a.direction with
  | row =>
    exact .append (.append (along "Horizontal" (by decide))
      (facets_choice fun s item => .choice (by decide) (justified s item)))
      (facets_choice fun s item => .choice (by decide) (up s item))
  | column =>
    exact .append (.append (along "Vertical" (by decide))
      (facets_choice fun s item => .choice (by decide) (across s item)))
      (facets_choice fun s item => .choice (by decide) (spread s item))

private theorem facets_grid (h : Header) (a : Grid) : Facets (gridWidget h a).settings := by
  have order : Facet .sortOrder (.choice "SortOrder" "LayoutOrder") := .choice (by decide) (by decide)
  exact .cons (.point _ _ (by decide)) (.cons (.point _ _ (by decide)) (.cons (.count _ (by decide))
    (.singleton order)))

private theorem facets_corner (radius : Option Float) : ∀ w ∈ cornerWidgets radius, Facets w.settings := by
  unfold cornerWidgets
  split
  · split
    · exact List.forall_mem_singleton.mpr (.singleton (.span _ (by decide)))
    · exact List.forall_mem_nil _
  · exact List.forall_mem_nil _

private theorem facets_stroke (h : Header) (stroke : Option String) (width : Option Float) :
    ∀ w ∈ strokeWidgets h stroke width, Facets w.settings := by
  have mode : Facet .applyStrokeMode (.choice "ApplyStrokeMode" "Border") := .choice (by decide) (by decide)
  unfold strokeWidgets
  split
  · exact List.forall_mem_singleton.mpr (.append (.append (.cons (.paint _ (by decide))
      (.singleton (.number _ (by decide)))) (facets_nonzero (.ratio _ _ (by decide)))) (.singleton mode))
  · exact List.forall_mem_nil _

private theorem facets_padding (padding : Option Padding) : ∀ w ∈ paddingWidgets padding, Facets w.settings := by
  have sides (top right bottom left : Float) : Facets (sidesWidget top right bottom left).settings :=
    .cons (.span _ (by decide)) (.cons (.span _ (by decide)) (.cons (.span _ (by decide))
      (.singleton (.span _ (by decide)))))
  unfold paddingWidgets
  split
  · exact List.forall_mem_singleton.mpr (sides _ _ _ _)
  · exact List.forall_mem_singleton.mpr (sides _ _ _ _)
  · exact List.forall_mem_nil _

theorem facets_decoration (node : Node) : ∀ w ∈ decorationWidgets node, Facets w.settings := by
  cases node with
  | container h kind children =>
    cases kind with
    | panel role a => exact List.forall_mem_append.mpr ⟨facets_corner a.radius, facets_padding a.padding⟩
    | stack a =>
      exact List.forall_mem_append.mpr ⟨facets_padding a.padding, List.forall_mem_singleton.mpr (facets_list a)⟩
    | grid a =>
      exact List.forall_mem_append.mpr ⟨facets_padding a.padding, List.forall_mem_singleton.mpr (facets_grid h a)⟩
  | leaf h kind =>
    cases kind with
    | rect a => exact List.forall_mem_append.mpr ⟨facets_corner a.radius, facets_stroke h a.stroke a.strokeWidth⟩
    | ellipse a =>
      have round : Facets roundWidget.settings := .singleton .half
      exact List.forall_mem_cons.mpr ⟨round, facets_stroke h a.stroke a.strokeWidth⟩
    | image a => exact facets_corner a.radius
    | text | line | path | unknown => exact List.forall_mem_nil _

/-- The main instance of a node is given its name, its place and its rank before how it looks, which does not depend on
the rank. -/
theorem mainWidget_cases (node : Node) :
    (∀ order, mainWidget? order node = none) ∨
      ∃ cls looks, cls ≠ .screenGui ∧ Facets looks ∧
        ∀ order, mainWidget? order node = some ⟨cls, commonSettings node.header order ++ looks⟩ := by
  have frame (h : Header) (paint : Option String) (clips : Bool) :
      ∃ cls looks, cls ≠ Class.screenGui ∧ Facets looks ∧
        ∀ order, some (frameWidget h order paint clips) = some ⟨cls, commonSettings h order ++ looks⟩ := by
    refine ⟨.frame, backgroundSettings h paint ++ if clips then [(.clipsDescendants, .flag true)] else [], by decide,
      .append (facets_background h paint) ?_, ?_⟩
    · split
      · exact .singleton (.flag true (by decide))
      · exact .nil
    · exact fun order => by rw [frameWidget, List.append_assoc]
  cases node with
  | container h kind children =>
    right
    cases kind with
    | panel role a => exact frame h a.background (role == .frame)
    | stack a => exact frame h a.background false
    | grid a => exact frame h a.background false
  | leaf h kind =>
    cases kind with
    | rect a => exact .inr (frame h a.fill false)
    | ellipse a => exact .inr (frame h a.fill false)
    | text a =>
      have side : IsWord (textSide a.align) := by
        unfold textSide
        split <;> decide
      have aligned : Facet .textXAlignment (.choice "TextXAlignment" (textSide a.align)) := .choice (by decide) side
      have type : Facets [(.textSize, .length a.resolvedFontSize), (.fontFace, fontValue a),
          (.textXAlignment, .choice "TextXAlignment" (textSide a.align)), (.textWrapped, .flag true)] :=
        .cons (.number _ (by decide)) (.cons (facet_font a) (.cons aligned (.singleton (.flag true (by decide)))))
      have said : Facets [(.text, .text a.text)] := .singleton (.text _ (by decide))
      refine .inr ⟨.textLabel, _, by decide, .append (.append (.append facets_clear said) (facets_textPaint h a)) type,
        fun order => ?_⟩
      simp only [mainWidget?, leafWidget?, labelWidget, Node.header, List.append_assoc]
    | image a =>
      have scaled : IsWord (scaleType a.objectFit) := by
        unfold scaleType
        split <;> decide
      have scale : Facet .scaleType (.choice "ScaleType" (scaleType a.objectFit)) := .choice (by decide) scaled
      have shown : Facets [(.image, .text a.src), (.scaleType, .choice "ScaleType" (scaleType a.objectFit))] :=
        .cons (.text _ (by decide)) (.singleton scale)
      have faint : Facet .imageTransparency (.ratio (transparency 1 h.effectiveOpacity)) := .ratio _ _ (by decide)
      refine .inr ⟨.imageLabel, _, by decide, .append (.append facets_clear shown) (facets_opacity h faint),
        fun order => ?_⟩
      simp only [mainWidget?, leafWidget?, imageWidget, Node.header, List.append_assoc]
    | line | path | unknown => exact .inl fun _ => rfl

theorem exists_of_mainWidget {order : Option Nat} {node : Node} {w : Widget} (main : mainWidget? order node = some w) :
    ∃ cls looks, cls ≠ .screenGui ∧ Facets looks ∧
      (∀ order, mainWidget? order node = some ⟨cls, commonSettings node.header order ++ looks⟩) ∧
      w = ⟨cls, commonSettings node.header order ++ looks⟩ := by
  rcases mainWidget_cases node with none | ⟨cls, looks, other, facets, form⟩
  · rw [none] at main
    cases main
  · rw [form, Option.some.injEq] at main
    exact ⟨cls, looks, other, facets, form, main.symm⟩

end Looks

/-- What holds of the settings that every main instance has and of looks holds of all that main instances are set to. -/
theorem forall_mainWidget {P : Property → Value → Prop}
    (common : ∀ h order, ∀ s ∈ commonSettings h order, P s.1 s.2) (looks : ∀ p value, Facet p value → P p value)
    (order : Option Nat) (node : Node) : ∀ w ∈ mainWidget? order node, ∀ s ∈ w.settings, P s.1 s.2 := by
  intro w main
  rcases mainWidget_cases node with none | ⟨cls, rest, -, facets, form⟩
  · rw [none] at main
    cases main
  · rw [form] at main
    obtain rfl := Option.some.inj main
    exact List.forall_mem_append.mpr ⟨common node.header order, fun s member => looks _ _ (facets s member)⟩

section Words

def PlainSettings (settings : List (Property × Value)) : Prop :=
  ∀ s ∈ settings, s.2.Plain

theorem plain_mainWidget (order : Option Nat) (node : Node) :
    ∀ w ∈ mainWidget? order node, PlainSettings w.settings := by
  refine forall_mainWidget (fun h order => ?_) (fun p value => Facet.plain) order node
  cases order <;> simp [commonSettings, Value.Plain]

theorem plain_decoration (node : Node) : ∀ w ∈ decorationWidgets node, PlainSettings w.settings :=
  fun w held s member => (facets_decoration node w held s member).plain

theorem plain_screen (options : Options) : PlainSettings (screenWidget options).settings := by
  have behavior : (Value.choice "ZIndexBehavior" "Sibling").Plain := ⟨by decide, by decide⟩
  exact List.forall_mem_cons.mpr ⟨trivial, List.forall_mem_cons.mpr ⟨trivial, List.forall_mem_singleton.mpr behavior⟩⟩

end Words

end Handoff.Roblox
