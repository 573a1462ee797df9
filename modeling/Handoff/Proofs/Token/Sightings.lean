import Mathlib.Data.List.Forall2
import Mathlib.Data.List.Nodup
import Handoff.Proofs.Decimal.Spelling
import Handoff.Proofs.Design.Preorder
import Handoff.Proofs.Token.Allocation
import Handoff.Proofs.Token.Tally

set_option autoImplicit false
set_option relaxedAutoImplicit false

/-!
The tokens of a design against the values that it shows.

What a design shows is told from its nodes alone, class by class in preorder, with no counts and no order but that of
the nodes. The tokens of a class carry just these values.
-/

namespace Handoff.Token
open Design

inductive Sighting where
  | text (s : String)
  | number (x : Float)
  deriving DecidableEq

/-- What a node has of the attributes that make tokens. -/
structure Look where
  fill : Option String := none
  stroke : Option String := none
  background : Option String := none
  color : Option String := none
  fontSize : Option Float := none
  fontFamily : Option String := none
  fontWeight : Option FontWeight := none
  gap : Option Float := none
  padding : Option Padding := none
  radius : Option Float := none

/-- A text among the attributes of a node whose type is not known. -/
def textUnder (header : Header) (key : String) : Option String :=
  match header.extra.lookup key with
  | some (.string s) => some s
  | _ => none

def Look.ofNode : Node → Look
  | .container _ (.panel _ a) _ => { background := a.background, padding := a.padding, radius := a.radius }
  | .container _ (.stack a) _ => { background := a.background, gap := a.gap, padding := a.padding }
  | .container _ (.grid a) _ => { background := a.background, gap := a.gap, padding := a.padding }
  | .leaf _ (.rect a) => { fill := a.fill, stroke := a.stroke, radius := a.radius }
  | .leaf _ (.ellipse a) => { fill := a.fill, stroke := a.stroke }
  | .leaf _ (.text a) =>
    { color := a.color, fontSize := a.fontSize, fontFamily := a.fontFamily, fontWeight := a.fontWeight }
  | .leaf _ (.image a) => { radius := a.radius }
  | .leaf _ (.line a) => { stroke := a.stroke }
  | .leaf _ (.path _ a) => { fill := a.fill, stroke := a.stroke }
  | .leaf header (.unknown _) =>
    { fill := textUnder header "fill", stroke := textUnder header "stroke",
      background := textUnder header "background", color := textUnder header "color" }

namespace Sighting

def ofText (s : Option String) : List Sighting :=
  (s.toList.filter fun s => !Text.isBlankText s).map text

/-- A number is seen when it is finite, a zero without its sign. -/
def ofNumber (x : Option Float) : List Sighting :=
  (x.toList.filter Float.isFinite).map fun x => number (unsignedZero x)

def ofNode (c : TokenClass) (node : Node) : List Sighting :=
  let look := Look.ofNode node
  match c with
  | .color => [look.fill, look.stroke, look.background, look.color].flatMap ofText
  | .typography => ofNumber look.fontSize
  | .fontFamily => ofText look.fontFamily
  | .fontWeight => look.fontWeight.toList.map fun weight => text weight.text
  | .spacing => ofNumber look.gap ++ ofNumber (look.padding.bind Padding.uniform?)
  | .radius => ofNumber look.radius
  | .opacity => ofNumber node.header.opacity

/-- What a design shows of a class. Its root shows an opacity also when it gives none. -/
def ofTree (tree : Tree) : TokenClass → List Sighting
  | .opacity =>
    ofNumber (some (tree.root.header.opacity.getD 1)) ++ tree.root.preorder.tail.flatMap (ofNode .opacity)
  | c => tree.root.preorder.flatMap (ofNode c)

end Sighting

open Sighting

/-- The value that stands in a token of a class for what was seen. -/
inductive Carries : TokenClass → Value → Sighting → Prop
  | color (s : String) : Carries .color (.text s) (.text s)
  | typography {face : Typography} {x : Float} (size : face.fontSize = pxText x) :
    Carries .typography (.typography face) (.number x)
  | fontFamily (s : String) : Carries .fontFamily (.text s) (.text s)
  | fontWeight (s : String) : Carries .fontWeight (.text s) (.text s)
  | spacing {s : String} {x : Float} (length : s = pxText x) : Carries .spacing (.text s) (.number x)
  | radius {s : String} {x : Float} (length : s = pxText x) : Carries .radius (.text s) (.number x)
  | opacity (x : Float) : Carries .opacity (.number x) (.number x)

/-- The order of the tokens of a class: by falling number of sightings and then by the first of them, or by rising
value. -/
def Before (c : TokenClass) (seen : List Sighting) (a b : Sighting) : Prop :=
  match c with
  | .color | .fontFamily | .fontWeight => Oftener seen a b
  | .typography | .spacing | .radius | .opacity =>
    ∃ x y : Float, a = .number x ∧ b = .number y ∧ x < y

/-- Tokens that tell each entry: its value, the class, and the count, which the description gives in words. -/
def Tells (c : TokenClass) (tokens : List DesignToken) (entries : List (Sighting × Nat)) : Prop :=
  List.Forall₂
    (fun token entry => Carries c token.value entry.1 ∧ token.type = c ∧ token.count = entry.2 ∧
      token.description = usageText entry.2)
    tokens entries

/-- What a class's tokens have to be. With one token for each value they stand for all that is seen, and no two of them
have one value; otherwise there is a token for each time that something is seen. -/
def Sums (options : Options) (c : TokenClass) (seen : List Sighting) (tokens : List DesignToken) : Prop :=
  ∃ entries, Tells c tokens entries ∧
    if options.deduplicate then Gathered (Before c seen) seen entries ∧ (tokens.map DesignToken.value).Nodup
    else entries = seen.map fun sighting => (sighting, 1)

private def Adds (options : Options) (c : TokenClass) (seen : List Sighting) (tokens : List DesignToken) : Prop :=
  ∃ entries, Tells c tokens entries ∧
    if options.deduplicate then Gathered (Before c seen) seen entries
    else entries = seen.map fun sighting => (sighting, 1)

section Transfer

variable {α : Type} [DecidableEq α] {seen : α → Sighting}

private theorem count_map (h : Function.Injective seen) (uses : List α) (a : α) :
    (uses.map seen).count (seen a) = uses.count a := by
  induction uses with
  | nil => rfl
  | cons b rest ih => simp [List.count_cons, ih, h.eq_iff]

private theorem idxOf_map (h : Function.Injective seen) (uses : List α) (a : α) :
    (uses.map seen).idxOf (seen a) = uses.idxOf a := by
  induction uses with
  | nil => rfl
  | cons b rest ih =>
    by_cases same : b = a
    · simp [same]
    · have other : seen b ≠ seen a := fun equal => same (h equal)
      rw [List.map_cons, List.idxOf_cons_ne _ other, List.idxOf_cons_ne _ same, ih]

private theorem Oftener.map (h : Function.Injective seen) {uses : List α} {a b : α} (k : Oftener uses a b) :
    Oftener (uses.map seen) (seen a) (seen b) := by
  unfold Oftener at *
  rwa [count_map h, count_map h, idxOf_map h, idxOf_map h]

private theorem Gathered.map (h : Function.Injective seen) {before : α → α → Prop}
    {after : Sighting → Sighting → Prop} (keeps : ∀ a b, before a b → after (seen a) (seen b)) {uses : List α}
    {entries : List (α × Nat)} (k : Gathered before uses entries) :
    Gathered after (uses.map seen) (entries.map fun entry => (seen entry.1, entry.2)) := by
  have keys : (entries.map fun entry => (seen entry.1, entry.2)).map Prod.fst = (entries.map Prod.fst).map seen := by
    simp
  refine ⟨?_, ?_, ?_, ?_⟩
  · intro sighting
    rw [keys, List.mem_map, List.mem_map]
    simp only [k.values]
  · rw [keys]
    exact k.nodup.map h
  · intro entry member
    obtain ⟨old, before, rfl⟩ := List.mem_map.mp member
    rw [count_map h]
    exact k.count old before
  · rw [keys, List.pairwise_map]
    exact k.order.imp (keeps _ _)

private theorem adds_gather {options : Options} {c : TokenClass} {le : α × Nat → α × Nat → Bool} {uses : List α}
    {value : α → Value} (h : Function.Injective seen) (carries : ∀ a, Carries c (value a) (seen a))
    (gathered : options.deduplicate = true → ∃ before : α → α → Prop,
      Gathered before uses (gather options le uses) ∧
        ∀ a b, before a b → Before c (uses.map seen) (seen a) (seen b)) :
    Adds options c (uses.map seen)
      ((gather options le uses).map fun entry => DesignToken.ofUses (value entry.1) c entry.2) := by
  refine ⟨(gather options le uses).map fun entry => (seen entry.1, entry.2), ?_, ?_⟩
  · rw [Tells, List.forall₂_map_left_iff, List.forall₂_map_right_iff, List.forall₂_same]
    intro entry member
    exact ⟨carries entry.1, rfl, rfl, rfl⟩
  · split
    · rename_i once
      obtain ⟨before, all, keeps⟩ := gathered once
      exact all.map h keeps
    · rename_i each
      rw [gather_each le uses (by simpa using each)]
      simp

end Transfer

private theorem text_injective : Function.Injective Sighting.text := by
  intro s t h
  exact Sighting.text.inj h

private theorem number_injective : Function.Injective Sighting.number := by
  intro x y h
  exact Sighting.number.inj h

private theorem map_text_paints (values : List (Option String)) :
    (paints values).map Sighting.text = values.flatMap ofText := by
  induction values with
  | nil => rfl
  | cons value rest ih =>
    rw [List.flatMap_cons, ← ih, paints, List.filterMap_cons]
    cases value with
    | none => rfl
    | some s => cases blank : Text.isBlankText s <;> simp [ofText, Option.filter, blank, paints]

private theorem map_number_finite (values : List (Option Float)) :
    (Token.finite values).map Sighting.number = values.flatMap ofNumber := by
  induction values with
  | nil => rfl
  | cons value rest ih =>
    rw [List.flatMap_cons, ← ih, Token.finite, List.filterMap_cons]
    cases value with
    | none => rfl
    | some x => cases finite : x.isFinite <;> simp [ofNumber, Option.filter, finite, Token.finite]

private theorem looseText_eq (header : Header) (key : String) :
    looseText header.extra key = textUnder header key := by
  unfold looseText textUnder Entries.get?
  cases header.extra.lookup key with
  | none => rfl
  | some value => cases value <;> rfl

private theorem map_text_colors (node : Node) :
    (Use.colors node).map Sighting.text = Sighting.ofNode .color node := by
  have none : ofText none = [] := rfl
  cases node with
  | container header kind children =>
    cases kind <;> simp [Use.colors, Sighting.ofNode, Look.ofNode, map_text_paints, none]
  | leaf header kind =>
    cases kind <;> simp [Use.colors, Sighting.ofNode, Look.ofNode, map_text_paints, none, looseText_eq]

private theorem map_number_spacing (node : Node) :
    (Use.spacing node).map Sighting.number = Sighting.ofNode .spacing node := by
  have none : ofNumber none = [] := rfl
  cases node with
  | container header kind children =>
    cases kind <;> simp [Use.spacing, Sighting.ofNode, Look.ofNode, map_number_finite, none]
  | leaf header kind => cases kind <;> rfl

private theorem map_number_radii (node : Node) :
    (Use.radii node).map Sighting.number = Sighting.ofNode .radius node := by
  cases node with
  | container header kind children =>
    cases kind <;> simp [Use.radii, Sighting.ofNode, Look.ofNode, map_number_finite] <;> rfl
  | leaf header kind =>
    cases kind <;> simp [Use.radii, Sighting.ofNode, Look.ofNode, map_number_finite] <;> rfl

private theorem filterMap_fonts {β : Type} (say : Font → Option β) (seen : β → Sighting) (c : TokenClass)
    (nodes : List Node) (each : ∀ node, ((Use.font node).filterMap say).map seen = Sighting.ofNode c node) :
    ((nodes.flatMap Use.font).filterMap say).map seen = nodes.flatMap (Sighting.ofNode c) := by
  induction nodes with
  | nil => rfl
  | cons node rest ih =>
    rw [List.flatMap_cons, List.flatMap_cons, List.filterMap_append, List.map_append, ih, each]

private theorem map_sizes (node : Node) :
    ((Use.font node).filterMap Font.size).map Sighting.number = Sighting.ofNode .typography node := by
  cases node with
  | container header kind children => cases kind <;> rfl
  | leaf header kind =>
    cases kind with
    | text a =>
      cases size : a.fontSize with
      | none => simp [Use.font, Token.finite, Sighting.ofNode, Look.ofNode, ofNumber, size]
      | some x =>
        cases finite : x.isFinite <;>
          simp [Use.font, Token.finite, Sighting.ofNode, Look.ofNode, ofNumber, size, Option.filter, finite]
    | _ => rfl

private theorem map_families (node : Node) :
    ((Use.font node).filterMap Font.family).map Sighting.text = Sighting.ofNode .fontFamily node := by
  cases node with
  | container header kind children => cases kind <;> rfl
  | leaf header kind =>
    cases kind with
    | text a =>
      cases family : a.fontFamily with
      | none => simp [Use.font, Label.namedFamily, Sighting.ofNode, Look.ofNode, ofText, family]
      | some s =>
        cases blank : Text.isBlankText s <;>
          simp [Use.font, Label.namedFamily, Sighting.ofNode, Look.ofNode, ofText, family, Option.filter, blank]
    | _ => rfl

private theorem map_weights (node : Node) :
    ((Use.font node).filterMap Font.weight).map Sighting.text = Sighting.ofNode .fontWeight node := by
  cases node with
  | container header kind children => cases kind <;> rfl
  | leaf header kind =>
    cases kind with
    | text a => cases weight : a.fontWeight <;> simp [Use.font, Sighting.ofNode, Look.ofNode, weight]
    | _ => rfl

private theorem map_token_draft {α : Type} (name : α → Nat → Nat → String) (value : α → Value) (c : TokenClass)
    (entries : List (α × Nat)) :
    (draft name (fun a => DesignToken.ofUses (value a) c) entries).map Draft.token =
      entries.map fun entry => DesignToken.ofUses (value entry.1) c entry.2 := by
  rw [draft, List.map_map]
  have split := List.map_map (f := Prod.fst) (l := entries.zipIdx)
    (g := fun entry : α × Nat => DesignToken.ofUses (value entry.1) c entry.2)
  rw [List.zipIdx_map_fst] at split
  exact split.symm

/-- Numbers of which no two different ones have one value. -/
def Plain (x : Float) : Prop :=
  x.isFinite = true ∧ x.toModel.unpack ≠ .zero .negative

theorem plain_unsignedZero {x : Float} (finite : x.isFinite = true) : Plain (unsignedZero x) := by
  unfold unsignedZero
  split
  · exact ⟨rfl, nofun⟩
  · rename_i other
    refine ⟨finite, ?_⟩
    intro zero
    apply other
    change (x.toModel.unpack.compare (0 : Float).toModel.unpack == some .eq) = true
    rw [zero]
    rfl

private theorem plain_of_mem_ofNumber {value : Option Float} {x : Float} (h : .number x ∈ ofNumber value) :
    Plain x := by
  obtain ⟨y, member, same⟩ := List.mem_map.mp h
  obtain rfl := Sighting.number.inj same
  exact plain_unsignedZero (List.mem_filter.mp member).2

private theorem plain_of_mem_ofNode {c : TokenClass} {node : Node} {x : Float}
    (h : .number x ∈ Sighting.ofNode c node) : Plain x := by
  have noText : ∀ s, Sighting.number x ∉ ofText s := by
    intro s member
    obtain ⟨t, -, same⟩ := List.mem_map.mp member
    cases same
  cases c with
  | color =>
    obtain ⟨s, -, member⟩ := List.mem_flatMap.mp h
    exact absurd member (noText s)
  | typography => exact plain_of_mem_ofNumber h
  | fontFamily => exact absurd h (noText _)
  | fontWeight =>
    obtain ⟨t, -, same⟩ := List.mem_map.mp h
    cases same
  | spacing =>
    rcases List.mem_append.mp h with h | h
    · exact plain_of_mem_ofNumber h
    · exact plain_of_mem_ofNumber h
  | radius => exact plain_of_mem_ofNumber h
  | opacity => exact plain_of_mem_ofNumber h

private theorem plain_of_mem_ofTree {c : TokenClass} {tree : Tree} {x : Float}
    (h : .number x ∈ Sighting.ofTree tree c) : Plain x := by
  have below : ∀ nodes : List Node, .number x ∈ nodes.flatMap (Sighting.ofNode c) → Plain x := by
    intro nodes member
    obtain ⟨node, -, member⟩ := List.mem_flatMap.mp member
    exact plain_of_mem_ofNode member
  cases c with
  | opacity =>
    rcases List.mem_append.mp h with h | h
    · exact plain_of_mem_ofNumber h
    · exact below _ h
  | color => exact below _ h
  | typography => exact below _ h
  | fontFamily => exact below _ h
  | fontWeight => exact below _ h
  | spacing => exact below _ h
  | radius => exact below _ h

private theorem adds_texts {options : Options} {c : TokenClass} {seen : List Sighting} (uses : List String)
    (shown : uses.map Sighting.text = seen) (often : ∀ a b, Oftener seen a b → Before c seen a b)
    (carries : ∀ s, Carries c (.text s) (.text s)) :
    Adds options c seen
      ((gather options byUse uses).map fun entry => DesignToken.ofUses (.text entry.1) c entry.2) := by
  subst shown
  refine adds_gather text_injective carries ?_
  intro once
  exact ⟨Oftener uses, gather_byUse uses once, fun a b less => often _ _ (less.map text_injective)⟩

private theorem adds_numbers {options : Options} {c : TokenClass} {tree : Tree} (uses : List Float)
    (value : Float → Value) (shown : uses.map Sighting.number = Sighting.ofTree tree c)
    (rising : ∀ x y : Float, x < y → Before c (Sighting.ofTree tree c) (.number x) (.number y))
    (carries : ∀ x, Carries c (value x) (.number x)) :
    Adds options c (Sighting.ofTree tree c)
      ((gather options byValue uses).map fun entry => DesignToken.ofUses (value entry.1) c entry.2) := by
  have fits : ∀ x ∈ uses, Plain x := by
    intro x member
    have seen := List.mem_map_of_mem (f := Sighting.number) member
    rw [shown] at seen
    exact plain_of_mem_ofTree seen
  rw [← shown] at rising ⊢
  refine adds_gather number_injective carries ?_
  intro once
  exact ⟨(· < ·), gather_byValue uses once fits, rising⟩

private theorem adds_drafts (options : Options) (tree : Tree) (c : TokenClass) :
    Adds options c (Sighting.ofTree tree c) ((drafts options (.ofTree tree) c).map Draft.token) := by
  have order : tree.root.walk = tree.root.preorder := tree.root.walk_eq_preorder
  cases c with
  | color =>
    rw [drafts, map_token_draft]
    refine adds_texts _ ?_ (fun _ _ h => h) .color
    simp only [Usage.ofTree, Sighting.ofTree, order, List.map_flatMap, map_text_colors]
  | typography =>
    rw [drafts, map_token_draft]
    refine adds_numbers _ (fun size => .typography (typographyOf (.ofTree tree) size)) ?_
      (fun x y h => ⟨x, y, rfl, rfl, h⟩) (fun _ => .typography rfl)
    simp only [Usage.ofTree, Usage.fontSizes, Sighting.ofTree, order]
    exact filterMap_fonts _ _ _ _ map_sizes
  | fontFamily =>
    rw [drafts, map_token_draft]
    refine adds_texts _ ?_ (fun _ _ h => h) .fontFamily
    simp only [Usage.ofTree, Usage.families, Sighting.ofTree, order]
    exact filterMap_fonts _ _ _ _ map_families
  | fontWeight =>
    rw [drafts, map_token_draft]
    refine adds_texts _ ?_ (fun _ _ h => h) .fontWeight
    simp only [Usage.ofTree, Usage.weights, Sighting.ofTree, order]
    exact filterMap_fonts _ _ _ _ map_weights
  | spacing =>
    rw [drafts, map_token_draft]
    refine adds_numbers _ (fun px => .text (pxText px)) ?_ (fun x y h => ⟨x, y, rfl, rfl, h⟩) (fun _ => .spacing rfl)
    simp only [Usage.ofTree, Sighting.ofTree, order, List.map_flatMap, map_number_spacing]
  | radius =>
    rw [drafts, map_token_draft]
    refine adds_numbers _ (fun px => .text (pxText px)) ?_ (fun x y h => ⟨x, y, rfl, rfl, h⟩) (fun _ => .radius rfl)
    simp only [Usage.ofTree, Sighting.ofTree, order, List.map_flatMap, map_number_radii]
  | opacity =>
    rw [drafts, map_token_draft]
    refine adds_numbers _ (fun opacity => .number opacity) ?_ (fun x y h => ⟨x, y, rfl, rfl, h⟩) .opacity
    have each : ∀ node, (Use.opacities node).map Sighting.number = Sighting.ofNode .opacity node := by
      intro node
      rw [Use.opacities, map_number_finite]
      simp [Sighting.ofNode]
    simp only [Usage.ofTree, Sighting.ofTree, order, List.map_append, List.map_flatMap, each, map_number_finite]
    simp [Header.effectiveOpacity]

theorem pxText_injective {x y : Float} (hx : x.isFinite = true) (hy : y.isFinite = true)
    (same : pxText x = pxText y) : x = y := by
  apply plainText_injective hx hy
  have characters := congrArg String.toList same
  simp only [pxText, String.toList_append, List.append_cancel_right_eq] at characters
  exact String.toList_injective characters

private theorem eq_of_carries {c : TokenClass} {tree : Tree} {value : Value} {s t : Sighting}
    (hs : s ∈ Sighting.ofTree tree c) (ht : t ∈ Sighting.ofTree tree c) (first : Carries c value s)
    (second : Carries c value t) : s = t := by
  have texts {x y : Float} (hx : .number x ∈ Sighting.ofTree tree c) (hy : .number y ∈ Sighting.ofTree tree c)
      (same : pxText x = pxText y) : Sighting.number x = .number y :=
    congrArg Sighting.number (pxText_injective (plain_of_mem_ofTree hx).1 (plain_of_mem_ofTree hy).1 same)
  cases first with
  | color s => cases second; rfl
  | typography size =>
    cases second with
    | typography other => exact texts hs ht (size.symm.trans other)
  | fontFamily s => cases second; rfl
  | fontWeight s => cases second; rfl
  | spacing length =>
    cases second with
    | spacing other => exact texts hs ht (length.symm.trans other)
  | radius length =>
    cases second with
    | radius other => exact texts hs ht (length.symm.trans other)
  | opacity x => cases second; rfl

theorem exists_of_forall₂ {β γ : Type} {R : β → γ → Prop} {xs : List β} {ys : List γ}
    (h : List.Forall₂ R xs ys) {x : β} (member : x ∈ xs) : ∃ y ∈ ys, R x y := by
  induction h with
  | nil => exact absurd member List.not_mem_nil
  | cons first rest ih =>
    rcases List.mem_cons.mp member with rfl | member
    · exact ⟨_, List.mem_cons_self .., first⟩
    · obtain ⟨y, there, related⟩ := ih member
      exact ⟨y, List.mem_cons_of_mem _ there, related⟩

private theorem nodup_values {c : TokenClass} {tree : Tree} {tokens : List DesignToken}
    {entries : List (Sighting × Nat)} (tells : Tells c tokens entries)
    (shown : ∀ entry ∈ entries, entry.1 ∈ Sighting.ofTree tree c)
    (distinct : (entries.map Prod.fst).Nodup) : (tokens.map DesignToken.value).Nodup := by
  induction tells with
  | nil => exact List.nodup_nil
  | cons first rest ih =>
    rename_i token entry tokens entries
    rw [List.map_cons, List.nodup_cons] at distinct ⊢
    refine ⟨?_, ih (fun entry member => shown entry (List.mem_cons_of_mem _ member)) distinct.2⟩
    intro again
    obtain ⟨other, member, same⟩ := List.mem_map.mp again
    obtain ⟨seen, there, second⟩ := exists_of_forall₂ rest member
    have equal := eq_of_carries (shown entry (List.mem_cons_self ..)) (shown seen (List.mem_cons_of_mem _ there))
      first.1 (same ▸ second.1)
    exact distinct.1 (equal ▸ List.mem_map_of_mem there)

theorem exists_carries {options : Options} {tree : Tree} {c : TokenClass} {entry : String × DesignToken}
    (member : entry ∈ (extract options tree).get c) :
    ∃ sighting ∈ Sighting.ofTree tree c, Carries c entry.2.value sighting := by
  obtain ⟨entries, tells, gathered⟩ := adds_drafts options tree c
  rw [← map_snd_get_extract] at tells
  obtain ⟨told, there, carries, -⟩ := exists_of_forall₂ tells (List.mem_map_of_mem member)
  refine ⟨told.1, ?_, carries⟩
  split at gathered
  · exact (gathered.values _).mp (List.mem_map_of_mem there)
  · rw [gathered] at there
    obtain ⟨sighting, shown, rfl⟩ := List.mem_map.mp there
    exact shown

theorem isFinite_of_mem_extract {options : Options} {tree : Tree} {c : TokenClass} {entry : String × DesignToken}
    (member : entry ∈ (extract options tree).get c) {x : Float} (number : entry.2.value = .number x) :
    x.isFinite = true := by
  obtain ⟨sighting, shown, carries⟩ := exists_carries member
  rw [number] at carries
  cases carries
  exact (plain_of_mem_ofTree shown).1

/-- The catalog of a design has different names throughout, and in each class the tokens of what the design shows. -/
theorem extract_sightings (options : Options) (tree : Tree) :
    ((extract options tree).toList.map fun entry => entry.2.1).Nodup ∧
    ∀ c, Sums options c (Sighting.ofTree tree c) (((extract options tree).get c).map Prod.snd) := by
  refine ⟨nodup_names_extract options tree, ?_⟩
  intro c
  obtain ⟨entries, tells, gathered⟩ := adds_drafts options tree c
  rw [← map_snd_get_extract] at tells
  refine ⟨entries, tells, ?_⟩
  split
  · rename_i once
    rw [if_pos once] at gathered
    have shown : ∀ entry ∈ entries, entry.1 ∈ Sighting.ofTree tree c := by
      intro entry member
      exact (gathered.values _).mp (List.mem_map_of_mem member)
    exact ⟨gathered, nodup_values tells shown gathered.nodup⟩
  · rename_i each
    rwa [if_neg each] at gathered

end Handoff.Token
