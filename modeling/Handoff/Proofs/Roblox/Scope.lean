import Handoff.Proofs.Roblox.Hierarchy
import Handoff.Proofs.Roblox.Line

set_option autoImplicit false
set_option relaxedAutoImplicit false

/-!
The scopes of the locals of a script, by its text.

`Scope.follow` goes through what the lines do and stops at the first that breaks the discipline of scopes: a block in a
block, an end without a block, a name that is declared again, or an assignment to what is no local in scope. On its way
it notes the names in expressions that are neither locals in scope nor the engine's. The script of a design is followed
to its end, and such names are in it just where a length cannot be scaled by a thousand.
-/

namespace Handoff.Roblox
open Design

/-- The locals of a script so far: those outside of blocks, those of the block that is open, and those of each block
that has ended. Names that are used without having been declared are strays. -/
structure Scope where
  outer : List String := []
  block : Option (List String) := none
  ended : List (List String) := []
  stray : List String := []
  deriving DecidableEq, Repr

namespace Scope

def visible (s : Scope) : List String :=
  s.outer ++ s.block.getD []

/-- All names that were ever declared. -/
def names (s : Scope) : List String :=
  s.visible ++ s.ended.flatten

/-- The names used that are neither in scope nor the engine's. -/
def unknown (s : Scope) (used : List String) : List String :=
  (foreign used).filter (· ∉ s.visible)

def miss (s : Scope) (names : List String) : Scope :=
  { s with stray := s.stray ++ names }

/-- Declares names one after the other, in the block that is open or outside of blocks. -/
def declare (s : Scope) (names : List String) : Scope :=
  match s.block with
  | some held => { s with block := some (held ++ names) }
  | none => { s with outer := s.outer ++ names }

/-- What a line leads to; `none` where it breaks the discipline. -/
def step (s : Scope) : Line → Option Scope
  | .blank => some s
  | .opening =>
    match s.block with
    | none => some { s with block := some [] }
    | some _ => none
  | .closing =>
    match s.block with
    | some held => some { s with block := none, ended := s.ended ++ [held] }
    | none => none
  | .declare name used => if name ∉ s.names then some ((s.declare [name]).miss (s.unknown used)) else none
  | .assign name used => if name ∈ s.visible then some (s.miss (s.unknown used)) else none

def follow : List Line → Scope → Option Scope
  | [], s => some s
  | line :: rest, s => (s.step line).bind (follow rest)

/-- The scopes at the end of a script, from its text. -/
def ofText? (text : String) : Option Scope :=
  (Line.readAll? (Text.lines text)).bind fun lines => follow lines {}

end Scope

namespace Scope

theorem follow_append (first second : List Line) (s : Scope) :
    follow (first ++ second) s = (follow first s).bind (follow second) := by
  induction first generalizing s with
  | nil => rfl
  | cons line rest ih =>
    rw [List.cons_append, follow, follow]
    cases s.step line with
    | none => rfl
    | some t => exact ih t

theorem visible_declare (s : Scope) (names : List String) : (s.declare names).visible = s.visible ++ names := by
  obtain ⟨outer, block, ended, stray⟩ := s
  cases block with
  | none => simp [declare, visible]
  | some held => simp [declare, visible]

theorem ended_declare (s : Scope) (names : List String) : (s.declare names).ended = s.ended := by
  obtain ⟨outer, block, ended, stray⟩ := s
  cases block <;> rfl

theorem declare_append (s : Scope) (first second : List String) :
    (s.declare first).declare second = s.declare (first ++ second) := by
  obtain ⟨outer, block, ended, stray⟩ := s
  cases block <;> simp [declare]

theorem declare_nil (s : Scope) : s.declare [] = s := by
  obtain ⟨outer, block, ended, stray⟩ := s
  cases block <;> simp [declare]

theorem miss_nil (s : Scope) : s.miss [] = s := by
  simp [miss]

theorem miss_append (s : Scope) (first second : List String) :
    (s.miss first).miss second = s.miss (first ++ second) := by
  simp [miss]

theorem declare_miss (s : Scope) (found names : List String) :
    (s.miss found).declare names = (s.declare names).miss found := by
  obtain ⟨outer, block, ended, stray⟩ := s
  cases block <;> rfl

theorem unknown_eq_nil {s : Scope} {used : List String} (none : foreign used = []) : s.unknown used = [] := by
  rw [unknown, none, List.filter_nil]

/-- True of scopes with names that were given out up to a number. -/
def Known (last : Nat) (s : Scope) : Prop :=
  ∀ name ∈ s.names, ∃ v : Variable, v.Given last ∧ v.name = name

variable {s : Scope} {last : Nat}

theorem Known.fresh (known : s.Known last) {n : Nat} (later : last < n) (cls : Class) :
    (Variable.numbered cls n).name ∉ s.names := by
  intro member
  obtain ⟨v, given, same⟩ := known _ member
  exact given.name_ne later cls same

private theorem name_ne_infinite (v : Variable) : v.name ≠ "inf" := by
  cases v with
  | players | player | playerGui | screenGui => decide
  | numbered cls n =>
    intro same
    have mark := congrArg (fun s => '_' ∈ s.toList) same
    rw [Variable.name, String.toList_append, String.toList_append] at mark
    exact absurd mark (by simp)

theorem Known.unknown_expression (known : s.Known last) (units : Units) {value : Value} (plain : value.Plain) :
    s.unknown (uses (value.expression units)) = straysOf units value.lengths := by
  rw [unknown, foreign_expression units plain]
  refine List.filter_eq_self.mpr fun name member => decide_eq_true fun visible => ?_
  obtain ⟨v, -, same⟩ := known name (List.mem_append_left _ visible)
  exact name_ne_infinite v (same.trans (eq_of_mem_straysOf member))

theorem Known.mono (known : s.Known last) {later : Nat} (le : last ≤ later) : s.Known later := by
  intro name member
  obtain ⟨v, given, same⟩ := known name member
  exact ⟨v, given.mono le, same⟩

theorem Known.declare (known : s.Known last) (cls : Class) :
    (s.declare [(Variable.numbered cls (last + 1)).name]).Known (last + 1) := by
  intro name member
  rw [names, visible_declare, ended_declare, List.append_assoc, List.mem_append, List.mem_append] at member
  rcases member with held | held | held
  · exact known.mono (Nat.le_succ last) name (List.mem_append_left _ held)
  · obtain rfl := List.mem_singleton.mp held
    exact ⟨.numbered cls (last + 1), Nat.le_refl _, rfl⟩
  · exact known.mono (Nat.le_succ last) name (List.mem_append_right _ held)

/-- The scopes within a block that has just been opened. -/
def opened (s : Scope) : Scope :=
  { s with block := some [] }

def enclose (s : Scope) (names : List String) : Scope :=
  { s with ended := s.ended ++ [names] }

theorem visible_opened (outside : s.block = none) : s.opened.visible = s.visible := by
  simp [opened, visible, outside]

theorem Known.opened (known : s.Known last) (outside : s.block = none) : s.opened.Known last := by
  unfold Known names at known ⊢
  rwa [visible_opened outside]

theorem Known.enclose {names : List String} (known : (s.opened.declare names).Known last) (outside : s.block = none) :
    (s.enclose names).Known last := by
  intro name member
  refine known name ?_
  simp only [Scope.names, visible, Scope.enclose, outside, List.flatten_append, List.mem_append] at member
  simp only [Scope.names, visible, Scope.opened, Scope.declare, List.mem_append]
  simpa [or_assoc, or_comm, or_left_comm] using member

/-- What a part of a script that stands outside of blocks makes of the scopes: it declares one local for each
container, and between one and three in each block; it uses some names without a declaration, and what it has given out
ends with a number. -/
structure Grows (s t : Scope) (containers : Nat) (found : List String) (last : Nat) : Prop where
  outer : ∃ more, t.outer = s.outer ++ more ∧ more.length = containers
  block : t.block = none
  ended : ∀ names ∈ t.ended, names ∈ s.ended ∨ 1 ≤ names.length ∧ names.length ≤ 3
  stray : t.stray = s.stray ++ found
  known : t.Known last

theorem Grows.refl (known : s.Known last) (outside : s.block = none) : s.Grows s 0 [] last where
  outer := ⟨[], by simp⟩
  block := outside
  ended := fun _ member => .inl member
  stray := (List.append_nil _).symm
  known := known

theorem Grows.trans {t u : Scope} {m n mid : Nat} {found more : List String} (first : s.Grows t m found mid)
    (second : t.Grows u n more last) : s.Grows u (m + n) (found ++ more) last where
  outer := by
    obtain ⟨here, added, length⟩ := first.outer
    obtain ⟨there, more, size⟩ := second.outer
    exact ⟨here ++ there, by rw [more, added, List.append_assoc], by simp [length, size]⟩
  block := second.block
  ended := fun names member => (second.ended names member).elim (first.ended names) .inr
  stray := by rw [second.stray, first.stray, List.append_assoc]
  known := second.known

theorem Grows.visible {t : Scope} {containers : Nat} {found : List String} (grows : s.Grows t containers found last)
    (outside : s.block = none) {name : String} (member : name ∈ s.visible) : name ∈ t.visible := by
  obtain ⟨more, added, -⟩ := grows.outer
  simp only [Scope.visible, outside, Option.getD_none, List.append_nil] at member
  simp [Scope.visible, added, member]

theorem Grows.declare (known : s.Known last) (outside : s.block = none) (cls : Class) (found : List String) :
    s.Grows ((s.declare [(Variable.numbered cls (last + 1)).name]).miss found) 1 found (last + 1) where
  outer := ⟨_, by rw [miss, Scope.declare, outside], rfl⟩
  block := by rw [miss, Scope.declare, outside]
  ended := fun _ member => .inl (s.ended_declare _ ▸ member)
  stray := by rw [miss, Scope.declare, outside]
  known := known.declare cls

theorem Grows.enclose {names : List String} (known : (s.opened.declare names).Known last) (outside : s.block = none)
    (nonempty : 1 ≤ names.length) (few : names.length ≤ 3) (found : List String) :
    s.Grows ((s.enclose names).miss found) 0 found last where
  outer := ⟨[], by simp [Scope.enclose, miss]⟩
  block := outside
  ended := by
    intro held member
    rcases List.mem_append.mp member with member | member
    · exact .inl member
    · obtain rfl := List.mem_singleton.mp member
      exact .inr ⟨nonempty, few⟩
  stray := rfl
  known := known.enclose outside

end Scope

section Lengths

def placeLengths (h : Header) : List Float :=
  [h.positionOrOrigin.x, h.positionOrOrigin.y, h.sizeOrZero.width, h.sizeOrZero.height]

def cornerLengths : Option Float → List Float
  | some radius => if 0 < radius then [radius] else []
  | none => []

def paddingLengths : Option Padding → List Float
  | some (.uniform value) => [value, value, value, value]
  | some (.sides top right bottom left) => [top, right, bottom, left]
  | none => []

def strokeLengths (stroke : Option String) (width : Option Float) : List Float :=
  if (paint? stroke).isSome then [width.getD 1] else []

/-- The lengths of a node that a script shows. -/
def shownLengths : Node → List Float
  | .container h (.panel _ a) _ => placeLengths h ++ (cornerLengths a.radius ++ paddingLengths a.padding)
  | .container h (.stack a) _ => placeLengths h ++ (paddingLengths a.padding ++ [a.gap.getD 0])
  | .container h (.grid a) _ =>
    placeLengths h ++ (paddingLengths a.padding ++ [cellSide h a, cellSide h a, a.gap.getD 0, a.gap.getD 0])
  | .leaf h (.rect a) => placeLengths h ++ (cornerLengths a.radius ++ strokeLengths a.stroke a.strokeWidth)
  | .leaf h (.ellipse a) => placeLengths h ++ strokeLengths a.stroke a.strokeWidth
  | .leaf h (.text a) => placeLengths h ++ [a.resolvedFontSize]
  | .leaf h (.image a) => placeLengths h ++ cornerLengths a.radius
  | .leaf _ _ => []

def settingLengths (settings : List (Property × Value)) : List Float :=
  settings.flatMap fun p => p.2.lengths

def widgetLengths (ws : List Widget) : List Float :=
  ws.flatMap fun w => settingLengths w.settings

@[simp]
private theorem settingLengths_nil : settingLengths [] = [] :=
  rfl

@[simp]
private theorem settingLengths_cons (p : Property) (value : Value) (rest : List (Property × Value)) :
    settingLengths ((p, value) :: rest) = value.lengths ++ settingLengths rest :=
  rfl

@[simp]
private theorem widgetLengths_singleton (w : Widget) : widgetLengths [w] = settingLengths w.settings :=
  List.flatMap_singleton ..

@[simp]
private theorem settingLengths_append (first second : List (Property × Value)) :
    settingLengths (first ++ second) = settingLengths first ++ settingLengths second :=
  List.flatMap_append

@[simp]
private theorem widgetLengths_append (first second : List Widget) :
    widgetLengths (first ++ second) = widgetLengths first ++ widgetLengths second :=
  List.flatMap_append

@[simp]
private theorem lengths_common (h : Header) (order : Option Nat) :
    settingLengths (commonSettings h order) = placeLengths h := by
  cases order <;> rfl

@[simp]
private theorem lengths_background (h : Header) (paint : Option String) :
    settingLengths (backgroundSettings h paint) = [] := by
  unfold backgroundSettings
  cases paint? paint <;> rfl

@[simp]
private theorem lengths_clear : settingLengths clearSettings = [] :=
  rfl

@[simp]
private theorem lengths_nonzero (p : Property) (x : Float) : settingLengths (nonzero p x) = [] := by
  unfold nonzero
  split <;> rfl

@[simp]
private theorem lengths_choice (p : Property) (item : Option String) : settingLengths (choiceSetting p item) = [] := by
  cases item <;> rfl

@[simp]
private theorem lengths_opacity (p : Property) (h : Header) :
    settingLengths (if h.effectiveOpacity < 1 then [(p, .ratio (transparency 1 h.effectiveOpacity))] else []) = [] := by
  split <;> rfl

@[simp]
private theorem lengths_textPaint (h : Header) (t : Label) : settingLengths (textPaint h t) = [] := by
  unfold textPaint
  cases paint? t.color with
  | none => exact lengths_opacity _ h
  | some c => exact lengths_nonzero _ _

@[simp]
private theorem lengths_corner (radius : Option Float) : widgetLengths (cornerWidgets radius) = cornerLengths radius := by
  cases radius with
  | none => rfl
  | some r =>
    unfold cornerWidgets cornerLengths
    simp only
    split <;> rfl

@[simp]
private theorem lengths_padding (padding : Option Padding) :
    widgetLengths (paddingWidgets padding) = paddingLengths padding := by
  unfold paddingWidgets paddingLengths
  split <;> rfl

@[simp]
private theorem lengths_stroke (h : Header) (stroke : Option String) (width : Option Float) :
    widgetLengths (strokeWidgets h stroke width) = strokeLengths stroke width := by
  unfold strokeWidgets strokeLengths
  cases paint? stroke with
  | none => rfl
  | some c => simp [Value.lengths, rgb]

private theorem lengths_list (a : Stack) : settingLengths (listWidget a).settings = [a.gap.getD 0] := by
  unfold listWidget
  cases a.direction <;> simp [Value.lengths]

private theorem lengths_frame (h : Header) (order : Option Nat) (paint : Option String) (clips : Bool) :
    settingLengths (frameWidget h order paint clips).settings = placeLengths h := by
  cases clips <;> simp [frameWidget, Value.lengths]

private theorem lengths_node (order : Option Nat) (node : Node) {w : Widget} (main : mainWidget? order node = some w) :
    settingLengths w.settings ++ widgetLengths (decorationWidgets node) = shownLengths node := by
  cases node with
  | container h kind children =>
    obtain rfl := Option.some.inj main
    cases kind with
    | panel role a =>
      simp [containerWidget, lengths_frame, decorationWidgets, containerDecorations, shownLengths]
    | stack a =>
      simp [containerWidget, lengths_frame, decorationWidgets, containerDecorations, shownLengths, lengths_list]
    | grid a =>
      simp [containerWidget, lengths_frame, decorationWidgets, containerDecorations, gridWidget, shownLengths,
        Value.lengths]
  | leaf h kind =>
    cases kind with
    | rect a =>
      obtain rfl := Option.some.inj main
      simp [lengths_frame, decorationWidgets, leafDecorations, shownLengths]
    | ellipse a =>
      obtain rfl := Option.some.inj main
      rw [lengths_frame, decorationWidgets, leafDecorations, shownLengths, ← lengths_stroke h]
      rfl
    | text a =>
      obtain rfl := Option.some.inj main
      simp [labelWidget, fontValue, decorationWidgets, leafDecorations, shownLengths, Value.lengths, widgetLengths]
    | image a =>
      obtain rfl := Option.some.inj main
      simp [imageWidget, decorationWidgets, leafDecorations, shownLengths, Value.lengths]
    | line | path | unknown => cases main

private theorem lengths_not_drawn {h : Header} {order : Option Nat} {kind : Leaf}
    (none : leafWidget? h order kind = none) : shownLengths (.leaf h kind) = [] := by
  cases kind with
  | rect | ellipse | text | image => cases none
  | line | path | unknown => rfl

end Lengths

section Following

variable (units : Units)

private def Widget.effects (w : Widget) (v parent : Variable) : List Line :=
  (w.statements v parent).map (Statement.effect units)

private theorem follow_settings {s : Scope} {last : Nat} (known : s.Known last) {v : Variable}
    (visible : v.name ∈ s.visible) {settings : List (Property × Value)} (plain : PlainSettings settings) :
    Scope.follow (settings.map fun p => (Statement.set v p.1 p.2).effect units) s =
      some (s.miss (straysOf units (settingLengths settings))) := by
  induction settings generalizing s with
  | nil => exact congrArg some s.miss_nil.symm
  | cons p rest ih =>
    obtain ⟨first, others⟩ := List.forall_mem_cons.mp plain
    have later : Scope.Known last (s.miss (straysOf units p.2.lengths)) := known
    rw [List.map_cons, Scope.follow, Statement.effect, Scope.step, if_pos visible, Option.bind_some,
      known.unknown_expression units first, ih later visible others, Scope.miss_append, ← straysOf_append]
    rfl

private theorem follow_widget {s : Scope} {last : Nat} {v parent : Variable} {w : Widget}
    (plain : PlainSettings w.settings) (fresh : v.name ∉ s.names) (held : parent.name ∈ s.visible)
    (known : (s.declare [v.name]).Known last) :
    Scope.follow (w.effects units v parent) s =
      some ((s.declare [v.name]).miss (straysOf units (settingLengths w.settings))) := by
  have visible : v.name ∈ (s.declare [v.name]).visible := by simp [Scope.visible_declare]
  have above : ((s.declare [v.name]).miss (straysOf units (settingLengths w.settings))).unknown (uses parent.name) =
      [] := by
    rw [uses_variable, Scope.unknown]
    refine List.filter_eq_nil_iff.mpr fun name member => ?_
    obtain rfl := List.mem_singleton.mp (List.mem_of_mem_filter member)
    have inside : parent.name ∈ (s.declare [v.name]).visible := by
      rw [Scope.visible_declare]
      exact List.mem_append_left _ held
    exact fun outside => of_decide_eq_true outside inside
  have made : s.unknown (uses (Origin.fresh w.cls).expression) = [] := Scope.unknown_eq_nil (foreign_fresh w.cls)
  have settings := follow_settings units known visible plain
  have still : v.name ∈ ((s.declare [v.name]).miss (straysOf units (settingLengths w.settings))).visible := visible
  rw [Widget.effects, Widget.statements, List.map_append, List.map_cons, List.map_map, List.cons_append, Scope.follow]
  rw [Statement.effect, Scope.step, if_pos fresh, Option.bind_some, made, Scope.miss_nil]
  rw [Scope.follow_append, Function.comp_def, settings, Option.bind_some]
  rw [List.map_singleton, Statement.effect, Scope.follow, Scope.step, if_pos still, above, Scope.miss_nil]
  rfl

private theorem follow_statements (list : List Statement) (s : Scope) :
    Scope.follow ((list.map Chunk.statement).flatMap (Chunk.effects units)) s =
      Scope.follow (list.map (Statement.effect units)) s := by
  induction list generalizing s with
  | nil => rfl
  | cons first rest ih =>
    have lead : Scope.follow (first.lead.map fun _ => .blank) s = some s := by
      unfold Statement.lead
      split <;> rfl
    simp only [List.map_cons, List.flatMap_cons, Chunk.effects, List.append_assoc]
    rw [Scope.follow_append, lead, Option.bind_some, List.singleton_append, Scope.follow, Scope.follow]
    congr 1
    exact funext ih

private theorem follow_decorate (target : Variable) {ws : List Widget} (plain : ∀ w ∈ ws, PlainSettings w.settings)
    {last : Nat} {s : Scope} (known : s.Known last) (held : target.name ∈ s.visible) :
    ∃ names, names.length = ws.length ∧ (s.declare names).Known (last + ws.length) ∧
      Scope.follow ((decorate target last ws).flatten.map (Statement.effect units)) s =
        some ((s.declare names).miss (straysOf units (widgetLengths ws))) := by
  induction ws generalizing last s with
  | nil => exact ⟨[], rfl, s.declare_nil.symm ▸ known, by rw [s.declare_nil]; exact congrArg some s.miss_nil.symm⟩
  | cons w ws ih =>
    obtain ⟨own, others⟩ := List.forall_mem_cons.mp plain
    let name := (Variable.numbered w.cls (last + 1)).name
    let found := straysOf units (settingLengths w.settings)
    have first := follow_widget units own (known.fresh (Nat.lt_succ_self last) w.cls) held (known.declare w.cls)
    have inside : target.name ∈ (s.declare [name]).visible := by
      rw [Scope.visible_declare]
      exact List.mem_append_left _ held
    have known' : Scope.Known (last + 1) ((s.declare [name]).miss found) := known.declare w.cls
    obtain ⟨names, length, after, rest⟩ := ih others known' inside
    refine ⟨name :: names, congrArg Nat.succ length, ?_, ?_⟩
    · rw [Scope.declare_miss, Scope.declare_append, List.singleton_append] at after
      rw [List.length_cons, Nat.add_comm ws.length, ← Nat.add_assoc]
      exact after
    · rw [decorate, List.flatten_cons, List.map_append, Scope.follow_append]
      rw [Widget.effects] at first
      rw [first, Option.bind_some, rest, Scope.declare_miss, Scope.declare_append, List.singleton_append,
        Scope.miss_append, ← straysOf_append]
      rfl

private theorem follow_block {s : Scope} {body : List Statement} {names found : List String} (outside : s.block = none)
    (inner : Scope.follow (body.map (Statement.effect units)) s.opened = some ((s.opened.declare names).miss found)) :
    Scope.follow (Chunk.effects units (.block body)) s = some ((s.enclose names).miss found) := by
  have opening : Scope.follow [.blank, .opening] s = some s.opened := by
    simp [Scope.follow, Scope.step, outside, Scope.opened]
  have closing : Scope.follow [.closing] ((s.opened.declare names).miss found) = some ((s.enclose names).miss found) := by
    simp [Scope.follow, Scope.step, Scope.opened, Scope.declare, Scope.enclose, Scope.miss, outside]
  rw [Chunk.effects, Scope.follow_append, Scope.follow_append, opening, Option.bind_some, inner, Option.bind_some,
    closing]

private theorem follow_adorn (target : Variable) {ws : List Widget} (plain : ∀ w ∈ ws, PlainSettings w.settings)
    {last : Nat} {s : Scope} (known : s.Known last) (outside : s.block = none) (held : target.name ∈ s.visible) :
    ∃ t, Scope.follow (((decorate target last ws).map Chunk.block).flatMap (Chunk.effects units)) s = some t ∧
      s.Grows t 0 (straysOf units (widgetLengths ws)) (last + ws.length) := by
  induction ws generalizing last s with
  | nil => exact ⟨s, rfl, .refl known outside⟩
  | cons w ws ih =>
    obtain ⟨own, others⟩ := List.forall_mem_cons.mp plain
    let name := (Variable.numbered w.cls (last + 1)).name
    let found := straysOf units (settingLengths w.settings)
    have within : target.name ∈ s.opened.visible := (Scope.visible_opened outside).symm ▸ held
    have opened := known.opened outside
    have inner := follow_widget units own (opened.fresh (Nat.lt_succ_self last) w.cls) within (opened.declare w.cls)
    have first : s.Grows ((s.enclose [name]).miss found) 0 found (last + 1) :=
      .enclose (opened.declare w.cls) outside (by simp) (by simp) found
    obtain ⟨t, rest, grows⟩ := ih others first.known first.block (first.visible outside held)
    refine ⟨t, ?_, ?_⟩
    · rw [decorate, List.map_cons, List.flatMap_cons, Scope.follow_append, follow_block units outside inner,
        Option.bind_some, rest]
    · rw [List.length_cons, Nat.add_comm ws.length, ← Nat.add_assoc]
      have both := first.trans grows
      rwa [← straysOf_append] at both

private theorem length_cornerWidgets (radius : Option Float) : (cornerWidgets radius).length ≤ 1 := by
  unfold cornerWidgets
  split
  · split <;> simp
  · simp

private theorem length_strokeWidgets (h : Header) (stroke : Option String) (width : Option Float) :
    (strokeWidgets h stroke width).length ≤ 1 := by
  unfold strokeWidgets
  split <;> simp

private theorem length_leafDecorations (h : Header) (kind : Leaf) : (leafDecorations h kind).length ≤ 2 := by
  cases kind with
  | rect a =>
    have corner := length_cornerWidgets a.radius
    have stroke := length_strokeWidgets h a.stroke a.strokeWidth
    rw [leafDecorations, List.length_append]
    omega
  | ellipse a => exact Nat.succ_le_succ (length_strokeWidgets h a.stroke a.strokeWidth)
  | image a => exact (length_cornerWidgets a.radius).trans (Nat.le_succ 1)
  | text | line | path | unknown => exact Nat.zero_le 2

/-- A leaf is drawn in a block of its own, which opens with the main instance that the decorations are then put
under. -/
private theorem follow_leaf {parent : Variable} {order : Option Nat} {last : Nat} {header : Header} {kind : Leaf}
    {w : Widget} (drawn : leafWidget? header order kind = some w) {s : Scope} (known : s.Known last)
    (outside : s.block = none) (held : parent.name ∈ s.visible) :
    ∃ t, Scope.follow ((draw parent order last (.leaf header kind)).script.flatMap (Chunk.effects units)) s = some t ∧
      s.Grows t 0 (straysOf units (shownLengths (.leaf header kind)))
        (draw parent order last (.leaf header kind)).last := by
  let v := Variable.numbered w.cls (last + 1)
  have within : parent.name ∈ s.opened.visible := (Scope.visible_opened outside).symm ▸ held
  have opened := known.opened outside
  have plain : ∀ w ∈ leafDecorations header kind, PlainSettings w.settings := plain_decoration (.leaf header kind)
  have main := follow_widget units (plain_mainWidget order (.leaf header kind) w drawn)
    (opened.fresh (Nat.lt_succ_self last) w.cls) within (opened.declare w.cls)
  have declared : Scope.Known (last + 1)
      ((s.opened.declare [v.name]).miss (straysOf units (settingLengths w.settings))) := opened.declare w.cls
  have visible : v.name ∈ (s.opened.declare [v.name]).visible := by simp [Scope.visible_declare]
  obtain ⟨names, length, after, rest⟩ := follow_decorate units v plain declared visible
  rw [Scope.declare_miss, Scope.declare_append] at after rest
  rw [Scope.miss_append, ← straysOf_append] at rest
  have all : Scope.Known _ (s.opened.declare ([v.name] ++ names)) := after
  have few := length_leafDecorations header kind
  rw [draw, drawn]
  refine ⟨(s.enclose ([v.name] ++ names)).miss (straysOf units (shownLengths (.leaf header kind))), ?_, ?_⟩
  · rw [List.flatMap_singleton, ← lengths_node order (.leaf header kind) drawn]
    refine follow_block units outside ?_
    rw [List.map_append, Scope.follow_append]
    rw [Widget.effects] at main
    rw [main, Option.bind_some, rest]
    rfl
  · exact .enclose all outside (by simp) (by simp [length]; omega) _

/-- The number of containers in a tree. -/
def containerCount (node : Node) : Nat :=
  node.preorder.countP fun n => !n.isLeaf

mutual

/-- What is drawn for a node keeps to the scopes, under a parent that is in scope outside of blocks. -/
theorem follow_draw (parent : Variable) (order : Option Nat) (last : Nat) (node : Node) {s : Scope}
    (known : s.Known last) (outside : s.block = none) (held : parent.name ∈ s.visible) :
    ∃ t, Scope.follow ((draw parent order last node).script.flatMap (Chunk.effects units)) s = some t ∧
      s.Grows t (containerCount node) (straysOf units (node.preorder.flatMap shownLengths))
        (draw parent order last node).last := by
  cases node with
  | leaf header kind =>
    rw [Node.preorder, List.flatMap_singleton]
    cases drawn : leafWidget? header order kind with
    | none =>
      rw [draw, drawn, lengths_not_drawn drawn]
      exact ⟨s, rfl, .refl known outside⟩
    | some w => exact follow_leaf units drawn known outside held
  | container header kind children =>
    let w := containerWidget header order kind
    let v := Variable.numbered w.cls (last + 1)
    let decorations := containerDecorations header kind
    have plain : ∀ w ∈ decorations, PlainSettings w.settings := plain_decoration (.container header kind children)
    have main := follow_widget units (plain_mainWidget order (.container header kind children) w rfl)
      (known.fresh (Nat.lt_succ_self last) w.cls) held (known.declare w.cls)
    have declared : s.Grows ((s.declare [v.name]).miss (straysOf units (settingLengths w.settings))) 1
        (straysOf units (settingLengths w.settings)) (last + 1) := .declare known outside w.cls _
    have visible : v.name ∈ (s.declare [v.name]).visible := by simp [Scope.visible_declare]
    obtain ⟨t, adorned, adds⟩ := follow_adorn units v plain declared.known declared.block visible
    obtain ⟨u, below, grows⟩ := follow_drawAll v (ranksChildren kind) 1 (last + 1 + decorations.length) children
      adds.known adds.block (adds.visible declared.block visible)
    refine ⟨u, ?_, ?_⟩
    · rw [draw, List.flatMap_append, List.flatMap_append, Scope.follow_append, Scope.follow_append, follow_statements]
      rw [Widget.effects] at main
      rw [main, Option.bind_some, adorned, Option.bind_some, below]
    · have count : containerCount (.container header kind children) =
          1 + 0 + (Node.preorders children).countP fun n => !n.isLeaf := by
        simp [containerCount, Node.preorder, Node.isLeaf, Nat.add_comm]
      rw [draw, count, Node.preorder, List.flatMap_cons, straysOf_append,
        ← lengths_node order (.container header kind children) rfl, straysOf_append]
      exact (declared.trans adds).trans grows

theorem follow_drawAll (parent : Variable) (ranked : Bool) (rank last : Nat) (nodes : List Node) {s : Scope}
    (known : s.Known last) (outside : s.block = none) (held : parent.name ∈ s.visible) :
    ∃ t, Scope.follow ((drawAll parent ranked rank last nodes).script.flatMap (Chunk.effects units)) s = some t ∧
      s.Grows t ((Node.preorders nodes).countP fun n => !n.isLeaf)
        (straysOf units ((Node.preorders nodes).flatMap shownLengths)) (drawAll parent ranked rank last nodes).last := by
  cases nodes with
  | nil => exact ⟨s, rfl, .refl known outside⟩
  | cons node rest =>
    obtain ⟨t, here, grows⟩ := follow_draw parent (if ranked then some rank else none) last node known outside held
    obtain ⟨u, after, others⟩ := follow_drawAll parent ranked (rank + 1)
      (draw parent (if ranked then some rank else none) last node).last rest grows.known grows.block
      (grows.visible outside held)
    refine ⟨u, ?_, ?_⟩
    · rw [drawAll, List.flatMap_append, Scope.follow_append, here, Option.bind_some, after]
    · rw [Node.preorders, List.countP_append, List.flatMap_append, straysOf_append, drawAll]
      exact grows.trans others

end

private def opening : Scope :=
  { outer := ["Players", "player", "playerGui", "screenGui"] }

private theorem known_opening : opening.Known 0 := by
  intro name member
  have cases : name = "Players" ∨ name = "player" ∨ name = "playerGui" ∨ name = "screenGui" := by
    simpa [opening, Scope.names, Scope.visible] using member
  rcases cases with rfl | rfl | rfl | rfl
  · exact ⟨.players, trivial, rfl⟩
  · exact ⟨.player, trivial, rfl⟩
  · exact ⟨.playerGui, trivial, rfl⟩
  · exact ⟨.screenGui, trivial, rfl⟩

private theorem follow_preamble (options : Options) :
    Scope.follow ((preamble options).flatMap (Chunk.effects units)) {} = some opening := by
  have finding : Scope.follow (([.declare .players (.service "Players"),
        .declare .player (.member .players "LocalPlayer"), .declare .playerGui (.child .player "PlayerGui")] :
          List Statement).map (Statement.effect units)) {} =
      some { outer := ["Players", "player", "playerGui"] } := by
    rfl
  have screen := @follow_widget units { outer := ["Players", "player", "playerGui"] } 0 .screenGui .playerGui
    (screenWidget options) (plain_screen options) (by decide) (by decide) known_opening
  rw [preamble, follow_statements, List.map_append, Scope.follow_append, finding, Option.bind_some]
  rw [Widget.effects] at screen
  exact screen

private theorem exists_grows (options : Options) (tree : Tree) :
    ∃ final, Scope.ofText? (generate options units tree) = some final ∧
      opening.Grows final (containerCount tree.root) (straysOf units (tree.root.preorder.flatMap shownLengths))
        (scriptOf options tree).last ∧
      final.stray = straysOf units (tree.root.preorder.flatMap shownLengths) := by
  obtain ⟨t, drawn, grows⟩ := follow_draw units .screenGui none 0 tree.root known_opening rfl (by decide)
  refine ⟨t, ?_, grows, grows.stray⟩
  rw [Scope.ofText?, generate, readAll?_print units (plain_scriptOf options tree), Option.bind_some, scriptOf,
    List.flatMap_append, List.append_assoc, Scope.follow_append, follow_preamble, Option.bind_some,
    Scope.follow_append, drawn]
  rfl

/-- The lines of every script keep the discipline of scopes: locals are declared once, what is assigned to is a local in
scope, and blocks do not nest. Four locals and one for each container are outside of blocks, and each block has one to
three. All names in expressions are locals in scope or the engine's just where every length can be scaled by a thousand;
one that cannot is written as an infinite value, whose name is never declared. -/
theorem scopes_generate (options : Options) (tree : Tree) :
    ∃ final : Scope, Scope.ofText? (generate options units tree) = some final ∧ final.block = none ∧
      final.outer.length = 4 + containerCount tree.root ∧
      (∀ names ∈ final.ended, 1 ≤ names.length ∧ names.length ≤ 3) ∧
      (∀ name ∈ final.stray, name = "inf") ∧
      (final.stray = [] ↔
        ∀ node ∈ tree.root.preorder, ∀ px ∈ shownLengths node, IsScalable (units px)) := by
  obtain ⟨final, text, grows, stray⟩ := exists_grows units options tree
  obtain ⟨more, added, length⟩ := grows.outer
  refine ⟨final, text, grows.block, by simp [added, length, opening]; omega, fun names member => ?_, fun name member => ?_,
    ?_⟩
  · exact (grows.ended names member).resolve_left List.not_mem_nil
  · rw [stray] at member
    exact eq_of_mem_straysOf member
  · rw [stray, straysOf_eq_nil_iff, List.forall_mem_flatMap]

def emptyFrame (width height : Float) : Tree :=
  { root := .container { id := "root", size := some ⟨width, height⟩ } (.panel .frame {}) [] }

private theorem width_mem_shownLengths (width height : Float) :
    width ∈ (emptyFrame width height).root.preorder.flatMap shownLengths :=
  List.mem_cons_of_mem _ (List.mem_cons_of_mem _ List.mem_cons_self)

/-- A frame that is a one with 306 zeros wide leads to a name that its script does not declare. -/
theorem stray_wide_frame :
    ∃ final : Scope, Scope.ofText? (generate {} pixelUnits (emptyFrame 1e306 1)) = some final ∧ final.stray ≠ [] := by
  obtain ⟨final, text, -, stray⟩ := exists_grows pixelUnits {} (emptyFrame 1e306 1)
  refine ⟨final, text, fun none => ?_⟩
  have scalable : IsScalable 1e306 :=
    straysOf_eq_nil_iff.mp (stray.symm.trans none) _ (width_mem_shownLengths 1e306 1)
  revert scalable
  unfold IsScalable
  decide +kernel

end Following

end Handoff.Roblox
