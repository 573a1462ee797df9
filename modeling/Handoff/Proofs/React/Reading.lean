import Handoff.Proofs.React.Quoting

set_option autoImplicit false
set_option relaxedAutoImplicit false

/-!
Markup is read back from its lines, with the white space that sets the lines apart.
-/

namespace Handoff.React
open Jsx hiding text comment

/-- Markup that can be read: its tags and attributes have names, and groups are not empty. -/
inductive Markup.Plain : Markup → Prop where
  | comment (text : String) : Plain (.comment text)
  | void {tag : String} {attributes : List Attribute} (named : IsName tag)
      (plain : ∀ a ∈ attributes, PlainAttribute a) : Plain (.void tag attributes)
  | label {tag : String} {attributes : List Attribute} (text : String) (named : IsName tag)
      (plain : ∀ a ∈ attributes, PlainAttribute a) : Plain (.label tag attributes text)
  | group {tag : String} {attributes : List Attribute} {children : List Markup} (named : IsName tag)
      (plain : ∀ a ∈ attributes, PlainAttribute a) (inner : ∀ m ∈ children, Plain m)
      (nonempty : children ≠ []) : Plain (.group tag attributes children)

mutual

/-- The text of markup without the indentation of its first line and the end of its last. -/
def Markup.body (depth : Nat) : Markup → List Char
  | .comment text => ("\x7b/* " ++ commentText text ++ " */\x7d").toList
  | .void tag attributes => (tagHead tag attributes).toList ++ " />".toList
  | .label tag attributes text =>
    (tagHead tag attributes).toList ++ '>' :: ((escape text).toList ++ ("</" ++ tag ++ ">").toList)
  | .group tag attributes children =>
    (tagHead tag attributes).toList ++ '>' :: '\n' :: (Markup.bodies (depth + 1) children
      ++ ((Text.indent depth).toList ++ ("</" ++ tag ++ ">").toList))

def Markup.bodies (depth : Nat) : List Markup → List Char
  | [] => []
  | m :: ms => (Text.indent depth).toList ++ (Markup.body depth m ++ '\n' :: Markup.bodies depth ms)

end

mutual

theorem Markup.toList_lines (depth : Nat) (m : Markup) :
    (Text.unlines (m.lines depth)).toList = (Text.indent depth).toList ++ (m.body depth ++ ['\n']) := by
  cases m with
  | comment text => simp [Markup.lines, Markup.body, String.toList_append, Text.unlines]
  | void tag attributes => simp [Markup.lines, Markup.body, String.toList_append, Text.unlines]
  | label tag attributes text => simp [Markup.lines, Markup.body, String.toList_append, Text.unlines]
  | group tag attributes children =>
    simp only [Markup.lines, Markup.body, List.cons_append, Text.toList_unlines_cons, Text.toList_unlines_append,
      Markup.toList_linesAll (depth + 1) children]
    simp [Text.unlines, String.toList_append]

theorem Markup.toList_linesAll (depth : Nat) (ms : List Markup) :
    (Text.unlines (Markup.linesAll depth ms)).toList = Markup.bodies depth ms := by
  cases ms with
  | nil => simp [Markup.linesAll, Markup.bodies, Text.unlines]
  | cons m rest =>
    simp [Markup.linesAll, Markup.bodies, Text.toList_unlines_append, Markup.toList_lines depth m,
      Markup.toList_linesAll depth rest]

end

mutual

/-- The shape of markup. -/
def Markup.outline : Markup → Outline
  | .comment text => .comment (" " ++ commentText text ++ " ")
  | .void tag attributes => .element tag (imageTexts (attributes.flatMap attributeView)) []
  | .label tag attributes text =>
    .element tag (imageTexts (attributes.flatMap attributeView)) (if text = "" then [] else [.text text])
  | .group tag attributes children =>
    .element tag (imageTexts (attributes.flatMap attributeView)) (Markup.outlines children)

def Markup.outlines : List Markup → List Outline
  | [] => []
  | m :: ms => Markup.outline m :: Markup.outlines ms

end

def tagView (tag : String) (attributes : List Attribute) : Tag :=
  ⟨tag, attributes.flatMap attributeView⟩

mutual

/-- The elements of markup, each as the tags around it with its own at the end. -/
def Markup.nests (around : List Tag) : Markup → List (List Tag)
  | .comment _ => []
  | .void tag attributes => [around ++ [tagView tag attributes]]
  | .label tag attributes _ => [around ++ [tagView tag attributes]]
  | .group tag attributes children =>
    (around ++ [tagView tag attributes])
      :: (if tag = "svg" then [] else Markup.nestsAll (around ++ [tagView tag attributes]) children)

def Markup.nestsAll (around : List Tag) : List Markup → List (List Tag)
  | [] => []
  | m :: ms => Markup.nests around m ++ Markup.nestsAll around ms

end

section Tags

variable {tag : String} {attributes : List Attribute}

private theorem readElement_tag (named : IsName tag) (plain : ∀ a ∈ attributes, PlainAttribute a) (steps : Nat)
    {rest : List Char} (near : ∀ c ∈ rest.head?, isNameChar c = false)
    (far : ∀ c ∈ (skipGap rest).head?, isNameChar c = false) :
    readElement (steps + 1) ((tagHead tag attributes).toList ++ rest) =
      match Text.after? "/>" (skipGap rest) with
      | some rest => some (.element tag (attributes.flatMap attributeView) [], rest)
      | none => (Text.after? ">" (skipGap rest)).bind fun rest =>
        (readPieces steps rest).bind fun r =>
          (Text.after? ("</" ++ tag ++ ">") r.2).map fun rest =>
            (.element tag (attributes.flatMap attributeView) r.1, rest) := by
  have form : (tagHead tag attributes).toList ++ rest =
      "<".toList ++ (tag.toList ++ ((String.join (attributes.map Attribute.print)).toList ++ rest)) := by
    simp [tagHead, String.toList_append]
  have enough : (String.join (attributes.map Attribute.print)).toList.length <
      ("<".toList ++ (tag.toList ++ ((String.join (attributes.map Attribute.print)).toList ++ rest))).length := by
    have mark : "<".toList.length = 1 := rfl
    simp only [List.length_append, mark]
    omega
  rw [form, readElement, Text.after?_append]
  simp only [Option.bind_eq_bind, Option.bind_some, readName_append named (head_attributes plain near),
    readAttributes_append plain far enough]
  cases Text.after? "/>" (skipGap rest) with
  | some rest => rfl
  | none =>
    simp only
    cases Text.after? ">" (skipGap rest) with
    | none => rfl
    | some rest =>
      simp only [Option.bind_some]
      cases readPieces steps rest with
      | none => rfl
      | some r =>
        simp only [Option.bind_some]
        cases Text.after? ("</" ++ tag ++ ">") r.2 <;> rfl

private theorem readElement_void (named : IsName tag) (plain : ∀ a ∈ attributes, PlainAttribute a) (steps : Nat)
    (rest : List Char) :
    readElement (steps + 1) ((tagHead tag attributes).toList ++ (" />".toList ++ rest)) =
      some (.element tag (attributes.flatMap attributeView) [], rest) := by
  have close : skipGap (" />".toList ++ rest) = "/>".toList ++ rest := rfl
  rw [readElement_tag named plain steps (by simp; decide) (by rw [close]; simp; decide), close, Text.after?_append]

private theorem readElement_pieces (named : IsName tag) (plain : ∀ a ∈ attributes, PlainAttribute a) {steps : Nat}
    {inner rest : List Char} {pieces : List Jsx}
    (read : readPieces steps inner = some (pieces, ("</" ++ tag ++ ">").toList ++ rest)) :
    readElement (steps + 1) ((tagHead tag attributes).toList ++ '>' :: inner) =
      some (.element tag (attributes.flatMap attributeView) pieces, rest) := by
  have mark : skipGap ('>' :: inner) = '>' :: inner := rfl
  have void : Text.after? "/>" ('>' :: inner) = none := rfl
  have full : Text.after? ">" ('>' :: inner) = some inner := Text.after?_append ">" inner
  rw [readElement_tag named plain steps (by simp; decide) (by rw [mark]; simp; decide), mark, void]
  simp only [full, Option.bind_some, read, Text.after?_append, Option.map_some]

end Tags

section Pieces

private theorem readPieces_close (steps : Nat) (cs : List Char) :
    readPieces (steps + 1) ('<' :: '/' :: cs) = some ([], '<' :: '/' :: cs) := by
  rw [readPieces, if_pos ⟨rfl, rfl⟩]

private theorem readPieces_text {raw meant rest : List Char} (nonempty : raw ≠ [])
    (within : ∀ c ∈ raw, isDelimiter c = false) (resolved : resolve none raw = some meant)
    (stop : ∀ c ∈ rest.head?, isDelimiter c = true) (steps : Nat) :
    readPieces (steps + 1) (raw ++ rest) =
      (readPieces steps rest).map fun r => (.text (String.ofList meant) :: r.1, r.2) := by
  have run : Text.takeRun (fun c => !isDelimiter c) (raw ++ rest) = (String.ofList raw, rest) :=
    Text.takeRun_append (fun c member => by simp [within c member]) (fun c same => by simp [stop c same])
  have text : readText (raw ++ rest) = some (.text (String.ofList meant), rest) := by
    have filled : String.ofList raw ≠ "" := by
      intro empty
      exact nonempty (by simpa using congrArg String.toList empty)
    rw [readText, run]
    simp only [if_neg filled, String.toList_ofList, resolved, Option.map_some]
  cases raw with
  | nil => exact absurd rfl nonempty
  | cons c cs =>
    have plain := within c List.mem_cons_self
    have angle : c ≠ '<' := by rintro rfl; cases plain
    have brace : c ≠ '\x7b' := by rintro rfl; cases plain
    rw [List.cons_append] at text ⊢
    rw [readPieces, if_neg (fun both => angle both.1)]
    simp only [if_neg angle, if_neg brace, text]

private theorem readPieces_comment (text : String) (rest : List Char) (steps : Nat) :
    readPieces (steps + 1) (("\x7b/* " ++ commentText text ++ " */\x7d").toList ++ rest) =
      (readPieces steps rest).map fun r => (.comment (" " ++ commentText text ++ " ") :: r.1, r.2) := by
  have comment := readComment_commentText text rest
  cases form : ("\x7b/* " ++ commentText text ++ " */\x7d").toList ++ rest with
  | nil => rw [form] at comment; cases comment
  | cons c cs =>
    obtain rfl : '\x7b' = c := by
      have head := congrArg List.head? form
      simpa [String.toList_append] using head
    rw [form] at comment
    rw [readPieces, if_neg (by simp)]
    simp only [if_true, if_neg (by decide : ¬ '\x7b' = '<'), comment]

private theorem readPieces_element {cs rest : List Char} {jsx : Jsx} {steps : Nat}
    (read : readElement steps ('<' :: cs) = some (jsx, rest)) (opening : cs.head? ≠ some '/') :
    readPieces (steps + 1) ('<' :: cs) = (readPieces steps rest).map fun r => (jsx :: r.1, r.2) := by
  rw [readPieces, if_neg (fun both => opening both.2)]
  simp only [if_true, read]

def Markup.isElement : Markup → Bool
  | .comment _ => false
  | _ => true

private theorem form_tagHead {tag : String} (named : IsName tag) (attributes : List Attribute) :
    ∃ c cs, (tagHead tag attributes).toList = '<' :: c :: cs ∧ c ≠ '/' := by
  cases chars : tag.toList with
  | nil => exact absurd chars named.1
  | cons c cs =>
    refine ⟨c, cs ++ (String.join (attributes.map Attribute.print)).toList, ?_, ?_⟩
    · simp [tagHead, String.toList_append, chars]
    · rintro rfl
      exact absurd (named.mem '/' (chars ▸ List.mem_cons_self)) (by decide)

theorem form_body {m : Markup} (plain : m.Plain) (element : m.isElement = true) (depth : Nat) :
    ∃ c cs, m.body depth = '<' :: c :: cs ∧ c ≠ '/' := by
  have extend {tag : String} (named : IsName tag) (attributes : List Attribute) (rest : List Char) :
      ∃ c cs, (tagHead tag attributes).toList ++ rest = '<' :: c :: cs ∧ c ≠ '/' := by
    obtain ⟨c, cs, form, other⟩ := form_tagHead named attributes
    exact ⟨c, cs ++ rest, by rw [form, List.cons_append, List.cons_append], other⟩
  cases plain with
  | comment => cases element
  | void named | label _ named | group named => exact extend named _ _

theorem head_body {m : Markup} (plain : m.Plain) (depth : Nat) :
    ∃ c cs, m.body depth = c :: cs ∧ isDelimiter c = true := by
  cases element : m.isElement with
  | true =>
    obtain ⟨c, cs, form, -⟩ := form_body plain element depth
    exact ⟨'<', c :: cs, form, rfl⟩
  | false =>
    cases m with
    | comment s => exact ⟨'\x7b', _, by simp [Markup.body, String.toList_append]; rfl, rfl⟩
    | void | label | group => cases element

/-- True of a text whose pieces, up to a closing tag, have the shapes and the elements of markup. -/
private def Holds (ms : List Markup) (cs close : List Char) (length : Nat) : Prop :=
  ∀ steps, length < steps → ∃ pieces, readPieces steps cs = some (pieces, close) ∧
    Jsx.outlines false pieces = Markup.outlines ms ∧ pieces.all isText = ms.isEmpty ∧
    ∀ around, Jsx.nestsAll around pieces = Markup.nestsAll around ms

private theorem holds_nil (cs : List Char) : Holds [] ('<' :: '/' :: cs) ('<' :: '/' :: cs) 0 := by
  intro steps enough
  obtain ⟨steps, rfl⟩ := Nat.exists_eq_succ_of_ne_zero (Nat.ne_of_gt enough)
  exact ⟨[], readPieces_close steps cs, rfl, rfl, fun _ => rfl⟩

private theorem Holds.gap {ms : List Markup} {cs close : List Char} {length : Nat}
    (holds : Holds ms cs close length) (gap : List Char) (all : ∀ c ∈ gap, isGap c = true)
    (stop : ∀ c ∈ cs.head?, isDelimiter c = true) :
    Holds ms (gap ++ cs) close (gap.length + length) := by
  have apart {d : Char} (other : isGap d = false) : d ∉ gap := fun member => by simp [all d member] at other
  intro steps enough
  cases gap with
  | nil => exact holds steps (by simpa using enough)
  | cons c rest =>
    cases steps with
    | zero => exact absurd enough (Nat.not_lt_zero _)
    | succ steps =>
      obtain ⟨pieces, read, shapes, texts, nests⟩ := holds steps (by simp only [List.length_cons] at enough; omega)
      have within : ∀ d ∈ c :: rest, isDelimiter d = false := by
        intro d member
        rcases (by simpa [isGap] using all d member : d = ' ' ∨ d = '\n') with rfl | rfl <;> rfl
      have layout : (Jsx.text (String.ofList (c :: rest))).isLayout = true := by
        rw [isLayout, String.toList_ofList]
        exact List.all_eq_true.mpr all
      refine ⟨.text (String.ofList (c :: rest)) :: pieces, ?_, ?_, ?_, nests⟩
      · rw [readPieces_text (List.cons_ne_nil c rest) within (resolve_plain (apart (by decide))) stop, read,
          Option.map_some]
      · rw [Jsx.outlines, layout]
        exact shapes
      · rw [List.all_cons, texts]
        rfl

theorem isGap_indent (depth : Nat) : ∀ c ∈ (Text.indent depth).toList, isGap c = true := by
  intro c member
  rw [Text.indent, String.toList_ofList] at member
  rw [List.eq_of_mem_replicate member]
  rfl

private theorem readPieces_escape (s : String) (cs : List Char) {steps : Nat} (room : 2 ≤ steps) :
    ∃ pieces, readPieces steps ((escape s).toList ++ '<' :: '/' :: cs) = some (pieces, '<' :: '/' :: cs) ∧
      Jsx.outlines (pieces.all isText) pieces = (if s = "" then [] else [.text s]) ∧
      ∀ around, Jsx.nestsAll around pieces = [] := by
  obtain ⟨steps, rfl⟩ := Nat.exists_eq_add_of_le' room
  by_cases empty : s = ""
  · subst s
    exact ⟨[], readPieces_close (steps + 1) cs, rfl, fun _ => rfl⟩
  · have nonempty : (escape s).toList ≠ [] := by
      intro none
      have resolved := resolve_escape s
      rw [none] at resolved
      exact empty (String.toList_injective (Option.some.inj resolved).symm)
    refine ⟨[.text s], ?_, ?_, fun _ => rfl⟩
    · rw [readPieces_text nonempty (fun c member => (isDelimiter_of_mem_escape member).1) (resolve_escape s)
        (by simp; decide), readPieces_close, Option.map_some, String.ofList_toList]
    · rw [if_neg empty]
      rfl

private theorem Holds.comment {ms : List Markup} {cs close : List Char} {length : Nat} (later : Holds ms cs close length)
    (s : String) (depth : Nat) :
    Holds (.comment s :: ms) (Markup.body depth (.comment s) ++ cs) close
      ((Markup.body depth (.comment s)).length + length) := by
  intro steps enough
  obtain ⟨steps, rfl⟩ := Nat.exists_eq_succ_of_ne_zero (Nat.ne_of_gt (Nat.zero_lt_of_lt enough))
  have mark : 1 ≤ (Markup.body depth (.comment s)).length := by simp [Markup.body, String.toList_append]
  obtain ⟨pieces, read, shapes, -, nests⟩ := later steps (by omega)
  refine ⟨.comment (" " ++ commentText s ++ " ") :: pieces, ?_, ?_, rfl, nests⟩
  · rw [Markup.body, readPieces_comment, read, Option.map_some]
  · rw [Jsx.outlines, shapes]
    rfl

private theorem Holds.element {ms : List Markup} {cs close : List Char} {length : Nat} (later : Holds ms cs close length)
    {m : Markup} (plain : m.Plain) (element : m.isElement = true) (depth : Nat)
    (reads : ∀ steps, (m.body depth).length ≤ steps → ∃ tag attributes children,
      readElement steps (m.body depth ++ cs) = some (.element tag attributes children, cs) ∧
        (Jsx.element tag attributes children).outline = m.outline ∧
        ∀ around, (Jsx.element tag attributes children).nests around = m.nests around) :
    Holds (m :: ms) (m.body depth ++ cs) close ((m.body depth).length + length) := by
  intro steps enough
  obtain ⟨steps, rfl⟩ := Nat.exists_eq_succ_of_ne_zero (Nat.ne_of_gt (Nat.zero_lt_of_lt enough))
  obtain ⟨c, text, form, other⟩ := form_body plain element depth
  have mark : 1 ≤ (m.body depth).length := by simp [form]
  obtain ⟨pieces, read, shapes, -, nests⟩ := later steps (by omega)
  obtain ⟨tag, attributes, children, whole, shape, nest⟩ := reads steps (by omega)
  refine ⟨.element tag attributes children :: pieces, ?_, ?_, rfl, fun around => ?_⟩
  · rw [form, List.cons_append] at whole ⊢
    rw [readPieces_element whole (by simpa using other), read, Option.map_some]
  · rw [Jsx.outlines, shapes, shape, Markup.outlines]
    rfl
  · rw [Jsx.nestsAll, nest, nests, Markup.nestsAll]

private theorem close_append (tag : String) (rest : List Char) :
    ("</" ++ tag ++ ">").toList ++ rest = '<' :: '/' :: (tag.toList ++ '>' :: rest) := by
  simp [String.toList_append]

mutual

/-- An element is read back with its shape, and with the elements that it holds. -/
theorem Markup.readElement_body (m : Markup) (plain : m.Plain) (element : m.isElement = true) (depth steps : Nat)
    (enough : (m.body depth).length ≤ steps) (rest : List Char) :
    ∃ tag attributes children, readElement steps (m.body depth ++ rest) =
        some (.element tag attributes children, rest) ∧
      (Jsx.element tag attributes children).outline = m.outline ∧
      ∀ around, (Jsx.element tag attributes children).nests around = m.nests around := by
  obtain ⟨c, cs, form, -⟩ := form_body plain element depth
  obtain ⟨steps, rfl⟩ : ∃ n, steps = n + 1 :=
    Nat.exists_eq_succ_of_ne_zero (fun none => by simp [form, none] at enough)
  cases m with
  | comment s => cases element
  | void tag attributes =>
    cases plain with
    | void named all =>
      refine ⟨tag, attributes.flatMap attributeView, [], ?_, rfl, fun around => ?_⟩
      · rw [Markup.body, List.append_assoc]
        exact readElement_void named all steps rest
      · rw [Jsx.nests, Jsx.nestsAll, ite_self, Markup.nests, tagView]
  | label tag attributes s =>
    cases plain with
    | label _ named all =>
      have room : 2 ≤ steps := by
        rw [Markup.body] at enough
        simp only [String.toList_append, List.length_append, List.length_cons] at enough
        have mark : "</".toList.length = 2 := rfl
        omega
      obtain ⟨pieces, read, shapes, none⟩ := readPieces_escape s (tag.toList ++ '>' :: rest) room
      rw [← close_append] at read
      refine ⟨tag, attributes.flatMap attributeView, pieces, ?_, ?_, fun around => ?_⟩
      · rw [Markup.body, List.append_assoc, List.cons_append, List.append_assoc]
        exact readElement_pieces named all read
      · rw [Jsx.outline, shapes, Markup.outline]
      · rw [Jsx.nests, none, ite_self, Markup.nests, tagView]
  | group tag attributes children =>
    cases plain with
    | group named all below nonempty =>
      have holds := Markup.holds_bodies children below (depth + 1) ['\n'] (Text.indent depth).toList
        (List.forall_mem_singleton.mpr rfl) (isGap_indent depth) (tag.toList ++ '>' :: rest)
      have room : ['\n'].length + ((Markup.bodies (depth + 1) children).length + (Text.indent depth).toList.length) <
          steps := by
        rw [Markup.body] at enough
        simp only [String.toList_append, List.length_append, List.length_cons] at enough
        have mark : "</".toList.length = 2 := rfl
        simp only [List.length_cons, List.length_nil]
        omega
      obtain ⟨pieces, read, shapes, texts, nests⟩ := holds steps room
      refine ⟨tag, attributes.flatMap attributeView, pieces, ?_, ?_, fun around => ?_⟩
      · rw [Markup.body, List.append_assoc, List.cons_append, List.cons_append, List.append_assoc, List.append_assoc]
        rw [← close_append] at read
        exact readElement_pieces named all read
      · have mixed : children.isEmpty = false := by simpa using nonempty
        rw [Jsx.outline, texts, mixed, shapes, Markup.outline]
      · rw [Jsx.nests, nests, Markup.nests, tagView]

private theorem Markup.holds_bodies (ms : List Markup) (plain : ∀ m ∈ ms, m.Plain) (depth : Nat) (gap tail : List Char)
    (before : ∀ c ∈ gap, isGap c = true) (after : ∀ c ∈ tail, isGap c = true) (cs : List Char) :
    Holds ms (gap ++ (Markup.bodies depth ms ++ (tail ++ '<' :: '/' :: cs))) ('<' :: '/' :: cs)
      (gap.length + ((Markup.bodies depth ms).length + tail.length)) := by
  cases ms with
  | nil =>
    have holds := (holds_nil cs).gap (gap ++ tail) (List.forall_mem_append.mpr ⟨before, after⟩) (by simp; decide)
    simpa [Markup.bodies, Nat.add_assoc] using holds
  | cons m rest =>
    obtain ⟨first, others⟩ := List.forall_mem_cons.mp plain
    -- The end of a line behind one is the gap before the next.
    have later := Markup.holds_bodies rest others depth ['\n'] tail (List.forall_mem_singleton.mpr rfl) after cs
    have here : Holds (m :: rest)
        (m.body depth ++ ('\n' :: (Markup.bodies depth rest ++ (tail ++ '<' :: '/' :: cs)))) ('<' :: '/' :: cs)
        ((m.body depth).length + (1 + ((Markup.bodies depth rest).length + tail.length))) := by
      cases element : m.isElement with
      | false =>
        cases m with
        | comment s => exact later.comment s depth
        | void | label | group => cases element
      | true =>
        exact later.element first element depth fun steps enough =>
          Markup.readElement_body m first element depth steps enough _
    have starts : ∀ c ∈ (m.body depth ++ ('\n' :: (Markup.bodies depth rest ++ (tail ++ '<' :: '/' :: cs)))).head?,
        isDelimiter c = true := by
      obtain ⟨c, text, form, mark⟩ := head_body first depth
      simpa [form] using mark
    have all := here.gap (gap ++ (Text.indent depth).toList)
      (List.forall_mem_append.mpr ⟨before, isGap_indent depth⟩) starts
    have text : gap ++ (Markup.bodies depth (m :: rest) ++ (tail ++ '<' :: '/' :: cs)) =
        gap ++ (Text.indent depth).toList
          ++ (m.body depth ++ ('\n' :: (Markup.bodies depth rest ++ (tail ++ '<' :: '/' :: cs)))) := by
      simp [Markup.bodies]
    have size : gap.length + ((Markup.bodies depth (m :: rest)).length + tail.length) =
        (gap ++ (Text.indent depth).toList).length
          + ((m.body depth).length + (1 + ((Markup.bodies depth rest).length + tail.length))) := by
      simp only [Markup.bodies, List.length_append, List.length_cons]
      omega
    rw [text, size]
    exact all

end

end Pieces

end Handoff.React
