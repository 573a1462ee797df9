import Handoff.Proofs.Decimal.Pixel
import Handoff.Proofs.React.Entities
import Handoff.React.Element

set_option autoImplicit false
set_option relaxedAutoImplicit false

/-!
Texts are read back from each place of a component that they can stand in.
-/

namespace Handoff.React
namespace Jsx

section Literals

private theorem readLiteral_literalChar (c : Char) (rest : List Char) :
    readLiteral false (literalChar c ++ rest) = (readLiteral false rest).map fun r => (c :: r.1, r.2) := by
  unfold literalChar
  split
  · subst c; rfl
  split
  · subst c; rfl
  split
  · subst c; rfl
  split
  · subst c; rfl
  · rename_i slash quote feed carriage
    rw [List.singleton_append, readLiteral, if_neg quote, if_neg (not_or.mpr ⟨feed, carriage⟩), if_neg slash]

private theorem readLiteral_append (cs rest : List Char) :
    readLiteral false (cs.flatMap literalChar ++ '\'' :: rest) = some (cs, rest) := by
  induction cs with
  | nil => rfl
  | cons c cs ih => rw [List.flatMap_cons, List.append_assoc, readLiteral_literalChar, ih, Option.map_some]

theorem readExpression_literal (s : String) (rest : List Char) :
    readExpression ((literal s).toList ++ rest) = some (.literal s, rest) := by
  have form : (literal s).toList ++ rest = '\'' :: (s.toList.flatMap literalChar ++ '\'' :: rest) := by
    simp [literal]
  have quoted (cs : List Char) : readExpression ('\'' :: cs) =
      (readLiteral false cs).map fun r => (.literal (String.ofList r.1), r.2) := rfl
  rw [form, quoted, readLiteral_append, Option.map_some, String.ofList_toList]

/-- True of what may follow a number or a name. -/
def EndsWord (rest : List Char) : Prop :=
  ∀ c ∈ rest.head?, isWordChar c = false

private theorem isWordChar_of_mark {c : Char} (h : Numeral.isMark c = true ∨ c.isAlpha = true) :
    isWordChar c = true := by
  simp only [Numeral.isMark, Bool.or_eq_true, beq_iff_eq] at h
  simp only [isWordChar, isNameChar, Char.isAlphanum, Bool.or_eq_true, beq_iff_eq]
  rcases h with ((((digit | rfl) | rfl) | rfl) | rfl) | letter
  · simp [digit]
  · decide
  · decide
  · decide
  · decide
  · simp [letter]

private theorem isWord_pixelText (x : Float) : isWord (pixelText x).toList = true := by
  rcases pixelText_form x with ⟨n, strict, form⟩ | named
  · have read := n.read_chars strict Numeral.stops_nil
    rw [List.append_nil] at read
    rw [form, String.toList_ofList, isWord, read]
    rfl
  · have all : ∀ name ∈ valueNames, isWord name.toList = true := by decide
    exact all _ named

private theorem nonempty_pixelText (x : Float) : (pixelText x).toList ≠ [] := by
  intro empty
  have word := isWord_pixelText x
  rw [empty] at word
  cases word

theorem readExpression_pixelText (x : Float) {rest : List Char} (ends : EndsWord rest) :
    readExpression ((pixelText x).toList ++ rest) = some (.word (pixelText x), rest) := by
  have all : ∀ c ∈ (pixelText x).toList, isWordChar c = true :=
    fun c member => isWordChar_of_mark (mem_pixelText member)
  have run := Text.takeRun_append all ends
  rw [String.ofList_toList] at run
  -- A number does not begin as a literal does.
  cases form : (pixelText x).toList with
  | nil => exact absurd form (nonempty_pixelText x)
  | cons c cs =>
    have quote : c ≠ '\'' := by
      rintro rfl
      exact absurd (all '\'' (form ▸ List.mem_cons_self)) (by decide)
    rw [List.cons_append, readExpression, ← List.cons_append, ← form, run]
    · simp [isWord_pixelText x]
    · simpa using quote

end Literals

section Comments

theorem readInner_cons {c : Char} {cs : List Char} (apart : c = '*' → cs.head? ≠ some '/') :
    readInner (c :: cs) = (readInner cs).map fun r => (c :: r.1, r.2) := by
  rw [readInner]
  rintro rest rfl rfl
  exact apart rfl rfl

private def flatten (c : Char) : Char :=
  if c = '\n' ∨ c = '\r' then ' ' else c

private theorem flatten_eq {c d : Char} (other : d ≠ ' ') (same : flatten c = d) : c = d := by
  unfold flatten at same
  split at same
  · exact absurd same.symm other
  · exact same

private theorem head_openClosers (c : Char) (cs : List Char) : (openClosers (c :: cs)).head? = some c := by
  cases cs with
  | nil => rfl
  | cons d rest =>
    rw [openClosers]
    split
    · rename_i closer
      rw [closer.1]
      rfl
    · rfl

private theorem readInner_openClosers (cs rest : List Char) :
    readInner ((openClosers cs).map flatten ++ " */".toList ++ rest) =
      some ((openClosers cs).map flatten ++ [' '], rest) := by
  have close : readInner (" */".toList ++ rest) = some ([' '], rest) := rfl
  -- Only where two characters stay together can they end the comment.
  induction cs using openClosers.induct with
  | case1 => exact close
  | case2 c =>
    simp only [openClosers, List.map_cons, List.map_nil, List.cons_append, List.nil_append]
    rw [readInner_cons (by intro; simp), close]
    rfl
  | case3 c d tail closer ih =>
    obtain ⟨rfl, rfl⟩ := closer
    rw [openClosers, if_pos ⟨rfl, rfl⟩]
    simp only [List.map_cons, List.cons_append]
    rw [readInner_cons (by intro; simp [flatten]), readInner_cons (by simp [flatten]),
      readInner_cons (by simp [flatten]), ih]
    rfl
  | case4 c d tail other ih =>
    rw [openClosers, if_neg other]
    simp only [List.map_cons, List.cons_append]
    rw [readInner_cons, ih]
    · rfl
    · intro star slash
      have first : c = '*' := flatten_eq (by decide) star
      have second : flatten d = '/' := by
        have head := head_openClosers d tail
        cases form : openClosers (d :: tail) with
        | nil => rw [form] at head; cases head
        | cons e es =>
          rw [form] at head slash
          obtain rfl : e = d := by simpa using head
          simpa using slash
      exact other ⟨first, flatten_eq (by decide) second⟩

theorem readInner_commentText (s : String) (rest : List Char) :
    readInner ((" " ++ commentText s ++ " */").toList ++ rest) =
      some ((" " ++ commentText s ++ " ").toList, rest) := by
  have form : (" " ++ commentText s ++ " */").toList ++ rest =
      ' ' :: ((openClosers s.toList).map flatten ++ " */".toList ++ rest) := by
    simp [commentText, flatten, String.toList_append]
  have text : (" " ++ commentText s ++ " ").toList = ' ' :: ((openClosers s.toList).map flatten ++ [' ']) := by
    simp [commentText, flatten, String.toList_append]
  rw [form, text, readInner_cons (by simp), readInner_openClosers]
  rfl

theorem readComment_commentText (s : String) (rest : List Char) :
    readComment (("\x7b/* " ++ commentText s ++ " */\x7d").toList ++ rest) =
      some (.comment (" " ++ commentText s ++ " "), rest) := by
  have form : ("\x7b/* " ++ commentText s ++ " */\x7d").toList ++ rest =
      "\x7b/*".toList ++ ((" " ++ commentText s ++ " */").toList ++ ("\x7d".toList ++ rest)) := by
    simp [String.toList_append]
  rw [readComment, form, Text.after?_append]
  simp only [Option.bind_eq_bind, Option.bind_some, readInner_commentText, Text.after?_append, String.ofList_toList]
  rfl

end Comments

section Attributes

/-- A text that is a name, as tags, attributes and the keys of styles have one. -/
def IsName (s : String) : Prop :=
  s.toList ≠ [] ∧ s.toList.all isNameChar = true

instance (s : String) : Decidable (IsName s) :=
  instDecidableAnd

theorem IsName.mem {s : String} (named : IsName s) : ∀ c ∈ s.toList, isNameChar c = true :=
  List.all_eq_true.mp named.2

private theorem skipGap_append {gap rest : List Char} (all : ∀ c ∈ gap, isGap c = true)
    (stop : ∀ c ∈ rest.head?, isGap c = false) : skipGap (gap ++ rest) = rest :=
  Text.dropWhile_append_of_stop all stop

private theorem isGap_of_isWordChar {c : Char} (h : isWordChar c = true) : isGap c = false := by
  cases gap : isGap c with
  | false => rfl
  | true =>
    rcases (by simpa [isGap] using gap : c = ' ' ∨ c = '\n') with rfl | rfl
    · exact absurd h (by decide)
    · exact absurd h (by decide)

private theorem isWordChar_of_isNameChar {c : Char} (h : isNameChar c = true) : isWordChar c = true := by
  simp [isWordChar, h]

private theorem head_append {cs : List Char} {p : Char → Bool} (nonempty : cs ≠ []) (all : ∀ c ∈ cs, p c = false)
    (rest : List Char) : ∀ c ∈ (cs ++ rest).head?, p c = false := by
  cases cs with
  | nil => exact absurd rfl nonempty
  | cons c cs =>
    intro d same
    obtain rfl : c = d := by simpa using same
    exact all c List.mem_cons_self

theorem readName_append {name : String} (named : IsName name) {rest : List Char}
    (stop : ∀ c ∈ rest.head?, isNameChar c = false) : readName (name.toList ++ rest) = some (name, rest) := by
  have other : name ≠ "" := by
    rintro rfl
    exact named.1 rfl
  rw [readName, Text.takeRun_append named.mem stop, String.ofList_toList]
  split
  · rename_i same
    exact absurd (Prod.mk.inj same).1 other
  · rename_i same
    rw [same]

theorem head_name {name : String} (named : IsName name) (rest : List Char) :
    ∀ c ∈ (name.toList ++ rest).head?, isGap c = false :=
  head_append named.1 (fun c member => isGap_of_isWordChar (isWordChar_of_isNameChar (named.mem c member))) rest

def styleView : StyleValue → Expression
  | .number x => .word (pixelText x)
  | .text s => .literal s

private theorem readExpression_style (v : StyleValue) {rest : List Char} (ends : EndsWord rest) :
    readExpression (v.expression.toList ++ rest) = some (styleView v, rest) := by
  cases v with
  | number x => exact readExpression_pixelText x ends
  | text s => exact readExpression_literal s rest

private theorem head_expression (v : StyleValue) (rest : List Char) :
    ∀ c ∈ (v.expression.toList ++ rest).head?, isGap c = false := by
  cases v with
  | number x =>
    exact head_append (nonempty_pixelText x)
      (fun c member => isGap_of_isWordChar (isWordChar_of_mark (mem_pixelText member))) rest
  | text s =>
    intro c same
    obtain rfl : '\'' = c := by simpa [StyleValue.expression, literal] using same
    rfl

private def entryText (entry : String × StyleValue) : String :=
  entry.1 ++ ": " ++ entry.2.expression

def entryView (entry : String × StyleValue) : String × Expression :=
  (entry.1, styleView entry.2)

private theorem readEntry_append {entry : String × StyleValue} (named : IsName entry.1) {rest : List Char}
    (ends : EndsWord rest) :
    readEntry (' ' :: ((entryText entry).toList ++ rest)) = some (entryView entry, skipGap rest) := by
  have form : ' ' :: ((entryText entry).toList ++ rest) =
      [' '] ++ (entry.1.toList ++ ':' :: (' ' :: (entry.2.expression.toList ++ rest))) := by
    simp [entryText, String.toList_append]
  have value : skipGap (' ' :: (entry.2.expression.toList ++ rest)) = entry.2.expression.toList ++ rest :=
    @skipGap_append [' '] _ (List.forall_mem_singleton.mpr rfl) (head_expression entry.2 rest)
  have colon (cs : List Char) : Text.after? ":" (':' :: cs) = some cs := Text.after?_append ":" cs
  rw [form, readEntry, skipGap_append (List.forall_mem_singleton.mpr rfl) (head_name named _),
    readName_append named (by simp; decide)]
  simp only [colon, value, readExpression_style entry.2 ends, Option.bind_eq_bind, Option.bind_some]
  rfl

private theorem readEntries_append {entries : Style} (nonempty : entries ≠ [])
    (named : ∀ entry ∈ entries, IsName entry.1) {steps : Nat} (rest : List Char) (enough : entries.length ≤ steps) :
    readEntries steps
        (' ' :: ((String.intercalate ", " (entries.map entryText)).toList ++ (" \x7d\x7d".toList ++ rest))) =
      some (entries.map entryView, rest) := by
  induction entries generalizing steps with
  | nil => exact absurd rfl nonempty
  | cons entry others ih =>
    obtain ⟨first, tail⟩ := List.forall_mem_cons.mp named
    cases steps with
    | zero => exact absurd enough (by simp)
    | succ steps =>
      cases others with
      | nil =>
        have ends : EndsWord (" \x7d\x7d".toList ++ rest) := by simp [EndsWord]; decide
        have close : skipGap (" \x7d\x7d".toList ++ rest) = '\x7d' :: '\x7d' :: rest := rfl
        rw [List.map_singleton, String.intercalate_singleton, readEntries, readEntry_append first ends, close]
        rfl
      | cons second more =>
        have ends (cs : List Char) : EndsWord (", ".toList ++ cs) := by simp [EndsWord]; decide
        have comma (cs : List Char) : skipGap (", ".toList ++ cs) = ',' :: ' ' :: cs := rfl
        have after := ih (by simp) tail (Nat.le_of_succ_le_succ enough)
        rw [List.map_cons] at after
        rw [List.map_cons, List.map_cons, String.intercalate_cons_cons, String.toList_append, String.toList_append,
          List.append_assoc, List.append_assoc, readEntries, readEntry_append first (ends _), comma]
        simp only [after, Option.map_some, List.map_cons]

private theorem readGiven_quoted {raw meant : List Char} (within : ∀ c ∈ raw, c ≠ '"')
    (resolved : resolve none raw = some meant) (rest : List Char) :
    readGiven ('"' :: (raw ++ '"' :: rest)) = some (.quoted (String.ofList meant), rest) := by
  have run : Text.takeRun (· != '"') (raw ++ '"' :: rest) = (String.ofList raw, '"' :: rest) :=
    Text.takeRun_append (fun c member => bne_iff_ne.mpr (within c member)) (by simp)
  have quote : Text.after? "\"" ('"' :: rest) = some rest := Text.after?_append "\"" rest
  rw [readGiven, run]
  simp only [String.toList_ofList, resolved, quote, Option.bind_eq_bind, Option.bind_some]
  rfl

theorem resolve_plain {cs : List Char} (plain : '&' ∉ cs) : resolve none cs = some cs := by
  induction cs with
  | nil => rfl
  | cons c cs ih =>
    rw [List.mem_cons, not_or] at plain
    rw [resolve, if_neg (Ne.symm plain.1), ih plain.2, Option.map_some]

private theorem readGiven_style {entries : Style} (nonempty : entries ≠ []) (named : ∀ entry ∈ entries, IsName entry.1)
    (rest : List Char) :
    readGiven ('\x7b' :: '\x7b' :: ' ' ::
        ((String.intercalate ", " (entries.map entryText)).toList ++ (" \x7d\x7d".toList ++ rest))) =
      some (.style (entries.map entryView), rest) := by
  -- The text is longer than the number of its entries.
  have enough (entries : Style) :
      entries.length ≤ (String.intercalate ", " (entries.map entryText)).toList.length + 1 := by
    induction entries with
    | nil => exact Nat.zero_le _
    | cons entry others ih =>
      cases others with
      | nil => exact Nat.le_add_left 1 _
      | cons second more =>
        rw [List.map_cons] at ih
        rw [List.map_cons, List.map_cons, String.intercalate_cons_cons]
        simp only [String.toList_append, List.length_append, List.length_cons] at ih ⊢
        have comma : (", ".toList).length = 2 := rfl
        omega
  rw [readGiven, readEntries_append nonempty named rest]
  · rfl
  · have size := enough entries
    simp only [List.length_cons, List.length_append]
    omega

private theorem readGiven_number (x : Float) (rest : List Char) :
    readGiven ('\x7b' :: ((pixelText x).toList ++ '\x7d' :: rest)) =
      some (.expression (.word (pixelText x)), rest) := by
  have ends : EndsWord ('\x7d' :: rest) := by simp [EndsWord]; decide
  have close : Text.after? "\x7d" ('\x7d' :: rest) = some rest := Text.after?_append "\x7d" rest
  rw [readGiven]
  · simp only [readExpression_pixelText x ends, close, Option.bind_eq_bind, Option.bind_some]
    rfl
  · -- A number does not begin with a brace, which would open a style.
    intro cs brace
    have first := @head_append (pixelText x).toList (· == '\x7b') (nonempty_pixelText x)
      (fun c member => ?_) ('\x7d' :: rest) '\x7b' (by rw [brace]; rfl)
    · cases first
    · have word := isWordChar_of_mark (mem_pixelText member)
      cases same : c == '\x7b' with
      | false => rfl
      | true =>
        obtain rfl := eq_of_beq same
        exact absurd word (by decide)

/-- An attribute that can be read: its name is one, and its classes have no marks in them. -/
def PlainAttribute : Attribute → Prop
  | .classes names => ∀ name ∈ names, name.toList.all (fun c => isNameChar c || c == '-') = true
  | .style entries => ∀ entry ∈ entries, IsName entry.1
  | .text name _ => IsName name
  | .number name _ => IsName name

/-- What an attribute is read as. Without classes or entries nothing is there. -/
def attributeView : Attribute → List (String × Given)
  | .classes [] => []
  | .classes (name :: names) => [("className", .quoted (String.intercalate " " (name :: names)))]
  | .style [] => []
  | .style (entry :: entries) => [("style", .style ((entry :: entries).map entryView))]
  | .text name value => [(name, .quoted value)]
  | .number name x => [(name, .expression (.word (pixelText x)))]

private theorem mem_intercalate {separator : String} {texts : List String} {c : Char}
    (member : c ∈ (String.intercalate separator texts).toList) :
    c ∈ separator.toList ∨ ∃ text ∈ texts, c ∈ text.toList := by
  induction texts with
  | nil => cases member
  | cons text rest ih =>
    cases rest with
    | nil =>
      rw [String.intercalate_singleton] at member
      exact .inr ⟨text, List.mem_cons_self, member⟩
    | cons second more =>
      rw [String.intercalate_cons_cons] at member
      simp only [String.toList_append, List.mem_append] at member
      rcases member with (here | between) | after
      · exact .inr ⟨text, List.mem_cons_self, here⟩
      · exact .inl between
      · exact (ih after).imp_right fun ⟨other, held, inner⟩ => ⟨other, List.mem_cons_of_mem _ held, inner⟩

private theorem print_cases {a : Attribute} (plain : PlainAttribute a) :
    (a.print = "" ∧ attributeView a = []) ∨
      ∃ name given text, IsName name ∧ a.print.toList = ' ' :: (name.toList ++ '=' :: text) ∧
        attributeView a = [(name, given)] ∧ ∀ rest, readGiven (text ++ rest) = some (given, rest) := by
  cases a with
  | classes names =>
    cases names with
    | nil => exact .inl ⟨rfl, rfl⟩
    | cons name names =>
      let list := String.intercalate " " (name :: names)
      have chars : ∀ c ∈ list.toList, c ≠ '"' ∧ c ≠ '&' := by
        intro c member
        rcases mem_intercalate member with space | ⟨text, held, inner⟩
        · obtain rfl : c = ' ' := by simpa using space
          decide
        · have mark := List.all_eq_true.mp (plain text held) c inner
          constructor <;> (rintro rfl; exact absurd mark (by decide))
      refine .inr ⟨"className", .quoted list, '"' :: (list.toList ++ ['"']), by decide, ?_, rfl, fun rest => ?_⟩
      · simp [Attribute.print, list, String.toList_append]
      · have quoted := readGiven_quoted (fun c member => (chars c member).1)
          (resolve_plain fun member => (chars '&' member).2 rfl) rest
        rw [String.ofList_toList] at quoted
        simpa using quoted
  | style entries =>
    cases entries with
    | nil => exact .inl ⟨rfl, rfl⟩
    | cons entry entries =>
      refine .inr ⟨"style", .style ((entry :: entries).map entryView), '\x7b' :: '\x7b' :: ' ' ::
        ((String.intercalate ", " ((entry :: entries).map entryText)).toList ++ " \x7d\x7d".toList),
        by decide, ?_, rfl, fun rest => ?_⟩
      · have text : (entry :: entries).map (fun e => e.1 ++ ": " ++ e.2.expression) =
            (entry :: entries).map entryText := rfl
        simp only [Attribute.print, text, String.toList_append]
        simp
      · have style := readGiven_style (List.cons_ne_nil entry entries) plain rest
        simpa using style
  | text name value =>
    refine .inr ⟨name, .quoted value, '"' :: ((escape value).toList ++ ['"']), plain, ?_, rfl, fun rest => ?_⟩
    · simp [Attribute.print, String.toList_append]
    · have quoted := readGiven_quoted (fun c member => (isDelimiter_of_mem_escape member).2) (resolve_escape value) rest
      rw [String.ofList_toList] at quoted
      simpa using quoted
  | number name x =>
    refine .inr ⟨name, .expression (.word (pixelText x)), '\x7b' :: ((pixelText x).toList ++ ['\x7d']), plain, ?_, rfl,
      fun rest => ?_⟩
    · simp [Attribute.print, String.toList_append]
    · have number := readGiven_number x rest
      simpa using number

theorem readAttributes_append {attributes : List Attribute} (plain : ∀ a ∈ attributes, PlainAttribute a)
    {rest : List Char} (stop : ∀ c ∈ (skipGap rest).head?, isNameChar c = false) {steps : Nat}
    (enough : (String.join (attributes.map Attribute.print)).toList.length < steps) :
    readAttributes steps ((String.join (attributes.map Attribute.print)).toList ++ rest) =
      some (attributes.flatMap attributeView, skipGap rest) := by
  -- An attribute that prints nothing takes no step: the steps are bounded by the characters, not by the attributes.
  induction attributes generalizing steps with
  | nil =>
    cases steps with
    | zero => exact absurd enough (Nat.not_lt_zero _)
    | succ steps =>
      have closed : ¬ (skipGap rest).head?.any isNameChar = true := by
        cases head : (skipGap rest).head? with
        | none => simp
        | some c => simp [stop c head]
      rw [List.map_nil, String.join_nil, String.toList_empty, List.nil_append, readAttributes, if_neg closed]
      rfl
  | cons a others ih =>
    obtain ⟨first, tail⟩ := List.forall_mem_cons.mp plain
    rw [List.map_cons, String.join_cons, String.toList_append] at enough ⊢
    rcases print_cases first with ⟨nothing, none⟩ | ⟨name, given, text, named, form, view, read⟩
    · rw [nothing, String.toList_empty, List.nil_append] at enough ⊢
      rw [List.flatMap_cons, none, List.nil_append]
      exact ih tail enough
    · cases steps with
      | zero => exact absurd enough (Nat.not_lt_zero _)
      | succ steps =>
        have fewer : (String.join (others.map Attribute.print)).toList.length < steps := by
          rw [form] at enough
          simp only [List.length_append, List.length_cons] at enough
          omega
        have equals (cs : List Char) : Text.after? "=" ('=' :: cs) = some cs := Text.after?_append "=" cs
        have attribute_ (cs : List Char) : readAttribute (name.toList ++ '=' :: (text ++ cs)) =
            some ((name, given), cs) := by
          rw [readAttribute, readName_append named (by simp; decide)]
          simp only [equals, read, Option.bind_eq_bind, Option.bind_some]
          rfl
        have spaced (cs : List Char) : skipGap (' ' :: (name.toList ++ cs)) = name.toList ++ cs :=
          @skipGap_append [' '] _ (List.forall_mem_singleton.mpr rfl) (head_name named cs)
        have opened (cs : List Char) : (name.toList ++ cs).head?.any isNameChar = true := by
          cases chars : name.toList with
          | nil => exact absurd chars named.1
          | cons c _ =>
            have first := named.mem c (chars ▸ List.mem_cons_self)
            simpa using first
        rw [form]
        simp only [List.cons_append, List.append_assoc, readAttributes, spaced, opened, attribute_, if_true,
          ih tail fewer, Option.map_some, List.flatMap_cons, view, List.nil_append]

theorem head_attributes {attributes : List Attribute} (plain : ∀ a ∈ attributes, PlainAttribute a) {rest : List Char}
    (stop : ∀ c ∈ rest.head?, isNameChar c = false) :
    ∀ c ∈ ((String.join (attributes.map Attribute.print)).toList ++ rest).head?, isNameChar c = false := by
  induction attributes with
  | nil => exact stop
  | cons a others ih =>
    obtain ⟨first, tail⟩ := List.forall_mem_cons.mp plain
    rw [List.map_cons, String.join_cons, String.toList_append, List.append_assoc]
    rcases print_cases first with ⟨nothing, -⟩ | ⟨name, given, text, -, form, -, -⟩
    · rw [nothing]
      exact ih tail
    · rw [form]
      intro c same
      obtain rfl : ' ' = c := by simpa using same
      rfl

end Attributes

end Jsx
end Handoff.React
