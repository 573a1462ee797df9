import Handoff.Proofs.Decimal.Short
import Handoff.Roblox.Drawing

set_option autoImplicit false
set_option relaxedAutoImplicit false

/-!
The names that an expression uses, by its text.

A scan goes through the characters: words in code are names, unless they are members of what stands before them or begin
with a digit; what stands in a literal is none. The values of properties use names of the engine, and one more for each
length that cannot be scaled by a thousand: it is written as an infinite value, which is a name like any other.
-/

namespace Handoff.Roblox
open Design

def isNameChar (c : Char) : Bool :=
  c.isAlphanum || c == '_'

/-- Where the scan of an expression is. -/
inductive Place where
  /-- In code, after a part of a word; an inner word is a member. -/
  | code (inner : Bool) (word : List Char)
  | literal
  | escape
  deriving DecidableEq, Repr

namespace Place

def start : Place :=
  .code false []

/-- The name that a word is, if it is one. -/
def nameOf (inner : Bool) (word : List Char) : List String :=
  if inner || word.head?.all Char.isDigit then [] else [String.ofList word]

/-- The names that a character brings to their end, and where the scan goes on. -/
def step : Place → Char → List String × Place
  | .code inner word, c =>
    if isNameChar c then ([], .code inner (word ++ [c]))
    else (nameOf inner word, if c = '"' then .literal else .code (c == '.' || c == ':') [])
  | .literal, c => ([], if c = '\\' then .escape else if c = '"' then start else .literal)
  | .escape, _ => ([], .literal)

def run : Place → List Char → List String × Place
  | p, [] => ([], p)
  | p, c :: cs => ((p.step c).1 ++ ((p.step c).2.run cs).1, ((p.step c).2.run cs).2)

def last : Place → List String
  | .code inner word => nameOf inner word
  | _ => []

end Place

def uses (expression : String) : List String :=
  (Place.start.run expression.toList).1 ++ (Place.start.run expression.toList).2.last

/-- The names of the engine and of the language, which need no declaration. -/
def ambient : List String :=
  ["game", "Instance", "Enum", "UDim", "UDim2", "Color3", "Font", "true", "false"]

def foreign (names : List String) : List String :=
  names.filter (· ∉ ambient)

/-- The name that stands in the place of a number: an infinite value has no digits. -/
def strays (x : Float) : List String :=
  if IsScalable x then [] else ["inf"]

theorem strays_eq_nil_iff {x : Float} : strays x = [] ↔ IsScalable x := by
  unfold strays
  split <;> simp_all

theorem foreign_append (first second : List String) : foreign (first ++ second) = foreign first ++ foreign second :=
  List.filter_append ..

/-- A text that leads from one place to another and uses these names apart from those of the engine. -/
private structure Leads (p : Place) (cs : List Char) (found : List String) (q : Place) : Prop where
  names : foreign (p.run cs).1 = found
  place : (p.run cs).2 = q

private theorem Leads.nil (p : Place) : Leads p [] [] p :=
  ⟨rfl, rfl⟩

private theorem Place.run_append (p : Place) (first second : List Char) :
    p.run (first ++ second) =
      ((p.run first).1 ++ ((p.run first).2.run second).1, ((p.run first).2.run second).2) := by
  induction first generalizing p with
  | nil => rfl
  | cons c cs ih => rw [List.cons_append, Place.run, ih, Place.run, List.append_assoc]

private theorem Leads.append {p q r : Place} {first second : List Char} {found more : List String}
    (here : Leads p first found q) (there : Leads q second more r) : Leads p (first ++ second) (found ++ more) r := by
  obtain ⟨rfl, rfl⟩ := here
  refine ⟨?_, ?_⟩
  · rw [Place.run_append, foreign_append, there.names]
  · rw [Place.run_append]
    exact there.place

section Words

private theorem run_word {word : List Char} (all : ∀ c ∈ word, isNameChar c = true) (inner : Bool)
    (before : List Char) : (Place.code inner before).run word = ([], .code inner (before ++ word)) := by
  induction word generalizing before with
  | nil => simp [Place.run]
  | cons c cs ih =>
    obtain ⟨first, rest⟩ := List.forall_mem_cons.mp all
    simp only [Place.run, Place.step, first, if_true, ih rest, List.nil_append, List.append_assoc,
      List.singleton_append]

private theorem leads_word {word : List Char} (all : ∀ c ∈ word, isNameChar c = true) (inner : Bool)
    (before : List Char) : Leads (.code inner before) word [] (.code inner (before ++ word)) := by
  refine ⟨?_, ?_⟩
  · rw [run_word all]
    rfl
  · rw [run_word all]

/-- True of places in code where the word so far, if it ends there, uses these names. -/
private def Pending (found : List String) (p : Place) : Prop :=
  ∃ inner word, p = .code inner word ∧ foreign (Place.nameOf inner word) = found

private theorem pending_start : Pending [] .start :=
  ⟨false, [], rfl, rfl⟩

private theorem pending_inner (word : List Char) : Pending [] (.code true word) :=
  ⟨true, word, rfl, rfl⟩

private theorem pending_digits {digits : List Char} (all : Numeral.Digits digits) (inner : Bool) :
    Pending [] (.code inner digits) := by
  obtain ⟨d, tail, rfl⟩ := List.exists_cons_of_ne_nil all.some
  have digit : d.isDigit = true := all.all d List.mem_cons_self
  exact ⟨inner, _, rfl, by simp [Place.nameOf, digit, foreign]⟩

private theorem Pending.mark {p : Place} {found : List String} (pending : Pending found p) {c : Char}
    (mark : isNameChar c = false) (other : c ≠ '"') : Leads p [c] found (.code (c == '.' || c == ':') []) := by
  obtain ⟨inner, word, rfl, names⟩ := pending
  have step : (Place.code inner word).step c = (Place.nameOf inner word, .code (c == '.' || c == ':') []) := by
    simp [Place.step, mark, other]
  refine ⟨?_, ?_⟩
  · rw [Place.run, step, Place.run, List.append_nil]
    exact names
  · rw [Place.run, step, Place.run]

private theorem Pending.last {p : Place} {found : List String} (pending : Pending found p) :
    foreign p.last = found := by
  obtain ⟨inner, word, rfl, names⟩ := pending
  exact names

/-- An expression in which these names are found, the last of them at its end or before. -/
private def Finds (expression : String) (found : List String) : Prop :=
  ∃ q before last, Leads .start expression.toList before q ∧ Pending last q ∧ before ++ last = found

private theorem Finds.plain {expression : String} {q : Place} (leads : Leads .start expression.toList [] q)
    (pending : Pending [] q) : Finds expression [] :=
  ⟨q, [], [], leads, pending, rfl⟩

private theorem Finds.closed {expression : String} {found : List String}
    (leads : Leads .start expression.toList found .start) : Finds expression found :=
  ⟨.start, found, [], leads, pending_start, List.append_nil found⟩

private theorem foreign_uses {expression : String} {found : List String} (finds : Finds expression found) :
    foreign (uses expression) = found := by
  obtain ⟨_, _, _, ⟨rfl, rfl⟩, pending, rfl⟩ := finds
  rw [uses, foreign_append, pending.last]

theorem isNameChar_of_isDigit {c : Char} (h : c.isDigit = true) : isNameChar c = true := by
  simp [isNameChar, Char.isAlphanum, h]

end Words

section Numbers

private theorem leads_digits {digits : List Char} (all : Numeral.Digits digits) (inner : Bool) :
    Leads (.code inner []) digits [] (.code inner digits) :=
  leads_word (fun c member => isNameChar_of_isDigit (all.all c member)) inner []

private theorem finds_short {text : String} (short : IsShortNumber text) : Finds text [] := by
  obtain ⟨n, short, rfl⟩ := short
  have sign : Leads .start (if n.negative then ['-'] else []) [] .start := by
    split
    · exact pending_start.mark rfl (by decide)
    · exact .nil _
  have whole := sign.append (leads_digits short.strict.whole false)
  cases part : n.fraction with
  | none =>
    refine .plain (q := .code false n.whole) ?_ (pending_digits short.strict.whole false)
    rw [String.toList_ofList, Numeral.chars, part, short.exponent, List.append_nil,
      List.append_nil]
    exact whole
  | some digits =>
    have point : Leads (.code false n.whole) ['.'] [] (.code true []) :=
      (pending_digits short.strict.whole false).mark rfl (by decide)
    refine .plain (q := .code true digits) ?_ (pending_inner digits)
    rw [String.toList_ofList, Numeral.chars, part, short.exponent, List.append_nil]
    exact whole.append (point.append (leads_digits (short.strict.fraction digits part) true))

private theorem finds_pixelText (x : Float) : Finds (pixelText x) (strays x) := by
  unfold strays
  split
  · rename_i scalable
    exact finds_short (isShortNumber_pixelText scalable)
  · rename_i large
    have infinite := pixelText_of_not_isScalable large
    simp only [List.mem_cons, List.not_mem_nil, or_false] at infinite
    rcases infinite with form | form
    all_goals
      rw [form]
      exact ⟨_, [], ["inf"], ⟨by decide, rfl⟩, ⟨false, _, rfl, by decide⟩, rfl⟩

end Numbers

section Expressions

def IsWord (s : String) : Prop :=
  s.toList.all isNameChar = true

instance (s : String) : Decidable (IsWord s) :=
  instDecidableEqBool _ _

theorem IsWord.all {s : String} (word : IsWord s) : ∀ c ∈ s.toList, isNameChar c = true :=
  List.all_eq_true.mp word

private theorem toList_toString (n : Nat) : (toString n).toList = Nat.toDigits 10 n := by
  rw [Nat.toString_eq_repr, Nat.toList_repr]

theorem isWord_toString (n : Nat) : IsWord (toString n) := by
  rw [IsWord, toList_toString]
  exact List.all_eq_true.mpr fun c member => isNameChar_of_isDigit (Numeral.isDigit_of_mem_toDigits member)

theorem isWord_variable (v : Variable) : IsWord v.name := by
  cases v with
  | numbered cls n =>
    have digits : (toString n).toList.all isNameChar = true := isWord_toString n
    rw [IsWord, Variable.name, String.toList_append, String.toList_append, List.all_append, List.all_append, digits]
    cases cls <;> decide
  | players | player | playerGui | screenGui => decide

theorem isWord_label (p : Property) : IsWord p.label := by
  cases p <;> decide

theorem head_variable (v : Variable) :
    ∃ c cs, v.name.toList = c :: cs ∧ c.isDigit = false ∧ c ≠ '\t' ∧ c ≠ 'd' ∧ c ≠ 'e' ∧ c ≠ 'l' := by
  cases v with
  | numbered cls n =>
    rw [Variable.name, String.toList_append, String.toList_append]
    cases cls <;> exact ⟨_, _, rfl, by decide⟩
  | players | player | playerGui | screenGui => exact ⟨_, _, rfl, by decide⟩

/-- The words of a value are such, and its ratio has digits. Its texts may be any, as literals. -/
def Value.Plain : Value → Prop
  | .ratio x => IsScalable x
  | .choice family item => IsWord family ∧ IsWord item
  | .font _ weight style => IsWord weight ∧ IsWord style
  | _ => True

/-- The lengths that a value is made of, in design pixels. -/
def Value.lengths : Value → List Float
  | .length px | .offset px => [px]
  | .offsets x y => [x, y]
  | _ => []

def straysOf (units : Units) (lengths : List Float) : List String :=
  lengths.flatMap fun px => strays (units px)

theorem straysOf_append (units : Units) (first second : List Float) :
    straysOf units (first ++ second) = straysOf units first ++ straysOf units second :=
  List.flatMap_append

theorem straysOf_eq_nil_iff {units : Units} {lengths : List Float} :
    straysOf units lengths = [] ↔ ∀ px ∈ lengths, IsScalable (units px) := by
  simp only [straysOf, List.flatMap_eq_nil_iff, strays_eq_nil_iff]

theorem eq_of_mem_straysOf {units : Units} {lengths : List Float} {name : String}
    (member : name ∈ straysOf units lengths) : name = "inf" := by
  obtain ⟨px, -, stray⟩ := List.mem_flatMap.mp member
  unfold strays at stray
  split at stray
  · cases stray
  · exact List.mem_singleton.mp stray

/-- A member of the engine is named by a word. -/
def Origin.Plain : Origin → Prop
  | .member _ name => IsWord name
  | _ => True

def Statement.Plain : Statement → Prop
  | .declare _ origin => origin.Plain
  | .set _ _ value => value.Plain
  | .attach _ _ => True

private theorem leads_literalChar (c : Char) : Leads .literal (literalChar c) [] .literal := by
  unfold literalChar
  split
  · subst c; exact ⟨by decide, rfl⟩
  split
  · subst c; exact ⟨by decide, rfl⟩
  split
  · subst c; exact ⟨by decide, rfl⟩
  split
  · subst c; exact ⟨by decide, rfl⟩
  · rename_i slash quote _ _
    refine ⟨by simp [Place.run, Place.step, foreign], ?_⟩
    simp [Place.run, Place.step, slash, quote]

private theorem leads_literal (s : String) : Leads .start (literal s).toList [] .start := by
  have opening : Leads .start ['"'] [] .literal := ⟨by decide, rfl⟩
  have closing : Leads .literal ['"'] [] .start := ⟨by decide, rfl⟩
  have inner : Leads .literal (s.toList.flatMap literalChar) [] .literal := by
    induction s.toList with
    | nil => exact .nil _
    | cons c cs ih =>
      rw [List.flatMap_cons]
      exact (leads_literalChar c).append ih
  have form : (literal s).toList = ['"'] ++ s.toList.flatMap literalChar ++ ['"'] := by
    simp [literal]
  rw [form]
  exact (opening.append inner).append closing

private theorem finds_count (n : Nat) : Finds (toString n) [] := by
  have digits := Layout.digits_toDigits n
  refine .plain (q := .code false (Nat.toDigits 10 n)) ?_ (pending_digits digits false)
  rw [toList_toString]
  exact leads_digits digits false

/-- A text that ends the word before it, where an expression may begin again. -/
private def Closes (s : String) : Prop :=
  ∀ q found, Pending found q → Leads q s.toList found .start

private theorem leads_part {opening inner closing : String} {found more : List String}
    (before : Leads .start opening.toList found .start) (part : Finds inner more) (closes : Closes closing) :
    Leads .start (opening ++ inner ++ closing).toList (found ++ more) .start := by
  obtain ⟨q, _, _, leads, pending, rfl⟩ := part
  rw [String.toList_append, String.toList_append, ← List.append_assoc found]
  exact (before.append leads).append (closes q _ pending)

private theorem closes_bracket : Closes ")" :=
  fun _ _ pending => pending.mark (c := ')') rfl (by decide)

private theorem closes_comma : Closes "," :=
  fun _ _ pending => pending.mark (c := ',') rfl (by decide)

private theorem closes_after {cs : List Char} (rest : Leads .start cs [] .start) : Closes (.ofList (',' :: cs)) := by
  intro q found pending
  rw [String.toList_ofList, ← List.append_nil found]
  exact (closes_comma q found pending).append rest

private theorem finds_enumText {family item : String} (plain : IsWord family ∧ IsWord item) :
    Finds (enumText family item) [] := by
  have enum : Leads .start "Enum.".toList [] (.code true []) := ⟨by decide, by decide⟩
  have first : Leads (.code true []) family.toList [] (.code true family.toList) :=
    leads_word plain.1.all true []
  have point : Leads (.code true family.toList) ['.'] [] (.code true []) :=
    (pending_inner family.toList).mark rfl (by decide)
  have second : Leads (.code true []) item.toList [] (.code true item.toList) :=
    leads_word plain.2.all true []
  refine .plain ?_ (pending_inner item.toList)
  rw [enumText, String.toList_append, String.toList_append, String.toList_append]
  exact ((enum.append first).append point).append second

section Values

variable (units : Units)

-- The expressions are spelled out: the equations of their definition are too costly to derive here.

private theorem finds_offset (px : Float) : Finds ((Value.offset px).expression units) (strays (units px)) := by
  have opening : Leads .start "UDim.new(0,".toList [] .start := ⟨by decide, by decide⟩
  refine .closed ?_
  change Leads .start ("UDim.new(0," ++ lengthText units px ++ ")").toList _ .start
  exact leads_part opening (finds_pixelText (units px)) closes_bracket

private theorem finds_offsets (x y : Float) :
    Finds ((Value.offsets x y).expression units) (strays (units x) ++ strays (units y)) := by
  have opening : Leads .start "UDim2.new(0,".toList [] .start := ⟨by decide, by decide⟩
  have between : Closes ",0," := @closes_after ['0', ','] ⟨by decide, by decide⟩
  have right := leads_part opening (finds_pixelText (units x)) between
  refine .closed ?_
  change Leads .start
    ("UDim2.new(0," ++ lengthText units x ++ ",0," ++ lengthText units y ++ ")").toList _ .start
  exact leads_part right (finds_pixelText (units y)) closes_bracket

private theorem finds_rgb (r g b : UInt8) : Finds ((Value.rgb r g b).expression units) [] := by
  have opening : Leads .start "Color3.fromRGB(".toList [] .start := ⟨by decide, by decide⟩
  have red := leads_part opening (finds_count r.toNat) closes_comma
  have green := leads_part red (finds_count g.toNat) closes_comma
  refine .closed ?_
  change Leads .start ("Color3.fromRGB(" ++ toString r.toNat ++ "," ++ toString g.toNat ++ ","
    ++ toString b.toNat ++ ")").toList _ .start
  exact leads_part green (finds_count b.toNat) closes_bracket

private theorem finds_font (asset : String) {weight style : String} (plain : IsWord weight ∧ IsWord style) :
    Finds ((Value.font asset weight style).expression units) [] := by
  have opening : Leads .start "Font.new(".toList [] .start := ⟨by decide, by decide⟩
  have comma : Closes ", " := @closes_after [' '] ⟨by decide, by decide⟩
  have heavy := finds_enumText ⟨(by decide : IsWord "FontWeight"), plain.1⟩
  have slanted := finds_enumText ⟨(by decide : IsWord "FontStyle"), plain.2⟩
  have first := leads_part opening (.closed (leads_literal asset)) comma
  have second := leads_part first heavy comma
  refine .closed ?_
  change Leads .start ("Font.new(" ++ literal asset ++ ", " ++ enumText "FontWeight" weight ++ ", "
    ++ enumText "FontStyle" style ++ ")").toList _ .start
  exact leads_part second slanted closes_bracket

end Values

/-- The value of a property uses no names but the engine's, apart from those that stand for its lengths. -/
theorem foreign_expression (units : Units) {value : Value} (plain : value.Plain) :
    foreign (uses (value.expression units)) = straysOf units value.lengths := by
  apply foreign_uses
  cases value with
  | text s => exact .closed (leads_literal s)
  | flag b =>
    cases b with
    | true =>
      have word : Leads .start "true".toList [] (.code false "true".toList) := ⟨by decide, by decide⟩
      exact .plain word ⟨false, _, rfl, by decide⟩
    | false =>
      have word : Leads .start "false".toList [] (.code false "false".toList) := ⟨by decide, by decide⟩
      exact .plain word ⟨false, _, rfl, by decide⟩
  | count n => exact finds_count n
  | ratio x =>
    have digits := finds_pixelText x
    rwa [strays_eq_nil_iff.mpr plain] at digits
  | length px =>
    rw [Value.lengths, straysOf, List.flatMap_singleton]
    exact finds_pixelText (units px)
  | offset px =>
    rw [Value.lengths, straysOf, List.flatMap_singleton]
    exact finds_offset units px
  | offsets x y =>
    rw [Value.lengths, straysOf, List.flatMap_cons, List.flatMap_singleton]
    exact finds_offsets units x y
  | half => exact .closed (⟨by decide, by decide⟩ : Leads .start "UDim.new(0.5,0)".toList [] .start)
  | rgb r g b => exact finds_rgb units r g b
  | choice family item => exact finds_enumText plain
  | font asset weight style => exact finds_font units asset plain

theorem foreign_fresh (cls : Class) : foreign (uses (Origin.fresh cls).expression) = [] := by
  have opening : Leads .start "Instance.new(".toList [] .start := ⟨by decide, by decide⟩
  exact foreign_uses (.closed (leads_part opening (.closed (leads_literal cls.name)) closes_bracket))

theorem uses_variable (v : Variable) : uses v.name = [v.name] := by
  obtain ⟨c, cs, form, digit, -⟩ := head_variable v
  have run := run_word (isWord_variable v).all false []
  have word : Place.nameOf false v.name.toList = [v.name] := by
    rw [Place.nameOf, String.ofList_toList, form]
    simp [digit]
  rw [uses, Place.start, run]
  exact word

end Expressions

end Handoff.Roblox
