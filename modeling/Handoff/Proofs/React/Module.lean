import Handoff.Proofs.React.Comments

set_option autoImplicit false
set_option relaxedAutoImplicit false

/-!
A reader of what a module imports and exports.

Statements that do so begin at the left margin. A component has its markup in between, where a line of a text may look
like any statement: the lines of a component are read around what it returns. The language keeps some words for itself,
so that a statement cannot be read that binds one of them. What a check of types adds to that is left out.
-/

namespace Handoff.React
open Design

/-- A statement that takes a name into a module, or gives one out. -/
inductive Item where
  /-- Binds the default of another module. -/
  | imported (name path : String)
  /-- Declares a binding, and exports it under its own name. -/
  | declared (name : String)
  /-- Exports a binding as the default. -/
  | default (name : String)
  /-- Exports under the same name what another module does. -/
  | again (name path : String)
  deriving DecidableEq, Repr

/-- What stands where a component returns something, an element or a comment alone, and what follows it. -/
def Jsx.readReturned (cs : List Char) : Option (Jsx × List Char) :=
  (readElement cs.length cs).or (readComment cs)

/-- The name of the root, where it is a comment, has nothing that ends the comment before its line. -/
def MarksOneLine (options : Options) (tree : Tree) : Prop :=
  ∀ name ∈ markerName options.comments tree.root, '\u2028' ∉ name.toList ∧ '\u2029' ∉ name.toList

namespace Item

def bound : Item → List String
  | .imported name _ | .declared name => [name]
  | .default _ | .again .. => []

def exported : Item → List String
  | .imported .. => []
  | .declared name | .again name _ => [name]
  | .default _ => ["default"]

/-- The statements of a module that can be loaded: no name is bound twice, none is exported twice, and what is the
default is bound. -/
structure Loads (items : List Item) : Prop where
  bound : (items.flatMap Item.bound).Nodup
  exported : (items.flatMap Item.exported).Nodup
  known : ∀ name, .default name ∈ items → name ∈ items.flatMap Item.bound

def declarators : List String := ["const ", "function ", "class "]

def readName (cs : List Char) : Option (String × List Char) :=
  (Jsx.readName cs).filter fun r => Jsx.isName r.1.toList

/-- A name that the language does not keep for itself. -/
def readBinding (cs : List Char) : Option (String × List Char) :=
  (readName cs).filter fun r => decide (r.1 ∉ reservedWords)

/-- The path of a module at the end of a statement. -/
def readPath (cs : List Char) : Option String := do
  let cs ← Text.after? " from '" cs
  let (path, rest) := Text.takeRun (· != '\'') cs
  if rest = ['\'', ';'] then some path else none

def readImport (cs : List Char) : Option Item := do
  let (name, rest) ← readBinding cs
  let path ← readPath rest
  return .imported name path

def readExport (cs : List Char) : Option Item :=
  match Text.after? "default " cs, Text.after? "\x7b " cs with
  | some cs, _ => do
    let (name, rest) ← readBinding cs
    if rest = [';'] then some (.default name) else none
  | none, some cs => do
    let (name, rest) ← readName cs
    let rest ← Text.after? " \x7d" rest
    let path ← readPath rest
    return .again name path
  | none, none => do
    let cs ← declarators.findSome? (Text.after? · cs)
    let (name, _) ← readBinding cs
    return .declared name

/-- What a line states, if it imports or exports something. -/
def onLine (line : String) : Option (Option Item) :=
  match Text.after? "import " line.toList, Text.after? "export " line.toList with
  | some cs, _ => some (readImport cs)
  | none, some cs => some (readExport cs)
  | none, none => none

/-- The statements in lines of a module; `none` where one of them cannot be read. -/
def inLines? : List String → Option (List Item)
  | [] => some []
  | line :: rest =>
    match onLine line with
    | none => inLines? rest
    | some read => do
      let first ← read
      let others ← inLines? rest
      return first :: others

/-- The parts of a line that the language has as lines of their own. -/
def cut (line : String) : List String :=
  (line.toList.splitOnP isLineEnd).map String.ofList

def ofModule? (source : String) : Option (List Item) :=
  inLines? ((Text.lines source).flatMap cut)

/-- The statements of a component, in the lines around what it returns. -/
def ofComponent? (source : String) : Option (List Item) := do
  let body ← Jsx.afterReturn? source
  let (_, rest) ← Jsx.readReturned (Jsx.skipGap body.toList)
  let rest ← Text.after? ");" (Jsx.skipGap rest)
  inLines? ((Jsx.linesBeforeReturn source ++ Text.lines (String.ofList rest)).flatMap cut)

section Statements

variable {name : String}

private theorem readName_append (named : Jsx.isName name.toList = true) {rest : List Char}
    (stop : ∀ c ∈ rest.head?, isNameChar c = false) : readName (name.toList ++ rest) = some (name, rest) := by
  have letters := (Bool.and_eq_true_iff.mp named).1
  have nonempty : name.toList ≠ [] := fun none => by rw [none] at named; cases named
  rw [readName, Jsx.readName_append ⟨nonempty, letters⟩ stop, Option.filter_some, if_pos named]

private theorem readBinding_append (named : Jsx.isName name.toList = true) {rest : List Char}
    (stop : ∀ c ∈ rest.head?, isNameChar c = false) :
    readBinding (name.toList ++ rest) = if name ∈ reservedWords then none else some (name, rest) := by
  rw [readBinding, readName_append named stop, Option.filter_some]
  by_cases reserved : name ∈ reservedWords
  · rw [if_neg (by simp [reserved]), if_pos reserved]
  · rw [if_pos (by simp [reserved]), if_neg reserved]

private theorem readPath_append {path : String} (plain : '\'' ∉ path.toList) :
    readPath (" from '".toList ++ (path.toList ++ ['\'', ';'])) = some path := by
  have within : ∀ c ∈ path.toList, (c != '\'') = true := fun c member => by
    rw [bne_iff_ne]
    exact fun same => plain (same ▸ member)
  have stop : ∀ c ∈ ['\'', ';'].head?, (c != '\'') = false := by simp
  rw [readPath, Text.after?_append]
  simp only [Option.bind_eq_bind, Option.bind_some, Text.takeRun_append within stop, String.ofList_toList]
  rfl

private theorem readExport_default (named : Jsx.isName name.toList = true) (free : name ∉ reservedWords) :
    readExport ("default ".toList ++ (name.toList ++ [';'])) = some (.default name) := by
  have stop : ∀ c ∈ [';'].head?, isNameChar c = false := by simp; decide
  rw [readExport, Text.after?_append]
  simp only [readBinding_append named stop, if_neg free]
  rfl

private theorem readExport_declared (named : Jsx.isName name.toList = true) {word : String} (known : word ∈ declarators)
    {rest : List Char} (stop : ∀ c ∈ rest.head?, isNameChar c = false) :
    readExport (word.toList ++ (name.toList ++ rest)) =
      if name ∈ reservedWords then none else some (.declared name) := by
  have found : Text.after? "default " (word.toList ++ (name.toList ++ rest)) = none ∧
      Text.after? "\x7b " (word.toList ++ (name.toList ++ rest)) = none ∧
      declarators.findSome? (Text.after? · (word.toList ++ (name.toList ++ rest))) = some (name.toList ++ rest) := by
    simp only [declarators, List.mem_cons, List.not_mem_nil, or_false] at known
    rcases known with rfl | rfl | rfl <;> exact ⟨rfl, rfl, rfl⟩
  rw [readExport, found.1, found.2.1]
  simp only [found.2.2, Option.bind_eq_bind, Option.bind_some, readBinding_append named stop]
  by_cases reserved : name ∈ reservedWords
  · rw [if_pos reserved, if_pos reserved]
    rfl
  · rw [if_neg reserved, if_neg reserved]
    rfl

theorem readExport_again (named : Jsx.isName name.toList = true) {path : String} (plain : '\'' ∉ path.toList) :
    readExport ("\x7b ".toList ++ (name.toList ++
      (" \x7d".toList ++ (" from '".toList ++ (path.toList ++ ['\'', ';']))))) = some (.again name path) := by
  have other (rest : List Char) : Text.after? "default " ("\x7b ".toList ++ rest) = none := rfl
  have stop (rest : List Char) : ∀ c ∈ (" \x7d".toList ++ rest).head?, isNameChar c = false := by simp; decide
  rw [readExport, other, Text.after?_append]
  simp only [readName_append named (stop _), Option.bind_eq_bind, Option.bind_some, Text.after?_append,
    readPath_append plain]
  rfl

theorem onLine_export {line : String} {cs : List Char} (form : line.toList = "export ".toList ++ cs) :
    onLine line = some (readExport cs) := by
  have other : Text.after? "import " ("export ".toList ++ cs) = none := rfl
  rw [onLine, form, other, Text.after?_append]

theorem inLines?_cons {line : String} {first : Item} (read : onLine line = some (some first)) (rest : List String) :
    inLines? (line :: rest) = (inLines? rest).map (first :: ·) := by
  rw [inLines?, read]
  cases inLines? rest <;> rfl

private theorem inLines?_unread {line : String} (unread : onLine line = some none) (rest : List String) :
    inLines? (line :: rest) = none := by
  rw [inLines?, unread]
  rfl

/-- True of a line that neither imports nor exports. -/
def Plain (line : String) : Prop :=
  onLine line = none

instance (line : String) : Decidable (Plain line) :=
  inferInstanceAs (Decidable (_ = _))

private theorem inLines?_append {lines : List String} (plain : ∀ line ∈ lines, Plain line) (rest : List String) :
    inLines? (lines ++ rest) = inLines? rest := by
  induction lines with
  | nil => rfl
  | cons line lines ih =>
    obtain ⟨here, later⟩ := List.forall_mem_cons.mp plain
    rw [List.cons_append, inLines?, here]
    exact ih later

/-- True of a line that is one to the language, too. -/
def Whole (line : String) : Prop :=
  (line.toList.all fun c => !isLineEnd c) = true

instance (line : String) : Decidable (Whole line) :=
  inferInstanceAs (Decidable (_ = true))

private theorem whole_iff {line : String} : Whole line ↔ ∀ c ∈ line.toList, isLineEnd c = false := by
  simp [Whole]

private theorem cut_of_whole {line : String} (whole : Whole line) : cut line = [line] := by
  rw [cut, List.splitOnP_eq_singleton (whole_iff.mp whole), List.map_singleton, String.ofList_toList]

theorem flatMap_cut {lines : List String} (whole : ∀ line ∈ lines, Whole line) : lines.flatMap cut = lines := by
  rw [List.flatMap_congr fun line member => cut_of_whole (whole line member), List.flatMap_singleton']

theorem whole_append {first second : String} (left : Whole first) (right : Whole second) : Whole (first ++ second) := by
  rw [whole_iff, String.toList_append]
  exact List.forall_mem_append.mpr ⟨whole_iff.mp left, whole_iff.mp right⟩

theorem whole_of_isName (named : Jsx.isName name.toList = true) : Whole name := by
  refine whole_iff.mpr fun c member => ?_
  have letter := List.all_eq_true.mp (Bool.and_eq_true_iff.mp named).1 c member
  have apart (other : Char) (sign : Jsx.isNameChar other = false) : c ≠ other := by
    rintro rfl
    rw [letter] at sign
    cases sign
  simp [isLineEnd, apart '\n' rfl, apart '\r' rfl, apart '\u2028' rfl, apart '\u2029' rfl]

end Statements

section Component

/-- The name of a component is one that can be declared, unless the language keeps it for itself. -/
theorem isName_componentName (configured : String) : Jsx.isName (componentName configured).toList = true := by
  obtain ⟨first, rest, form, noDigit, -⟩ := isIdentifier_componentName configured
  have letters := isNameChar_componentName configured
  rw [form] at letters ⊢
  rw [Jsx.isName, List.head?_cons, Option.any_some, noDigit, Bool.not_false, Bool.and_true, List.all_eq_true]
  exact letters

private theorem exists_opening (options : Options) {name : String} (named : Jsx.isName name.toList = true) :
    ∃ line methods, (Shell.of options name).opening = line :: methods ∧
      onLine line = some (if name ∈ reservedWords then none else some (.declared name)) ∧
      Whole line ∧ ∀ line ∈ methods, Plain line ∧ Whole line := by
  have read {word tail : String} (known : word ∈ declarators) (stop : ∀ c ∈ tail.toList.head?, isNameChar c = false) :
      onLine ("export " ++ word ++ name ++ tail) =
        some (if name ∈ reservedWords then none else some (.declared name)) := by
    have form : ("export " ++ word ++ name ++ tail).toList =
        "export ".toList ++ (word.toList ++ (name.toList ++ tail.toList)) := by
      simp only [String.toList_append, List.append_assoc]
    rw [onLine_export form, readExport_declared named known stop]
  have whole {lead tail : String} (left : Whole lead) (right : Whole tail) : Whole (lead ++ name ++ tail) :=
    whole_append (whole_append left (whole_of_isName named)) right
  unfold Shell.of
  split
  · exact ⟨_, [], rfl, @read "const " ": React.FC = () => \x7b" (by decide) (by simp; decide),
      whole (by decide) (by decide), nofun⟩
  · exact ⟨_, [], rfl, @read "function " "() \x7b" (by decide) (by simp; decide),
      whole (by decide) (by decide), nofun⟩
  · exact ⟨_, _, rfl, @read "class " " extends React.Component<Record<string, never>> \x7b" (by decide)
      (by simp; decide), whole (by decide) (by decide), by decide⟩
  · exact ⟨_, _, rfl, @read "class " " extends React.Component \x7b" (by decide) (by simp; decide),
      whole (by decide) (by decide), by decide⟩

private theorem plain_of_head {line : String} (other : ∀ c ∈ line.toList.head?, c ≠ 'e' ∧ c ≠ 'i') : Plain line := by
  have apart {word : String} (opens : ∀ c ∈ line.toList.head?, c ∉ word.toList.head?) (more : word.toList ≠ []) :
      Text.after? word line.toList = none := by
    refine if_neg fun same => ?_
    obtain ⟨rest, form⟩ := List.isPrefixOf_iff_prefix.mp same
    obtain ⟨c, cs, start⟩ := List.exists_cons_of_ne_nil more
    rw [start] at form opens
    exact opens c (by rw [← form]; rfl) rfl
  have imports : Text.after? "import " line.toList = none :=
    apart (fun c head same => (other c head).2 (Option.some.inj same).symm) (by decide)
  have exports : Text.after? "export " line.toList = none :=
    apart (fun c head same => (other c head).1 (Option.some.inj same).symm) (by decide)
  rw [Plain, onLine, imports, exports]

private theorem plain_marker (depth : Nat) (s : String) : Plain (Text.indent depth ++ "// " ++ s) := by
  refine plain_of_head fun c head => ?_
  rw [String.toList_append, String.toList_append, Text.indent, String.toList_ofList, List.append_assoc] at head
  cases depth with
  | zero =>
    obtain rfl := Option.some.inj head
    decide
  | succ depth =>
    obtain rfl := Option.some.inj head
    decide

private theorem whole_indent (depth : Nat) : Whole (Text.indent depth) := by
  refine whole_iff.mpr fun c member => ?_
  rw [Text.indent, String.toList_ofList] at member
  rw [List.eq_of_mem_replicate member]
  rfl

private theorem readReturned_body {m : Markup} (plain : m.Plain) (depth : Nat) (rest : List Char) :
    ∃ jsx, Jsx.readReturned (m.body depth ++ rest) = some (jsx, rest) := by
  cases element : m.isElement with
  | true =>
    have enough : (m.body depth).length ≤ (m.body depth ++ rest).length := by
      rw [List.length_append]
      omega
    obtain ⟨tag, attributes, children, read, -⟩ := m.readElement_body plain element depth _ enough rest
    exact ⟨_, by rw [Jsx.readReturned, read, Option.some_or]⟩
  | false =>
    cases m with
    | void | label | group => cases element
    | comment s =>
      have unread (steps : Nat) (cs : List Char) : Jsx.readElement steps ('\x7b' :: cs) = none := by
        cases steps <;> rfl
      have none (steps : Nat) : Jsx.readElement steps ((Markup.comment s).body depth ++ rest) = none := by
        rw [Markup.body, String.toList_append, String.toList_append]
        exact unread steps _
      exact ⟨_, by rw [Jsx.readReturned, none, Option.none_or]; exact Jsx.readComment_commentText s rest⟩

private theorem ofComponent?_eq (options : Options) (tree : Tree) :
    ofComponent? (generate options tree) =
      inLines? ((leadingLines options tree ++ "" :: (trailingLines options ++ [""])).flatMap cut) := by
  obtain ⟨before, depth, after⟩ := aroundReturn_generate options tree
  have plain := plain_element options.comments .root tree.root
  obtain ⟨jsx, returned⟩ := readReturned_body plain (depth + 1)
    ('\n' :: ((Text.indent depth).toList ++ (");".toList ++ '\n' :: (Text.unlines (trailingLines options)).toList)))
  have behind : Text.lines (String.ofList ('\n' :: (Text.unlines (trailingLines options)).toList)) =
      "" :: (trailingLines options ++ [""]) := by
    have form : String.ofList ('\n' :: (Text.unlines (trailingLines options)).toList) =
        Text.unlines ("" :: trailingLines options) :=
      String.toList_injective (by rw [String.toList_ofList, Text.toList_unlines_cons]; rfl)
    rw [form, Text.lines_unlines (List.forall_mem_cons.mpr ⟨by decide, oneLine_trailingLines options⟩),
      List.cons_append]
  rw [ofComponent?, after, before]
  simp only [Option.bind_eq_bind, Option.bind_some]
  rw [skipGap_returned plain, returned]
  simp only [Option.bind_some, skipGap_closing, Text.after?_append, behind]

/-- The lines that are read of a component: what imports the library, what declares the component and what exports it as
the default, with nothing else that imports or exports. -/
private theorem exists_lines (options : Options) (tree : Tree) :
    ∃ line between, leadingLines options tree ++ "" :: (trailingLines options ++ [""]) =
        "import React from 'react';" :: "" :: line ::
          (between ++ ["export default " ++ componentName options.componentName ++ ";", ""]) ∧
      onLine line = some (if componentName options.componentName ∈ reservedWords then none
        else some (.declared (componentName options.componentName))) ∧
      Whole line ∧ (∀ s ∈ between, Plain s) ∧ (MarksOneLine options tree → ∀ s ∈ between, Whole s) := by
  obtain ⟨line, methods, opening, read, whole, others⟩ :=
    exists_opening options (isName_componentName options.componentName)
  let shell := Shell.of options (componentName options.componentName)
  let markers := (markerName options.comments tree.root).toList.map fun name =>
    Text.indent shell.depth ++ "// " ++ commentText name
  have closing : ∀ s ∈ shell.closing, Plain s ∧ Whole s := forall_closing (by decide) options
  refine ⟨line, methods ++ markers ++ "" :: (shell.closing ++ [""]), ?_, read, whole, ?_, fun marks => ?_⟩
  · simp [leadingLines, trailingLines, opening, markers, shell]
  · have marked : ∀ s ∈ markers, Plain s := by
      intro s member
      obtain ⟨name, -, rfl⟩ := List.mem_map.mp member
      exact plain_marker shell.depth (commentText name)
    simp only [List.forall_mem_append, List.forall_mem_cons]
    exact ⟨⟨fun s member => (others s member).1, marked⟩, by decide, fun s member => (closing s member).1, by decide⟩
  · have marked : ∀ s ∈ markers, Whole s := by
      intro s member
      obtain ⟨name, held, rfl⟩ := List.mem_map.mp member
      have ends := (forall_isLineEnd_commentText name).mpr (marks name (Option.mem_toList.mp held))
      exact whole_append (whole_append (whole_indent _) (by decide)) (whole_iff.mpr ends)
    simp only [List.forall_mem_append, List.forall_mem_cons]
    exact ⟨⟨fun s member => (others s member).2, marked⟩, by decide, fun s member => (closing s member).2, by decide⟩

variable {options : Options} {tree : Tree}

private theorem onLine_import : onLine "import React from 'react';" = some (some (.imported "React" "react")) := by
  decide

private theorem whole_import : Whole "import React from 'react';" := by
  decide

private theorem plain_empty : Plain "" := by
  decide

theorem ofComponent?_reserved (reserved : componentName options.componentName ∈ reservedWords) :
    ofComponent? (generate options tree) = none := by
  obtain ⟨line, between, all, read, whole, -⟩ := exists_lines options tree
  rw [if_pos reserved] at read
  have cuts : (leadingLines options tree ++ "" :: (trailingLines options ++ [""])).flatMap cut =
      "import React from 'react';" :: ([""] ++ line ::
        (between ++ ["export default " ++ componentName options.componentName ++ ";", ""]).flatMap cut) := by
    simp only [all, List.flatMap_cons, cut_of_whole whole_import, cut_of_whole (show Whole "" by decide),
      cut_of_whole whole, List.singleton_append]
  rw [ofComponent?_eq, cuts, inLines?_cons onLine_import, inLines?_append (List.forall_mem_singleton.mpr plain_empty),
    inLines?_unread read]
  rfl

/-- A component imports the library and exports a binding of its own name, and the same as the default, and states
nothing else. -/
theorem ofComponent?_generate (free : componentName options.componentName ∉ reservedWords)
    (marks : MarksOneLine options tree) :
    ofComponent? (generate options tree) = some [.imported "React" "react",
      .declared (componentName options.componentName), .default (componentName options.componentName)] := by
  have named := isName_componentName options.componentName
  obtain ⟨line, between, all, read, whole, plain, apart⟩ := exists_lines options tree
  rw [if_neg free] at read
  let last := "export default " ++ componentName options.componentName ++ ";"
  have lastly : Whole last := whole_append (whole_append (by decide) (whole_of_isName named)) (by decide)
  have single : ∀ s ∈ leadingLines options tree ++ "" :: (trailingLines options ++ [""]), Whole s := by
    rw [all]
    simp only [List.forall_mem_cons, List.forall_mem_append]
    exact ⟨whole_import, by decide, whole, apart marks, lastly, by decide⟩
  have default : onLine last = some (some (.default (componentName options.componentName))) := by
    have form : last.toList =
        "export ".toList ++ ("default ".toList ++ ((componentName options.componentName).toList ++ [';'])) := by
      simp [last, String.toList_append]
    rw [onLine_export form, readExport_default named free]
  rw [ofComponent?_eq, flatMap_cut single, all, inLines?_cons onLine_import, ← List.singleton_append,
    inLines?_append (List.forall_mem_singleton.mpr plain_empty), inLines?_cons read, inLines?_append plain,
    inLines?_cons default]
  rfl

end Component

end Item

end Handoff.React
