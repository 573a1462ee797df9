import Handoff.Proofs.React.Returned

set_option autoImplicit false
set_option relaxedAutoImplicit false

/-!
Where the comments of a component end.

The names of nodes stand in comments. Those between marks end at the mark that was put there for it, whatever stands in
them. The comment with the name of the root goes up to the end of its line, and the language knows more ends of lines
than the two that are taken out of names.
-/

namespace Handoff.React
open Design

/-- Where a scan of a script is, as far as comments go. -/
inductive Context where
  | code
  /-- In a literal between such quotes. -/
  | literal (quote : Char)
  /-- After a backslash in a literal. -/
  | escape (quote : Char)
  /-- In a comment that ends with its line. -/
  | line
  /-- At the second character of the mark that opens a comment. -/
  | opening
  /-- In a comment that ends with a mark. -/
  | block
  /-- At the second character of that mark. -/
  | closing
  deriving DecidableEq, Repr

def isLineEnd (c : Char) : Bool :=
  c == '\n' || c == '\r' || c == '\u2028' || c == '\u2029'

/-- The characters of a script, each with whether it belongs to a comment. The end of a line does not. -/
def commented : Context → List Char → List (Char × Bool)
  | _, [] => []
  | .code, c :: cs =>
    if c = '/' ∧ cs.head? = some '/' then (c, true) :: commented .line cs
    else if c = '/' ∧ cs.head? = some '*' then (c, true) :: commented .opening cs
    else (c, false) :: commented (if c = '\'' ∨ c = '"' then .literal c else .code) cs
  | .literal quote, c :: cs =>
    (c, false) :: commented (if c = quote then .code else if c = '\\' then .escape quote else .literal quote) cs
  | .escape quote, c :: cs => (c, false) :: commented (.literal quote) cs
  | .line, c :: cs =>
    if isLineEnd c then (c, false) :: commented .code cs else (c, true) :: commented .line cs
  | .opening, c :: cs => (c, true) :: commented .block cs
  | .block, c :: cs =>
    (c, true) :: commented (if c = '*' ∧ cs.head? = some '/' then .closing else .block) cs
  | .closing, c :: cs => (c, true) :: commented .code cs

section Scanning

/-- Characters that belong to a comment. -/
abbrev inComment (cs : List Char) : List (Char × Bool) :=
  cs.map fun c => (c, true)

/-- Characters that belong to no comment. -/
abbrev inCode (cs : List Char) : List (Char × Bool) :=
  cs.map fun c => (c, false)

private def isPlain (c : Char) : Bool :=
  c != '/' && c != '\'' && c != '"'

private theorem commented_plain {run : List Char} (plain : ∀ c ∈ run, isPlain c = true) (rest : List Char) :
    commented .code (run ++ rest) = inCode run ++ commented .code rest := by
  induction run with
  | nil => rfl
  | cons c cs ih =>
    obtain ⟨sign, others⟩ := List.forall_mem_cons.mp plain
    obtain ⟨⟨slash, single⟩, double⟩ : (c ≠ '/' ∧ c ≠ '\'') ∧ c ≠ '"' := by
      simpa [isPlain] using sign
    rw [List.cons_append, commented, if_neg (by simp [slash]), if_neg (by simp [slash]),
      if_neg (by simp [single, double]), ih others]
    rfl

/-- A comment at the end of a line has all of the line exactly when no character in it ends the line earlier. -/
private theorem commented_line (run rest : List Char) :
    commented .line (run ++ '\n' :: rest) = inComment run ++ ('\n', false) :: commented .code rest ↔
      ∀ c ∈ run, isLineEnd c = false := by
  induction run with
  | nil => exact iff_of_true rfl (List.forall_mem_nil _)
  | cons c cs ih =>
    rw [List.cons_append, commented, List.forall_mem_cons]
    cases ends : isLineEnd c with
    | true => simp
    | false => simp [ih]

/-- A comment between marks ends where a reader of it finds the mark that closes it. -/
theorem commented_block {cs inner rest : List Char} (read : Jsx.readInner cs = some (inner, rest)) :
    commented .block cs = inComment (inner ++ "*/".toList) ++ commented .code rest := by
  induction cs using Jsx.readInner.induct generalizing inner with
  | case1 cs =>
    rw [Jsx.readInner, Option.some.injEq, Prod.mk.injEq] at read
    obtain ⟨rfl, rfl⟩ := read
    rfl
  | case2 c cs other ih =>
    have apart : c = '*' → cs.head? ≠ some '/' := by
      intro star slash
      cases cs with
      | nil => cases slash
      | cons d ds =>
        obtain rfl := Option.some.inj slash
        exact other ds star rfl
    rw [Jsx.readInner_cons apart] at read
    obtain ⟨⟨first, after⟩, found, same⟩ := Option.map_eq_some_iff.mp read
    obtain ⟨rfl, rfl⟩ := Prod.mk.inj same
    rw [commented, if_neg fun both => apart both.1 both.2, ih found]
    rfl
  | case3 => cases read

/-- What stands between the marks of a comment. -/
def noted (text : String) : String :=
  " " ++ commentText text ++ " "

/-- The comment that a text was put into between marks is a comment as a whole, and what follows it is none. -/
theorem commented_noted (text : String) (rest : List Char) :
    commented .code (("/*" ++ noted text ++ "*/").toList ++ rest) =
      inComment ("/*" ++ noted text ++ "*/").toList ++ commented .code rest := by
  have form : ("/*" ++ noted text ++ "*/").toList = '/' :: '*' :: ((noted text).toList ++ "*/".toList) := by
    simp [String.toList_append]
  have inner : (noted text).toList ++ "*/".toList = (" " ++ commentText text ++ " */").toList := by
    simp [noted, String.toList_append]
  have block := commented_block (Jsx.readInner_commentText text rest)
  rw [form, inner, List.cons_append, List.cons_append, commented, if_neg (by simp), if_pos (by simp), commented, block,
    ← inner]
  rfl

end Scanning

section Notes

mutual

/-- The comments in a shape, in the order of the text. -/
def Outline.comments : Outline → List String
  | .text _ => []
  | .comment s => [s]
  | .element _ _ children => Outline.allComments children

def Outline.allComments : List Outline → List String
  | [] => []
  | piece :: rest => piece.comments ++ Outline.allComments rest

end

mutual

/-- The texts that a node and those below it have in comments: the names of the nodes that are marked below it, and what
stands for a node of no known type. -/
def notesOf (comments : Bool) : Node → List String
  | .leaf header (.unknown type) => ["Unsupported node type: " ++ type ++ " (" ++ header.id ++ ")"]
  | .leaf _ _ => []
  | .container _ _ children => allNotesOf comments children

def allNotesOf (comments : Bool) : List Node → List String
  | [] => []
  | node :: rest => (markerName comments node).toList ++ notesOf comments node ++ allNotesOf comments rest

end

private theorem allComments_append (first second : List Outline) :
    Outline.allComments (first ++ second) = Outline.allComments first ++ Outline.allComments second := by
  induction first with
  | nil => rfl
  | cons piece rest ih => rw [List.cons_append, Outline.allComments, Outline.allComments, ih, List.append_assoc]

private theorem comments_leafOutline (h : Header) (kind : Leaf) (comments : Bool) :
    (leafOutline h kind).comments = (notesOf comments (.leaf h kind)).map noted := by
  cases kind with
  | text a =>
    rw [leafOutline, Outline.comments]
    split <;> rfl
  | path role a => rfl
  | rect | ellipse | image | line | unknown => rfl

mutual

theorem comments_outlineOf (comments : Bool) (node : Node) :
    (outlineOf comments node).comments = (notesOf comments node).map noted := by
  match node with
  | .leaf header kind => exact comments_leafOutline header kind comments
  | .container _ _ children =>
    rw [outlineOf, Outline.comments, notesOf, allComments_outlinesOf comments children]

theorem allComments_outlinesOf (comments : Bool) (nodes : List Node) :
    Outline.allComments (outlinesOf comments nodes) = (allNotesOf comments nodes).map noted := by
  match nodes with
  | [] => rfl
  | node :: rest =>
    have marker : Outline.allComments (markerOutlines comments node) =
        (markerName comments node).toList.map noted := by
      rw [markerOutlines]
      cases markerName comments node <;> rfl
    rw [outlinesOf, allComments_append, marker, Outline.allComments, comments_outlineOf comments node,
      allComments_outlinesOf comments rest, allNotesOf, List.map_append, List.map_append, List.append_assoc]

end

/-- What stands where a component returns something: an element, or a comment alone. -/
def Jsx.returned? (source : String) : Option Jsx :=
  (ofComponent? source).or (commentOf? source)

theorem exists_returned (options : Options) (tree : Tree) :
    ∃ jsx, Jsx.returned? (generate options tree) = some jsx ∧
      jsx.outline.comments = (notesOf options.comments tree.root).map noted := by
  obtain ⟨depth, rest, after⟩ := afterReturn?_generate options tree
  cases known : isKnown tree.root with
  | true =>
    obtain ⟨jsx, read, shape, -⟩ := exists_ofComponent? options tree known
    refine ⟨jsx, by rw [Jsx.returned?, read]; rfl, ?_⟩
    rw [shape, outline_element, comments_outlineOf]
  | false =>
    obtain ⟨header, type, root⟩ := exists_unknown known
    rw [root] at after ⊢
    exact ⟨_, by rw [Jsx.returned?, ofComponent?_of_comment after, commentOf?_of_comment after]; rfl, rfl⟩

end Notes

section RootName

private theorem mem_openClosers {c : Char} (cs : List Char) (other : c ≠ ' ') : c ∈ openClosers cs ↔ c ∈ cs := by
  induction cs using openClosers.induct with
  | case1 => rfl
  | case2 d => rfl
  | case3 a b tail closer ih =>
    obtain ⟨rfl, rfl⟩ := closer
    rw [openClosers, if_pos ⟨rfl, rfl⟩]
    simp only [List.mem_cons, other, ih, false_or]
  | case4 a b tail apart ih =>
    rw [openClosers, if_neg apart]
    simp only [List.mem_cons, ih]

/-- The ends of lines that are left in a comment are those that are taken out of no name. -/
theorem forall_isLineEnd_commentText (name : String) :
    (∀ c ∈ (commentText name).toList, isLineEnd c = false) ↔ '\u2028' ∉ name.toList ∧ '\u2029' ∉ name.toList := by
  have text : (commentText name).toList =
      (openClosers name.toList).map fun c => if c = '\n' ∨ c = '\r' then ' ' else c := by
    rw [commentText, String.toList_ofList]
  rw [text, List.forall_mem_map, ← mem_openClosers name.toList (show '\u2028' ≠ ' ' by decide),
    ← mem_openClosers name.toList (show '\u2029' ≠ ' ' by decide)]
  constructor
  · intro all
    constructor
    all_goals
      intro member
      exact absurd (all _ member) (by decide)
  · rintro ⟨lines, paragraphs⟩ c member
    split
    · rfl
    · rename_i other
      rw [not_or] at other
      have line : c ≠ '\u2028' := fun same => lines (same ▸ member)
      have paragraph : c ≠ '\u2029' := fun same => paragraphs (same ▸ member)
      simp [isLineEnd, other, line, paragraph]

/-- The source up to the comment with the name of the root. -/
def sourceBefore (options : Options) : String :=
  let shell := Shell.of options (componentName options.componentName)
  Text.unlines (["import React from 'react';", ""] ++ shell.opening) ++ Text.indent shell.depth

private theorem isPlain_of_isNameChar {c : Char} (name : isNameChar c = true) : isPlain c = true := by
  have apart (other : Char) (sign : isNameChar other = false) : c ≠ other := by
    rintro rfl
    rw [name] at sign
    cases sign
  simp [isPlain, apart '/' rfl, apart '\'' rfl, apart '"' rfl]

private theorem plain_opening (options : Options) {name : String} (plain : ∀ c ∈ name.toList, isPlain c = true) :
    ∀ line ∈ (Shell.of options name).opening, ∀ c ∈ line.toList, isPlain c = true := by
  have heading : (headings.all fun h => h.1.toList.all isPlain && h.2.toList.all isPlain) = true := rfl
  have method : ["  render(): React.ReactNode \x7b", "  render() \x7b"].all (fun line => line.toList.all isPlain) :=
    rfl
  refine forall_opening (fun h member => ?_) (fun line member => ?_) options
  · obtain ⟨first, second⟩ := Bool.and_eq_true_iff.mp (List.all_eq_true.mp heading h member)
    rw [String.toList_append, String.toList_append, List.forall_mem_append, List.forall_mem_append]
    exact ⟨⟨List.all_eq_true.mp first, plain⟩, List.all_eq_true.mp second⟩
  · exact List.all_eq_true.mp (List.all_eq_true.mp method line member)

private theorem plain_unlines {lines : List String} (plain : ∀ line ∈ lines, ∀ c ∈ line.toList, isPlain c = true) :
    ∀ c ∈ (Text.unlines lines).toList, isPlain c = true := by
  induction lines with
  | nil => exact List.forall_mem_nil _
  | cons line rest ih =>
    obtain ⟨first, others⟩ := List.forall_mem_cons.mp plain
    rw [Text.toList_unlines_cons, List.forall_mem_append, List.forall_mem_cons]
    exact ⟨first, by decide, ih others⟩

private theorem commented_sourceBefore (options : Options) (rest : List Char) :
    commented .code ((sourceBefore options).toList ++ rest) =
      inCode (sourceBefore options).toList ++ commented .code rest := by
  let shell := Shell.of options (componentName options.componentName)
  let first := "import React from 'react';\n\n".toList
  let others := (Text.unlines shell.opening).toList ++ (Text.indent shell.depth).toList
  have form : (sourceBefore options).toList = first ++ others := by
    rw [sourceBefore, String.toList_append, Text.toList_unlines_append, List.append_assoc]
    rfl
  have plain : ∀ c ∈ others, isPlain c = true := by
    refine List.forall_mem_append.mpr ⟨plain_unlines (plain_opening options fun c member => ?_), fun c member => ?_⟩
    · exact isPlain_of_isNameChar (isNameChar_componentName _ c member)
    · rw [Text.indent, String.toList_ofList] at member
      rw [List.eq_of_mem_replicate member]
      decide
  have start (tail : List Char) : commented .code (first ++ tail) = inCode first ++ commented .code tail := rfl
  rw [form, List.append_assoc, start, commented_plain plain, ← List.append_assoc, ← List.map_append]

private theorem generate_marked (options : Options) (tree : Tree) {name : String}
    (marked : markerName options.comments tree.root = some name) :
    ∃ rest, generate options tree = sourceBefore options ++ "// " ++ commentText name ++ "\n" ++ rest := by
  let shell := Shell.of options (componentName options.componentName)
  let rest := [Text.indent shell.depth ++ "return ("]
    ++ (element options.comments .root tree.root).lines (shell.depth + 1) ++ [Text.indent shell.depth ++ ");"]
    ++ shell.closing ++ ["", "export default " ++ componentName options.componentName ++ ";"]
  have source : componentLines options tree = (["import React from 'react';", ""] ++ shell.opening)
      ++ (Text.indent shell.depth ++ "// " ++ commentText name) :: rest := by
    simp [componentLines, bodyLines, marked, rest, shell]
  have lineEnd : "\n".toList = ['\n'] := rfl
  refine ⟨Text.unlines rest, String.toList_injective ?_⟩
  rw [generate, source, sourceBefore, Text.toList_unlines_append, Text.toList_unlines_cons]
  simp only [String.toList_append, List.append_assoc, lineEnd, List.singleton_append, shell]

private theorem commented_slashes (cs : List Char) :
    commented .code ('/' :: '/' :: cs) = inComment "//".toList ++ commented .line cs :=
  rfl

private theorem commented_marked (options : Options) (name rest : String) :
    commented .code (sourceBefore options ++ "// " ++ commentText name ++ "\n" ++ rest).toList =
      inCode (sourceBefore options).toList ++ inComment "//".toList
        ++ commented .line ((" " ++ commentText name).toList ++ '\n' :: rest.toList) := by
  have form : (sourceBefore options ++ "// " ++ commentText name ++ "\n" ++ rest).toList =
      (sourceBefore options).toList ++ '/' :: '/' :: ((" " ++ commentText name).toList ++ '\n' :: rest.toList) := by
    simp [String.toList_append]
  rw [form, commented_sourceBefore, List.append_assoc, commented_slashes]

end RootName

/-- Where the comments of a component end. What it returns has a comment for each name and for each node of no known
type, and each ends at its own mark, whatever its text is and whatever follows. The comment with the name of the root
ends with its line if, and only if, there is no line separator and no paragraph separator in the name. -/
theorem comments_generate (options : Options) (tree : Tree) :
    (∃ jsx, Jsx.returned? (generate options tree) = some jsx ∧
      jsx.outline.comments = (notesOf options.comments tree.root).map noted) ∧
    (∀ text rest, commented .code (("/*" ++ noted text ++ "*/").toList ++ rest) =
      inComment ("/*" ++ noted text ++ "*/").toList ++ commented .code rest) ∧
    ∀ name ∈ markerName options.comments tree.root, ∃ rest,
      generate options tree = sourceBefore options ++ "// " ++ commentText name ++ "\n" ++ rest ∧
      (commented .code (generate options tree).toList =
          inCode (sourceBefore options).toList ++ inComment ("// " ++ commentText name).toList
            ++ ('\n', false) :: commented .code rest.toList ↔
        '\u2028' ∉ name.toList ∧ '\u2029' ∉ name.toList) := by
  refine ⟨exists_returned options tree, commented_noted, fun name marked => ?_⟩
  obtain ⟨rest, form⟩ := generate_marked options tree marked
  refine ⟨rest, form, ?_⟩
  have whole : inComment ("// " ++ commentText name).toList =
      inComment "//".toList ++ inComment (" " ++ commentText name).toList := by
    simp [String.toList_append]
  have blank : isLineEnd ' ' = false := rfl
  rw [form, commented_marked, whole, ← List.append_assoc, List.append_assoc _ (inComment (" " ++ _).toList),
    List.append_cancel_left_eq, commented_line, ← forall_isLineEnd_commentText, String.toList_append,
    List.forall_mem_append]
  exact and_iff_right (List.forall_mem_singleton.mpr blank)

/-- A line separator in the name of the root ends the comment: the rest of the name is code. -/
theorem not_commented_separator :
    let tree : Tree := { root := .container { id := "root", name := some "a\u2028b" } (.panel .frame {}) [] }
    ∃ rest, generate {} tree = sourceBefore {} ++ "// a\u2028b\n" ++ rest ∧
      commented .code (generate {} tree).toList =
        inCode (sourceBefore {}).toList ++ inComment "// a".toList ++ inCode "\u2028b\n".toList
          ++ commented .code rest.toList := by
  intro tree
  obtain ⟨rest, form⟩ := generate_marked {} tree rfl
  have line : sourceBefore {} ++ "// " ++ commentText "a\u2028b" ++ "\n" = sourceBefore {} ++ "// a\u2028b\n" := by
    rw [String.append_assoc, String.append_assoc]
    rfl
  refine ⟨rest, ?_, ?_⟩
  · rw [form, line]
  · rw [form, commented_marked, List.append_assoc (inCode _ ++ _), List.append_assoc]
    rfl

end Handoff.React
