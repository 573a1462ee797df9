import Mathlib.Data.List.Forall2
import Handoff.Text.Split

set_option autoImplicit false
set_option relaxedAutoImplicit false

/-!
Reading source text as code and literals.

A scan knows how a language writes its literals, and decodes them. It stops where the text is in another part of the
language: at a comment, at a literal of another form, at an escape of several characters, and at the end of a line in a
literal, where a language stops, too.
-/

namespace Handoff.Text

/-- How a language writes literals, and what else there is beside literals and code. -/
structure Lexis where
  quote : Char
  /-- What letters stand for after a backslash. Any other character stands for itself there. -/
  letters : List (Char × Char)
  /-- The characters after a backslash that begin an escape of several characters. -/
  longer : List Char
  /-- True of a character and the one after it where code ends, but not with such a literal. -/
  leaves : Char → Option Char → Bool

def luau : Lexis where
  quote := '"'
  letters := [('a', '\x07'), ('b', '\x08'), ('f', '\x0c'), ('n', '\n'), ('r', '\r'), ('t', '\t'), ('v', '\x0b')]
  longer := "xuz0123456789\n\r".toList
  leaves c next := c == '\'' || c == '\x60' || (c == '-' && next == some '-')
    || (c == '[' && (next == some '[' || next == some '='))

/-- The literals of ECMAScript between single quotes. Line separators may stand in them. -/
def ecmaScript : Lexis where
  quote := '\''
  letters := [('b', '\x08'), ('f', '\x0c'), ('n', '\n'), ('r', '\r'), ('t', '\t'), ('v', '\x0b')]
  longer := "xu0123456789\n\r\u2028\u2029".toList
  leaves c _ := c == '"' || c == '\x60' || c == '/'

namespace Lexis

/-- What a character after a backslash stands for, where that is the whole escape. -/
def escaped (x : Lexis) (c : Char) : Option Char :=
  if c ∈ x.longer then none else some ((x.letters.lookup c).getD c)

end Lexis

/-- A character of the code, or a literal with what it stands for. -/
inductive Piece where
  | code (c : Char)
  | literal (text : String)
  deriving DecidableEq, Repr

/-- Where a scan is; in a literal, with what it stands for so far. -/
inductive Place where
  | code
  | literal (read : List Char)
  | escape (read : List Char)
  deriving DecidableEq, Repr

/-- The pieces of a text, if the scan gets through it and does not end in a literal. -/
def Lexis.scan (x : Lexis) : Place → List Char → Option (List Piece)
  | .code, [] => some []
  | .literal _, [] | .escape _, [] => none
  | .code, c :: cs =>
    if c = x.quote then x.scan (.literal []) cs
    else if x.leaves c cs.head? then none
    else (x.scan .code cs).map (.code c :: ·)
  | .literal read, c :: cs =>
    if c = x.quote then (x.scan .code cs).map (.literal (String.ofList read) :: ·)
    else if c = '\n' ∨ c = '\r' then none
    else if c = '\\' then x.scan (.escape read) cs
    else x.scan (.literal (read ++ [c])) cs
  | .escape read, c :: cs =>
    match x.escaped c with
    | some d => x.scan (.literal (read ++ [d])) cs
    | none => none

/-- The literals among pieces, each as what it stands for. -/
def literalsOf (pieces : List Piece) : List String :=
  pieces.filterMap fun
    | .code _ => none
    | .literal text => some text

/-- The code among pieces, without the literals. -/
def codeOf (pieces : List Piece) : List Char :=
  pieces.filterMap fun
    | .code c => some c
    | .literal _ => none

def coded (text : String) : List Piece :=
  text.toList.map .code

section Pieces

@[simp]
theorem literalsOf_append (first second : List Piece) :
    literalsOf (first ++ second) = literalsOf first ++ literalsOf second :=
  List.filterMap_append

@[simp]
theorem codeOf_append (first second : List Piece) : codeOf (first ++ second) = codeOf first ++ codeOf second :=
  List.filterMap_append

@[simp]
theorem literalsOf_nil : literalsOf [] = [] :=
  rfl

@[simp]
theorem literalsOf_coded (text : String) : literalsOf (coded text) = [] := by
  rw [literalsOf, coded, List.filterMap_map]
  exact List.filterMap_eq_nil_iff.mpr fun _ _ => rfl

@[simp]
theorem literalsOf_code (c : Char) (rest : List Piece) : literalsOf (.code c :: rest) = literalsOf rest :=
  rfl

@[simp]
theorem literalsOf_literal (text : String) (rest : List Piece) :
    literalsOf (.literal text :: rest) = text :: literalsOf rest :=
  rfl

end Pieces

namespace Lexis

variable {x : Lexis}

/-- A text that a scan takes for the same pieces whatever follows it. -/
def Spells (x : Lexis) (cs : List Char) (pieces : List Piece) : Prop :=
  ∀ rest, x.scan .code (cs ++ rest) = (x.scan .code rest).map (pieces ++ ·)

namespace Spells

theorem nil : x.Spells [] [] := by
  intro rest
  simp

theorem append {first second : List Char} {before after : List Piece} (here : x.Spells first before)
    (there : x.Spells second after) : x.Spells (first ++ second) (before ++ after) := by
  intro rest
  rw [List.append_assoc, here, there, Option.map_map]
  exact congrArg (Option.map · _) (funext fun pieces => (List.append_assoc ..).symm)

theorem scan_eq {cs : List Char} {pieces : List Piece} (spells : x.Spells cs pieces) :
    x.scan .code cs = some pieces := by
  have whole := spells []
  rwa [List.append_nil, scan, Option.map_some, List.append_nil] at whole

/-- A character of code, when what follows does not make something else of it. -/
theorem cons {c : Char} {cs : List Char} {pieces : List Piece} (plain : c ≠ x.quote)
    (stays : ∀ rest : List Char, x.leaves c (cs ++ rest).head? = false) (spells : x.Spells cs pieces) :
    x.Spells (c :: cs) (.code c :: pieces) := by
  intro rest
  rw [List.cons_append, scan, if_neg plain, stays rest, if_neg Bool.false_ne_true, spells, Option.map_map]
  rfl

theorem plain {cs : List Char} (all : ∀ c ∈ cs, c ≠ x.quote ∧ ∀ next, x.leaves c next = false) :
    x.Spells cs (cs.map .code) := by
  induction cs with
  | nil => exact nil
  | cons c cs ih =>
    obtain ⟨⟨other, stays⟩, rest⟩ := List.forall_mem_cons.mp all
    exact cons other (fun _ => stays _) (ih rest)

theorem unlines {lines : List String} {pieces : List (List Piece)} (lineEnd : x.Spells ['\n'] [.code '\n'])
    (all : List.Forall₂ (fun line pieces => x.Spells line.toList pieces) lines pieces) :
    x.Spells (Text.unlines lines).toList (pieces.flatMap (· ++ [.code '\n'])) := by
  induction all with
  | nil => exact nil
  | @cons line first rest others here _ ih =>
    have text : (Text.unlines (line :: rest)).toList = line.toList ++ ['\n'] ++ (Text.unlines rest).toList := by
      simp [Text.unlines, String.join_cons]
    rw [text, List.flatMap_cons]
    exact (here.append lineEnd).append ih

end Spells

end Lexis

section Quoting

def quotedChar (quote c : Char) : List Char :=
  if c = '\\' then ['\\', '\\']
  else if c = quote then ['\\', quote]
  else if c = '\n' then ['\\', 'n']
  else if c = '\r' then ['\\', 'r']
  else [c]

def quoted (quote : Char) (s : String) : String :=
  String.ofList (quote :: s.toList.flatMap (quotedChar quote) ++ [quote])

/-- What a language has to agree to for its literals to be written so. -/
structure Lexis.Unquotes (x : Lexis) : Prop where
  slash : x.quote ≠ '\\'
  feed : x.quote ≠ '\n'
  back : x.quote ≠ '\r'
  escapedSlash : x.escaped '\\' = some '\\'
  escapedQuote : x.escaped x.quote = some x.quote
  escapedFeed : x.escaped 'n' = some '\n'
  escapedReturn : x.escaped 'r' = some '\r'

theorem unquotes_luau : luau.Unquotes := by
  constructor <;> decide

theorem unquotes_ecmaScript : ecmaScript.Unquotes := by
  constructor <;> decide

variable {x : Lexis}

private theorem scan_escape {c d : Char} (unquotes : x.Unquotes) (stands : x.escaped c = some d)
    (read rest : List Char) :
    x.scan (.literal read) ('\\' :: c :: rest) = x.scan (.literal (read ++ [d])) rest := by
  rw [Lexis.scan, if_neg unquotes.slash.symm, if_neg (by decide), if_pos rfl, Lexis.scan, stands]

private theorem scan_quotedChar (unquotes : x.Unquotes) (c : Char) (read rest : List Char) :
    x.scan (.literal read) (quotedChar x.quote c ++ rest) = x.scan (.literal (read ++ [c])) rest := by
  unfold quotedChar
  split
  · subst c
    exact scan_escape unquotes unquotes.escapedSlash read rest
  split
  · subst c
    exact scan_escape unquotes unquotes.escapedQuote read rest
  split
  · subst c
    exact scan_escape unquotes unquotes.escapedFeed read rest
  split
  · subst c
    exact scan_escape unquotes unquotes.escapedReturn read rest
  · rename_i slash quote feed back
    rw [List.singleton_append, Lexis.scan, if_neg quote, if_neg (not_or.mpr ⟨feed, back⟩), if_neg slash]

private theorem scan_flatMap_quotedChar (unquotes : x.Unquotes) (cs read rest : List Char) :
    x.scan (.literal read) (cs.flatMap (quotedChar x.quote) ++ rest) = x.scan (.literal (read ++ cs)) rest := by
  induction cs generalizing read with
  | nil => rw [List.append_nil]; rfl
  | cons c cs ih =>
    rw [List.flatMap_cons, List.append_assoc, scan_quotedChar unquotes, ih, List.append_assoc, List.singleton_append]

/-- A quoted text is one literal that stands for the text, and ends with its last character. -/
theorem spells_quoted (unquotes : x.Unquotes) (s : String) :
    x.Spells (quoted x.quote s).toList [.literal s] := by
  intro rest
  have form : (quoted x.quote s).toList ++ rest =
      x.quote :: (s.toList.flatMap (quotedChar x.quote) ++ x.quote :: rest) := by
    simp [quoted]
  rw [form, Lexis.scan, if_pos rfl, scan_flatMap_quotedChar unquotes, List.nil_append, Lexis.scan, if_pos rfl,
    String.ofList_toList]
  rfl

theorem oneLine_quoted {quote : Char} (feed : quote ≠ '\n') (back : quote ≠ '\r') (s : String) :
    '\n' ∉ (quoted quote s).toList ∧ '\r' ∉ (quoted quote s).toList := by
  have inner (c : Char) : ∀ d ∈ quotedChar quote c, d ≠ '\n' ∧ d ≠ '\r' := by
    unfold quotedChar
    split
    · simp
    split
    · simp [feed, back]
    split
    · simp
    split
    · simp
    · rename_i unfed unreturned
      simp [unfed, unreturned]
  have all : ∀ d ∈ (quoted quote s).toList, d ≠ '\n' ∧ d ≠ '\r' := by
    rw [quoted, String.toList_ofList, List.forall_mem_append, List.forall_mem_cons, List.forall_mem_singleton]
    refine ⟨⟨⟨feed, back⟩, fun d member => ?_⟩, feed, back⟩
    obtain ⟨c, -, member⟩ := List.mem_flatMap.mp member
    exact inner c d member
  exact ⟨fun member => (all _ member).1 rfl, fun member => (all _ member).2 rfl⟩

end Quoting

end Handoff.Text
