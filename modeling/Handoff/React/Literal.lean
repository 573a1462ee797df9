set_option autoImplicit false
set_option relaxedAutoImplicit false

/-!
Texts in the places of a component: in markup, in string literals and in comments.
-/

namespace Handoff.React

/-- A character as it stands in markup, in text or between the quotes of an attribute. -/
def markupChar (c : Char) : List Char :=
  if c = '&' then "&amp;".toList
  else if c = '<' then "&lt;".toList
  else if c = '>' then "&gt;".toList
  else if c = '"' then "&quot;".toList
  else if c = '\'' then "&#39;".toList
  else if c = '\x7b' then "&#123;".toList
  else if c = '\x7d' then "&#125;".toList
  else [c]

/-- A text in markup. -/
def escape (s : String) : String :=
  String.ofList (s.toList.flatMap markupChar)

def literalChar (c : Char) : List Char :=
  if c = '\\' then ['\\', '\\']
  else if c = '\'' then ['\\', '\'']
  else if c = '\n' then ['\\', 'n']
  else if c = '\r' then ['\\', 'r']
  else [c]

/-- A text as a literal between single quotes. -/
def literal (s : String) : String :=
  String.ofList ('\'' :: s.toList.flatMap literalChar ++ ['\''])

/-- A text with a space in each mark that would close a comment. -/
def openClosers : List Char → List Char
  | [] => []
  | [c] => [c]
  | c :: d :: rest =>
    if c = '*' ∧ d = '/' then '*' :: ' ' :: '/' :: openClosers rest
    else c :: openClosers (d :: rest)

/-- A text in a comment on one line. -/
def commentText (s : String) : String :=
  String.ofList ((openClosers s.toList).map fun c => if c = '\n' ∨ c = '\r' then ' ' else c)

end Handoff.React
