import Handoff.Proofs.Archive.RoundTrip
import Handoff.Proofs.React.Mirror

set_option autoImplicit false
set_option relaxedAutoImplicit false

/-!
What a component returns, by the type of the root.

A root of a known type gives one element. A root of no known type gives the comment that stands for such a node anywhere
else, and in the place of what is returned a comment is no element.
-/

namespace Handoff.React
open Design

/-- The comment that stands alone where a component returns something. -/
def Jsx.commentOf? (source : String) : Option Jsx := do
  let body ← afterReturn? source
  let (jsx, rest) ← readComment (skipGap body.toList)
  let _ ← Text.after? ");" (skipGap rest)
  return jsx

section Comments

variable {source : String} {depth : Nat} {rest : List String}

theorem commentOf?_of_comment {text : String}
    (after : Jsx.afterReturn? source =
      some (Text.unlines ((Markup.comment text).lines (depth + 1) ++ (Text.indent depth ++ ");") :: rest))) :
    Jsx.commentOf? source = some (.comment (" " ++ commentText text ++ " ")) := by
  rw [Jsx.commentOf?, after]
  simp only [Option.bind_eq_bind, Option.bind_some]
  rw [skipGap_returned (.comment text), Markup.body, Jsx.readComment_commentText]
  simp only [Option.bind_some, skipGap_closing, Text.after?_append]
  rfl

private theorem commentOf?_of_element {m : Markup} (plain : m.Plain) (element : m.isElement = true)
    (after : Jsx.afterReturn? source =
      some (Text.unlines (m.lines (depth + 1) ++ (Text.indent depth ++ ");") :: rest))) :
    Jsx.commentOf? source = none := by
  obtain ⟨c, cs, form, -⟩ := form_body plain element (depth + 1)
  rw [Jsx.commentOf?, after]
  simp only [Option.bind_eq_bind, Option.bind_some]
  rw [skipGap_returned plain, form]
  rfl

end Comments

private theorem exists_element {jsx : Jsx} {m : Markup} (element : m.isElement = true)
    (shape : jsx.outline = m.outline) : ∃ tag attributes children, jsx = .element tag attributes children := by
  cases jsx with
  | element tag attributes children => exact ⟨tag, attributes, children, rfl⟩
  | text | comment =>
    cases m with
    | comment => cases element
    | void | label | group => cases shape

/-- A component returns an element exactly when its root is of a known type. It returns a comment exactly when it is not,
and the comment names the type and the root. -/
theorem returned_generate (options : Options) (tree : Tree) :
    ((∃ tag attributes children,
        Jsx.ofComponent? (generate options tree) = some (.element tag attributes children)) ↔
      isKnown tree.root = true) ∧
    ∀ text, Jsx.commentOf? (generate options tree) = some (.comment text) ↔
      ∃ header type, tree.root = .leaf header (.unknown type) ∧
        text = " " ++ commentText ("Unsupported node type: " ++ type ++ " (" ++ header.id ++ ")") ++ " " := by
  obtain ⟨depth, rest, after⟩ := afterReturn?_generate options tree
  cases known : isKnown tree.root with
  | true =>
    have element := isElement_element options.comments known
    have none := commentOf?_of_element (plain_element options.comments .root tree.root) element after
    obtain ⟨jsx, read, shape, -⟩ := exists_ofComponent? options tree known
    obtain ⟨tag, attributes, children, rfl⟩ := exists_element element shape
    refine ⟨iff_of_true ⟨tag, attributes, children, read⟩ rfl, fun text => ?_⟩
    rw [none]
    refine iff_of_false nofun ?_
    rintro ⟨header, type, root, -⟩
    rw [root] at known
    cases known
  | false =>
    obtain ⟨header, type, root⟩ := exists_unknown known
    rw [root] at after ⊢
    have none := ofComponent?_of_comment after
    have comment := commentOf?_of_comment after
    refine ⟨iff_of_false ?_ Bool.false_ne_true, fun text => ?_⟩
    · rintro ⟨tag, attributes, children, read⟩
      rw [none] at read
      cases read
    · rw [comment]
      constructor
      · rintro ⟨⟩
        exact ⟨header, type, rfl, rfl⟩
      · rintro ⟨_, _, ⟨⟩, rfl⟩
        rfl

/-- A document that is read, and whose component returns a comment however it is made. -/
theorem not_returned_unknown :
    let document : Json := .object [("root", .object [("id", .string "a"), ("type", .string "widget")])]
    ∃ e, Archive.read document.compact = .ok e ∧ ∀ options, Jsx.ofComponent? (generate options e.tree) = none := by
  intro document
  let tree : Tree := { root := .leaf { id := "a" } (.unknown "widget") }
  have read : Archive.read document.compact = .ok ⟨none, tree⟩ := Archive.read_compact (by decide) (by decide)
  refine ⟨_, read, fun options => ?_⟩
  obtain ⟨depth, rest, after⟩ := afterReturn?_generate options tree
  exact ofComponent?_of_comment after

end Handoff.React
