import Handoff.Archive.Envelope
import Handoff.Json.Difference

set_option autoImplicit false
set_option relaxedAutoImplicit false

/-!
What becomes of a design when its archive text is read again.
-/

namespace Handoff.Archive
open Design

/-- What is wrong with a design that was read again. -/
inductive Problem where
  | unreadable (error : ReadError)
  | changed (difference : Json.Difference)

def Problem.message : Problem → String
  | .unreadable error => "import failed: " ++ error.message
  | .changed difference => difference.message

/-- The archive text of a design without metadata. -/
def bareText (tree : Tree) : String :=
  Options.print {} (Envelope.encode ⟨none, tree⟩)

/-- Everything that differs between a design and what is read from its archive text. -/
def roundTrip (tree : Tree) : List Problem :=
  match read (bareText tree) with
  | .error error => [.unreadable error]
  | .ok again => (Json.diff tree.encode.sortKeys again.tree.encode.sortKeys).map .changed

end Handoff.Archive
