import Handoff.Proofs.Text.Split
import Handoff.Text.Split

set_option autoImplicit false
set_option relaxedAutoImplicit false

/-!
The lines of a text, and those of a text that was made of lines.
-/

namespace Handoff.Text

/-- The lines of a text. What comes after the last line end is a line, too. -/
def lines (text : String) : List String :=
  (splitAt '\n' text.toList).map String.ofList

theorem toList_unlines_cons (line : String) (rest : List String) :
    (unlines (line :: rest)).toList = line.toList ++ '\n' :: (unlines rest).toList := by
  simp [unlines, String.join_cons]

theorem toList_unlines_append (first second : List String) :
    (unlines (first ++ second)).toList = (unlines first).toList ++ (unlines second).toList := by
  simp [unlines, String.toList_join]

theorem lines_unlines_append {list : List String} (plain : ∀ line ∈ list, '\n' ∉ line.toList) (rest : List String) :
    lines (unlines (list ++ rest)) = list ++ lines (unlines rest) := by
  induction list with
  | nil => rfl
  | cons line list ih =>
    rw [List.forall_mem_cons] at plain
    have others := ih plain.2
    unfold lines at others ⊢
    rw [List.cons_append, toList_unlines_cons, splitAt_append plain.1, List.map_cons, others, String.ofList_toList,
      List.cons_append]

/-- Lines without line ends are the lines of their text, with an empty one after the last line end. -/
theorem lines_unlines {list : List String} (plain : ∀ line ∈ list, '\n' ∉ line.toList) :
    lines (unlines list) = list ++ [""] := by
  have all := lines_unlines_append plain []
  rwa [List.append_nil] at all

theorem intercalate_lines (text : String) : String.intercalate "\n" (lines text) = text := by
  apply String.toList_injective
  have chars : (lines text).map String.toList = splitAt '\n' text.toList := by
    simp [lines, Function.comp_def]
  rw [String.toList_intercalate, chars]
  exact intercalate_splitAt '\n' text.toList

end Handoff.Text
