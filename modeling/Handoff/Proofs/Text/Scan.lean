set_option autoImplicit false
set_option relaxedAutoImplicit false

/-!
Reading a text from its head: a given opening, or the longest run of characters with a property.
-/

namespace Handoff.Text

def after? (opening : String) (cs : List Char) : Option (List Char) :=
  if opening.toList.isPrefixOf cs then some (cs.drop opening.toList.length) else none

/-- The longest run of characters with a property, and what follows it. -/
def takeRun (p : Char → Bool) (cs : List Char) : String × List Char :=
  (String.ofList (cs.takeWhile p), cs.dropWhile p)

/-- What stands before the first occurrence of a mark, and what follows it. -/
def splitOnce? (mark : List Char) : List Char → Option (List Char × List Char)
  | [] => none
  | c :: cs =>
    if mark.isPrefixOf (c :: cs) then some ([], (c :: cs).drop mark.length)
    else (splitOnce? mark cs).map fun (before, after) => (c :: before, after)

theorem after?_append (opening : String) (rest : List Char) : after? opening (opening.toList ++ rest) = some rest := by
  unfold after?
  rw [if_pos (List.isPrefixOf_iff_prefix.mpr (List.prefix_append ..)), List.drop_left]

theorem splitOnce?_append {c : Char} (mark : List Char) {before : List Char} (apart : c ∉ before) (after : List Char) :
    splitOnce? (c :: mark) (before ++ c :: mark ++ after) = some (before, after) := by
  induction before with
  | nil =>
    have here : (c :: mark).isPrefixOf (c :: mark ++ after) = true :=
      List.isPrefixOf_iff_prefix.mpr (List.prefix_append ..)
    rw [List.nil_append, List.cons_append, splitOnce?, ← List.cons_append, if_pos here, List.drop_left]
  | cons first rest ih =>
    rw [List.mem_cons, not_or] at apart
    have later : ¬(c :: mark).isPrefixOf (first :: (rest ++ c :: mark ++ after)) = true := by
      rw [List.isPrefixOf_iff_prefix, List.cons_prefix_cons]
      exact fun both => apart.1 both.1
    rw [List.cons_append, List.cons_append, splitOnce?, if_neg later, ih apart.2]
    rfl

theorem dropWhile_append_of_stop {p : Char → Bool} {run rest : List Char} (all : ∀ c ∈ run, p c = true)
    (stop : ∀ c ∈ rest.head?, p c = false) : (run ++ rest).dropWhile p = rest := by
  rw [List.dropWhile_append_of_pos all]
  cases rest with
  | nil => rfl
  | cons c cs => rw [List.dropWhile_cons, if_neg (by simp [stop c rfl])]

theorem takeRun_append {p : Char → Bool} {run rest : List Char} (all : ∀ c ∈ run, p c = true)
    (stop : ∀ c ∈ rest.head?, p c = false) : takeRun p (run ++ rest) = (String.ofList run, rest) := by
  have taken : (run ++ rest).takeWhile p = run := by
    rw [List.takeWhile_append_of_pos all]
    cases rest with
    | nil => rw [List.takeWhile_nil, List.append_nil]
    | cons c cs => rw [List.takeWhile_cons, if_neg (by simp [stop c rfl]), List.append_nil]
  rw [takeRun, taken, dropWhile_append_of_stop all stop]

end Handoff.Text
