import Handoff.Text.Split

set_option autoImplicit false
set_option relaxedAutoImplicit false

/-!
Texts taken apart and put together: the parts around a separating character, and what an opening and a closing set off.
-/

namespace Handoff.Text

section Parts

theorem splitAt_append {separator : Char} {cs : List Char} (apart : separator ∉ cs) (rest : List Char) :
    splitAt separator (cs ++ separator :: rest) = cs :: splitAt separator rest := by
  induction cs with
  | nil => rw [List.nil_append, splitAt, if_pos rfl]
  | cons c cs ih =>
    rw [List.mem_cons, not_or] at apart
    rw [List.cons_append, splitAt, if_neg (Ne.symm apart.1), ih apart.2]

private theorem splitAt_ne_nil (separator : Char) (cs : List Char) : splitAt separator cs ≠ [] := by
  cases cs with
  | nil => exact List.cons_ne_nil _ _
  | cons c cs =>
    rw [splitAt]
    split
    · exact List.cons_ne_nil _ _
    · split <;> exact List.cons_ne_nil _ _

theorem intercalate_splitAt (separator : Char) (cs : List Char) :
    List.intercalate [separator] (splitAt separator cs) = cs := by
  induction cs with
  | nil => rfl
  | cons c cs ih =>
    cases parts : splitAt separator cs with
    | nil => exact absurd parts (splitAt_ne_nil separator cs)
    | cons part rest =>
      rw [parts] at ih
      rw [splitAt, parts]
      split
      · subst c
        rw [List.intercalate_cons_cons, ih]
        rfl
      · cases rest with
        | nil =>
          rw [List.intercalate_singleton] at ih ⊢
          rw [ih]
        | cons second more =>
          rw [List.intercalate_cons_cons] at ih ⊢
          rw [List.cons_append, List.cons_append, ih]

private theorem splitAt_plain {separator : Char} {cs : List Char} (apart : separator ∉ cs) :
    splitAt separator cs = [cs] := by
  induction cs with
  | nil => rfl
  | cons c cs ih =>
    rw [List.mem_cons, not_or] at apart
    rw [splitAt, if_neg (Ne.symm apart.1), ih apart.2]

theorem splitAt_intercalate {separator : Char} {parts : List (List Char)} (some : parts ≠ [])
    (apart : ∀ part ∈ parts, separator ∉ part) :
    splitAt separator (List.intercalate [separator] parts) = parts := by
  induction parts with
  | nil => exact absurd rfl some
  | cons part rest ih =>
    rw [List.forall_mem_cons] at apart
    cases rest with
    | nil => rw [List.intercalate_singleton, splitAt_plain apart.1]
    | cons second more =>
      rw [List.intercalate_cons_cons, List.append_assoc, List.singleton_append, splitAt_append apart.1,
        ih (List.cons_ne_nil _ _) apart.2]

end Parts

section Enclosed

theorem enclosed?_eq_some_iff {opening cs inner : List Char} {closing : Char} :
    enclosed? opening closing cs = some inner ↔ cs = opening ++ inner ++ [closing] := by
  constructor
  · intro h
    unfold enclosed? at h
    split at h
    · rename_i opened
      obtain ⟨rest, rfl⟩ := List.isPrefixOf_iff_prefix.mp opened
      simp only [List.drop_left] at h
      split at h
      · rename_i closed
        obtain ⟨front, rfl⟩ := List.getLast?_eq_some_iff.mp closed
        rw [List.dropLast_concat] at h
        obtain rfl := Option.some.inj h
        rw [List.append_assoc]
      · cases h
    · cases h
  · rintro rfl
    have opened : opening.isPrefixOf (opening ++ (inner ++ [closing])) = true :=
      List.isPrefixOf_iff_prefix.mpr (List.prefix_append ..)
    rw [enclosed?, List.append_assoc, if_pos opened, List.drop_left]
    simp only [List.getLast?_concat, List.dropLast_concat, if_true]

end Enclosed

end Handoff.Text
