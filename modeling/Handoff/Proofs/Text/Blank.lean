import Handoff.Proofs.Text.Scan
import Handoff.Text.Character

set_option autoImplicit false
set_option relaxedAutoImplicit false

/-!
Texts and what stands around them.

A text is what was put around it and what is left when that is taken off. The visible characters of ASCII are no white
space, and letter case is nothing to it.
-/

namespace Handoff.Text

section Trim

variable {drop : Char → Bool}

/-- Nothing is taken off a text that begins and ends with other characters, but all that was put around it is. -/
theorem trimBy_append {before body after : List Char} (first : ∀ c ∈ before, drop c = true)
    (last : ∀ c ∈ after, drop c = true) (head : ∀ c ∈ body.head?, drop c = false)
    (tail : ∀ c ∈ body.getLast?, drop c = false) : trimBy drop (before ++ body ++ after) = body := by
  have front : (before ++ body ++ after).dropWhile drop = (body ++ after).dropWhile drop := by
    rw [List.append_assoc, List.dropWhile_append_of_pos first]
  cases body with
  | nil =>
    have none : (after ++ []).dropWhile drop = [] := dropWhile_append_of_stop last nofun
    rw [List.append_nil] at none
    rw [List.nil_append] at front
    rw [trimBy, front, none]
    rfl
  | cons c cs =>
    have kept : (c :: cs ++ after).dropWhile drop = c :: cs ++ after := List.dropWhile_cons_of_neg (by simpa using head)
    have back : after.reverse ++ (c :: cs).reverse = (c :: cs ++ after).reverse := (List.reverse_append ..).symm
    have stop : ∀ x ∈ (c :: cs).reverse.head?, drop x = false := by
      rw [List.head?_reverse]
      exact tail
    rw [trimBy, front, kept, ← back,
      dropWhile_append_of_stop (fun x member => last x (List.mem_reverse.mp member)) stop, List.reverse_reverse]

private theorem dropWhile_eq (cs : List Char) :
    cs.dropWhile drop = trimBy drop cs ++ ((cs.dropWhile drop).reverse.takeWhile drop).reverse := by
  rw [trimBy, ← List.reverse_append, List.takeWhile_append_dropWhile, List.reverse_reverse]

theorem head_trimBy (cs : List Char) : ∀ c ∈ (trimBy drop cs).head?, drop c = false := by
  intro c head
  have stop := List.head?_dropWhile_not drop cs
  rw [dropWhile_eq, List.head?_append, Option.mem_def.mp head] at stop
  simpa using stop

theorem getLast_trimBy (cs : List Char) : ∀ c ∈ (trimBy drop cs).getLast?, drop c = false := by
  intro c last
  rw [trimBy, List.getLast?_reverse] at last
  have stop := List.head?_dropWhile_not drop (cs.dropWhile drop).reverse
  rw [Option.mem_def.mp last] at stop
  simpa using stop

theorem exists_trimBy (drop : Char → Bool) (cs : List Char) : ∃ before after,
    (∀ c ∈ before, drop c = true) ∧ (∀ c ∈ after, drop c = true) ∧ cs = before ++ trimBy drop cs ++ after := by
  refine ⟨cs.takeWhile drop, ((cs.dropWhile drop).reverse.takeWhile drop).reverse, ?_, ?_, ?_⟩
  · exact List.all_eq_true.mp List.all_takeWhile
  · intro c member
    exact List.all_eq_true.mp List.all_takeWhile c (List.mem_reverse.mp member)
  · rw [List.append_assoc, ← dropWhile_eq, List.takeWhile_append_dropWhile]

theorem trimBy_around {before after : List Char} (first : ∀ c ∈ before, drop c = true)
    (last : ∀ c ∈ after, drop c = true) (cs : List Char) : trimBy drop (before ++ cs ++ after) = trimBy drop cs := by
  obtain ⟨front, back, opens, closes, form⟩ := exists_trimBy drop cs
  have whole : before ++ cs ++ after = before ++ front ++ trimBy drop cs ++ (back ++ after) := by
    calc
      before ++ cs ++ after = before ++ (front ++ trimBy drop cs ++ back) ++ after := by rw [← form]
      _ = before ++ front ++ trimBy drop cs ++ (back ++ after) := by simp only [List.append_assoc]
  rw [whole]
  refine trimBy_append ?_ ?_ (head_trimBy cs) (getLast_trimBy cs)
  · exact List.forall_mem_append.mpr ⟨first, opens⟩
  · exact List.forall_mem_append.mpr ⟨closes, last⟩

theorem trimBy_map {f : Char → Char} (same : ∀ c, drop (f c) = drop c) (cs : List Char) :
    trimBy drop (cs.map f) = (trimBy drop cs).map f := by
  have through : drop ∘ f = drop := funext same
  simp only [trimBy, List.dropWhile_map, through, ← List.map_reverse]

end Trim

section Blank

theorem isBlank_of_visible {c : Char} (low : 0x21 ≤ c.toNat) (high : c.toNat < 0x7F) : isBlank c = false := by
  rw [isBlank, inRanges, List.any_eq_false]
  intro range member
  simp only [Bool.and_eq_true, Nat.ble_eq]
  simp only [blankRanges, List.mem_cons, List.not_mem_nil, or_false] at member
  rcases member with rfl | rfl | rfl | rfl | rfl | rfl | rfl | rfl | rfl | rfl <;> simp only <;> omega

theorem toLower_of_wide {c : Char} (wide : 0x80 ≤ c.toNat) : c.toLower = c := by
  unfold Char.toLower
  split
  · rename_i upper
    have high : c.toNat ≤ 90 := upper.2
    omega
  · rfl

private theorem ascii_isBlank_toLower : ∀ code < 0x80,
    isBlank (Char.ofNat code).toLower = isBlank (Char.ofNat code) := by
  decide +kernel

theorem isBlank_toLower (c : Char) : isBlank c.toLower = isBlank c := by
  rcases Nat.lt_or_ge c.toNat 0x80 with ascii | wide
  · have same := ascii_isBlank_toLower c.toNat ascii
    rwa [Char.ofNat_toNat] at same
  · rw [toLower_of_wide wide]

end Blank

end Handoff.Text
