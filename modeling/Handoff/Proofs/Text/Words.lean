import Mathlib
import Handoff.Text.Character
import Handoff.Text.Words

set_option autoImplicit false
set_option relaxedAutoImplicit false

/-!
Characters that stay as they are when words are put into small letters, and those that no form has.

A set of characters keeps out of the way of letter case when no capital is among them and no small form has one of them.
Then the words of an identifier have them exactly where the text itself has them in its words. The tables give no small
letter of ASCII as part of a capital form and no capital of ASCII as part of a small one.
-/

namespace Handoff.Text

/-- Letters and digits of ASCII are between its first digit and its last letter. -/
theorem toNat_of_isAlphanum {c : Char} (letter : c.isAlphanum = true) : 0x30 ≤ c.toNat ∧ c.toNat ≤ 0x7A := by
  simp only [Char.isAlphanum, Char.isAlpha, Char.isUpper, Char.isLower, Char.isDigit, Bool.or_eq_true,
    Bool.and_eq_true, decide_eq_true_eq, ge_iff_le, UInt32.le_iff_toNat_le] at letter
  change ((65 ≤ c.toNat ∧ c.toNat ≤ 90) ∨ (97 ≤ c.toNat ∧ c.toNat ≤ 122)) ∨ (48 ≤ c.toNat ∧ c.toNat ≤ 57) at letter
  omega

namespace LetterCase

/-- Characters that are neither capitals nor parts of small forms, by the tables. -/
structure Caseless (ranges : List (Nat × Nat)) : Prop where
  ascii : ∀ code < 0x80, inRanges ranges (Char.ofNat code).toLower.toNat = inRanges ranges code
  sequences : ∀ entry ∈ lowerSequences, inRanges ranges entry.1 = false ∧
    ∀ code ∈ entry.2, inRanges ranges (Char.ofNat code).toNat = false
  before : ∀ run ∈ lowerRuns, ∀ range ∈ ranges, run.last < range.1 ∨ range.2 < run.first
  after : ∀ run ∈ lowerRuns, ∀ range ∈ ranges,
    (run.last : Int) + run.shift < range.1 ∨ (range.2 : Int) < run.first + run.shift
  sigmas : ∀ c ∈ [capitalSigma, smallSigma, finalSigma], inRanges ranges c.toNat = false
  zero : inRanges ranges 0 = false

variable {ranges : List (Nat × Nat)}

private theorem inRanges_eq_false {code : Nat} :
    inRanges ranges code = false ↔ ∀ range ∈ ranges, code < range.1 ∨ range.2 < code := by
  simp only [inRanges, List.any_eq_false, Bool.and_eq_true, Nat.ble_eq]
  refine forall₂_congr fun range _ => ?_
  omega

private theorem holds_bounds {run : Run} {code : Nat} (holds : run.holds code = true) :
    run.first ≤ code ∧ code ≤ run.last := by
  simp only [Run.holds, Bool.and_eq_true, Nat.ble_eq] at holds
  exact holds.1

private theorem toNat_ofNat (code : Nat) : (Char.ofNat code).toNat = code ∨ (Char.ofNat code).toNat = 0 := by
  by_cases valid : code.isValidChar
  · rw [Char.ofNat, dif_pos valid]
    exact .inl rfl
  · rw [Char.ofNat, dif_neg valid]
    exact .inr rfl

private theorem moved_out (zero : inRanges ranges 0 = false) {run : Run} {code : Nat} (holds : run.holds code = true)
    (after : ∀ range ∈ ranges, (run.last : Int) + run.shift < range.1 ∨ (range.2 : Int) < run.first + run.shift) :
    inRanges ranges (Char.ofNat ((code : Int) + run.shift).toNat).toNat = false := by
  rcases toNat_ofNat ((code : Int) + run.shift).toNat with same | none
  · rw [same]
    by_cases below : (code : Int) + run.shift ≤ 0
    · rw [Int.toNat_of_nonpos below]
      exact zero
    · obtain ⟨low, high⟩ := holds_bounds holds
      refine inRanges_eq_false.mpr fun range member => ?_
      have := after range member
      omega
  · rw [none]
    exact zero

private theorem holds_of_find? {runs : List Run} {run : Run} {code : Nat}
    (found : runs.find? (·.holds code) = some run) : run.holds code = true :=
  List.find?_some (p := fun run : Run => run.holds code) found

section Caseless

variable (h : Caseless ranges)
include h

private theorem Caseless.shifted (c : Char) :
    inRanges ranges (Char.ofNat (shifted lowerRuns c.toNat)).toNat = inRanges ranges c.toNat := by
  unfold LetterCase.shifted
  split
  · rename_i run found
    have known := List.mem_of_find?_eq_some found
    obtain ⟨low, high⟩ := holds_bounds (holds_of_find? found)
    have here : inRanges ranges c.toNat = false := by
      refine inRanges_eq_false.mpr fun range member => ?_
      have := h.before run known range member
      omega
    rw [here]
    exact moved_out h.zero (holds_of_find? found) (h.after run known)
  · rw [Char.ofNat_toNat]

private theorem Caseless.lower (c : Char) :
    (∀ small ∈ LetterCase.lower c, inRanges ranges small.toNat = false) ↔ inRanges ranges c.toNat = false := by
  unfold LetterCase.lower
  split
  · rename_i ascii
    have same := h.ascii c.toNat ascii
    rw [Char.ofNat_toNat] at same
    rw [List.forall_mem_singleton, same]
  · unfold form
    split
    · rename_i codes found
      obtain ⟨front, back, split, -⟩ := List.lookup_eq_some_iff.mp found
      obtain ⟨out, inside⟩ := h.sequences (c.toNat, codes) (by simp [split])
      refine iff_of_true ?_ out
      rw [List.forall_mem_map]
      exact inside
    · rw [List.forall_mem_singleton, h.shifted c]

private theorem Caseless.lowerFrom (before cs : List Char) :
    (∀ small ∈ LetterCase.lowerFrom before cs, inRanges ranges small.toNat = false) ↔
      ∀ c ∈ cs, inRanges ranges c.toNat = false := by
  induction cs generalizing before with
  | nil => exact iff_of_true nofun nofun
  | cons c rest ih =>
    rw [LetterCase.lowerFrom, List.forall_mem_append, ih, List.forall_mem_cons]
    refine and_congr_left fun _ => ?_
    split
    · rename_i sigma
      rw [sigma]
      have out (c : Char) (member : c ∈ [capitalSigma, smallSigma, finalSigma]) := h.sigmas c member
      split
      · exact iff_of_true (List.forall_mem_singleton.mpr (out _ (by simp))) (out _ (by simp))
      · exact iff_of_true (List.forall_mem_singleton.mpr (out _ (by simp))) (out _ (by simp))
    · exact h.lower c

/-- A text's small forms have characters of the ranges exactly where the text has them. -/
theorem Caseless.lowerText (cs : List Char) :
    (∀ small ∈ LetterCase.lowerText cs, inRanges ranges small.toNat = false) ↔
      ∀ c ∈ cs, inRanges ranges c.toNat = false :=
  h.lowerFrom [] cs

end Caseless

private theorem isLower_eq_inRanges (c : Char) : c.isLower = inRanges [(0x61, 0x7A)] c.toNat := by
  rw [inRanges, List.any_cons, List.any_nil, Bool.or_false, Bool.eq_iff_iff, Bool.and_eq_true, Nat.ble_eq, Nat.ble_eq,
    Char.isLower, Bool.and_eq_true, decide_eq_true_eq, decide_eq_true_eq]
  exact Iff.rfl

private theorem isUpper_eq_inRanges (c : Char) : c.isUpper = inRanges [(0x41, 0x5A)] c.toNat := by
  rw [inRanges, List.any_cons, List.any_nil, Bool.or_false, Bool.eq_iff_iff, Bool.and_eq_true, Nat.ble_eq, Nat.ble_eq,
    Char.isUpper, decide_eq_true_eq]
  exact Iff.rfl

section Avoids

private structure Avoids (sequences : List (Nat × List Nat)) (runs : List Run) (ranges : List (Nat × Nat)) : Prop where
  ascii : ∀ range ∈ ranges, range.2 < 0x80
  sequences : ∀ entry ∈ sequences, ∀ code ∈ entry.2, inRanges ranges (Char.ofNat code).toNat = false
  after : ∀ run ∈ runs, ∀ range ∈ ranges,
    (run.last : Int) + run.shift < range.1 ∨ (range.2 : Int) < run.first + run.shift
  zero : inRanges ranges 0 = false

variable {sequences : List (Nat × List Nat)} {runs : List Run}

private theorem Avoids.form (h : Avoids sequences runs ranges) {c : Char} (beyond : 0x80 ≤ c.toNat) :
    ∀ x ∈ form sequences runs c, inRanges ranges x.toNat = false := by
  unfold LetterCase.form
  split
  · rename_i codes found
    obtain ⟨front, back, split, -⟩ := List.lookup_eq_some_iff.mp found
    rw [List.forall_mem_map]
    exact h.sequences (c.toNat, codes) (by simp [split])
  · rw [List.forall_mem_singleton, shifted]
    split
    · rename_i run found
      exact moved_out h.zero (holds_of_find? found) (h.after run (List.mem_of_find?_eq_some found))
    · rw [Char.ofNat_toNat]
      refine inRanges_eq_false.mpr fun range member => ?_
      have := h.ascii range member
      omega

private theorem Avoids.cased (h : Avoids sequences runs ranges) {f : Char → Char}
    (table : ∀ code < 0x80, inRanges ranges (f (Char.ofNat code)).toNat = false) (c : Char) :
    ∀ x ∈ if c.toNat < 0x80 then [f c] else LetterCase.form sequences runs c,
      inRanges ranges x.toNat = false := by
  split
  · rename_i ascii
    rw [List.forall_mem_singleton, ← Char.ofNat_toNat c]
    exact table _ ascii
  · rename_i beyond
    exact h.form (Nat.not_lt.mp beyond)

private theorem avoids_upper : Avoids upperSequences upperRuns [(0x61, 0x7A)] where
  ascii := by decide
  sequences := by decide
  after := by decide +kernel
  zero := by decide

private theorem avoids_lower : Avoids lowerSequences lowerRuns [(0x41, 0x5A)] where
  ascii := by decide
  sequences := by decide
  after := by decide +kernel
  zero := by decide

private theorem avoids_underscore : Avoids upperSequences upperRuns [(0x5F, 0x5F)] where
  ascii := by decide
  sequences := by decide
  after := by decide +kernel
  zero := by decide

theorem isLower_of_mem_upper {c x : Char} (member : x ∈ upper c) : x.isLower = false := by
  rw [isLower_eq_inRanges]
  exact avoids_upper.cased (f := Char.toUpper) (by decide +kernel) c x member

/-- A capital form has an underscore only if it is that of the underscore. -/
theorem underscore_mem_upper {c : Char} : '_' ∈ upper c ↔ c = '_' := by
  unfold upper
  split
  · rename_i ascii
    have table : ∀ code < 0x80, '_' = (Char.ofNat code).toUpper ↔ Char.ofNat code = '_' := by decide +kernel
    rw [List.mem_singleton, ← Char.ofNat_toNat c]
    exact table _ ascii
  · rename_i beyond
    refine iff_of_false (fun member => ?_) (fun same => beyond (same ▸ by decide))
    exact absurd (avoids_underscore.form (Nat.not_lt.mp beyond) '_' member) (by decide)

private theorem isUpper_of_mem_lower {c x : Char} (member : x ∈ lower c) : x.isUpper = false := by
  rw [isUpper_eq_inRanges]
  exact avoids_lower.cased (f := Char.toLower) (by decide +kernel) c x member

private theorem isUpper_of_mem_lowerFrom {before cs : List Char} {x : Char} (member : x ∈ lowerFrom before cs) :
    x.isUpper = false := by
  induction cs generalizing before with
  | nil => cases member
  | cons c rest ih =>
    rw [lowerFrom, List.mem_append] at member
    rcases member with here | later
    · split at here
      · split at here
        · rw [List.mem_singleton.mp here]; decide
        · rw [List.mem_singleton.mp here]; decide
      · exact isUpper_of_mem_lower here
    · exact ih later

theorem isUpper_of_mem_lowerText {cs : List Char} {x : Char} (member : x ∈ lowerText cs) : x.isUpper = false :=
  isUpper_of_mem_lowerFrom member

private theorem caseless_underscore : Caseless [(0x5F, 0x5F)] where
  ascii := by decide +kernel
  sequences := by decide
  before := by decide +kernel
  after := by decide +kernel
  sigmas := by
    rw [List.forall_mem_cons, List.forall_mem_cons, List.forall_mem_singleton]
    exact ⟨by decide, by decide, by decide⟩
  zero := by decide

theorem underscore_mem_lowerText {cs : List Char} : '_' ∈ lowerText cs ↔ '_' ∈ cs := by
  have free (cs : List Char) : '_' ∉ cs ↔ ∀ c ∈ cs, inRanges [(0x5F, 0x5F)] c.toNat = false := by
    have here (c : Char) : inRanges [(0x5F, 0x5F)] c.toNat = false ↔ '_' ≠ c := by
      rw [inRanges_eq_false, List.forall_mem_singleton, ne_eq, ← Char.toNat_inj]
      have : '_'.toNat = 0x5F := rfl
      omega
    simp only [here]
    exact ⟨fun out c member same => out (same ▸ member), fun out member => out _ member rfl⟩
  rw [← Decidable.not_iff_not, free, free]
  exact caseless_underscore.lowerText cs

end Avoids

theorem lowerText_ascii {cs : List Char} (ascii : ∀ c ∈ cs, c.toNat < 0x80) : lowerText cs = cs.map Char.toLower := by
  have run (before : List Char) : lowerFrom before cs = cs.map Char.toLower := by
    induction cs generalizing before with
    | nil => rfl
    | cons c rest ih =>
      obtain ⟨here, later⟩ := List.forall_mem_cons.mp ascii
      have noSigma : c ≠ capitalSigma := by
        rintro rfl
        exact absurd here (by decide)
      rw [lowerFrom, ih later]
      simp only [if_neg noSigma, lower, if_pos here, List.singleton_append, List.map_cons]
  exact run []

end LetterCase

namespace Cluster

theorem split_ascii {cs : List Char} (ascii : ∀ c ∈ cs, 0x20 ≤ c.toNat ∧ c.toNat < 0x7F) :
    split cs = cs.map fun c => [c] := by
  have part {c : Char} (printable : 0x20 ≤ c.toNat ∧ c.toNat < 0x7F) : Part.of c = .other := by
    unfold Part.of
    rw [if_neg (by omega), if_neg (by omega), if_neg (by omega), if_pos (by omega)]
  have run (c : Char) {rest : List Char} (ascii : ∀ c ∈ rest, 0x20 ≤ c.toNat ∧ c.toNat < 0x7F) :
      splitFrom (.start .other) [c] rest = [c] :: rest.map fun c => [c] := by
    induction rest generalizing c with
    | nil => rfl
    | cons d rest ih =>
      obtain ⟨here, later⟩ := List.forall_mem_cons.mp ascii
      rw [splitFrom]
      simp only [part here]
      rw [if_neg (by decide), ih d later]
      rfl
  cases cs with
  | nil => rfl
  | cons c rest =>
    obtain ⟨here, later⟩ := List.forall_mem_cons.mp ascii
    rw [split, part here, run c later]
    rfl

end Cluster

namespace Words

private theorem forall_mem_intercalate {p : Char → Prop} {separator : Char} (plain : p separator)
    (parts : List (List Char)) :
    (∀ c ∈ List.intercalate [separator] parts, p c) ↔ ∀ part ∈ parts, ∀ c ∈ part, p c := by
  induction parts with
  | nil => exact iff_of_true nofun nofun
  | cons part rest ih =>
    cases rest with
    | nil => rw [List.intercalate_singleton, List.forall_mem_singleton]
    | cons second more =>
      rw [List.intercalate_cons_cons, List.forall_mem_append, List.forall_mem_append, List.forall_mem_singleton, ih,
        List.forall_mem_cons (l := second :: more), and_iff_left plain]

/-- The words of a text with hyphens have characters of caseless ranges exactly where the text has them in its words. -/
theorem forall_mem_kebab {ranges : List (Nat × Nat)} (h : LetterCase.Caseless ranges)
    (hyphen : inRanges ranges '-'.toNat = false) (cs : List Char) :
    (∀ c ∈ (kebab (String.ofList cs)).toList, inRanges ranges c.toNat = false) ↔
      ∀ word ∈ split cs, ∀ c ∈ word, inRanges ranges c.toNat = false := by
  rw [kebab, String.toList_ofList, String.toList_ofList, forall_mem_intercalate hyphen, List.forall_mem_map]
  exact forall₂_congr fun word _ => h.lowerText word

private theorem forall_mem_splitFrom {p : Char → Prop} {before : Option Kind} {word : List (List Char)}
    {clusters : List (List Char × Kind)} (held : ∀ c ∈ word.flatten, p c)
    (solid : ∀ entry ∈ clusters, entry.2 ≠ .separator → ∀ c ∈ entry.1, p c) :
    ∀ part ∈ splitFrom before word clusters, ∀ c ∈ part, p c := by
  have ended {word : List (List Char)} (held : ∀ c ∈ word.flatten, p c) : ∀ c ∈ word.reverse.flatten, p c := by
    simpa only [List.mem_flatten, List.mem_reverse] using held
  induction clusters generalizing before word with
  | nil => exact List.forall_mem_singleton.mpr (ended held)
  | cons entry rest ih =>
    obtain ⟨here, later⟩ := List.forall_mem_cons.mp solid
    obtain ⟨cluster, kind⟩ := entry
    rw [splitFrom]
    split
    · exact List.forall_mem_cons.mpr ⟨ended held, ih nofun later⟩
    · rename_i other
      have here : ∀ c ∈ cluster, p c := here (by simpa using other)
      split
      · exact List.forall_mem_cons.mpr ⟨ended held, ih (by simpa using here) later⟩
      · exact ih (List.forall_mem_append.mpr ⟨here, held⟩) later

theorem mem_split_ascii {cs : List Char} (ascii : ∀ c ∈ cs, 0x20 ≤ c.toNat ∧ c.toNat < 0x7F) :
    ∀ word ∈ split cs, ∀ c ∈ word, c ∈ cs ∧ isSeparator c = false := by
  intro word known
  rw [split, Cluster.split_ascii ascii, List.map_map] at known
  refine forall_mem_splitFrom nofun ?_ word (List.mem_filter.mp known).1
  rw [List.forall_mem_map]
  intro c member solid
  refine List.forall_mem_singleton.mpr ⟨member, ?_⟩
  cases separator : isSeparator c with
  | false => rfl
  | true => exact absurd (if_pos separator) solid

/-- A text of ASCII letters, digits and separators is put into small letters, digits and hyphens. -/
theorem kebab_ascii {s : String} (plain : ∀ c ∈ s.toList, c.isAlphanum = true ∨ isSeparator c = true) :
    ∀ c ∈ (kebab s).toList, c.isLower = true ∨ c.isDigit = true ∨ c = '-' := by
  have table : ∀ code < 0x80, (Char.ofNat code).isAlphanum = true →
      (Char.ofNat code).toLower.isLower = true ∨ (Char.ofNat code).toLower.isDigit = true := by decide +kernel
  have printable : ∀ c ∈ s.toList, 0x20 ≤ c.toNat ∧ c.toNat < 0x7F := by
    intro c member
    rcases plain c member with letter | separator
    · have := toNat_of_isAlphanum letter
      omega
    · rcases (by simpa [isSeparator] using separator : (c = '-' ∨ c = '_') ∨ c = ' ') with (rfl | rfl) | rfl <;> decide
  rw [kebab, String.toList_ofList, forall_mem_intercalate (.inr (.inr rfl)), List.forall_mem_map]
  intro word known
  have letters : ∀ c ∈ word, c.isAlphanum = true := by
    intro c member
    obtain ⟨inside, solid⟩ := mem_split_ascii printable word known c member
    exact (plain c inside).resolve_right (by simp [solid])
  have ascii : ∀ c ∈ word, c.toNat < 0x80 := by
    intro c member
    have := (printable c (mem_split_ascii printable word known c member).1).2
    omega
  rw [LetterCase.lowerText_ascii ascii, List.forall_mem_map]
  intro c member
  have small := table c.toNat (ascii c member)
  rw [Char.ofNat_toNat] at small
  exact (small (letters c member)).imp_right .inl

end Words

end Handoff.Text
