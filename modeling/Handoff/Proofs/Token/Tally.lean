import Handoff.Proofs.Decimal.Binary
import Handoff.Token.Extract

set_option autoImplicit false
set_option relaxedAutoImplicit false

/-!
What the counts of uses say, and the orders that the counted values are put in.

Uses are counted one after another; a count made so far accounts for the uses seen so far, and the next use keeps it
so. Sorting then permutes the counts, and keeps those in place that it has no reason to swap.
-/

namespace Handoff.Token

private theorem split_of_better {α : Type} (best : α × Nat) (entries : List (α × Nat)) :
    ∃ before last after, best :: entries = before ++ last :: after ∧
      entries.foldl (fun best entry => if best.2 < entry.2 then entry else best) best = last ∧
      (∀ entry ∈ before, entry.2 < last.2) ∧ ∀ entry ∈ after, entry.2 ≤ last.2 := by
  -- What is behind the best so far must have more to take its place, so the first of equals stays.
  induction entries generalizing best with
  | nil => exact ⟨[], best, [], rfl, rfl, nofun, nofun⟩
  | cons entry rest ih =>
    rw [List.foldl_cons]
    split
    · rename_i less
      obtain ⟨before, last, after, whole, found, strict, most⟩ := ih entry
      refine ⟨best :: before, last, after, by rw [whole, List.cons_append], found, ?_, most⟩
      refine List.forall_mem_cons.mpr ⟨?_, strict⟩
      cases before with
      | nil =>
        obtain rfl := (List.cons.inj whole).1
        exact less
      | cons first others =>
        obtain rfl := (List.cons.inj whole).1
        exact less.trans (strict entry (List.mem_cons_self ..))
    · rename_i most
      obtain ⟨before, last, after, whole, found, strict, rest'⟩ := ih best
      cases before with
      | nil =>
        obtain ⟨rfl, rfl⟩ := List.cons.inj whole
        refine ⟨[], best, entry :: rest, rfl, found, nofun, ?_⟩
        exact List.forall_mem_cons.mpr ⟨Nat.le_of_not_lt most, rest'⟩
      | cons first others =>
        obtain ⟨rfl, rfl⟩ := List.cons.inj whole
        have above := strict best (List.mem_cons_self ..)
        refine ⟨best :: entry :: others, last, after, rfl, found, ?_, rest'⟩
        simp only [List.forall_mem_cons] at strict ⊢
        exact ⟨above, by omega, strict.2⟩

section Tally

variable {α : Type} [DecidableEq α]

/-- Counts that account for uses: each value stands once, in the order of first uses, with the number of its uses. -/
structure Accounts (uses : List α) (counts : List (α × Nat)) : Prop where
  values : ∀ a, a ∈ counts.map Prod.fst ↔ a ∈ uses
  count : ∀ entry ∈ counts, entry.2 = uses.count entry.1
  order : counts.Pairwise fun a b => uses.idxOf a.1 < uses.idxOf b.1

theorem Accounts.nodup {uses : List α} {counts : List (α × Nat)} (h : Accounts uses counts) :
    (counts.map Prod.fst).Nodup := by
  rw [List.Nodup, List.pairwise_map]
  refine h.order.imp ?_
  intro a b less same
  rw [same] at less
  exact Nat.lt_irrefl _ less

private theorem countUse_new (a : α) (counts : List (α × Nat)) (new : a ∉ counts.map Prod.fst) :
    countUse a counts = counts ++ [(a, 1)] := by
  induction counts with
  | nil => rfl
  | cons entry rest ih =>
    simp only [List.map_cons, List.mem_cons, not_or] at new
    rw [countUse, if_neg (Ne.symm new.1), ih new.2, List.cons_append]

private def bump (a : α) (entry : α × Nat) : α × Nat :=
  if entry.1 = a then (entry.1, entry.2 + 1) else entry

private theorem fst_bump (a : α) (entry : α × Nat) : (bump a entry).1 = entry.1 := by
  unfold bump
  split <;> rfl

private theorem bump_other (a : α) (counts : List (α × Nat)) (new : a ∉ counts.map Prod.fst) :
    counts.map (bump a) = counts := by
  induction counts with
  | nil => rfl
  | cons entry rest ih =>
    simp only [List.map_cons, List.mem_cons, not_or] at new
    rw [List.map_cons, ih new.2, bump, if_neg (Ne.symm new.1)]

private theorem countUse_known (a : α) (counts : List (α × Nat)) (known : a ∈ counts.map Prod.fst)
    (nodup : (counts.map Prod.fst).Nodup) : countUse a counts = counts.map (bump a) := by
  induction counts with
  | nil => exact absurd known List.not_mem_nil
  | cons entry rest ih =>
    rw [List.map_cons, List.nodup_cons] at nodup
    by_cases here : entry.1 = a
    · rw [countUse, if_pos here, List.map_cons, bump, if_pos here, bump_other a rest (here ▸ nodup.1)]
    · have later : a ∈ rest.map Prod.fst := (List.mem_cons.mp known).resolve_left (Ne.symm here)
      rw [countUse, if_neg here, ih later nodup.2, List.map_cons, bump, if_neg here]

private theorem idxOf_append_known {uses : List α} {a b : α} (known : a ∈ uses) :
    (uses ++ [b]).idxOf a = uses.idxOf a := by
  rw [List.idxOf_append, if_pos known]

section Next

variable {uses : List α} {counts : List (α × Nat)} (h : Accounts uses counts)
include h

private theorem Accounts.seen {entry : α × Nat} (member : entry ∈ counts) : entry.1 ∈ uses :=
  (h.values _).mp (List.mem_map_of_mem member)

private theorem Accounts.order_append (a : α) :
    counts.Pairwise fun x y => (uses ++ [a]).idxOf x.1 < (uses ++ [a]).idxOf y.1 := by
  refine h.order.imp_of_mem ?_
  intro x y hx hy less
  rwa [idxOf_append_known (h.seen hx), idxOf_append_known (h.seen hy)]

private theorem Accounts.bumped {a : α} (known : a ∈ counts.map Prod.fst) :
    Accounts (uses ++ [a]) (counts.map (bump a)) := by
  refine ⟨?_, ?_, ?_⟩
  · intro b
    simp only [List.map_map, Function.comp_def, fst_bump]
    rw [h.values b, List.mem_append, List.mem_singleton]
    constructor
    · exact Or.inl
    · rintro (used | rfl)
      · exact used
      · exact (h.values _).mp known
  · intro entry member
    obtain ⟨old, before, rfl⟩ := List.mem_map.mp member
    have count := h.count old before
    rw [fst_bump, List.count_append, List.count_singleton]
    unfold bump
    split
    · rename_i same
      simp [same, count]
    · rename_i other
      simp [Ne.symm other, count]
  · rw [List.pairwise_map]
    simpa only [fst_bump] using h.order_append a

private theorem Accounts.added {a : α} (unused : a ∉ uses) : Accounts (uses ++ [a]) (counts ++ [(a, 1)]) := by
  refine ⟨?_, ?_, ?_⟩
  · intro b
    rw [List.map_append, List.mem_append, List.mem_append, h.values b]
    rfl
  · intro entry member
    rw [List.count_append]
    rcases List.mem_append.mp member with member | member
    · have other : a ≠ entry.1 := fun same => unused (same ▸ h.seen member)
      simp [h.count entry member, other]
    · rw [List.mem_singleton.mp member]
      simp [List.count_eq_zero_of_not_mem unused]
  · rw [List.pairwise_append]
    refine ⟨h.order_append a, List.pairwise_singleton _ _, ?_⟩
    intro x hx y hy
    rw [List.mem_singleton.mp hy, idxOf_append_known (h.seen hx), List.idxOf_append, if_neg unused]
    have := List.idxOf_lt_length_of_mem (h.seen hx)
    simp
    omega

private theorem Accounts.next (a : α) : Accounts (uses ++ [a]) (countUse a counts) := by
  by_cases known : a ∈ counts.map Prod.fst
  · rw [countUse_known a counts known h.nodup]
    exact h.bumped known
  · rw [countUse_new a counts known]
    exact h.added fun used => known ((h.values a).mpr used)

end Next

private theorem Accounts.run {seen : List α} {counts : List (α × Nat)} (h : Accounts seen counts) (uses : List α) :
    Accounts (seen ++ uses) (uses.foldl (fun counts a => countUse a counts) counts) := by
  induction uses generalizing seen counts with
  | nil =>
    rw [List.append_nil]
    exact h
  | cons a rest ih =>
    have later := ih (h.next a)
    rwa [List.append_assoc] at later

theorem tally_accounts (uses : List α) : Accounts uses (tally uses) := by
  have none : Accounts ([] : List α) [] := ⟨by simp, by simp, List.Pairwise.nil⟩
  exact none.run uses

end Tally

private theorem byUse_trans {α : Type} (a b c : α × Nat) (ab : byUse a b = true) (bc : byUse b c = true) :
    byUse a c = true := by
  rw [byUse, Nat.ble_eq] at *
  omega

private theorem byUse_total {α : Type} (a b : α × Nat) : (byUse a b || byUse b a) = true := by
  rw [Bool.or_eq_true, byUse, byUse, Nat.ble_eq, Nat.ble_eq]
  omega

private theorem mergeSort_keeps {β : Type} {le : β → β → Bool} {before : β → β → Prop}
    (trans : ∀ a b c, le a b = true → le b c = true → le a c = true) (total : ∀ a b, (le a b || le b a) = true)
    {list : List β} (h : list.Pairwise before) :
    (list.mergeSort le).Pairwise fun a b => le b a = true → before a b := by
  induction list with
  | nil => simp
  | cons a rest ih =>
    -- Before the first element come only those of the others that it may not stand before.
    obtain ⟨above, below, whole, others, strict⟩ := List.mergeSort_cons trans total a rest
    rw [List.pairwise_cons] at h
    have kept := ih h.2
    have inRest : ∀ b ∈ below, b ∈ rest := by
      intro b member
      have sorted : b ∈ rest.mergeSort le := others ▸ List.mem_append_right _ member
      exact List.mem_mergeSort.mp sorted
    rw [others, List.pairwise_append] at kept
    rw [whole, List.pairwise_append, List.pairwise_cons]
    refine ⟨kept.1, ⟨fun b member _ => h.1 b (inRest b member), kept.2.1⟩, ?_⟩
    intro x hx y hy
    rcases List.mem_cons.mp hy with rfl | hy
    · intro le
      have := strict x hx
      simp [le] at this
    · exact kept.2.2 x hx y hy

section Gather

variable {α : Type} [DecidableEq α]

/-- Gathered values: each value that is used stands once with the number of its uses, in a strict order. -/
structure Gathered (before : α → α → Prop) (uses : List α) (entries : List (α × Nat)) : Prop where
  values : ∀ a, a ∈ entries.map Prod.fst ↔ a ∈ uses
  nodup : (entries.map Prod.fst).Nodup
  count : ∀ entry ∈ entries, entry.2 = uses.count entry.1
  order : (entries.map Prod.fst).Pairwise before

/-- More uses come first, and among values with as many uses the one that was used first. -/
def Oftener (uses : List α) (a b : α) : Prop :=
  uses.count b < uses.count a ∨ uses.count a = uses.count b ∧ uses.idxOf a < uses.idxOf b

/-- The value that is used most often; of several such values the one that was used first. -/
def IsMode (uses : List α) (a : α) : Prop :=
  a ∈ uses ∧ ∀ b ∈ uses, b ≠ a → Oftener uses a b

theorem IsMode.unique {uses : List α} {a b : α} (ha : IsMode uses a) (hb : IsMode uses b) : a = b := by
  by_contra ne
  have first := ha.2 b hb.1 (Ne.symm ne)
  have second := hb.2 a ha.1 ne
  unfold Oftener at first second
  omega

private theorem isMode_of_mostCommon {uses : List α} {a : α} (h : mostCommon uses = some a) : IsMode uses a := by
  have all := tally_accounts uses
  obtain ⟨entry, best, rfl⟩ := Option.map_eq_some_iff.mp h
  unfold highest at best
  split at best
  · cases best
  · rename_i first rest counts
    obtain ⟨before, last, after, whole, found, strict, most⟩ := split_of_better first rest
    obtain rfl := found.symm.trans (Option.some.inj best)
    rw [counts, whole] at all
    have value : last.2 = uses.count last.1 := all.count last (by simp)
    refine ⟨(all.values _).mp (List.mem_map_of_mem (by simp)), ?_⟩
    intro b used other
    obtain ⟨entry, member, rfl⟩ := List.mem_map.mp ((all.values b).mpr used)
    have count := all.count entry member
    rcases List.mem_append.mp member with earlier | later
    · exact .inl (by have := strict entry earlier; omega)
    · rcases List.mem_cons.mp later with rfl | later
      · exact absurd rfl other
      · have order := (List.pairwise_cons.mp (List.pairwise_append.mp all.order).2.1).1 entry later
        have bound := most entry later
        unfold Oftener
        omega

theorem mostCommon_eq_none_iff {uses : List α} : mostCommon uses = none ↔ uses = [] := by
  have all := tally_accounts uses
  constructor
  · intro none
    have empty : tally uses = [] := by
      cases counts : tally uses with
      | nil => rfl
      | cons entry rest =>
        rw [mostCommon, counts] at none
        cases none
    refine List.eq_nil_iff_forall_not_mem.mpr fun a used => ?_
    have counted := (all.values a).mpr used
    rw [empty] at counted
    cases counted
  · rintro rfl
    rfl

theorem mostCommon_eq_some_iff {uses : List α} {a : α} : mostCommon uses = some a ↔ IsMode uses a := by
  refine ⟨isMode_of_mostCommon, fun mode => ?_⟩
  cases common : mostCommon uses with
  | none =>
    rw [mostCommon_eq_none_iff] at common
    rw [common] at mode
    cases mode.1
  | some b => rw [(isMode_of_mostCommon common).unique mode]

theorem gather_each {options : Options} (le : α × Nat → α × Nat → Bool) (uses : List α)
    (each : options.deduplicate = false) : gather options le uses = uses.map fun a => (a, 1) := by
  rw [gather, each]
  rfl

private theorem gathered_of_perm {before : α → α → Prop} {uses : List α} {entries : List (α × Nat)}
    (same : entries.Perm (tally uses)) (order : (entries.map Prod.fst).Pairwise before) :
    Gathered before uses entries := by
  have all := tally_accounts uses
  have keys := same.map Prod.fst
  refine ⟨?_, keys.nodup_iff.mpr all.nodup, ?_, order⟩
  · intro a
    rw [keys.mem_iff]
    exact all.values a
  · intro entry member
    exact all.count entry (same.mem_iff.mp member)

theorem gather_byUse {options : Options} (uses : List α) (once : options.deduplicate = true) :
    Gathered (Oftener uses) uses (gather options byUse uses) := by
  rw [gather, once]
  change Gathered (Oftener uses) uses ((tally uses).mergeSort byUse)
  have all := tally_accounts uses
  have same := List.mergeSort_perm (tally uses) byUse
  refine gathered_of_perm same ?_
  have sorted := List.pairwise_mergeSort byUse_trans byUse_total (tally uses)
  have kept := mergeSort_keeps byUse_trans byUse_total all.order
  rw [List.pairwise_map]
  refine (sorted.and kept).imp_of_mem ?_
  intro a b ha hb ⟨le, tie⟩
  have countA := all.count a (same.mem_iff.mp ha)
  have countB := all.count b (same.mem_iff.mp hb)
  rw [byUse, Nat.ble_eq] at le tie
  rcases Nat.lt_or_eq_of_le le with less | equal
  · exact Or.inl (by omega)
  · exact Or.inr ⟨by omega, tie (by omega)⟩

end Gather

private theorem byValue_iff {a b : Float × Nat} (ha : a.1.isFinite = true) (hb : b.1.isFinite = true) :
    byValue a b = decide (placeOf a.1 ≤ placeOf b.1) := by
  rw [byValue, decide_eq_decide]
  exact le_iff_placeOf ha hb

theorem gather_byValue {options : Options} (uses : List Float) (once : options.deduplicate = true)
    (finite : ∀ x ∈ uses, x.isFinite = true ∧ x.toModel.unpack ≠ .zero .negative) :
    Gathered (· < ·) uses (gather options byValue uses) := by
  rw [gather, once]
  change Gathered (· < ·) uses ((tally uses).mergeSort byValue)
  have all := tally_accounts uses
  have same := List.mergeSort_perm (tally uses) byValue
  have fits : ∀ entry ∈ tally uses, entry.1.isFinite = true ∧ entry.1.toModel.unpack ≠ .zero .negative := by
    intro entry member
    exact finite _ ((all.values _).mp (List.mem_map_of_mem member))
  refine gathered_of_perm same ?_
  have sorted : (((tally uses).mergeSort byValue).map fun entry => placeOf entry.1).Pairwise (· ≤ ·) := by
    rw [List.map_mergeSort (s := fun m n => decide (m ≤ n))]
    · refine (List.pairwise_mergeSort ?_ ?_ _).imp of_decide_eq_true
      · intro a b c ab bc
        rw [decide_eq_true_iff] at *
        omega
      · intro a b
        rw [Bool.or_eq_true, decide_eq_true_iff, decide_eq_true_iff]
        omega
    · intro a ha b hb
      exact byValue_iff (fits a ha).1 (fits b hb).1
  have distinct : (((tally uses).mergeSort byValue).map Prod.fst).Nodup :=
    (same.map Prod.fst).nodup_iff.mpr all.nodup
  rw [List.pairwise_map] at sorted ⊢
  rw [List.Nodup, List.pairwise_map] at distinct
  refine (sorted.and distinct).imp_of_mem ?_
  intro a b ha hb ⟨le, ne⟩
  obtain ⟨finiteA, unsignedA⟩ := fits a (same.mem_iff.mp ha)
  obtain ⟨finiteB, unsignedB⟩ := fits b (same.mem_iff.mp hb)
  rw [lt_iff_placeOf finiteA finiteB]
  refine Int.lt_iff_le_and_ne.mpr ⟨le, ?_⟩
  intro equal
  exact ne (eq_of_placeOf_eq finiteA finiteB unsignedA unsignedB equal)

end Handoff.Token
