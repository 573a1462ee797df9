import Handoff.Entries

set_option autoImplicit false
set_option relaxedAutoImplicit false

/-!
Entries with different names: what is looked up in them does not depend on their order.
-/

namespace Handoff.Entries

variable {α : Type}

private theorem put_new (name : String) (value : α) (entries : Entries α) (new : name ∉ entries.map Prod.fst) :
    put name value entries = entries ++ [(name, value)] := by
  induction entries with
  | nil => rfl
  | cons entry rest ih =>
    simp only [List.map_cons, List.mem_cons, not_or] at new
    rw [put, if_neg (Ne.symm new.1), ih new.2, List.cons_append]

theorem putAll_new (entries more : Entries α) (distinct : ((entries ++ more).map Prod.fst).Nodup) :
    putAll entries more = entries ++ more := by
  induction more generalizing entries with
  | nil => exact (List.append_nil entries).symm
  | cons entry rest ih =>
    have new : entry.1 ∉ entries.map Prod.fst := by
      rw [List.map_append, List.nodup_append] at distinct
      intro member
      exact distinct.2.2 _ member _ (List.mem_cons_self ..) rfl
    have split : entries ++ entry :: rest = (entries ++ [entry]) ++ rest := by simp
    change putAll (put entry.1 entry.2 entries) rest = _
    rw [put_new _ _ _ new, split]
    exact ih (entries ++ [entry]) (split ▸ distinct)

theorem lookup_eq_none_iff {name : String} {entries : Entries α} :
    entries.lookup name = none ↔ name ∉ entries.map Prod.fst := by
  induction entries with
  | nil => simp
  | cons entry rest ih =>
    rw [List.lookup_cons, List.map_cons, List.mem_cons, not_or, ← ih]
    by_cases here : name = entry.1
    · simp [here]
    · simp [here, beq_false_of_ne here]

theorem mem_keys_iff {name : String} {entries : Entries α} :
    name ∈ entries.map Prod.fst ↔ ∃ value, entries.lookup name = some value := by
  rw [← Option.ne_none_iff_exists', ne_eq, lookup_eq_none_iff, Decidable.not_not]

theorem mem_of_lookup {name : String} {value : α} {entries : Entries α} (h : entries.lookup name = some value) :
    (name, value) ∈ entries := by
  induction entries with
  | nil => cases h
  | cons entry rest ih =>
    rw [List.lookup_cons] at h
    by_cases here : name = entry.1
    · rw [beq_iff_eq.mpr here] at h
      obtain rfl := Option.some.inj h
      rw [here]
      exact List.mem_cons_self ..
    · rw [beq_false_of_ne here] at h
      exact List.mem_cons_of_mem _ (ih h)

theorem lookup_of_mem {name : String} {value : α} {entries : Entries α} (distinct : (entries.map Prod.fst).Nodup)
    (h : (name, value) ∈ entries) : entries.lookup name = some value := by
  induction entries with
  | nil => exact absurd h List.not_mem_nil
  | cons entry rest ih =>
    rw [List.map_cons, List.nodup_cons] at distinct
    rw [List.lookup_cons]
    rcases List.mem_cons.mp h with rfl | h
    · rw [beq_self_eq_true]
    · have other : name ≠ entry.1 := fun same => distinct.1 (same ▸ List.mem_map_of_mem h)
      rw [beq_false_of_ne other]
      exact ih distinct.2 h

theorem lookup_perm {entries others : Entries α} (same : entries.Perm others)
    (distinct : (entries.map Prod.fst).Nodup) (name : String) : entries.lookup name = others.lookup name := by
  have distinct' : (others.map Prod.fst).Nodup := (same.map Prod.fst).nodup_iff.mp distinct
  cases found : entries.lookup name with
  | none =>
    rw [lookup_eq_none_iff] at found
    refine (lookup_eq_none_iff.mpr ?_).symm
    rwa [← (same.map Prod.fst).mem_iff]
  | some value => exact (lookup_of_mem distinct' (same.mem_iff.mp (mem_of_lookup found))).symm

theorem lookup_append (name : String) (entries more : Entries α) :
    List.lookup name (entries ++ more) = (entries.lookup name).or (more.lookup name) := by
  induction entries with
  | nil => rfl
  | cons entry rest ih =>
    rw [List.cons_append, List.lookup_cons, List.lookup_cons, ih]
    cases name == entry.1 <;> rfl

theorem lookup_put (key name : String) (value : α) (entries : Entries α) :
    List.lookup key (put name value entries) = if key = name then some value else entries.lookup key := by
  induction entries with
  | nil => by_cases same : key = name <;> simp [put, List.lookup_cons, same, beq_false_of_ne]
  | cons entry rest ih =>
    rw [put]
    by_cases here : entry.1 = name
    · rw [if_pos here, List.lookup_cons, List.lookup_cons, here]
      by_cases same : key = name
      · rw [beq_iff_eq.mpr same, if_pos same]
      · rw [beq_false_of_ne same, if_neg same]
    · rw [if_neg here, List.lookup_cons, List.lookup_cons, ih]
      by_cases first : key = entry.1
      · have other : key ≠ name := fun same => here (first ▸ same)
        rw [beq_iff_eq.mpr first]
        exact (if_neg other).symm
      · rw [beq_false_of_ne first]

private theorem mem_keys_put (key name : String) (value : α) (entries : Entries α) :
    key ∈ (put name value entries).map Prod.fst ↔ key = name ∨ key ∈ entries.map Prod.fst := by
  induction entries with
  | nil => simp [put]
  | cons entry rest ih =>
    rw [put]
    by_cases here : entry.1 = name
    · simp [here]
    · rw [if_neg here, List.map_cons, List.mem_cons, ih, List.map_cons, List.mem_cons]
      exact or_left_comm

private theorem nodup_put (name : String) (value : α) {entries : Entries α} (distinct : (entries.map Prod.fst).Nodup) :
    ((put name value entries).map Prod.fst).Nodup := by
  induction entries with
  | nil => simp [put]
  | cons entry rest ih =>
    rw [List.map_cons, List.nodup_cons] at distinct
    rw [put]
    by_cases here : entry.1 = name
    · rw [if_pos here, List.map_cons, ← here, List.nodup_cons]
      exact distinct
    · rw [if_neg here, List.map_cons, List.nodup_cons, mem_keys_put]
      exact ⟨not_or.mpr ⟨here, distinct.1⟩, ih distinct.2⟩

theorem nodup_putAll {entries : Entries α} (distinct : (entries.map Prod.fst).Nodup) (more : Entries α) :
    ((putAll entries more).map Prod.fst).Nodup := by
  induction more generalizing entries with
  | nil => exact distinct
  | cons entry rest ih => exact ih (nodup_put entry.1 entry.2 distinct)

theorem nodup_putAll_nil (more : Entries α) : ((putAll [] more).map Prod.fst).Nodup := by
  apply nodup_putAll
  exact List.nodup_nil

private theorem mem_of_mem_put {name : String} {value : α} {entries : Entries α} {entry : String × α}
    (h : entry ∈ put name value entries) : entry = (name, value) ∨ entry ∈ entries := by
  induction entries with
  | nil => exact .inl (List.mem_singleton.mp h)
  | cons first rest ih =>
    rw [put] at h
    split at h
    · rcases List.mem_cons.mp h with here | later
      · exact .inl here
      · exact .inr (List.mem_cons_of_mem _ later)
    · rcases List.mem_cons.mp h with rfl | later
      · exact .inr (List.mem_cons_self ..)
      · exact (ih later).imp id (List.mem_cons_of_mem _)

theorem mem_of_mem_putAll {entries more : Entries α} {entry : String × α} (h : entry ∈ putAll entries more) :
    entry ∈ entries ∨ entry ∈ more := by
  induction more generalizing entries with
  | nil => exact .inl h
  | cons first rest ih =>
    rcases ih h with old | new
    · rcases mem_of_mem_put old with rfl | old
      · exact .inr (List.mem_cons_self ..)
      · exact .inl old
    · exact .inr (List.mem_cons_of_mem _ new)

theorem putAll_append (entries first second : Entries α) :
    putAll entries (first ++ second) = putAll (putAll entries first) second :=
  List.foldl_append

theorem lookup_putAll {entries more : Entries α} (distinct : (more.map Prod.fst).Nodup) (name : String) :
    List.lookup name (putAll entries more) = (more.lookup name).or (entries.lookup name) := by
  induction more generalizing entries with
  | nil => rfl
  | cons entry rest ih =>
    rw [List.map_cons, List.nodup_cons] at distinct
    change List.lookup name (putAll (put entry.1 entry.2 entries) rest) = _
    rw [ih distinct.2, lookup_put, List.lookup_cons]
    by_cases here : name = entry.1
    · rw [if_pos here, beq_iff_eq.mpr here, here, lookup_eq_none_iff.mpr distinct.1]
      rfl
    · rw [if_neg here, beq_false_of_ne here]

theorem lookup_without {name : String} (entries : Entries α) {names : List String} (kept : name ∉ names) :
    List.lookup name (entries.without names) = entries.lookup name := by
  induction entries with
  | nil => rfl
  | cons entry rest ih =>
    rw [without, List.filter_cons]
    by_cases out : entry.1 ∈ names
    · have other : name ≠ entry.1 := fun same => kept (same ▸ out)
      rw [if_neg (by simp [out]), List.lookup_cons, beq_false_of_ne other]
      exact ih
    · rw [if_pos (by simp [out]), List.lookup_cons, List.lookup_cons]
      cases name == entry.1 with
      | true => rfl
      | false => exact ih

theorem not_mem_without {name : String} {entries : Entries α} {names : List String} (out : name ∈ names) :
    name ∉ (entries.without names).map Prod.fst := by
  intro member
  obtain ⟨entry, kept, rfl⟩ := List.mem_map.mp member
  have := (List.mem_filter.mp kept).2
  simp [out] at this

theorem nodup_without {entries : Entries α} (distinct : (entries.map Prod.fst).Nodup) (names : List String) :
    ((entries.without names).map Prod.fst).Nodup :=
  distinct.sublist (List.filter_sublist.map Prod.fst)

theorem perm_without {entries others : Entries α} (same : entries.Perm others) (names : List String) :
    (entries.without names).Perm (others.without names) :=
  same.filter _

theorem without_of_not_mem {entries : Entries α} {names : List String}
    (apart : ∀ entry ∈ entries, entry.1 ∉ names) : entries.without names = entries := by
  rw [without, List.filter_eq_self]
  intro entry member
  simp [apart entry member]

theorem without_of_mem {entries : Entries α} {names : List String} (all : ∀ entry ∈ entries, entry.1 ∈ names) :
    entries.without names = [] := by
  rw [without, List.filter_eq_nil_iff]
  intro entry member
  simp [all entry member]

theorem without_append (entries more : Entries α) (names : List String) :
    without (entries ++ more) names = entries.without names ++ more.without names :=
  List.filter_append ..

theorem without_without {names more : List String} (within : names ⊆ more) (entries : Entries α) :
    (entries.without names).without more = entries.without more := by
  rw [without, without, List.filter_filter]
  refine List.filter_congr fun entry _ => ?_
  by_cases out : entry.1 ∈ names
  · simp [out, within out]
  · simp [out]

private theorem dropWhile_ne (name : String) (entries : Entries α) :
    (entries.dropWhile (·.1 ≠ name) = [] ∧ name ∉ entries.map Prod.fst) ∨
      ∃ value after, entries.dropWhile (·.1 ≠ name) = (name, value) :: after := by
  induction entries with
  | nil => exact .inl ⟨rfl, List.not_mem_nil⟩
  | cons entry rest ih =>
    rw [List.dropWhile_cons]
    by_cases here : entry.1 = name
    · refine .inr ⟨entry.2, rest, ?_⟩
      rw [if_neg (by simp [here]), ← here]
    · rw [if_pos (by simp [here]), List.map_cons, List.mem_cons, not_or]
      rcases ih with ⟨none, other⟩ | found
      · exact .inl ⟨none, Ne.symm here, other⟩
      · exact .inr found

theorem takeOut_eq_none_iff {name : String} {entries : Entries α} :
    takeOut name entries = none ↔ name ∉ entries.map Prod.fst := by
  have parts := List.takeWhile_append_dropWhile (p := fun entry : String × α => entry.1 ≠ name) (l := entries)
  unfold takeOut
  rcases dropWhile_ne name entries with ⟨none, other⟩ | ⟨value, after, found⟩
  · simp only [none]
    exact iff_of_true trivial other
  · simp only [found]
    have member : name ∈ entries.map Prod.fst := by
      rw [← parts, found]
      simp
    refine iff_of_false ?_ (fun other => other member)
    cases after.getLast? <;> simp

/-- The last of the entries behind the one that is taken out comes into its place. -/
theorem exists_of_takeOut {name : String} {value : α} {entries rest : Entries α}
    (h : takeOut name entries = some (value, rest)) :
    ∃ before after, entries = before ++ (name, value) :: after ∧
      rest = before ++ (after.getLast?.toList ++ after.dropLast) := by
  have parts := List.takeWhile_append_dropWhile (p := fun entry : String × α => entry.1 ≠ name) (l := entries)
  unfold takeOut at h
  rcases dropWhile_ne name entries with ⟨none, -⟩ | ⟨found, after, form⟩
  · simp only [none] at h
    cases h
  · simp only [form] at h
    rw [form] at parts
    cases last : after.getLast? with
    | none =>
      rw [last] at h
      obtain ⟨rfl, rfl⟩ := Prod.mk.inj (Option.some.inj h)
      obtain rfl := List.getLast?_eq_none_iff.mp last
      exact ⟨_, [], parts.symm, (List.append_nil _).symm⟩
    | some final =>
      rw [last] at h
      obtain ⟨rfl, rfl⟩ := Prod.mk.inj (Option.some.inj h)
      refine ⟨_, after, parts.symm, ?_⟩
      rw [last]
      rfl

theorem perm_of_takeOut {name : String} {value : α} {entries rest : Entries α}
    (h : takeOut name entries = some (value, rest)) : ((name, value) :: rest).Perm entries := by
  obtain ⟨before, after, rfl, rfl⟩ := exists_of_takeOut h
  refine List.Perm.trans (List.Perm.cons _ (List.Perm.append_left _ ?_)) List.perm_middle.symm
  rcases List.eq_nil_or_concat after with rfl | ⟨between, last, rfl⟩
  · exact List.Perm.nil
  · rw [List.concat_eq_append, List.getLast?_concat, List.dropLast_concat]
    exact @List.perm_append_comm _ [last] _

/-- Among different names, the one that is taken out was looked up there, and the others still are. -/
theorem lookup_of_takeOut {name : String} {value : α} {entries rest : Entries α}
    (distinct : (entries.map Prod.fst).Nodup) (h : takeOut name entries = some (value, rest)) :
    entries.lookup name = some value ∧ ∀ key ≠ name, rest.lookup key = entries.lookup key := by
  have same := perm_of_takeOut h
  refine ⟨lookup_of_mem distinct (same.mem_iff.mp (List.mem_cons_self ..)), fun key other => ?_⟩
  rw [lookup_perm same.symm distinct key, List.lookup_cons, beq_false_of_ne other]

theorem takeOut_append {name : String} {value : α} {before : Entries α} (other : name ∉ before.map Prod.fst)
    (after : Entries α) :
    takeOut name (before ++ (name, value) :: after) =
      some (value, before ++ (after.getLast?.toList ++ after.dropLast)) := by
  have passed : ∀ entry ∈ before, decide (entry.1 ≠ name) = true := by
    intro entry member
    exact decide_eq_true fun same => other (same ▸ List.mem_map_of_mem member)
  unfold takeOut
  rw [List.takeWhile_append_of_pos passed, List.dropWhile_append_of_pos passed]
  rcases List.eq_nil_or_concat after with rfl | ⟨between, last, rfl⟩ <;> simp

theorem takeOut_append_self {name : String} {value : α} {entries : Entries α}
    (other : name ∉ entries.map Prod.fst) : takeOut name (entries ++ [(name, value)]) = some (value, entries) := by
  rw [takeOut_append other]
  exact congrArg (fun rest => some (value, rest)) (List.append_nil entries)

theorem takeOut_of_perm {name : String} {value : α} {entries rest : Entries α}
    (distinct : (entries.map Prod.fst).Nodup) (h : ((name, value) :: rest).Perm entries) :
    ∃ left, takeOut name entries = some (value, left) ∧ left.Perm rest := by
  cases taken : takeOut name entries with
  | none =>
    have here : name ∈ entries.map Prod.fst := (h.map Prod.fst).mem_iff.mp (List.mem_cons_self ..)
    exact absurd here (takeOut_eq_none_iff.mp taken)
  | some pair =>
    obtain ⟨found, left⟩ := pair
    have moved := (perm_of_takeOut taken).trans h.symm
    have held : (name, found) ∈ entries := (perm_of_takeOut taken).mem_iff.mp (List.mem_cons_self ..)
    have there : (name, value) ∈ entries := h.mem_iff.mp (List.mem_cons_self ..)
    have looked := (lookup_of_mem distinct held).symm.trans (lookup_of_mem distinct there)
    obtain rfl := Option.some.inj looked
    exact ⟨left, rfl, moved.cons_inv⟩

end Handoff.Entries
