import Handoff.Proofs.Decimal.Digits
import Handoff.Proofs.Entries
import Handoff.Token.Extract
import Mathlib.Order.Bounds.Basic

set_option autoImplicit false
set_option relaxedAutoImplicit false

/-!
The allocator gives no name twice, so that the tokens of a catalog keep out of each other's way.
-/

namespace Handoff

namespace Token
open Design

namespace Allocator

private theorem numbered_injective {base : String} {m n : Nat} (h : numbered base m = numbered base n) : m = n := by
  have characters := congrArg String.toList h
  simp only [numbered, String.toList_append, List.append_cancel_left_eq] at characters
  simp only [Nat.toString_eq_ofList_toDigits, String.toList_ofList] at characters
  exact Numeral.toDigits_injective characters

def freeNumbers (taken : List String) (base : String) (n : Nat) : Set Nat :=
  {k | n ≤ k ∧ numbered base k ∉ taken}

section Numbers

variable {taken : List String} {base : String} {n : Nat}

theorem isLeast_of_free (free : numbered base n ∉ taken) : IsLeast (freeNumbers taken base n) n :=
  ⟨⟨Nat.le_refl n, free⟩, fun _ later => later.1⟩

theorem freeNumbers_of_held (held : numbered base n ∈ taken) :
    freeNumbers taken base n = freeNumbers taken base (n + 1) := by
  ext k
  constructor
  · rintro ⟨least, free⟩
    refine ⟨Nat.lt_of_le_of_ne least ?_, free⟩
    rintro rfl
    exact free held
  · rintro ⟨least, free⟩
    exact ⟨Nat.le_of_succ_le least, free⟩

theorem freeNumbers_congr {others : List String} (same : ∀ k, numbered base k ∈ taken ↔ numbered base k ∈ others) :
    freeNumbers taken base n = freeNumbers others base n := by
  ext k
  exact and_congr_right fun _ => not_congr (same k)

theorem le_of_held {m : Nat} (held : ∀ k, n ≤ k → k < m → numbered base k ∈ taken) : m ≤ n + taken.length := by
  have distinct : ((List.range' n (m - n)).map (numbered base)).Nodup := by
    refine List.pairwise_map.mpr (List.Pairwise.imp ?_ (List.nodup_range' 1))
    intro i j ne same
    exact ne (numbered_injective same)
  have within : (List.range' n (m - n)).map (numbered base) ⊆ taken := by
    intro name member
    obtain ⟨k, row, rfl⟩ := List.mem_map.mp member
    have bounds := List.mem_range'_1.mp row
    exact held k bounds.1 (by omega)
  have short := distinct.length_le_of_subset within
  rw [List.length_map, List.length_range'] at short
  omega

/-- Of one more number than there are names, one has a name that is free. -/
theorem exists_free (taken : List String) (base : String) (n : Nat) :
    ∃ k ∈ freeNumbers taken base n, k ≤ n + taken.length := by
  by_contra none
  have held (k : Nat) (least : n ≤ k) (less : k < n + taken.length + 1) : numbered base k ∈ taken := by
    by_contra free
    exact none ⟨k, ⟨least, free⟩, Nat.le_of_lt_succ less⟩
  have short := le_of_held held
  omega

private theorem isLeast_of_tries {tries : Nat} (enough : ∃ k ∈ freeNumbers taken base n, k ≤ n + tries) :
    IsLeast (freeNumbers taken base n) (firstFree taken base tries n) := by
  -- on the tries that are left: one that fails leaves the same free numbers from the next number on
  induction tries generalizing n with
  | zero =>
    obtain ⟨k, ⟨least, free⟩, bound⟩ := enough
    obtain rfl : k = n := Nat.le_antisymm bound least
    exact isLeast_of_free free
  | succ tries ih =>
    rw [firstFree]
    split
    · rename_i first
      have held := List.contains_iff_mem.mp first
      rw [freeNumbers_of_held held] at enough ⊢
      obtain ⟨k, later, bound⟩ := enough
      exact ih ⟨k, later, by omega⟩
    · rename_i first
      exact isLeast_of_free fun held => first (List.contains_iff_mem.mpr held)

theorem isLeast_firstFree (taken : List String) (base : String) (n : Nat) :
    IsLeast (freeNumbers taken base n) (firstFree taken base taken.length n) :=
  isLeast_of_tries (exists_free taken base n)

end Numbers

theorem choose_of_free {names : Allocator} {base : String} (free : base ∉ names.taken) : names.choose base = base := by
  rw [choose, if_neg (by simpa using free)]

theorem choose_of_taken {names : Allocator} {base : String} (taken : base ∈ names.taken) :
    names.choose base = numbered base (firstFree names.taken base names.taken.length 2) := by
  rw [choose, if_pos (List.contains_iff_mem.mpr taken)]

theorem choose_free (names : Allocator) (base : String) : names.choose base ∉ names.taken := by
  by_cases taken : base ∈ names.taken
  · rw [choose_of_taken taken]
    exact (isLeast_firstFree names.taken base 2).1.2
  · rwa [choose_of_free taken]

/-- A name made from a base: the base itself, or the base with a number. -/
def MadeFrom (name base : String) : Prop :=
  name = base ∨ ∃ n, name = numbered base n

theorem madeFrom_choose (names : Allocator) (base : String) : MadeFrom (names.choose base) base := by
  unfold choose
  split
  · exact .inr ⟨_, rfl⟩
  · exact .inl rfl

theorem prefix_of_madeFrom {name base : String} {start : List Char} (made : MadeFrom name base)
    (starts : start <+: base.toList) : start <+: name.toList := by
  rcases made with rfl | ⟨n, rfl⟩
  · exact starts
  · rw [numbered, String.toList_append, String.toList_append, List.append_assoc]
    exact starts.trans (List.prefix_append ..)

/-- Names given out between two states: no name twice, and none that was taken before. -/
structure Gives (before : Allocator) (given : List String) (after : Allocator) : Prop where
  distinct : given.Nodup
  free : ∀ name ∈ given, name ∉ before.taken
  taken : ∀ name, name ∈ after.taken ↔ name ∈ given ∨ name ∈ before.taken

theorem Gives.nothing (names : Allocator) : Gives names [] names :=
  ⟨List.nodup_nil, by simp, by simp⟩

theorem Gives.append {first second third : Allocator} {xs ys : List String} (h : Gives first xs second)
    (k : Gives second ys third) : Gives first (xs ++ ys) third := by
  refine ⟨?_, ?_, ?_⟩
  · rw [List.nodup_append]
    refine ⟨h.distinct, k.distinct, ?_⟩
    rintro name inX _ inY rfl
    exact k.free name inY ((h.taken name).mpr (Or.inl inX))
  · intro name member
    rcases List.mem_append.mp member with member | member
    · exact h.free name member
    · intro before
      exact k.free name member ((h.taken name).mpr (Or.inr before))
  · intro name
    rw [k.taken, h.taken, List.mem_append]
    tauto

theorem gives_allocate (names : Allocator) (base : String) :
    Gives names [(names.allocate base).1] (names.allocate base).2 := by
  refine ⟨by simp, ?_, ?_⟩
  · intro name member
    rw [List.mem_singleton.mp member]
    exact names.choose_free base
  · intro name
    simp [allocate]

theorem gives_allocateAll (names : Allocator) (bases : List String) :
    Gives names (names.allocateAll bases).1 (names.allocateAll bases).2 := by
  induction bases generalizing names with
  | nil => exact Gives.nothing names
  | cons base rest ih => exact (names.gives_allocate base).append (ih _)

private theorem mem_taken_choose (names : Allocator) (base : String) : base ∈ names.choose base :: names.taken := by
  unfold choose
  split
  · rename_i taken
    exact List.mem_cons_of_mem _ (List.contains_iff_mem.mp taken)
  · exact List.mem_cons_self ..

theorem mem_taken_allocateAll (names : Allocator) {bases : List String} :
    ∀ base ∈ bases, base ∈ (names.allocateAll bases).2.taken := by
  induction bases generalizing names with
  | nil => nofun
  | cons first rest ih =>
    rw [List.forall_mem_cons]
    have later := ((names.allocate first).2.gives_allocateAll rest).taken first
    exact ⟨later.mpr (.inr (names.mem_taken_choose first)), ih (names.allocate first).2⟩

section Agreement

/-- States that have the same names made from a base. -/
def AgreeOn (base : String) (first second : Allocator) : Prop :=
  ∀ name, MadeFrom name base → (name ∈ first.taken ↔ name ∈ second.taken)

variable {base : String} {first second : Allocator}

theorem AgreeOn.choose_eq (agree : AgreeOn base first second) : first.choose base = second.choose base := by
  by_cases taken : base ∈ first.taken
  · have also := (agree base (.inl rfl)).mp taken
    have least := isLeast_firstFree first.taken base 2
    rw [freeNumbers_congr fun k => agree _ (.inr ⟨k, rfl⟩)] at least
    rw [choose_of_taken taken, choose_of_taken also, least.unique (isLeast_firstFree second.taken base 2)]
  · have also : base ∉ second.taken := fun member => taken ((agree base (.inl rfl)).mpr member)
    rw [choose_of_free taken, choose_of_free also]

theorem allocateAll_eq_of_agree {bases : List String} (agree : ∀ base ∈ bases, AgreeOn base first second) :
    (first.allocateAll bases).1 = (second.allocateAll bases).1 := by
  induction bases generalizing first second with
  | nil => rfl
  | cons base rest ih =>
    obtain ⟨here, later⟩ := List.forall_mem_cons.mp agree
    have same := here.choose_eq
    have others : ((first.allocate base).2.allocateAll rest).1 = ((second.allocate base).2.allocateAll rest).1 := by
      refine ih fun other member name made => ?_
      change name ∈ first.choose base :: first.taken ↔ name ∈ second.choose base :: second.taken
      rw [List.mem_cons, List.mem_cons, same, later other member name made]
    exact congrArg₂ List.cons same others

end Agreement

theorem length_allocateAll (names : Allocator) (bases : List String) :
    (names.allocateAll bases).1.length = bases.length := by
  induction bases generalizing names with
  | nil => rfl
  | cons base rest ih => exact congrArg Nat.succ (ih _)

end Allocator

open Allocator

private theorem nameDrafts_eq (names : Allocator) (list : List Draft) :
    (nameDrafts names list).1 = (names.allocateAll (list.map Draft.base)).1.zip (list.map Draft.token) := by
  have gives := names.gives_allocateAll (list.map Draft.base)
  have length := names.length_allocateAll (list.map Draft.base)
  change Entries.putAll [] _ = _
  rw [Entries.putAll_new, List.nil_append]
  rw [List.nil_append, List.map_fst_zip (by rw [length, List.length_map, List.length_map])]
  exact gives.distinct

theorem map_snd_nameDrafts (names : Allocator) (list : List Draft) :
    (nameDrafts names list).1.map Prod.snd = list.map Draft.token := by
  have length := names.length_allocateAll (list.map Draft.base)
  rw [nameDrafts_eq, List.map_snd_zip (by rw [length, List.length_map, List.length_map])]

/-- Naming depends only on what is taken of the names that the drafts may get. -/
theorem nameDrafts_eq_of_agree {first second : Allocator} {list : List Draft}
    (agree : ∀ draft ∈ list, AgreeOn draft.base first second) :
    (nameDrafts first list).1 = (nameDrafts second list).1 := by
  rw [nameDrafts_eq, nameDrafts_eq, allocateAll_eq_of_agree (List.forall_mem_map.mpr agree)]

theorem gives_nameDrafts (names : Allocator) (list : List Draft) :
    Gives names ((nameDrafts names list).1.map Prod.fst) (nameDrafts names list).2 := by
  have length := names.length_allocateAll (list.map Draft.base)
  rw [nameDrafts_eq, List.map_fst_zip (by rw [length, List.length_map, List.length_map])]
  exact names.gives_allocateAll (list.map Draft.base)

theorem madeFrom_nameDrafts (names : Allocator) (list : List Draft) :
    List.Forall₂ (fun entry draft => entry.2 = draft.token ∧ MadeFrom entry.1 draft.base) (nameDrafts names list).1
      list := by
  rw [nameDrafts_eq]
  induction list generalizing names with
  | nil => exact .nil
  | cons draft rest ih => exact .cons ⟨rfl, names.madeFrom_choose draft.base⟩ (ih (names.allocate draft.base).2)

theorem gives_nameClasses (drafts : TokenClass → List Draft) (names : Allocator) (classes : List TokenClass) :
    ∃ after, Gives names
      ((nameClasses drafts names classes).flatMap fun named => named.2.map Prod.fst) after := by
  induction classes generalizing names with
  | nil => exact ⟨names, Gives.nothing names⟩
  | cons c rest ih =>
    obtain ⟨after, gives⟩ := ih (nameDrafts names (drafts c)).2
    exact ⟨after, (gives_nameDrafts names (drafts c)).append gives⟩

theorem map_fst_nameClasses (drafts : TokenClass → List Draft) (names : Allocator) (classes : List TokenClass) :
    (nameClasses drafts names classes).map Prod.fst = classes := by
  induction classes generalizing names with
  | nil => rfl
  | cons c rest ih => exact congrArg (c :: ·) (ih _)

theorem tokens_nameClasses (drafts : TokenClass → List Draft) (names : Allocator) (classes : List TokenClass) :
    ∀ named ∈ nameClasses drafts names classes, named.2.map Prod.snd = (drafts named.1).map Draft.token := by
  induction classes generalizing names with
  | nil => simp [nameClasses]
  | cons c rest ih =>
    intro named member
    rcases List.mem_cons.mp member with rfl | member
    · exact map_snd_nameDrafts names (drafts c)
    · exact ih _ named member

private theorem madeFrom_nameClasses (drafts : TokenClass → List Draft) (names : Allocator)
    (classes : List TokenClass) : ∀ named ∈ nameClasses drafts names classes,
      List.Forall₂ (fun entry draft => entry.2 = draft.token ∧ MadeFrom entry.1 draft.base) named.2
        (drafts named.1) := by
  induction classes generalizing names with
  | nil => nofun
  | cons c rest ih => exact List.forall_mem_cons.mpr ⟨madeFrom_nameDrafts names (drafts c), ih _⟩

private theorem mem_nameClasses (drafts : TokenClass → List Draft) (names : Allocator) {classes : List TokenClass}
    {c : TokenClass} (named : c ∈ classes) {draft : Draft} (member : draft ∈ drafts c) :
    draft.base ∈ names.taken ∨
      draft.base ∈ (nameClasses drafts names classes).flatMap fun named => named.2.map Prod.fst := by
  induction classes generalizing names with
  | nil => cases named
  | cons d rest ih =>
    change _ ∨ _ ∈ (nameDrafts names (drafts d)).1.map Prod.fst ++ _
    rw [List.mem_append, ← or_assoc, or_comm (a := draft.base ∈ names.taken),
      ← (gives_nameDrafts names (drafts d)).taken]
    rcases List.mem_cons.mp named with rfl | later
    · exact .inl (names.mem_taken_allocateAll _ (List.mem_map_of_mem member))
    · exact ih _ later

private theorem eq_map_lookup {β : Type} (list : List (TokenClass × List β))
    (distinct : (list.map Prod.fst).Nodup) :
    (list.map Prod.fst).map (fun c => (c, (list.lookup c).getD [])) = list := by
  induction list with
  | nil => rfl
  | cons entry rest ih =>
    obtain ⟨c, value⟩ := entry
    rw [List.map_cons, List.nodup_cons] at distinct
    rw [List.map_cons, List.map_cons, List.lookup_cons_self]
    have later : (rest.map Prod.fst).map (fun d => (d, (((c, value) :: rest).lookup d).getD [])) =
        (rest.map Prod.fst).map fun d => (d, (rest.lookup d).getD []) := by
      apply List.map_congr_left
      intro d member
      have other : d ≠ c := fun same => distinct.1 (same ▸ member)
      rw [List.lookup_cons, beq_false_of_ne other]
    rw [later, ih distinct.2]
    rfl

theorem TokenClass.mem_all (c : TokenClass) : c ∈ TokenClass.all := by
  cases c <;> decide

theorem get_ofClasses (tokens : TokenClass → Entries DesignToken) (c : TokenClass) :
    (Catalog.ofClasses tokens).get c = tokens c := by
  cases c <;> rfl

private theorem map_get_extract (options : Options) (tree : Tree) :
    TokenClass.all.map (fun c => (c, (extract options tree).get c)) =
      nameClasses (drafts options (.ofTree tree)) {} TokenClass.all := by
  have keys := map_fst_nameClasses (drafts options (.ofTree tree)) {} TokenClass.all
  have whole := eq_map_lookup (nameClasses (drafts options (.ofTree tree)) {} TokenClass.all)
    (by rw [keys]; decide)
  rw [keys] at whole
  simp only [extract, get_ofClasses]
  exact whole

theorem map_snd_get_extract (options : Options) (tree : Tree) (c : TokenClass) :
    ((extract options tree).get c).map Prod.snd = (drafts options (.ofTree tree) c).map Draft.token := by
  have member := List.mem_map_of_mem (f := fun c => (c, (extract options tree).get c)) c.mem_all
  rw [map_get_extract] at member
  exact tokens_nameClasses _ _ _ _ member

theorem typography_extract (options : Options) (tree : Tree) :
    (extract options tree).typography =
      (nameDrafts (nameDrafts {} (drafts options (.ofTree tree) .color)).2 (drafts options (.ofTree tree) .typography)).1 :=
  rfl

/-- The tokens of a class of a catalog are those of its drafts, with names made from their bases. -/
theorem madeFrom_get_extract (options : Options) (tree : Tree) (c : TokenClass) :
    List.Forall₂ (fun entry draft => entry.2 = draft.token ∧ MadeFrom entry.1 draft.base)
      ((extract options tree).get c) (drafts options (.ofTree tree) c) := by
  have member := List.mem_map_of_mem (f := fun c => (c, (extract options tree).get c)) c.mem_all
  rw [map_get_extract] at member
  exact madeFrom_nameClasses _ _ _ _ member

private theorem names_extract (options : Options) (tree : Tree) :
    ((extract options tree).toList.map fun entry => entry.2.1) =
      (nameClasses (drafts options (.ofTree tree)) {} TokenClass.all).flatMap fun named => named.2.map Prod.fst := by
  rw [← map_get_extract, List.flatMap_map, Catalog.toList, List.map_flatMap]
  simp only [List.map_map, Function.comp_def]

theorem nodup_names_extract (options : Options) (tree : Tree) :
    ((extract options tree).toList.map fun entry => entry.2.1).Nodup := by
  obtain ⟨after, gives⟩ := gives_nameClasses (drafts options (.ofTree tree)) {} TokenClass.all
  rw [names_extract]
  exact gives.distinct

/-- Some token of a catalog is called as the base of a draft is. -/
theorem mem_names_extract (options : Options) (tree : Tree) {c : TokenClass} {draft : Draft}
    (member : draft ∈ drafts options (.ofTree tree) c) :
    draft.base ∈ (extract options tree).toList.map fun entry => entry.2.1 := by
  rw [names_extract]
  exact (mem_nameClasses (drafts options (.ofTree tree)) {} c.mem_all member).resolve_left List.not_mem_nil

end Token
end Handoff
