import Handoff.Proofs.Token.Allocation

set_option autoImplicit false
set_option relaxedAutoImplicit false

/-!
The numbers that the allocator puts behind bases are the least ones that make new names, and a search that tries one
number after the other always comes to its end.
-/

namespace Handoff.Token
namespace Allocator

/-- A search for a number with a free name, for as long as it takes: a number whose name is taken gives way to the next
one. No number of tries bounds it. -/
inductive Search (taken : List String) (base : String) : Nat → Nat → Prop
  | free {n : Nat} (free : numbered base n ∉ taken) : Search taken base n n
  | next {n found : Nat} (held : numbered base n ∈ taken) (later : Search taken base (n + 1) found) :
      Search taken base n found

section Search

variable {taken : List String} {base : String} {n found : Nat}

theorem Search.isLeast (ends : Search taken base n found) : IsLeast (freeNumbers taken base n) found := by
  induction ends with
  | free free => exact isLeast_of_free free
  | next held _ ih => rwa [freeNumbers_of_held held]

theorem Search.congr {others : List String} (same : ∀ k, numbered base k ∈ taken ↔ numbered base k ∈ others)
    (ends : Search taken base n found) : Search others base n found := by
  induction ends with
  | free free => exact .free fun held => free ((same _).mpr held)
  | next held _ ih => exact .next ((same _).mp held) ih

theorem held_below (least : IsLeast (freeNumbers taken base n) found) :
    ∀ k, n ≤ k → k < found → numbered base k ∈ taken := by
  intro k after less
  by_contra free
  exact Nat.not_lt.mpr (least.2 ⟨after, free⟩) less

theorem search_of_isLeast (least : IsLeast (freeNumbers taken base n) found) : Search taken base n found := by
  have after : n ≤ found := least.1.1
  -- on how many numbers there are before the one that is found, all of them with taken names
  induction tries : found - n generalizing n with
  | zero =>
    obtain rfl : n = found := by omega
    exact .free least.1.2
  | succ tries ih =>
    have held := held_below least n (Nat.le_refl n) (by omega)
    rw [freeNumbers_of_held held] at least
    exact .next held (ih least least.1.1 (by omega))

/-- Whatever names are taken, a search ends, and where it ends is what the allocator finds. -/
theorem search_firstFree (taken : List String) (base : String) (n : Nat) :
    Search taken base n (firstFree taken base taken.length n) :=
  search_of_isLeast (isLeast_firstFree taken base n)

private theorem numbered_ne (base : String) (n : Nat) : numbered base n ≠ base := by
  intro same
  have length := congrArg String.length same
  simp only [numbered, String.length_append] at length
  have dash : "-".length = 1 := rfl
  omega

/-- The least number from two on is at most one more than there are names, as the base is one of these itself. -/
theorem le_of_isLeast (known : base ∈ taken) (least : IsLeast (freeNumbers taken base 2) found) :
    found ≤ taken.length + 1 := by
  have held (k : Nat) (after : 2 ≤ k) (less : k < found) : numbered base k ∈ taken.erase base :=
    (List.mem_erase_of_ne (numbered_ne base k)).mpr (held_below least k after less)
  have short := le_of_held held
  have nonempty := List.length_pos_of_mem known
  rw [List.length_erase_of_mem known] at short
  omega

end Search

/-- What a base is called after other names have been given out: the base itself where it is not among them, else the
base with the number at which a search from two on ends. That is the least one that makes a name which is not among
them, and it is at most one more than they are. -/
inductive Named (before : List String) (base : String) : String → Prop
  | itself (new : base ∉ before) : Named before base base
  | numbered {n : Nat} (known : base ∈ before) (ends : Search before base 2 n)
      (least : IsLeast {k | 2 ≤ k ∧ numbered base k ∉ before} n) (bound : n ≤ before.length + 1) :
      Named before base (numbered base n)

/-- The name that is chosen depends on which names were given out before, not on their order. -/
theorem named_choose {names : Allocator} {before : List String} (same : ∀ name, name ∈ names.taken ↔ name ∈ before)
    (base : String) : Named before base (names.choose base) := by
  by_cases known : base ∈ before
  · have taken := (same base).mpr known
    have ends := (search_firstFree names.taken base 2).congr fun k => same (numbered base k)
    rw [choose_of_taken taken]
    exact .numbered known ends ends.isLeast (le_of_isLeast known ends.isLeast)
  · have free : base ∉ names.taken := fun taken => known ((same base).mp taken)
    rw [choose_of_free free]
    exact .itself known

theorem allocateAll_append (names : Allocator) (earlier later : List String) :
    (names.allocateAll (earlier ++ later)).1 =
      (names.allocateAll earlier).1 ++ ((names.allocateAll earlier).2.allocateAll later).1 := by
  induction earlier generalizing names with
  | nil => rfl
  | cons base rest ih => exact congrArg (names.choose base :: ·) (ih (names.allocate base).2)

/-- Names for bases, one call after the other. Each call gives one name, all of them are different, and a base keeps its
own name where no call before has given it, be it to another base with a number, and has the least number from two on
that makes a new name otherwise. -/
theorem allocateAll_named (bases : List String) :
    let given := (({} : Allocator).allocateAll bases).1
    given.length = bases.length ∧ given.Nodup ∧
      ∀ i base, bases[i]? = some base → ∃ name, given[i]? = some name ∧ Named (given.take i) base name := by
  refine ⟨length_allocateAll {} bases, (gives_allocateAll {} bases).distinct, fun i base here => ?_⟩
  obtain ⟨bound, rfl⟩ := List.getElem?_eq_some_iff.mp here
  -- the calls before, this one, and those after it
  have split := allocateAll_append {} (bases.take i) (bases.drop i)
  rw [List.take_append_drop, List.drop_eq_getElem_cons bound] at split
  have length := length_allocateAll {} (bases.take i)
  rw [List.length_take_of_le (Nat.le_of_lt bound)] at length
  have before := (gives_allocateAll {} (bases.take i)).taken
  refine ⟨(({} : Allocator).allocateAll (bases.take i)).2.choose bases[i], ?_, ?_⟩
  · rw [split, List.getElem?_append_right (Nat.le_of_eq length), length, Nat.sub_self]
    rfl
  · rw [split, List.take_left' length]
    exact named_choose (fun name => (before name).trans (or_iff_left List.not_mem_nil)) _

/-- A base may itself look like another one with a number. -/
theorem allocateAll_named_overlap :
    (({} : Allocator).allocateAll ["a-2", "a", "a", "a-2"]).1 = ["a-2", "a", "a-3", "a-2-2"] ∧
      Named ["a-2", "a"] "a" "a-3" := by
  have given : (({} : Allocator).allocateAll ["a-2", "a", "a", "a-2"]).1 = ["a-2", "a", "a-3", "a-2-2"] := by decide
  obtain ⟨name, third, named⟩ := (allocateAll_named ["a-2", "a", "a", "a-2"]).2.2 2 "a" rfl
  rw [given] at third named
  obtain rfl := Option.some.inj third
  exact ⟨given, named⟩

end Allocator
end Handoff.Token
