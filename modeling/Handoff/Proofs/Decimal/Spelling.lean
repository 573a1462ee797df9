import Handoff.Proofs.Decimal.Shortest

set_option autoImplicit false
set_option relaxedAutoImplicit false

/-!
Numbers written out and read again, character by character.
-/

namespace Handoff

namespace Numeral

structure Digits (ds : List Char) : Prop where
  some : ds ≠ []
  all : ∀ d ∈ ds, d.isDigit = true

/-- A written number in the strict form. -/
structure Strict (n : Numeral) : Prop where
  whole : Digits n.whole
  lead : n.whole.head? = some '0' → n.whole = ['0']
  fraction : ∀ ds, n.fraction = some ds → Digits ds
  exponent : ∀ below ds, n.exponent = some (below, ds) → Digits ds

def Stops (rest : List Char) : Prop :=
  ∀ c, rest.head? = some c → c.isDigit = false ∧ c ≠ '.' ∧ c ≠ 'e' ∧ c ≠ 'E'

theorem stops_nil : Stops [] := nofun

private theorem readExponent_stop {rest : List Char} (stop : Stops rest) :
    readExponent rest = some (none, rest) := by
  cases rest with
  | nil => rfl
  | cons c rest =>
    obtain ⟨-, -, small, large⟩ := stop c rfl
    unfold readExponent
    exact if_neg (by simp [small, large])

private theorem head_ne_of_digits {ds : List Char} (h : Digits ds) {c : Char} (other : c.isDigit = false)
    (rest : List Char) : (ds ++ rest).head? ≠ some c := by
  obtain ⟨d, tail, rfl⟩ := List.exists_cons_of_ne_nil h.some
  have digit := h.all d (List.mem_cons_self ..)
  rintro same
  obtain rfl := Option.some.inj same
  rw [digit] at other
  cases other

private theorem readExponent_append {below : Bool} {ds rest : List Char} (h : Digits ds) (stop : Stops rest) :
    readExponent ('e' :: (if below then '-' else '+') :: (ds ++ rest)) = some (some (below, ds), rest) := by
  have taken := takeDigits_append h.all fun c head => (stop c head).1
  obtain ⟨d, tail, rfl⟩ := List.exists_cons_of_ne_nil h.some
  rw [List.cons_append] at taken ⊢
  cases below <;> simp [readExponent, taken]

private def exponentChars (n : Numeral) : List Char :=
  match n.exponent with
  | none => []
  | some (below, ds) => 'e' :: (if below then '-' else '+') :: ds

private def fractionChars (n : Numeral) : List Char :=
  match n.fraction with
  | none => []
  | some ds => '.' :: ds

private theorem read_exponentChars {n : Numeral} (h : Strict n) {rest : List Char} (stop : Stops rest) :
    readExponent (exponentChars n ++ rest) = some (n.exponent, rest) := by
  unfold exponentChars
  cases part : n.exponent with
  | none => exact readExponent_stop stop
  | some pair =>
    obtain ⟨below, ds⟩ := pair
    exact readExponent_append (h.exponent below ds part) stop

private theorem head_exponentChars {n : Numeral} {rest : List Char} (stop : Stops rest) (c : Char)
    (head : (exponentChars n ++ rest).head? = some c) : c.isDigit = false ∧ c ≠ '.' := by
  unfold exponentChars at head
  split at head
  · exact ⟨(stop c head).1, (stop c head).2.1⟩
  · obtain rfl := Option.some.inj head
    decide

private theorem read_fractionChars {n : Numeral} (h : Strict n) {rest : List Char}
    (head : ∀ c, rest.head? = some c → c.isDigit = false ∧ c ≠ '.') :
    readFraction (fractionChars n ++ rest) = (n.fraction, rest) := by
  unfold fractionChars
  cases part : n.fraction with
  | none =>
    cases rest with
    | nil => rfl
    | cons c rest =>
      have other := (head c rfl).2
      unfold readFraction
      split
      · rename_i same
        exact absurd (List.cons.inj same).1 other
      · rfl
  | some ds =>
    have taken := takeDigits_append (h.fraction ds part).all fun c first => (head c first).1
    simp only [List.cons_append, readFraction, taken]

private theorem read_unsigned {n : Numeral} (h : Strict n) (negative : Bool) {rest : List Char} (stop : Stops rest) :
    (let (whole, cs) := takeDigits (n.whole ++ (fractionChars n ++ (exponentChars n ++ rest)))
      let (fraction, cs) := readFraction cs
      if whole = [] ∨ (whole.head? = some '0' ∧ whole ≠ ['0']) ∨ fraction = some [] then none
      else match readExponent cs with
        | none => none
        | some (exponent, rest) => some (Numeral.mk negative whole fraction exponent, rest)) =
      some (⟨negative, n.whole, n.fraction, n.exponent⟩, rest) := by
  have after : ∀ c, (fractionChars n ++ (exponentChars n ++ rest)).head? = some c → c.isDigit = false := by
    intro c head
    unfold fractionChars at head
    split at head
    · exact (head_exponentChars stop c head).1
    · obtain rfl := Option.some.inj head
      decide
  have strict : ¬(n.whole = [] ∨ (n.whole.head? = some '0' ∧ n.whole ≠ ['0']) ∨ n.fraction = some []) := by
    rintro (none | ⟨zero, more⟩ | none)
    · exact h.whole.some none
    · exact more (h.lead zero)
    · exact (h.fraction [] none).some rfl
  rw [takeDigits_append h.whole.all after]
  simp only [read_fractionChars h (head_exponentChars stop)]
  rw [if_neg strict, read_exponentChars h stop]

theorem read_chars {n : Numeral} (h : Strict n) {rest : List Char} (stop : Stops rest) :
    read (n.chars ++ rest) = some (n, rest) := by
  have parts : n.chars ++ rest =
      (if n.negative then ['-'] else []) ++ (n.whole ++ (fractionChars n ++ (exponentChars n ++ rest))) := by
    have split : n.chars = (if n.negative then ['-'] else []) ++ n.whole ++ fractionChars n ++ exponentChars n := rfl
    simp only [split, List.append_assoc]
  have reads := read_unsigned h n.negative stop
  rw [parts]
  cases sign : n.negative with
  | true =>
    rw [sign] at reads
    obtain ⟨negative, whole, fraction, exponent⟩ := n
    subst sign
    exact reads
  | false =>
    rw [sign] at reads
    have first := head_ne_of_digits h.whole (c := '-') (by decide)
      (fractionChars n ++ (exponentChars n ++ rest))
    obtain ⟨negative, whole, fraction, exponent⟩ := n
    subst sign
    unfold read
    split
    rename_i below cs start
    split at start
    · rename_i same
      exact absurd (congrArg List.head? same) first
    · cases start
      exact reads

end Numeral

namespace Layout
open Numeral

theorem digits_toDigits (n : ℕ) : Digits (Nat.toDigits 10 n) :=
  ⟨Nat.toDigits_ne_nil, fun _ member => isDigit_of_mem_toDigits member⟩

private theorem zero_digits : Digits ['0'] := by
  refine ⟨by simp, ?_⟩
  intro d member
  rw [List.mem_singleton.mp member]
  rfl

private theorem fraction_wholeFraction (layout : Layout) (ds : List Char) (h : layout.wholeFraction = some ds) :
    Digits ds := by
  unfold wholeFraction at h
  split at h
  · obtain rfl := Option.some.inj h
    exact zero_digits
  · cases h

private theorem isDigit_of_mem_replicate {n : ℕ} {d : Char} (h : d ∈ List.replicate n '0') :
    d.isDigit = true := by
  rw [List.eq_of_mem_replicate h]
  rfl

private theorem strict_spelled (layout : Layout) (negative : Bool) {ds : List Char} (exponent : ℤ) (h : Digits ds)
    (lead : ds.head? ≠ some '0') : Strict (layout.spelled negative ds exponent) := by
  obtain ⟨d, tail, rfl⟩ := List.exists_cons_of_ne_nil h.some
  unfold spelled
  split
  · refine ⟨⟨by simp, ?_⟩, fun zero => absurd zero lead, fraction_wholeFraction layout, nofun⟩
    intro c member
    rcases List.mem_append.mp member with member | member
    · exact h.all c member
    · exact isDigit_of_mem_replicate member
  · rename_i below
    simp only
    split
    · -- The point stands among the digits.
      rename_i inside
      obtain ⟨k, length⟩ : ∃ k, (d :: tail).length - (-exponent).toNat = k + 1 :=
        ⟨(d :: tail).length - (-exponent).toNat - 1, by omega⟩
      rw [length]
      refine ⟨⟨by simp, ?_⟩, fun zero => absurd zero lead, ?_, nofun⟩
      · intro c member
        exact h.all c (List.mem_of_mem_take member)
      · intro ds same
        obtain rfl := Option.some.inj same
        refine ⟨?_, fun c member => h.all c (List.mem_of_mem_drop member)⟩
        intro none
        have := congrArg List.length none
        rw [List.length_drop, List.length_nil] at this
        omega
    · -- Zeros stand between the point and the digits.
      refine ⟨zero_digits, fun _ => rfl, ?_, nofun⟩
      intro ds same
      obtain rfl := Option.some.inj same
      refine ⟨by simp, ?_⟩
      intro c member
      rcases List.mem_append.mp member with member | member
      · exact isDigit_of_mem_replicate member
      · exact h.all c member

private theorem strict_scientific (negative : Bool) {ds : List Char} (power : ℤ) (h : Digits ds)
    (lead : ds.head? ≠ some '0') : Strict (scientific negative ds power) := by
  obtain ⟨d, tail, rfl⟩ := List.exists_cons_of_ne_nil h.some
  refine ⟨⟨by simp [scientific], ?_⟩, fun zero => absurd zero lead, ?_, ?_⟩
  · intro c member
    exact h.all c (List.mem_of_mem_take member)
  · intro ds same
    unfold scientific at same
    split at same
    · cases same
    · rename_i long
      obtain rfl := Option.some.inj same
      refine ⟨?_, fun c member => h.all c (List.mem_of_mem_drop member)⟩
      intro none
      have := congrArg List.length none
      rw [List.length_drop, List.length_nil] at this
      omega
  · intro below ds same
    obtain ⟨rfl, rfl⟩ := Prod.mk.inj (Option.some.inj same)
    exact digits_toDigits _

theorem strict_numeral {layout : Layout} {x : Float} {n : Numeral} (h : layout.numeral x = some n) : Strict n := by
  unfold numeral at h
  split at h
  · cases h
  · cases h
  · obtain rfl := Option.some.inj h
    exact ⟨zero_digits, fun _ => rfl, fraction_wholeFraction layout, nofun⟩
  · rename_i s m e positive form
    obtain rfl := Option.some.inj h
    have canonical := Binary.canonical_unpack form
    have reads := (Decimal.shortest_reads layout.tie canonical).pos canonical
    have some : 0 < (Decimal.shortest layout.tie m e).digits := by
      by_contra none
      have zero : (Decimal.shortest layout.tie m e).digits = 0 := by omega
      have : (0 : ℚ) < 2 ^ (-1075 : ℤ) := zpow_pos two_pos _
      rw [zero, Nat.cast_zero, zero_mul] at reads
      linarith
    have digits := digits_toDigits (Decimal.shortest layout.tie m e).digits
    have lead := head_toDigits_ne_zero some
    unfold place
    simp only
    split
    · exact strict_spelled layout _ _ digits lead
    · exact strict_scientific _ _ digits lead

theorem numeral_of_isFinite (layout : Layout) {x : Float} (finite : x.isFinite = true) :
    ∃ n, layout.numeral x = some n := by
  unfold numeral
  rcases Binary.unpack_of_isFinite (x := x.toModel) finite with ⟨s, form⟩ | ⟨s, m, e, canonical, form⟩
  · rw [form]
    exact ⟨_, rfl⟩
  · rw [form]
    exact ⟨_, rfl⟩

end Layout

theorem plainText_injective {x y : Float} (hx : x.isFinite = true) (hy : y.isFinite = true)
    (same : plainText x = plainText y) : x = y := by
  obtain ⟨m, writtenX⟩ := Layout.plain.numeral_of_isFinite hx
  obtain ⟨n, writtenY⟩ := Layout.plain.numeral_of_isFinite hy
  simp only [plainText, writtenX, writtenY] at same
  have chars := String.ofList_injective same
  have readX := Numeral.read_chars (Layout.strict_numeral writtenX) Numeral.stops_nil
  have readY := Numeral.read_chars (Layout.strict_numeral writtenY) Numeral.stops_nil
  rw [chars, readY] at readX
  have numerals : n = m := congrArg Prod.fst (Option.some.inj readX)
  rw [← Layout.toFloat_numeral writtenX, ← Layout.toFloat_numeral writtenY, numerals]

end Handoff
