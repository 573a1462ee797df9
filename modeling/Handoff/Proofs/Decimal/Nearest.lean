import Handoff.Proofs.Decimal.Exact

set_option autoImplicit false
set_option relaxedAutoImplicit false

/-!
Every number that is neither too large nor too small rounds to a canonical one.
-/

namespace Handoff.Binary
open Decimal

private theorem roundsTo_of_near {m : ℕ} {e : ℤ} {u : ℚ} (some : 0 < m) (near : Near m u)
    (power : m = 2 ^ 52 → (m : ℚ) - 1 / 4 ≤ u) : RoundsTo m e (u * 2 ^ e) := by
  have unit : (0 : ℚ) < 2 ^ (e - 2) := zpow_pos two_pos _
  have value : u * 2 ^ e = 4 * u * 2 ^ (e - 2) := by rw [quarter e]; ring
  have low : (lowEnd m e : ℚ) = 4 * m - 2 ∨ m = 2 ^ 52 ∧ (lowEnd m e : ℚ) = 4 * m - 1 := by
    unfold lowEnd
    split
    · rename_i special
      refine .inr ⟨special.1, ?_⟩
      rw [Nat.cast_sub (by omega)]
      push_cast
      rfl
    · refine .inl ?_
      rw [Nat.cast_sub (by omega)]
      push_cast
      rfl
  unfold Near at near
  unfold RoundsTo
  rw [value, cast_highEnd]
  split
  · rename_i even
    rw [if_pos even] at near
    refine ⟨mul_le_mul_of_nonneg_right ?_ unit.le, mul_le_mul_of_nonneg_right ?_ unit.le⟩
    · rcases low with low | ⟨special, low⟩
      · linarith [near.1]
      · linarith [power special]
    · linarith [near.2]
  · rename_i odd
    rw [if_neg odd] at near
    refine ⟨mul_lt_mul_of_pos_right ?_ unit, mul_lt_mul_of_pos_right ?_ unit⟩
    · rcases low with low | ⟨rfl, -⟩
      · linarith [near.1]
      · exact absurd rfl odd
    · linarith [near.2]

private theorem near_or_near {q : ℕ} {u : ℚ} (low : (q : ℚ) ≤ u) (high : u < q + 1) : Near q u ∨ Near (q + 1) u := by
  unfold Near
  push_cast
  by_cases even : q % 2 = 0
  · rw [if_pos even, if_neg (by omega)]
    rcases le_or_gt u (q + 1 / 2) with below | above
    · exact .inl ⟨by linarith, below⟩
    · exact .inr ⟨by linarith, by linarith⟩
  · rw [if_neg even, if_pos (by omega)]
    rcases lt_or_ge u (q + 1 / 2) with below | above
    · exact .inl ⟨by linarith, below⟩
    · exact .inr ⟨by linarith, by linarith⟩

/-- The first digit of a number tells the exponent of a canonical number that it rounds to. -/
theorem exists_roundsTo {v : ℚ} {k : ℤ} (low : 2 ^ k ≤ v) (high : v < 2 ^ (k + 1)) (least : -1022 ≤ k)
    (most : k ≤ 1022) : ∃ m e, Canonical m e ∧ RoundsTo m e v := by
  obtain ⟨e, rfl⟩ : ∃ e, k = e + 52 := ⟨k - 52, by omega⟩
  have unit : (0 : ℚ) < 2 ^ e := zpow_pos two_pos e
  obtain ⟨u, rfl⟩ : ∃ u, v = u * 2 ^ e := ⟨v / 2 ^ e, (div_mul_cancel₀ v unit.ne').symm⟩
  have first : 2 ^ 52 ≤ u := by
    rw [add_comm, zpow_add₀ two_ne_zero] at low
    exact le_of_mul_le_mul_right low unit
  have last : u < 2 ^ 53 := by
    rw [show e + 52 + 1 = 53 + e by ring, zpow_add₀ two_ne_zero] at high
    exact lt_of_mul_lt_mul_right high unit.le
  have below : (⌊u⌋₊ : ℚ) ≤ u := Nat.floor_le (by linarith)
  have above : u < ⌊u⌋₊ + 1 := Nat.lt_floor_add_one u
  have full : 2 ^ 52 ≤ ⌊u⌋₊ := Nat.le_floor (by exact_mod_cast first)
  have short : ⌊u⌋₊ < 2 ^ 53 := (Nat.floor_lt (by linarith)).mpr (by exact_mod_cast last)
  rcases near_or_near below above with near | near
  · exact ⟨⌊u⌋₊, e, ⟨by omega, short, by omega, by omega, .inl full⟩,
      roundsTo_of_near (by omega) near fun _ => by linarith⟩
  by_cases carry : ⌊u⌋₊ + 1 = 2 ^ 53
  · -- The digits run over, so that a power of two one place up is meant.
    have all : (⌊u⌋₊ : ℚ) + 1 = 2 ^ 53 := by exact_mod_cast carry
    have half : u * 2 ^ e = u / 2 * 2 ^ (e + 1) := by
      rw [zpow_add_one₀ two_ne_zero]
      ring
    have close := near.bounds.1
    push_cast at close
    refine ⟨2 ^ 52, e + 1, ⟨by norm_num, by norm_num, by omega, by omega, .inl le_rfl⟩, ?_⟩
    rw [half]
    refine roundsTo_of_near (by norm_num) ?_ fun _ => ?_
    · unfold Near
      rw [if_pos (by norm_num)]
      push_cast
      constructor <;> linarith
    · push_cast
      linarith
  · exact ⟨⌊u⌋₊ + 1, e, ⟨by omega, by omega, by omega, by omega, .inl (by omega)⟩,
      roundsTo_of_near (by omega) near fun special => by omega⟩

/-- A number that is not at the very end of its range is rounded by half a unit of the range's last place at most. -/
theorem close_of_roundsTo {m : ℕ} {e c : ℤ} {v : ℚ} (least : -1074 ≤ c) (canonical : Canonical m e)
    (rounds : RoundsTo m e v) (short : v < (2 ^ 53 - 1) * 2 ^ c) :
    v - 2 ^ c / 2 ≤ m * 2 ^ e ∧ (m : ℚ) * 2 ^ e ≤ v + 2 ^ c / 2 := by
  obtain ⟨low, high⟩ := (near_of_roundsTo canonical rounds).bounds
  rw [le_div_iff₀ (zpow_pos two_pos e)] at low
  rw [div_le_iff₀ (zpow_pos two_pos e)] at high
  have place : e ≤ c := by
    by_contra above
    have full : (2 : ℚ) ^ 52 ≤ m := by exact_mod_cast canonical.full.resolve_right (by omega)
    have unit : (2 : ℚ) ^ (c + 1) ≤ 2 ^ e := zpow_le_zpow_right₀ one_le_two (by omega)
    have reached : (2 ^ 53 - 1) * 2 ^ c ≤ v := by
      calc
        (2 ^ 53 - 1 : ℚ) * 2 ^ c = (2 ^ 52 - 1 / 2) * 2 ^ (c + 1) := by rw [zpow_add_one₀ two_ne_zero]; ring
        _ ≤ (m - 1 / 2) * 2 ^ e := mul_le_mul (by linarith) unit (by positivity) (by linarith)
        _ ≤ v := low
    exact absurd short (not_lt.mpr reached)
  have unit : (2 : ℚ) ^ e ≤ 2 ^ c := zpow_le_zpow_right₀ one_le_two place
  constructor <;> linarith

end Handoff.Binary
