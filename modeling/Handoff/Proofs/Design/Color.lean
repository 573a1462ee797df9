import Handoff.Design.Color
import Handoff.Proofs.Text.Blank

set_option autoImplicit false
set_option relaxedAutoImplicit false

/-!
Hexadecimal digits in either letter case, and the colors that they write.

A digit is known by its small form, and so is a color: the small forms of its digits are the bytes of its channels.
-/

namespace Handoff

namespace Text

-- The ASCII characters are gone through one by one; no other one is a digit or has a small form here.
private theorem ascii_hexDigit? : ∀ code < 0x80, ∀ n < 16,
    (hexDigit? (Char.ofNat code) = some n ↔ (Char.ofNat code).toLower = Nat.digitChar n) := by
  decide +kernel

private theorem ascii_hexDigit?_lt : ∀ code < 0x80, (hexDigit? (Char.ofNat code)).all (· < 16) = true := by
  decide +kernel

private theorem ascii_hexDigit?_toLower : ∀ code < 0x80,
    hexDigit? (Char.ofNat code).toLower = hexDigit? (Char.ofNat code) := by
  decide +kernel

theorem toNat_digitChar_lt : ∀ n < 16, (Nat.digitChar n).toNat < 0x80 := by
  decide

private theorem hexDigit?_eq_none {c : Char} (wide : 0x80 ≤ c.toNat) : hexDigit? c = none := by
  have digit : ¬ c.isDigit = true := by
    simp only [Char.isDigit, Bool.and_eq_true, decide_eq_true_eq, UInt32.le_iff_toNat_le, ge_iff_le]
    change ¬ (48 ≤ c.toNat ∧ c.toNat ≤ 57)
    omega
  have small : ¬ ('a' ≤ c ∧ c ≤ 'f') := by
    change ¬ (97 ≤ c.toNat ∧ c.toNat ≤ 102)
    omega
  have capital : ¬ ('A' ≤ c ∧ c ≤ 'F') := by
    change ¬ (65 ≤ c.toNat ∧ c.toNat ≤ 70)
    omega
  rw [hexDigit?, if_neg digit, if_neg small, if_neg capital]

theorem hexDigit?_eq_some_iff {c : Char} {n : Nat} :
    hexDigit? c = some n ↔ n < 16 ∧ c.toLower = Nat.digitChar n := by
  rcases Nat.lt_or_ge c.toNat 0x80 with ascii | wide
  · have digit := ascii_hexDigit? c.toNat ascii n
    have bound := ascii_hexDigit?_lt c.toNat ascii
    rw [Char.ofNat_toNat] at digit bound
    constructor
    · intro read
      rw [read] at bound
      have small : n < 16 := of_decide_eq_true bound
      exact ⟨small, (digit small).mp read⟩
    · rintro ⟨small, same⟩
      exact (digit small).mpr same
  · refine iff_of_false (by rw [hexDigit?_eq_none wide]; nofun) ?_
    rintro ⟨small, same⟩
    have := toNat_digitChar_lt n small
    rw [toLower_of_wide wide] at same
    rw [same] at wide
    omega

theorem mapM_hexDigit?_eq_some_iff {digits : List Char} {ns : List Nat} :
    digits.mapM hexDigit? = some ns ↔ (∀ n ∈ ns, n < 16) ∧ digits.map Char.toLower = ns.map Nat.digitChar := by
  induction digits generalizing ns with
  | nil =>
    cases ns with
    | nil => simp
    | cons n ns => simp
  | cons c cs ih =>
    cases ns with
    | nil => simp [Option.bind_eq_some_iff]
    | cons n ns =>
      simp only [List.mapM_cons, Option.bind_eq_bind, Option.bind_eq_some_iff, hexDigit?_eq_some_iff, ih,
        Option.pure_def, Option.some.injEq, List.cons.injEq, List.forall_mem_cons, List.map_cons]
      constructor
      · rintro ⟨_, ⟨small, same⟩, _, ⟨others, rest⟩, rfl, rfl⟩
        exact ⟨⟨small, others⟩, same, rest⟩
      · rintro ⟨⟨small, others⟩, same, rest⟩
        exact ⟨n, ⟨small, same⟩, ns, ⟨others, rest⟩, rfl, rfl⟩

theorem mapM_hexDigit?_toLower (digits : List Char) :
    (digits.map Char.toLower).mapM hexDigit? = digits.mapM hexDigit? := by
  have each (c : Char) : hexDigit? c.toLower = hexDigit? c := by
    rcases Nat.lt_or_ge c.toNat 0x80 with ascii | wide
    · have same := ascii_hexDigit?_toLower c.toNat ascii
      rwa [Char.ofNat_toNat] at same
    · rw [toLower_of_wide wide]
  induction digits with
  | nil => rfl
  | cons c cs ih => rw [List.map_cons, List.mapM_cons, List.mapM_cons, each, ih]

theorem hexPair_ofNat {high low : Nat} (hh : high < 16) (hl : low < 16) :
    hexPair (UInt8.ofNat (16 * high + low)) = [high, low].map Nat.digitChar := by
  have value : (UInt8.ofNat (16 * high + low)).toNat = 16 * high + low := by
    rw [UInt8.toNat_ofNat']
    omega
  have quotient : (16 * high + low) / 16 = high := by omega
  have remainder : (16 * high + low) % 16 = low := by omega
  rw [hexPair, value, quotient, remainder]
  rfl

end Text

namespace Design.Rgba
open Text

def sixDigits (c : Rgba) : List Char :=
  hexPair c.r ++ hexPair c.g ++ hexPair c.b

theorem ofHex?_of_six {digits : List Char} (six : digits.length = 6) {c : Rgba} :
    ofHex? digits = some c ↔ c.a = 1 ∧ digits.map Char.toLower = c.sixDigits := by
  constructor
  · intro read
    unfold ofHex? at read
    dsimp only at read
    split at read
    · rename_i r g b numbers
      have := congrArg List.length (mapM_hexDigit?_eq_some_iff.mp numbers).2
      simp [six] at this
    · rename_i r r' g g' b b' numbers
      obtain ⟨small, same⟩ := mapM_hexDigit?_eq_some_iff.mp numbers
      simp only [List.forall_mem_cons] at small
      obtain ⟨hr, hr', hg, hg', hb, hb', -⟩ := small
      obtain rfl := Option.some.inj read
      refine ⟨rfl, ?_⟩
      rw [same, sixDigits, hexPair_ofNat hr hr', hexPair_ofNat hg hg', hexPair_ofNat hb hb']
      rfl
    · rename_i numbers
      have := congrArg List.length (mapM_hexDigit?_eq_some_iff.mp numbers).2
      simp [six] at this
    · cases read
  · rintro ⟨opaque', same⟩
    have numbers : digits.mapM hexDigit? =
        some [c.r.toNat / 16, c.r.toNat % 16, c.g.toNat / 16, c.g.toNat % 16, c.b.toNat / 16, c.b.toNat % 16] := by
      refine mapM_hexDigit?_eq_some_iff.mpr ⟨?_, same⟩
      have hr := c.r.toNat_lt
      have hg := c.g.toNat_lt
      have hb := c.b.toNat_lt
      simp only [List.forall_mem_cons]
      exact ⟨by omega, by omega, by omega, by omega, by omega, by omega, nofun⟩
    have whole (byte : UInt8) : UInt8.ofNat (16 * (byte.toNat / 16) + byte.toNat % 16) = byte := by
      rw [Nat.div_add_mod, UInt8.ofNat_toNat]
    obtain ⟨r, g, b, a⟩ := c
    obtain rfl : a = 1 := opaque'
    unfold ofHex?
    rw [numbers]
    simp only [whole]

theorem ofHex?_of_three (x y z : Char) : ofHex? [x, y, z] = ofHex? [x, x, y, y, z, z] := by
  unfold ofHex?
  cases hx : hexDigit? x <;> cases hy : hexDigit? y <;> cases hz : hexDigit? z <;> simp [hx, hy, hz]

end Design.Rgba
end Handoff
