import Handoff.Archive.Instant
import Handoff.Proofs.Decimal.Digits
import Handoff.Proofs.Text.Blank

set_option autoImplicit false
set_option relaxedAutoImplicit false

/-!
Points in time, written and read again.

Every number of an instant is written in a width of its own, so that it is found again, and the mark of universal time
moves nothing.
-/

namespace Handoff.Archive

namespace Date

theorem length_padded {width n : Nat} (short : n < 10 ^ width) (some : 0 < width) :
    (padded width n).length = width := by
  have fits := (Nat.length_toDigits_le_iff (by decide) some).mpr short
  rw [padded, List.length_append, List.length_replicate]
  omega

private theorem isDigit_of_mem_padded {width n : Nat} : ∀ c ∈ padded width n, c.isDigit = true := by
  intro c member
  rcases List.mem_append.mp member with zero | digit
  · rw [List.eq_of_mem_replicate zero]
    rfl
  · exact Numeral.isDigit_of_mem_toDigits digit

theorem digitsValue_padded (width n : Nat) : Numeral.digitsValue (padded width n) = n := by
  rw [padded, Numeral.digitsValue_append, Numeral.digitsValue_replicate_zero, Numeral.digitsValue_toDigits]
  omega

private theorem padded_ne_nil (width n : Nat) : padded width n ≠ [] := by
  simp [padded, Nat.toDigits_ne_nil]

end Date

namespace Instant
open Date

private theorem skipBlank_cons {c : Char} (solid : Text.isBlank c = false) (cs : List Char) :
    skipBlank (c :: cs) = c :: cs :=
  List.dropWhile_cons_of_neg (by simp [solid])

private theorem isBlank_of_isDigit {c : Char} (digit : c.isDigit = true) : Text.isBlank c = false := by
  have range := Char.isDigit_iff_toNat.mp digit
  have low : 48 ≤ c.toNat := range.1
  have high : c.toNat ≤ 57 := range.2
  exact Text.isBlank_of_visible (by omega) (by omega)

private theorem skipBlank_padded (width n : Nat) (rest : List Char) :
    skipBlank (padded width n ++ rest) = padded width n ++ rest := by
  obtain ⟨c, cs, form⟩ := List.exists_cons_of_ne_nil (padded_ne_nil width n)
  have digit := isDigit_of_mem_padded c (form ▸ List.mem_cons_self : c ∈ padded width n)
  rw [form, List.cons_append, skipBlank_cons (isBlank_of_isDigit digit)]

private theorem readNumber_padded {limit width n : Nat} {rest : List Char} (fits : (padded width n).length ≤ limit)
    (stop : (padded width n).length = limit ∨ ∀ c ∈ rest.head?, c.isDigit = false) :
    readNumber limit (padded width n ++ rest) = some (n, rest) := by
  have taken : ((padded width n ++ rest).take limit).takeWhile Char.isDigit = padded width n := by
    rw [List.take_append, List.take_of_length_le fits, List.takeWhile_append_of_pos isDigit_of_mem_padded]
    rcases stop with full | stop
    · rw [full, Nat.sub_self, List.take_zero, List.takeWhile_nil, List.append_nil]
    · cases rest with
      | nil => simp
      | cons c cs =>
        cases limit - (padded width n).length with
        | zero => simp
        | succ more => simp [stop c rfl]
  rw [readNumber, taken]
  split
  · rename_i none
    exact absurd none (padded_ne_nil width n)
  · rw [digitsValue_padded, List.drop_left]

private theorem readNumber_pair {n : Nat} (short : n < 100) (rest : List Char) :
    readNumber 2 (padded 2 n ++ rest) = some (n, rest) := by
  have full : (padded 2 n).length = 2 := length_padded short (by decide)
  exact readNumber_padded full.le (.inl full)

private theorem readYear_padded (width n : Nat) (rest : List Char) :
    readYear (padded width n ++ rest) =
      (readNumber 4 (padded width n ++ rest)).map fun (n, rest) => ((n : Int), rest) := by
  obtain ⟨c, cs, form⟩ := List.exists_cons_of_ne_nil (padded_ne_nil width n)
  have digit := isDigit_of_mem_padded c (form ▸ List.mem_cons_self : c ∈ padded width n)
  rw [form, List.cons_append, readYear]
  · rintro _ ⟨rfl, _⟩
    exact absurd digit (by decide)
  · rintro _ ⟨rfl, _⟩
    exact absurd digit (by decide)

private theorem readYear_chars (year : Int) (rest : List Char) :
    readYear (skipBlank (yearChars year ++ '-' :: rest)) = some (year, '-' :: rest) := by
  have stop : ∀ c ∈ ('-' :: rest).head?, c.isDigit = false := by
    rintro c ⟨⟩
    rfl
  have long (n : Nat) : (padded 4 n).length ≤ (padded 4 n ++ '-' :: rest).length := by
    rw [List.length_append]
    omega
  rw [yearChars]
  split
  · rename_i negative
    rw [List.cons_append, skipBlank_cons (by decide), readYear, readNumber_padded (long _) (.inr stop)]
    simp only [Option.map_some]
    congr 2
    omega
  · split
    · rw [List.cons_append, skipBlank_cons (by decide), readYear, readNumber_padded (long _) (.inr stop)]
      simp only [Option.map_some]
      congr 2
      omega
    · have full : (padded 4 year.natAbs).length = 4 := length_padded (by omega) (by decide)
      rw [skipBlank_padded, readYear_padded, readNumber_padded full.le (.inl full)]
      simp only [Option.map_some]
      congr 2
      omega

private theorem readMark_cons {mark : Char} (solid : Text.isBlank mark = false) (rest : List Char) :
    readMark mark (skipBlank (mark :: rest)) = some rest := by
  rw [skipBlank_cons solid, readMark, if_pos rfl]

private theorem readPadded_pair {n : Nat} (short : n < 100) (rest : List Char) :
    readNumber 2 (skipBlank (padded 2 n ++ rest)) = some (n, rest) := by
  rw [skipBlank_padded, readNumber_pair short]

private theorem daysIn_le (year : Int) (month : Nat) : daysIn year month ≤ 31 := by
  unfold daysIn
  split
  · split <;> decide
  all_goals decide

private theorem readDate_chars (date : Date) (rest : List Char) :
    readDate (date.chars ++ rest) = some (date, rest) := by
  obtain ⟨year, month, day, known⟩ := date
  have bounds := of_decide_eq_true known
  have days := daysIn_le year month
  have form : Date.chars ⟨year, month, day, known⟩ ++ rest =
      yearChars year ++ '-' :: (padded 2 month ++ '-' :: (padded 2 day ++ rest)) := by
    simp only [Date.chars, List.append_assoc, List.cons_append]
  have dash : Text.isBlank '-' = false := by decide
  rw [form, readDate, readYear_chars]
  simp only [Option.bind_eq_bind, Option.bind_some, readMark_cons dash, readPadded_pair (by omega : month < 100),
    readPadded_pair (by omega : day < 100), ofParts?, dif_pos known]
  rfl

private theorem readFraction_padded {width n nano : Nat} (some : 0 < width) (few : width ≤ 9) (short : n < 10 ^ width)
    (whole : n * 10 ^ (9 - width) = nano) {rest : List Char} (stop : ∀ c ∈ rest.head?, c.isDigit = false) :
    readFraction ('.' :: padded width n ++ rest) = .some (nano, rest) := by
  have full := length_padded short some
  have taken : Numeral.takeDigits (padded width n ++ rest) = (padded width n, rest) :=
    Numeral.takeDigits_append isDigit_of_mem_padded stop
  rw [List.cons_append, readFraction, taken]
  split
  · rename_i none
    exact absurd (congrArg Prod.fst none) (padded_ne_nil width n)
  · rename_i found
    obtain ⟨rfl, rfl⟩ := Prod.mk.inj found
    have kept : (padded width n).take 9 = padded width n := List.take_of_length_le (by omega)
    simp only [kept, digitsValue_padded, full, Nat.pow_eq, whole]

private theorem readFraction_exact {nano : Nat} (short : nano < 1000000000) {c : Char} (digit : c.isDigit = false)
    (point : c ≠ '.') (rest : List Char) :
    readFraction (exactFraction nano ++ c :: rest) = some (nano, c :: rest) := by
  have stop : ∀ d ∈ (c :: rest).head?, d.isDigit = false := by
    rintro d ⟨⟩
    exact digit
  rw [exactFraction]
  split
  · rename_i none
    rw [List.nil_append, readFraction, none]
    rintro _ ⟨rfl, _⟩
    exact point rfl
  · split
    · exact readFraction_padded (by decide) (by decide) (by omega) (by omega) stop
    · split
      · exact readFraction_padded (by decide) (by decide) (by omega) (by omega) stop
      · exact readFraction_padded (by decide) (by decide) (by omega) (by omega) stop

private theorem ofLocal?_universal (t : Instant) : ofLocal? t.date t.hour t.minute t.second t.nano 0 = some t := by
  obtain ⟨date, ⟨hour, hours⟩, ⟨minute, minutes⟩, ⟨second, seconds⟩, ⟨nano, nanos⟩⟩ := t
  have day : (60 * (hour : Int) + minute - 0) / 1440 = 0 := by omega
  have rest : ((60 * (hour : Int) + minute - 0) % 1440).toNat = 60 * hour + minute := by omega
  have back : (60 * hour + minute) / 60 = hour := by omega
  have remains : (60 * hour + minute) % 60 = minute := by omega
  simp only [ofLocal?, shiftDate, hours, minutes, and_self, if_true, day, rest, lt_irrefl, if_false, back, seconds,
    nanos, dite_true, remains]

theorem read_exactText (t : Instant) : read t.exactText = some t := by
  have form : t.exactText.toList = t.date.chars ++ 'T' :: (padded 2 t.hour ++ ':' :: (padded 2 t.minute ++
      ':' :: (padded 2 t.second ++ (exactFraction t.nano ++ ['Z'])))) := by
    simp only [exactText, wholeChars, String.toList_ofList, List.append_assoc, List.cons_append]
  have colon : Text.isBlank ':' = false := by decide
  have hour := t.hour.isLt
  have minute := t.minute.isLt
  have second := t.second.isLt
  rw [read, form, readDate_chars]
  simp only [Option.bind_eq_bind, Option.bind_some, readSeparator, true_or, if_true, readMark_cons colon,
    readPadded_pair (by omega : (t.hour : Nat) < 100), readPadded_pair (by omega : (t.minute : Nat) < 100),
    readPadded_pair (by omega : (t.second : Nat) < 100),
    readFraction_exact t.nano.isLt (by decide : 'Z'.isDigit = false) (by decide)]
  exact ofLocal?_universal t

end Instant
end Handoff.Archive
