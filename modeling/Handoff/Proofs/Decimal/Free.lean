import Handoff.Proofs.Decimal.Spelling
import Handoff.Proofs.Text.Blank

set_option autoImplicit false
set_option relaxedAutoImplicit false

/-!
The free form of numbers as a grammar, and that just its texts are read.

A number has a sign or none, digits on either side of an optional point, and an exponent or none. What is not finite
goes by its name, in any letter case.
-/

namespace Handoff.Numeral

/-- A sign, which may be left out when it is not below zero. -/
inductive SignText : Bool → List Char → Prop
  | none : SignText false []
  | plus : SignText false ['+']
  | minus : SignText true ['-']

/-- The power of ten with its letter, or nothing. -/
inductive ExponentText : Option (Bool × List Char) → List Char → Prop
  | none : ExponentText none []
  | some {letter : Char} {below : Bool} {sign ds : List Char} : letter = 'e' ∨ letter = 'E' →
      SignText below sign → Digits ds → ExponentText (some (below, ds)) (letter :: (sign ++ ds))

def pointChars : Option (List Char) → List Char
  | none => []
  | some ds => '.' :: ds

/-- A number without its sign, and the binary number that it stands for. -/
inductive Unsigned (negative : Bool) : List Char → Float → Prop
  | number {whole tail : List Char} {fraction : Option (List Char)} {exponent : Option (Bool × List Char)} :
      (∀ d ∈ whole, d.isDigit = true) → (∀ d ∈ fraction.getD [], d.isDigit = true) →
      whole ≠ [] ∨ fraction.getD [] ≠ [] → ExponentText exponent tail →
      Unsigned negative (whole ++ (pointChars fraction ++ tail)) (toFloat ⟨negative, whole, fraction, exponent⟩)
  | infinity {name : List Char} : name.map Char.toLower = "inf".toList ∨ name.map Char.toLower = "infinity".toList →
      Unsigned negative name (if negative then -infinity else infinity)
  | notNumber {name : List Char} : name.map Char.toLower = "nan".toList → Unsigned negative name notNumber

/-- A number in the free form, and the binary number that it stands for. -/
inductive Free : List Char → Float → Prop
  | signed {negative : Bool} {sign body : List Char} {x : Float} :
      SignText negative sign → Unsigned negative body x → Free (sign ++ body) x

section Sign

/-- The sign at the head of a text, and what follows it. -/
private def takeSign : List Char → Bool × List Char
  | '-' :: cs => (true, cs)
  | '+' :: cs => (false, cs)
  | cs => (false, cs)

private theorem signText_takeSign (cs : List Char) :
    ∃ sign, SignText (takeSign cs).1 sign ∧ cs = sign ++ (takeSign cs).2 := by
  unfold takeSign
  split
  · exact ⟨['-'], .minus, rfl⟩
  · exact ⟨['+'], .plus, rfl⟩
  · exact ⟨[], .none, rfl⟩

private theorem takeSign_append {negative : Bool} {sign body : List Char} (signed : SignText negative sign)
    (plain : ∀ c ∈ body.head?, c ≠ '-' ∧ c ≠ '+') : takeSign (sign ++ body) = (negative, body) := by
  cases signed with
  | plus | minus => rfl
  | none =>
    rw [List.nil_append]
    unfold takeSign
    split
    · exact absurd rfl (plain '-' rfl).1
    · exact absurd rfl (plain '+' rfl).2
    · rfl

private theorem readFree_eq (cs : List Char) : readFree cs = readFreeUnsigned (takeSign cs).1 (takeSign cs).2 := by
  cases cs with
  | nil => rfl
  | cons c cs =>
    by_cases minus : c = '-'
    · subst minus
      rfl
    · by_cases plus : c = '+'
      · subst plus
        rfl
      · simp [readFree, takeSign, minus, plus]

private theorem readExponent_cons {letter : Char} (marked : letter = 'e' ∨ letter = 'E') (cs : List Char) :
    readExponent (letter :: cs) =
      match takeDigits (takeSign cs).2 with
      | ([], _) => none
      | (ds, rest) => some (some ((takeSign cs).1, ds), rest) := by
  unfold readExponent
  exact if_pos marked

end Sign

section Digits

private theorem takeDigits_parts (cs : List Char) :
    cs = (takeDigits cs).1 ++ (takeDigits cs).2 ∧ ∀ d ∈ (takeDigits cs).1, d.isDigit = true :=
  ⟨List.takeWhile_append_dropWhile.symm, List.all_eq_true.mp List.all_takeWhile⟩

private theorem takeDigits_all {ds : List Char} (all : ∀ d ∈ ds, d.isDigit = true) : takeDigits ds = (ds, []) := by
  have whole : takeDigits (ds ++ []) = (ds, []) := takeDigits_append all nofun
  rwa [List.append_nil] at whole

private theorem ne_sign_of_isDigit {d : Char} (digit : d.isDigit = true) : d ≠ '-' ∧ d ≠ '+' := by
  constructor <;> rintro rfl <;> cases digit

private theorem readExponent_eq_some_iff {exponent : Option (Bool × List Char)} {cs : List Char} :
    readExponent cs = some (exponent, []) ↔ ExponentText exponent cs := by
  constructor
  · intro h
    cases cs with
    | nil =>
      obtain ⟨rfl, -⟩ := Prod.mk.inj (Option.some.inj h)
      exact .none
    | cons letter cs =>
      by_cases marked : letter = 'e' ∨ letter = 'E'
      · rw [readExponent_cons marked] at h
        obtain ⟨sign, signed, form⟩ := signText_takeSign cs
        obtain ⟨digits, all⟩ := takeDigits_parts (takeSign cs).2
        split at h
        · cases h
        · rename_i ds rest found taken
          obtain ⟨rfl, rfl⟩ := Prod.mk.inj (Option.some.inj h)
          simp only [taken, List.append_nil] at digits all
          have text := ExponentText.some marked signed ⟨found, all⟩
          have whole : letter :: cs = letter :: (sign ++ ds) := congrArg (letter :: ·) (digits ▸ form)
          rw [whole]
          exact text
      · have none : readExponent (letter :: cs) = some (none, letter :: cs) := if_neg marked
        rw [none] at h
        cases h
  · intro text
    cases text with
    | none => rfl
    | some marked signed digits =>
      obtain ⟨d, ds, rfl⟩ := List.exists_cons_of_ne_nil digits.some
      have plain : ∀ c ∈ (d :: ds).head?, c ≠ '-' ∧ c ≠ '+' := by
        rintro c ⟨⟩
        exact ne_sign_of_isDigit (digits.all d List.mem_cons_self)
      rw [readExponent_cons marked, takeSign_append signed plain, takeDigits_all digits.all]

private theorem readFraction_parts (cs : List Char) :
    cs = pointChars (readFraction cs).1 ++ (readFraction cs).2 ∧
      ∀ d ∈ (readFraction cs).1.getD [], d.isDigit = true := by
  unfold readFraction
  split
  · rename_i after
    obtain ⟨form, all⟩ := takeDigits_parts after
    exact ⟨congrArg ('.' :: ·) form, all⟩
  · exact ⟨rfl, nofun⟩

private theorem head_of_exponentText {exponent : Option (Bool × List Char)} {tail : List Char}
    (text : ExponentText exponent tail) {c : Char} (head : tail.head? = some c) : c.isDigit = false ∧ c ≠ '.' := by
  cases text with
  | none => cases head
  | some marked _ _ =>
    obtain rfl := Option.some.inj head
    rcases marked with rfl | rfl <;> decide

private theorem readFraction_append {exponent : Option (Bool × List Char)} {tail : List Char}
    (text : ExponentText exponent tail) {fraction : Option (List Char)}
    (all : ∀ d ∈ fraction.getD [], d.isDigit = true) :
    readFraction (pointChars fraction ++ tail) = (fraction, tail) := by
  cases fraction with
  | none =>
    rw [pointChars, List.nil_append]
    unfold readFraction
    split
    · exact absurd rfl (head_of_exponentText text rfl).2
    · rfl
  | some ds =>
    have taken : takeDigits (ds ++ tail) = (ds, tail) :=
      takeDigits_append all fun c head => (head_of_exponentText text head).1
    rw [pointChars, List.cons_append, readFraction, taken]

end Digits

section Names

private theorem head_of_number {whole : List Char} {fraction : Option (List Char)} (tail : List Char)
    (digits : ∀ d ∈ whole, d.isDigit = true) (some : whole ≠ [] ∨ fraction.getD [] ≠ []) :
    ∃ c cs, whole ++ (pointChars fraction ++ tail) = c :: cs ∧ (c.isDigit = true ∨ c = '.') := by
  cases whole with
  | cons d ds => exact ⟨d, _, rfl, .inl (digits d List.mem_cons_self)⟩
  | nil =>
    cases fraction with
    | none => simp at some
    | some ds => exact ⟨'.', _, rfl, .inr rfl⟩

private theorem toLower_of_first {c : Char} (first : c.isDigit = true ∨ c = '.') : c.toLower = c := by
  rcases first with digit | rfl
  · have high : c.toNat ≤ 57 := (Char.isDigit_iff_toNat.mp digit).2
    unfold Char.toLower
    split
    · rename_i capital
      have low : 65 ≤ c.toNat := capital.1
      omega
    · rfl
  · rfl

private theorem map_toLower_ne {c : Char} (first : c.isDigit = true ∨ c = '.') (cs : List Char) {name : String}
    {d : Char} (head : name.toList.head? = some d) (letter : d.isDigit = false ∧ d ≠ '.') :
    String.ofList ((c :: cs).map Char.toLower) ≠ name := by
  rintro rfl
  rw [String.toList_ofList, List.map_cons, toLower_of_first first] at head
  obtain rfl := Option.some.inj head
  rcases first with digit | point
  · rw [digit] at letter
    cases letter.1
  · exact letter.2 point

end Names

private theorem readFreeUnsigned_eq_some_iff {negative : Bool} {cs : List Char} {x : Float} :
    readFreeUnsigned negative cs = some x ↔ Unsigned negative cs x := by
  have same (name : String) : String.ofList (cs.map Char.toLower) = name ↔ cs.map Char.toLower = name.toList := by
    rw [← String.toList_inj, String.toList_ofList]
  constructor
  · intro h
    unfold readFreeUnsigned at h
    dsimp only at h
    split at h
    · rename_i named
      obtain rfl := Option.some.inj h
      rw [same, same] at named
      exact .infinity named
    · split at h
      · rename_i named
        obtain rfl := Option.some.inj h
        exact .notNumber ((same _).mp named)
      · obtain ⟨form, digits⟩ := takeDigits_parts cs
        obtain ⟨point, after⟩ := readFraction_parts (takeDigits cs).2
        split at h
        · cases h
        · rename_i some
          split at h
          · rename_i exponent text
            obtain rfl := Option.some.inj h
            have number : Unsigned negative _ _ :=
              .number digits after (not_and_or.mp some) (readExponent_eq_some_iff.mp text)
            rwa [← point, ← form] at number
          · cases h
  · intro text
    cases text with
    | infinity named =>
      rw [← same, ← same] at named
      unfold readFreeUnsigned
      exact if_pos named
    | notNumber named =>
      have other : ¬(String.ofList (cs.map Char.toLower) = "inf" ∨
          String.ofList (cs.map Char.toLower) = "infinity") := by
        rw [(same _).mpr named]
        decide
      unfold readFreeUnsigned
      exact (if_neg other).trans (if_pos ((same _).mpr named))
    | @number whole tail fraction exponent digits after digit text =>
      -- A number begins as no name does.
      obtain ⟨c, rest, form, first⟩ := head_of_number tail digits digit
      have infinite : ¬(String.ofList ((c :: rest).map Char.toLower) = "inf" ∨
          String.ofList ((c :: rest).map Char.toLower) = "infinity") :=
        not_or.mpr ⟨map_toLower_ne first rest rfl (by decide), map_toLower_ne first rest rfl (by decide)⟩
      have notNumber : String.ofList ((c :: rest).map Char.toLower) ≠ "nan" :=
        map_toLower_ne first rest rfl (by decide)
      have stop : ∀ d, (pointChars fraction ++ tail).head? = some d → d.isDigit = false := by
        intro d head
        cases fraction with
        | none => exact (head_of_exponentText text head).1
        | some ds =>
          obtain rfl := Option.some.inj head
          rfl
      rw [← form] at infinite notNumber
      unfold readFreeUnsigned
      dsimp only
      rw [if_neg infinite, if_neg notNumber, takeDigits_append digits stop]
      dsimp only
      rw [readFraction_append text after, if_neg (not_and_or.mpr digit), readExponent_eq_some_iff.mpr text]

private theorem ne_sign_of_name {body name : List Char} {d : Char} (named : body.map Char.toLower = d :: name)
    (letter : d ≠ '-' ∧ d ≠ '+') : ∀ c ∈ body.head?, c ≠ '-' ∧ c ≠ '+' := by
  intro c head
  obtain ⟨rest, rfl⟩ := List.head?_eq_some_iff.mp head
  obtain ⟨small, -⟩ := List.cons.inj named
  constructor <;> rintro rfl
  · exact letter.1 small.symm
  · exact letter.2 small.symm

private theorem ne_sign_of_unsigned {negative : Bool} {body : List Char} {x : Float} (text : Unsigned negative body x) :
    ∀ c ∈ body.head?, c ≠ '-' ∧ c ≠ '+' := by
  cases text with
  | infinity named =>
    rcases named with named | named
    · exact ne_sign_of_name named (by decide)
    · exact ne_sign_of_name named (by decide)
  | notNumber named => exact ne_sign_of_name named (by decide)
  | @number _ tail _ _ digits _ digit _ =>
    obtain ⟨c, rest, form, first⟩ := head_of_number tail digits digit
    rw [form]
    rintro _ ⟨⟩
    rcases first with digit | rfl
    · exact ne_sign_of_isDigit digit
    · decide

/-- A text is read as a number exactly when it is in the free form, and then as the number that it stands for. -/
theorem readFree_eq_some_iff {cs : List Char} {x : Float} : readFree cs = some x ↔ Free cs x := by
  rw [readFree_eq, readFreeUnsigned_eq_some_iff]
  constructor
  · intro text
    obtain ⟨sign, signed, form⟩ := signText_takeSign cs
    have free := Free.signed signed text
    rwa [← form] at free
  · rintro ⟨signed, text⟩
    rw [takeSign_append signed (ne_sign_of_unsigned text)]
    exact text

section Solid
open Text (isBlank)

private def Solid (cs : List Char) : Prop :=
  ∀ c ∈ cs, isBlank c = false ∧ c ≠ ','

private theorem solid_append {first second : List Char} (before : Solid first) (after : Solid second) :
    Solid (first ++ second) :=
  List.forall_mem_append.mpr ⟨before, after⟩

private theorem solid_of_digits {ds : List Char} (all : ∀ d ∈ ds, d.isDigit = true) : Solid ds := by
  intro d member
  have range := Char.isDigit_iff_toNat.mp (all d member)
  have low : 48 ≤ d.toNat := range.1
  have high : d.toNat ≤ 57 := range.2
  refine ⟨Text.isBlank_of_visible (by omega) (by omega), ?_⟩
  rintro rfl
  exact absurd low (by decide)

private theorem solid_of_small {cs name : List Char} (named : cs.map Char.toLower = name)
    (letters : ∀ c ∈ name, 97 ≤ c.toNat ∧ c.toNat ≤ 122) : Solid cs := by
  intro c member
  obtain ⟨low, high⟩ := letters c.toLower (named ▸ List.mem_map_of_mem member)
  have blank : isBlank c.toLower = false := Text.isBlank_of_visible (by omega) (by omega)
  rw [Text.isBlank_toLower] at blank
  refine ⟨blank, ?_⟩
  rintro rfl
  exact absurd low (by decide)

private theorem solid_sign {negative : Bool} {sign : List Char} (signed : SignText negative sign) : Solid sign := by
  cases signed with
  | none => exact nofun
  | plus | minus => exact List.forall_mem_singleton.mpr (by decide)

private theorem solid_exponent {exponent : Option (Bool × List Char)} {tail : List Char}
    (text : ExponentText exponent tail) : Solid tail := by
  cases text with
  | none => exact nofun
  | some marked signed digits =>
    refine List.forall_mem_cons.mpr ⟨?_, solid_append (solid_sign signed) (solid_of_digits digits.all)⟩
    rcases marked with rfl | rfl <;> decide

private theorem solid_unsigned {negative : Bool} {body : List Char} {x : Float} (text : Unsigned negative body x) :
    Solid body := by
  cases text with
  | infinity named =>
    have small : body.map Char.toLower = ['i', 'n', 'f'] ∨
        body.map Char.toLower = ['i', 'n', 'f', 'i', 'n', 'i', 't', 'y'] := named
    rcases small with small | small
    · exact solid_of_small small (by simp)
    · exact solid_of_small small (by simp)
  | notNumber named =>
    have small : body.map Char.toLower = ['n', 'a', 'n'] := named
    exact solid_of_small small (by simp)
  | @number _ _ fraction _ digits after _ tail =>
    refine solid_append (solid_of_digits digits) (solid_append ?_ (solid_exponent tail))
    cases fraction with
    | none => exact nofun
    | some ds => exact List.forall_mem_cons.mpr ⟨by decide, solid_of_digits after⟩

theorem Free.solid {cs : List Char} {x : Float} (text : Free cs x) : ∀ c ∈ cs, isBlank c = false ∧ c ≠ ',' := by
  obtain ⟨signed, body⟩ := text
  exact solid_append (solid_sign signed) (solid_unsigned body)

end Solid

end Handoff.Numeral
