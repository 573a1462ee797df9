import Handoff.Proofs.Decimal.Free
import Handoff.Proofs.Decimal.Value
import Handoff.Proofs.Design.Color
import Handoff.Proofs.Text.Split
import Mathlib.Data.String.Basic

set_option autoImplicit false
set_option relaxedAutoImplicit false

/-!
The texts that write colors, as a grammar, and that just these are read.

A color is written in hexadecimal digits behind a number sign, or as a function of its channels; letter case and white
space around it are nothing to it. The forms begin with different characters, so that none stands in another's way.
-/

namespace Handoff.Design.Rgba
open Text Numeral

def Around (cs body : List Char) : Prop :=
  ∃ before after, (∀ c ∈ before, isBlank c = true) ∧ (∀ c ∈ after, isBlank c = true) ∧ cs = before ++ body ++ after

/-- Hexadecimal digits, in either letter case, and the numbers that they write. -/
def HexText (digits : List Char) (ns : List Nat) : Prop :=
  (∀ n ∈ ns, n < 16) ∧ digits.map Char.toLower = ns.map Nat.digitChar

def byteOf (high low : Nat) : UInt8 :=
  UInt8.ofNat (16 * high + low)

/-- A number in the free form, of finite value, with white space around it or none. -/
def Argument (part : List Char) (x : Float) : Prop :=
  ∃ body, Around part body ∧ Free body x ∧ x.isFinite = true

def Arguments (cs : List Char) (xs : List Float) : Prop :=
  ∃ parts, cs = List.intercalate [','] parts ∧ List.Forall₂ Argument parts xs

/-- The forms of a color, without white space around them. -/
inductive Form : List Char → Rgba → Prop
  | three {digits : List Char} {r g b : Nat} : HexText digits [r, g, b] →
      Form ('#' :: digits) ⟨byteOf r r, byteOf g g, byteOf b b, 1⟩
  | six {digits : List Char} {r r' g g' b b' : Nat} : HexText digits [r, r', g, g', b, b'] →
      Form ('#' :: digits) ⟨byteOf r r', byteOf g g', byteOf b b', 1⟩
  | eight {digits : List Char} {r r' g g' b b' a a' : Nat} : HexText digits [r, r', g, g', b, b', a, a'] →
      Form ('#' :: digits) ⟨byteOf r r', byteOf g g', byteOf b b', (byteOf a a').toFloat / 255⟩
  | rgb {cs inner : List Char} {x y z : Float} : cs.map Char.toLower = "rgb(".toList ++ inner ++ [')'] →
      Arguments inner [x, y, z] →
      Form cs ⟨nearestByte (rational x), nearestByte (rational y), nearestByte (rational z), 1⟩
  | rgba {cs inner : List Char} {x y z w : Float} : cs.map Char.toLower = "rgba(".toList ++ inner ++ [')'] →
      Arguments inner [x, y, z, w] →
      Form cs ⟨nearestByte (rational x), nearestByte (rational y), nearestByte (rational z), clamp 0 1 w⟩

/-- A text that writes a color. -/
def Writes (s : String) (c : Rgba) : Prop :=
  ∃ body, Around s.toList body ∧ Form body c

section Trim

theorem around_trimBy (cs : List Char) : Around cs (trimBy isBlank cs) :=
  exists_trimBy isBlank cs

private theorem Around.trimBy_eq {cs body : List Char} (around : Around cs body)
    (head : ∀ c ∈ body.head?, isBlank c = false) (last : ∀ c ∈ body.getLast?, isBlank c = false) :
    trimBy isBlank cs = body := by
  obtain ⟨before, after, opens, closes, rfl⟩ := around
  exact trimBy_append opens closes head last

end Trim

section Hex

theorem ofHex?_eq_some_iff {digits : List Char} {c : Rgba} :
    ofHex? digits = some c ↔ Form ('#' :: digits) c := by
  constructor
  · intro read
    unfold ofHex? at read
    dsimp only at read
    split at read
    · rename_i numbers
      obtain rfl := Option.some.inj read
      exact .three (mapM_hexDigit?_eq_some_iff.mp numbers)
    · rename_i numbers
      obtain rfl := Option.some.inj read
      exact .six (mapM_hexDigit?_eq_some_iff.mp numbers)
    · rename_i numbers
      obtain rfl := Option.some.inj read
      exact .eight (mapM_hexDigit?_eq_some_iff.mp numbers)
    · cases read
  · intro form
    cases form with
    | three text | six text | eight text =>
      unfold ofHex?
      rw [mapM_hexDigit?_eq_some_iff.mpr text]
      rfl
    | rgb small _ | rgba small _ =>
      cases small

end Hex

section Arguments

private theorem argument?_trimBy_iff {part : List Char} {x : Float} :
    argument? (trimBy isBlank part) = some x ↔ Argument part x := by
  constructor
  · intro read
    unfold argument? at read
    split at read
    · rename_i text
      split at read
      · rename_i finite
        obtain rfl := Option.some.inj read
        exact ⟨_, around_trimBy part, readFree_eq_some_iff.mp text, finite⟩
      · cases read
    · cases read
  · rintro ⟨body, around, text, finite⟩
    have head : ∀ c ∈ body.head?, isBlank c = false := fun c first => (text.solid c (List.mem_of_mem_head? first)).1
    have last : ∀ c ∈ body.getLast?, isBlank c = false := fun c final =>
      (text.solid c (List.mem_of_mem_getLast? final)).1
    rw [around.trimBy_eq head last, argument?, readFree_eq_some_iff.mpr text]
    exact if_pos finite

private theorem Argument.plain {part : List Char} {x : Float} (argument : Argument part x) : ',' ∉ part := by
  obtain ⟨body, ⟨before, after, opens, closes, rfl⟩, text, -⟩ := argument
  have blank : isBlank ',' = false := by decide
  simp only [List.mem_append, not_or]
  refine ⟨⟨fun member => ?_, fun member => (text.solid ',' member).2 rfl⟩, fun member => ?_⟩
  · rw [opens ',' member] at blank
    cases blank
  · rw [closes ',' member] at blank
    cases blank

private theorem mapM_argument?_iff {parts : List (List Char)} {xs : List Float} :
    (parts.map (trimBy isBlank)).mapM argument? = some xs ↔ List.Forall₂ Argument parts xs := by
  induction parts generalizing xs with
  | nil => simp [eq_comm]
  | cons part parts ih =>
    simp only [List.map_cons, List.mapM_cons, Option.bind_eq_bind, Option.bind_eq_some_iff, argument?_trimBy_iff, ih,
      Option.pure_def, Option.some.injEq, List.forall₂_cons_left_iff]
    constructor
    · rintro ⟨x, argument, xs, rest, rfl⟩
      exact ⟨x, xs, argument, rest, rfl⟩
    · rintro ⟨x, xs, argument, rest, rfl⟩
      exact ⟨x, argument, xs, rest, rfl⟩

private theorem plain_of_arguments {parts : List (List Char)} {xs : List Float}
    (each : List.Forall₂ Argument parts xs) : ∀ part ∈ parts, ',' ∉ part := by
  induction each with
  | nil => exact nofun
  | cons argument _ ih => exact List.forall_mem_cons.mpr ⟨argument.plain, ih⟩

private theorem mapM_splitAt_iff {cs : List Char} {x : Float} {xs : List Float} :
    ((splitAt ',' cs).map (trimBy isBlank)).mapM argument? = some (x :: xs) ↔ Arguments cs (x :: xs) := by
  rw [mapM_argument?_iff]
  constructor
  · intro each
    exact ⟨splitAt ',' cs, (intercalate_splitAt ',' cs).symm, each⟩
  · rintro ⟨parts, rfl, each⟩
    have some : parts ≠ [] := by
      rintro rfl
      cases each
    rw [splitAt_intercalate some (plain_of_arguments each)]
    exact each

private theorem Arguments.finite {inner : List Char} {xs : List Float} (arguments : Arguments inner xs) :
    ∀ x ∈ xs, x.isFinite = true := by
  obtain ⟨parts, -, each⟩ := arguments
  induction each with
  | nil => exact nofun
  | cons argument _ ih =>
    obtain ⟨-, -, -, finite⟩ := argument
    exact List.forall_mem_cons.mpr ⟨finite, ih⟩

private theorem channel_of_arguments {inner : List Char} {x y z : Float} {more : List Float}
    (arguments : Arguments inner (x :: y :: z :: more)) :
    channel x = nearestByte (rational x) ∧ channel y = nearestByte (rational y) ∧
      channel z = nearestByte (rational z) := by
  have finite := arguments.finite
  exact ⟨toUInt8_clamp_roundHalfAway (finite x (by simp)), toUInt8_clamp_roundHalfAway (finite y (by simp)),
    toUInt8_clamp_roundHalfAway (finite z (by simp))⟩

private theorem ofArguments?_three {inner : List Char} {c : Rgba} :
    ofArguments? false inner = some c ↔ ∃ x y z, Arguments inner [x, y, z] ∧
      c = ⟨nearestByte (rational x), nearestByte (rational y), nearestByte (rational z), 1⟩ := by
  constructor
  · intro read
    unfold ofArguments? at read
    dsimp only at read
    split at read
    · contradiction
    · rename_i x y z _ numbers
      have arguments := mapM_splitAt_iff.mp numbers
      obtain ⟨hx, hy, hz⟩ := channel_of_arguments arguments
      obtain rfl := Option.some.inj read
      exact ⟨x, y, z, arguments, by rw [hx, hy, hz]⟩
    · cases read
  · rintro ⟨x, y, z, arguments, rfl⟩
    obtain ⟨hx, hy, hz⟩ := channel_of_arguments arguments
    unfold ofArguments?
    dsimp only
    rw [mapM_splitAt_iff.mpr arguments, ← hx, ← hy, ← hz]

private theorem ofArguments?_four {inner : List Char} {c : Rgba} :
    ofArguments? true inner = some c ↔ ∃ x y z w, Arguments inner [x, y, z, w] ∧
      c = ⟨nearestByte (rational x), nearestByte (rational y), nearestByte (rational z), clamp 0 1 w⟩ := by
  constructor
  · intro read
    unfold ofArguments? at read
    dsimp only at read
    split at read
    · rename_i x y z w _ numbers
      have arguments := mapM_splitAt_iff.mp numbers
      obtain ⟨hx, hy, hz⟩ := channel_of_arguments arguments
      obtain rfl := Option.some.inj read
      exact ⟨x, y, z, w, arguments, by rw [hx, hy, hz]⟩
    · contradiction
    · cases read
  · rintro ⟨x, y, z, w, arguments, rfl⟩
    obtain ⟨hx, hy, hz⟩ := channel_of_arguments arguments
    unfold ofArguments?
    dsimp only
    rw [mapM_splitAt_iff.mpr arguments, ← hx, ← hy, ← hz]

end Arguments

section Forms

/-- What a text without white space around it is read as. -/
private def ofForm? (body : List Char) : Option Rgba :=
  match body with
  | '#' :: digits => ofHex? digits
  | cs =>
    let small := cs.map Char.toLower
    match enclosed? "rgba(".toList ')' small with
    | some inner => ofArguments? true inner
    | none =>
      match enclosed? "rgb(".toList ')' small with
      | some inner => ofArguments? false inner
      | none => none

private theorem parse?_eq (s : String) : parse? s = ofForm? (trimBy isBlank s.toList) := rfl

private theorem ofForm?_of_small {cs small : List Char} (form : cs.map Char.toLower = small)
    (other : small.head? ≠ some '#') :
    ofForm? cs = match enclosed? "rgba(".toList ')' small with
      | some inner => ofArguments? true inner
      | none =>
        match enclosed? "rgb(".toList ')' small with
        | some inner => ofArguments? false inner
        | none => none := by
  unfold ofForm?
  split
  · exact absurd (congrArg List.head? form.symm) other
  · simp only [form]

private theorem enclosed?_rgba (inner : List Char) :
    enclosed? "rgba(".toList ')' ("rgb(".toList ++ inner ++ [')']) = none := by
  rw [Option.eq_none_iff_forall_ne_some]
  intro found enclosed
  have same := enclosed?_eq_some_iff.mp enclosed
  simp at same

private theorem ofForm?_eq_some_iff {body : List Char} {c : Rgba} : ofForm? body = some c ↔ Form body c := by
  constructor
  · intro read
    unfold ofForm? at read
    split at read
    · exact ofHex?_eq_some_iff.mp read
    · dsimp only at read
      split at read
      · rename_i inner enclosed
        obtain ⟨x, y, z, w, arguments, rfl⟩ := ofArguments?_four.mp read
        exact .rgba (enclosed?_eq_some_iff.mp enclosed) arguments
      · split at read
        · rename_i inner enclosed
          obtain ⟨x, y, z, arguments, rfl⟩ := ofArguments?_three.mp read
          exact .rgb (enclosed?_eq_some_iff.mp enclosed) arguments
        · cases read
  · intro form
    cases form with
    | three text => exact ofHex?_eq_some_iff.mpr (.three text)
    | six text => exact ofHex?_eq_some_iff.mpr (.six text)
    | eight text => exact ofHex?_eq_some_iff.mpr (.eight text)
    | rgb small arguments =>
      rw [ofForm?_of_small small (by simp), enclosed?_rgba, enclosed?_eq_some_iff.mpr rfl]
      exact ofArguments?_three.mpr ⟨_, _, _, arguments, rfl⟩
    | rgba small arguments =>
      rw [ofForm?_of_small small (by simp), enclosed?_eq_some_iff.mpr rfl]
      exact ofArguments?_four.mpr ⟨_, _, _, _, arguments, rfl⟩

private theorem trimmed_of_small {body small : List Char} (form : body.map Char.toLower = small)
    (head : ∀ d ∈ small.head?, isBlank d = false) (last : ∀ d ∈ small.getLast?, isBlank d = false) :
    (∀ d ∈ body.head?, isBlank d = false) ∧ ∀ d ∈ body.getLast?, isBlank d = false := by
  subst form
  constructor
  · intro d first
    have small := head d.toLower (by rw [List.head?_map]; exact Option.mem_map_of_mem _ first)
    rwa [isBlank_toLower] at small
  · intro d final
    have small := last d.toLower (by rw [List.getLast?_map]; exact Option.mem_map_of_mem _ final)
    rwa [isBlank_toLower] at small

private theorem isBlank_digitChar : ∀ n < 16, isBlank (Nat.digitChar n) = false := by
  decide

private theorem HexText.trimmed {digits : List Char} {ns : List Nat} (text : HexText digits ns) :
    (∀ d ∈ ('#' :: digits).head?, isBlank d = false) ∧ ∀ d ∈ ('#' :: digits).getLast?, isBlank d = false := by
  have small : ('#' :: digits).map Char.toLower = '#' :: ns.map Nat.digitChar := congrArg ('#' :: ·) text.2
  have solid : ∀ d ∈ '#' :: ns.map Nat.digitChar, isBlank d = false := by
    rw [List.forall_mem_cons, List.forall_mem_map]
    exact ⟨by decide, fun n member => isBlank_digitChar n (text.1 n member)⟩
  exact trimmed_of_small small (fun d first => solid d (List.mem_of_mem_head? first))
    fun d final => solid d (List.mem_of_mem_getLast? final)

private theorem Form.trimmed {body : List Char} {c : Rgba} (form : Form body c) :
    (∀ d ∈ body.head?, isBlank d = false) ∧ ∀ d ∈ body.getLast?, isBlank d = false := by
  have closing (front : List Char) : ∀ d ∈ (front ++ [')']).getLast?, isBlank d = false := by
    rw [List.getLast?_concat]
    rintro d ⟨⟩
    decide
  have opening (rest : List Char) : ∀ d ∈ ('r' :: rest).head?, isBlank d = false := by
    rintro d ⟨⟩
    decide
  cases form with
  | three text | six text | eight text => exact text.trimmed
  | rgb small _ => exact trimmed_of_small small (opening _) (closing _)
  | rgba small _ => exact trimmed_of_small small (opening _) (closing _)

theorem parse?_eq_some_iff {s : String} {c : Rgba} : parse? s = some c ↔ Writes s c := by
  rw [parse?_eq, ofForm?_eq_some_iff]
  constructor
  · intro form
    exact ⟨_, around_trimBy s.toList, form⟩
  · rintro ⟨body, around, form⟩
    rwa [around.trimBy_eq form.trimmed.1 form.trimmed.2]

end Forms

section LetterCase

private theorem ascii_toLower_eq_mark : ∀ code < 0x80,
    (Char.ofNat code).toLower = '#' → Char.ofNat code = '#' := by
  decide +kernel

private theorem eq_mark_of_toLower {c : Char} (small : c.toLower = '#') : c = '#' := by
  rcases Nat.lt_or_ge c.toNat 0x80 with ascii | wide
  · have same := ascii_toLower_eq_mark c.toNat ascii
    rw [Char.ofNat_toNat] at same
    exact same small
  · rwa [toLower_of_wide wide] at small

private theorem exists_digits {digits other : List Char}
    (same : ('#' :: digits).map Char.toLower = other.map Char.toLower) :
    ∃ digits', other = '#' :: digits' ∧ digits.map Char.toLower = digits'.map Char.toLower := by
  cases other with
  | nil => cases same
  | cons c cs =>
    obtain ⟨mark, rest⟩ := List.cons.inj same
    obtain rfl := eq_mark_of_toLower mark.symm
    exact ⟨cs, rfl, rest⟩

private theorem Form.of_small {body other : List Char} {c : Rgba} (form : Form body c)
    (same : body.map Char.toLower = other.map Char.toLower) : Form other c := by
  cases form with
  | three text =>
    obtain ⟨digits, rfl, small⟩ := exists_digits same
    exact .three ⟨text.1, small.symm.trans text.2⟩
  | six text =>
    obtain ⟨digits, rfl, small⟩ := exists_digits same
    exact .six ⟨text.1, small.symm.trans text.2⟩
  | eight text =>
    obtain ⟨digits, rfl, small⟩ := exists_digits same
    exact .eight ⟨text.1, small.symm.trans text.2⟩
  | rgb small arguments => exact .rgb (same.symm.trans small) arguments
  | rgba small arguments => exact .rgba (same.symm.trans small) arguments

private theorem parse?_of_small {s t : String} (same : s.toList.map Char.toLower = t.toList.map Char.toLower) :
    parse? s = parse? t := by
  have bodies : (trimBy isBlank s.toList).map Char.toLower = (trimBy isBlank t.toList).map Char.toLower := by
    rw [← trimBy_map isBlank_toLower, ← trimBy_map isBlank_toLower, same]
  ext c
  rw [parse?_eq, parse?_eq, ofForm?_eq_some_iff, ofForm?_eq_some_iff]
  exact ⟨fun form => form.of_small bodies, fun form => form.of_small bodies.symm⟩

end LetterCase

section Bytes

private theorem utf8Len_of_ascii {cs : List Char} (ascii : ∀ c ∈ cs, c.toNat < 0x80) :
    String.utf8Len cs = cs.length := by
  induction cs with
  | nil => rfl
  | cons c cs ih =>
    rw [List.forall_mem_cons] at ascii
    have one : c.utf8Size = 1 := Char.utf8Size_eq_one_iff.mpr (Nat.lt_succ_iff.mp ascii.1)
    rw [String.utf8Len_cons, ih ascii.2, one, List.length_cons]

private theorem isValid_of_ascii {cs : List Char} (ascii : ∀ c ∈ cs, c.toNat < 0x80) {k : Nat}
    (within : k ≤ (String.ofList cs).utf8ByteSize) : String.Pos.Raw.IsValid (String.ofList cs) ⟨k⟩ := by
  rw [String.utf8ByteSize_ofList, utf8Len_of_ascii ascii] at within
  refine String.Pos.Raw.isValid_iff_exists_append.mpr ⟨String.ofList (cs.take k), String.ofList (cs.drop k), ?_, ?_⟩
  · rw [← String.ofList_append, List.take_append_drop]
  · have front : ∀ c ∈ cs.take k, c.toNat < 0x80 := fun c member => ascii c (List.mem_of_mem_take member)
    rw [String.rawEndPos_ofList, utf8Len_of_ascii front, List.length_take, Nat.min_eq_left within]

private theorem HexText.ascii {digits : List Char} {ns : List Nat} (text : HexText digits ns) :
    ∀ c ∈ digits, c.toNat < 0x80 := by
  intro c member
  have small : c.toLower ∈ ns.map Nat.digitChar := text.2 ▸ List.mem_map_of_mem member
  obtain ⟨n, digit, same⟩ := List.mem_map.mp small
  by_contra wide
  have bound := toNat_digitChar_lt n (text.1 n digit)
  rw [same, toLower_of_wide (Nat.le_of_not_lt wide)] at bound
  exact wide bound

private theorem ascii_of_ofHex? {digits : List Char} {c : Rgba} (read : ofHex? digits = some c) :
    ∀ d ∈ digits, d.toNat < 0x80 := by
  cases ofHex?_eq_some_iff.mp read with
  | three text | six text | eight text => exact text.ascii
  | rgb small _ | rgba small _ => cases small

end Bytes

/-- Just the texts of the grammar are read as colors, each as the color that it writes; letter case and white space
around a text change nothing; and the digits that are cut into channels can be cut at any offset. -/
theorem parse_grammar :
    (∀ s c, parse? s = some c ↔ Writes s c) ∧
      (∀ s t : String, s.toList.map Char.toLower = t.toList.map Char.toLower → parse? s = parse? t) ∧
      (∀ before s after : String, isBlankText before = true → isBlankText after = true →
        parse? (before ++ s ++ after) = parse? s) ∧
      ∀ digits c, ofHex? digits = some c → ∀ k ≤ (String.ofList digits).utf8ByteSize,
        String.Pos.Raw.IsValid (String.ofList digits) ⟨k⟩ := by
  refine ⟨fun s c => parse?_eq_some_iff, fun s t => parse?_of_small, ?_, ?_⟩
  · intro before s after opens closes
    have same : trimBy isBlank (before ++ s ++ after).toList = trimBy isBlank s.toList := by
      rw [String.toList_append, String.toList_append]
      exact trimBy_around (List.all_eq_true.mp opens) (List.all_eq_true.mp closes) s.toList
    rw [parse?_eq, parse?_eq, same]
  · intro digits c read k within
    exact isValid_of_ascii (ascii_of_ofHex? read) within

/-- Capitals and a space without break are nothing to a color. -/
theorem parse_spaced_capitals :
    parse? ("\u00a0" ++ "#FF8000" ++ "\n") = some ⟨255, 128, 0, 1⟩ ∧
      String.Pos.Raw.IsValid (String.ofList ['F', 'F', '8', '0', '0', '0']) ⟨2⟩ := by
  have small : parse? "#FF8000" = parse? "#ff8000" := parse_grammar.2.1 _ _ (by decide)
  have around : Around "#ff8000".toList "#ff8000".toList := ⟨[], [], nofun, nofun, by simp⟩
  have text : HexText ['f', 'f', '8', '0', '0', '0'] [15, 15, 8, 0, 0, 0] := ⟨by decide, by decide⟩
  have form : Form "#ff8000".toList ⟨255, 128, 0, 1⟩ := .six text
  have read : parse? "#ff8000" = some ⟨255, 128, 0, 1⟩ := (parse_grammar.1 _ _).mpr ⟨_, around, form⟩
  refine ⟨(parse_grammar.2.2.1 _ _ _ (by decide) (by decide)).trans (small.trans read), ?_⟩
  exact parse_grammar.2.2.2 _ ⟨255, 128, 0, 1⟩ (by decide) 2 (by decide)

end Handoff.Design.Rgba
