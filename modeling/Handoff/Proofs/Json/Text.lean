import Handoff.Json.Printer
import Handoff.Json.Reader
import Handoff.Proofs.Decimal.Spelling
import Handoff.Proofs.Json.KeyOrder

set_option autoImplicit false
set_option relaxedAutoImplicit false

/-!
The text of a value is read as the value, however its parts are spaced.
-/

namespace Handoff
namespace Written

section Codes

theorem not_half (c : Char) : isHighHalf c.toNat = false ∧ isLowHalf c.toNat = false := by
  have valid : c.toNat < 0xD800 ∨ (0xDFFF < c.toNat ∧ c.toNat < 0x110000) := c.valid
  simp only [isHighHalf, isLowHalf, Bool.and_eq_false_iff]
  simp only [← Bool.not_eq_true, Nat.ble_eq]
  omega

private theorem numberedCode_small :
    ∀ code < 0x20, ∃ a b c d, numberedCode code = ['\\', 'u', a, b, c, d] ∧ hexCode? a b c d = some code := by
  intro code small
  have all : ∀ n : Fin 0x20, ∃ a b c d, numberedCode n = ['\\', 'u', a, b, c, d] ∧ hexCode? a b c d = some n.val := by
    intro n
    refine ⟨'0', '0', Nat.digitChar (n / 16), Nat.digitChar (n % 16), ?_⟩
    revert n
    decide
  exact all ⟨code, small⟩

private theorem readCodes_escape {e : Char} {code : Nat} (other : e ≠ 'u') (known : escapeCode? e = some code)
    (rest : List Char) :
    readCodes ('\\' :: e :: rest) = (readCodes rest).map fun (codes, rest) => (code :: codes, rest) := by
  rw [readCodes.eq_def]
  simp only [other, known, if_false, if_true, Char.reduceEq]

private theorem readCodes_numbered {a b c d : Char} {code : Nat} (known : hexCode? a b c d = some code)
    (rest : List Char) :
    readCodes ('\\' :: 'u' :: a :: b :: c :: d :: rest) =
      (readCodes rest).map fun (codes, rest) => (code :: codes, rest) := by
  rw [readCodes.eq_def]
  simp only [known, if_false, if_true, Char.reduceEq]

private theorem readCodes_codeChars (c : Char) (rest : List Char) :
    readCodes (codeChars c.toNat ++ rest) = (readCodes rest).map fun (codes, rest) => (c.toNat :: codes, rest) := by
  unfold codeChars
  iterate 7
    split
    · rename_i h
      exact h ▸ readCodes_escape (by decide) rfl rest
  split
  · rename_i special
    have control : c.toNat < 0x20 := by
      rcases special with control | high | low
      · exact control
      · rw [(not_half c).1] at high
        cases high
      · rw [(not_half c).2] at low
        cases low
    obtain ⟨a, b, d, e, digits, code⟩ := numberedCode_small c.toNat control
    rw [digits]
    exact readCodes_numbered code rest
  · rename_i quote slash _ _ _ _ _ plain
    have notQuote : c ≠ '"' := fun same => quote (same ▸ rfl)
    have notSlash : c ≠ '\\' := fun same => slash (same ▸ rfl)
    have above : ¬c.toNat < 0x20 := fun control => plain (.inl control)
    rw [Char.ofNat_toNat, List.singleton_append, readCodes.eq_def]
    simp only [notQuote, notSlash, above, if_false]

theorem readCodes_codesOf (s : String) (rest : List Char) :
    readCodes ((codesOf s).flatMap codeChars ++ '"' :: rest) = some (codesOf s, rest) := by
  unfold codesOf
  induction s.toList with
  | nil =>
    rw [List.map_nil, List.flatMap_nil, List.nil_append, readCodes.eq_def]
    rfl
  | cons c cs ih =>
    rw [List.map_cons, List.flatMap_cons, List.append_assoc, readCodes_codeChars, ih]
    rfl

theorem textOf_codesOf (s : String) : textOf (codesOf s) = some s := by
  have chars (cs : List Char) : charsOf (cs.map Char.toNat) = some cs := by
    induction cs with
    | nil => rfl
    | cons c cs ih =>
      rw [List.map_cons, charsOf.eq_def]
      simp only [(not_half c).1, (not_half c).2, Bool.false_eq_true, if_false, ih, Char.ofNat_toNat, Option.map_some]
  rw [textOf, codesOf, chars, Option.map_some, String.ofList_toList]

end Codes

section Parts

def Blank (cs : List Char) : Prop :=
  ∀ c ∈ cs, isSpace c = true

/-- Nothing but white space stands between parts. -/
structure Spacing.Fine (spacing : Spacing) : Prop where
  line : ∀ depth, Blank (spacing.line depth)
  gap : Blank spacing.gap

theorem Spacing.fine_compact : Spacing.compact.Fine :=
  ⟨fun _ => nofun, nofun⟩

theorem Spacing.fine_pretty : Spacing.pretty.Fine := by
  refine ⟨?_, List.forall_mem_singleton.mpr rfl⟩
  intro depth
  refine List.forall_mem_cons.mpr ⟨rfl, ?_⟩
  intro c member
  rw [List.eq_of_mem_replicate member]
  rfl

private theorem skipSpace_blank {before : List Char} (blank : Blank before) (cs : List Char) :
    skipSpace (before ++ cs) = skipSpace cs := by
  unfold skipSpace
  rw [List.dropWhile_append_of_pos blank]

private theorem skipSpace_cons {c : Char} (solid : isSpace c = false) (cs : List Char) :
    skipSpace (c :: cs) = c :: cs := by
  rw [skipSpace, List.dropWhile_cons, solid]
  rfl

private theorem readValue_blank {before : List Char} (blank : Blank before) (n : Nat) (cs : List Char) :
    readValue n (before ++ cs) = readValue n cs := by
  cases n with
  | zero => simp only [readValue]
  | succ n => rw [readValue, readValue, skipSpace_blank blank]

private theorem stops_cons {c : Char} (other : c.isDigit = false ∧ c ≠ '.' ∧ c ≠ 'e' ∧ c ≠ 'E') (cs : List Char) :
    Numeral.Stops (c :: cs) := by
  intro first head
  exact Option.some.inj head ▸ other

private theorem stops_blank {before : List Char} (blank : Blank before) {rest : List Char}
    (stop : Numeral.Stops rest) : Numeral.Stops (before ++ rest) := by
  cases before with
  | nil => exact stop
  | cons c cs =>
    refine stops_cons ?_ _
    have space := blank c (List.mem_cons_self ..)
    simp only [isSpace, Bool.or_eq_true, decide_eq_true_eq] at space
    rcases space with ((rfl | rfl) | rfl) | rfl <;> decide

private theorem head_chars {n : Numeral} (h : n.Strict) :
    ∃ c cs, n.chars = c :: cs ∧ (c = '-' ∨ c.isDigit = true) := by
  obtain ⟨d, ds, digits⟩ := List.exists_cons_of_ne_nil h.whole.some
  have digit : d.isDigit = true := h.whole.all d (digits ▸ List.mem_cons_self ..)
  unfold Numeral.chars
  rw [digits]
  cases n.negative with
  | true => exact ⟨'-', _, rfl, .inl rfl⟩
  | false => exact ⟨d, _, rfl, .inr digit⟩

private def marks : List Char :=
  [' ', '\n', '\t', '\r', 'n', 't', 'f', '"', '[', ']', '\x7b']

private theorem not_mark {c : Char} (lead : c = '-' ∨ c.isDigit = true) : ∀ mark ∈ marks, c ≠ mark := by
  intro mark member
  rcases lead with rfl | digit
  · revert mark
    simp [marks]
  · have none : ∀ mark ∈ marks, mark.isDigit = false := by simp [marks]
    rintro rfl
    rw [none c member] at digit
    cases digit

private theorem solid_of_lead {c : Char} (lead : c = '-' ∨ c.isDigit = true) : isSpace c = false := by
  have other := not_mark lead
  simp only [marks, List.forall_mem_cons] at other
  simp [isSpace, other]

private theorem readValue_number {n : Numeral} (h : n.Strict) {rest : List Char} (stop : Numeral.Stops rest)
    (steps : Nat) : readValue (steps + 1) (n.chars ++ rest) = some (.number n, rest) := by
  have reads := Numeral.read_chars h stop
  obtain ⟨c, cs, form, lead⟩ := head_chars h
  rw [form, List.cons_append] at reads ⊢
  rw [readValue, skipSpace_cons (solid_of_lead lead)]
  split
  iterate 6
    · rename_i same
      exact absurd (List.cons.inj same).1 (not_mark lead _ (by decide))
  · rw [reads]
    rfl

private theorem textChars_append (s : String) (rest : List Char) :
    textChars (codesOf s) ++ rest = '"' :: ((codesOf s).flatMap codeChars ++ '"' :: rest) := by
  simp only [textChars, List.cons_append, List.append_assoc, List.nil_append]

end Parts

mutual

/-- Numbers in the strict form, and texts and keys without half pairs. -/
def Spelled : Written → Prop
  | .number n => n.Strict
  | .text codes => ∃ s, codes = codesOf s
  | .array items => SpelledItems items
  | .object members => SpelledMembers members
  | _ => True

def SpelledItems : List Written → Prop
  | [] => True
  | w :: ws => w.Spelled ∧ SpelledItems ws

def SpelledMembers : List (List Nat × Written) → Prop
  | [] => True
  | (codes, w) :: ws => (∃ s, codes = codesOf s) ∧ w.Spelled ∧ SpelledMembers ws

end

section Reading

variable {spacing : Spacing}

private theorem stops_itemChars (fine : spacing.Fine) (depth outer : Nat) (ws : List Written) (rest : List Char) :
    Numeral.Stops (itemChars spacing depth ws ++ (spacing.line outer ++ ']' :: rest)) := by
  cases ws with
  | nil => exact stops_blank (fine.line outer) (stops_cons (by decide) rest)
  | cons w ws => exact stops_cons (by decide) _

private theorem stops_memberChars (fine : spacing.Fine) (depth outer : Nat) (ws : List (List Nat × Written))
    (rest : List Char) :
    Numeral.Stops (memberChars spacing depth ws ++ (spacing.line outer ++ '\x7d' :: rest)) := by
  cases ws with
  | nil => exact stops_blank (fine.line outer) (stops_cons (by decide) rest)
  | cons w ws => exact stops_cons (by decide) _

private theorem readItems_blank {before : List Char} (blank : Blank before) (n : Nat) (cs : List Char) :
    readItems n (before ++ cs) = readItems n cs := by
  cases n with
  | zero => simp only [readItems]
  | succ n => rw [readItems, readItems, readValue_blank blank]

private theorem readMembers_blank {before : List Char} (blank : Blank before) (n : Nat) (cs : List Char) :
    readMembers n (before ++ cs) = readMembers n cs := by
  cases n with
  | zero => simp only [readMembers]
  | succ n => rw [readMembers, readMembers, skipSpace_blank blank]

private theorem head_value (spacing : Spacing) (depth : Nat) {w : Written} (spelled : w.Spelled) :
    ∃ c cs, w.chars spacing depth = c :: cs ∧ isSpace c = false ∧ c ≠ ']' := by
  match w with
  | .null => exact ⟨'n', _, rfl, rfl, by decide⟩
  | .bool true => exact ⟨'t', _, rfl, rfl, by decide⟩
  | .bool false => exact ⟨'f', _, rfl, rfl, by decide⟩
  | .number n =>
    obtain ⟨c, cs, form, lead⟩ := head_chars spelled
    exact ⟨c, cs, form, solid_of_lead lead, not_mark lead _ (by decide)⟩
  | .text codes => exact ⟨'"', _, rfl, rfl, by decide⟩
  | .array [] => exact ⟨'[', _, rfl, rfl, by decide⟩
  | .array (w :: ws) => exact ⟨'[', _, rfl, rfl, by decide⟩
  | .object [] => exact ⟨'\x7b', _, rfl, rfl, by decide⟩
  | .object (m :: ms) => exact ⟨'\x7b', _, rfl, rfl, by decide⟩

private theorem readValue_array (fine : spacing.Fine) (depth : Nat) {w : Written} {ws : List Written}
    (spelled : w.Spelled) {m : Nat} {rest : List Char}
    (items : readItems m (w.chars spacing (depth + 1) ++ (itemChars spacing (depth + 1) ws ++
      (spacing.line depth ++ ']' :: rest))) = some (w :: ws, rest)) :
    readValue (m + 1) ((Written.array (w :: ws)).chars spacing depth ++ rest) = some (.array (w :: ws), rest) := by
  obtain ⟨c, cs, form, solid, inside⟩ := head_value spacing (depth + 1) spelled
  have whole : (Written.array (w :: ws)).chars spacing depth ++ rest =
      '[' :: (spacing.line (depth + 1) ++ (w.chars spacing (depth + 1) ++
        (itemChars spacing (depth + 1) ws ++ (spacing.line depth ++ ']' :: rest)))) := by
    simp only [chars, List.cons_append, List.append_assoc, List.nil_append]
  rw [whole, readValue, skipSpace_cons rfl]
  rw [form, List.cons_append] at items ⊢
  simp only [skipSpace_blank (fine.line (depth + 1)), skipSpace_cons solid]
  split
  · rename_i same
    exact absurd (List.cons.inj same).1 inside
  · rw [items]
    rfl

private theorem readValue_object (fine : spacing.Fine) (depth : Nat) (s : String) {w : Written}
    {ms : List (List Nat × Written)} {m : Nat} {rest : List Char}
    (members : readMembers m (textChars (codesOf s) ++ (':' :: (spacing.gap ++ (w.chars spacing (depth + 1) ++
      (memberChars spacing (depth + 1) ms ++ (spacing.line depth ++ '\x7d' :: rest)))))) =
        some ((codesOf s, w) :: ms, rest)) :
    readValue (m + 1) ((Written.object ((codesOf s, w) :: ms)).chars spacing depth ++ rest) =
      some (.object ((codesOf s, w) :: ms), rest) := by
  have whole : (Written.object ((codesOf s, w) :: ms)).chars spacing depth ++ rest =
      '\x7b' :: (spacing.line (depth + 1) ++ (textChars (codesOf s) ++ (':' :: (spacing.gap ++
        (w.chars spacing (depth + 1) ++ (memberChars spacing (depth + 1) ms ++
          (spacing.line depth ++ '\x7d' :: rest))))))) := by
    simp only [chars, List.cons_append, List.append_assoc, List.nil_append]
  rw [textChars_append] at members
  rw [whole, readValue, skipSpace_cons rfl]
  simp only [skipSpace_blank (fine.line (depth + 1)), textChars_append, skipSpace_cons (c := '"') rfl]
  split
  · rename_i same
    exact absurd (List.cons.inj same).1 (by decide)
  · rw [members]
    rfl

mutual

theorem readValue_chars (fine : spacing.Fine) (depth : Nat) (w : Written) (spelled : w.Spelled) (n : Nat)
    (steps : 2 * (w.chars spacing depth).length ≤ n) (rest : List Char) (stop : Numeral.Stops rest) :
    readValue n (w.chars spacing depth ++ rest) = some (w, rest) := by
  -- Each character pays for two steps: one of the value that it belongs to, one of the list around that.
  obtain ⟨m, rfl⟩ : ∃ m, n = m + 1 := by
    obtain ⟨c, cs, form, -⟩ := head_value spacing depth spelled
    rw [form, List.length_cons] at steps
    exact ⟨n - 1, by omega⟩
  match w with
  | .null =>
    change readValue (m + 1) ('n' :: 'u' :: 'l' :: 'l' :: rest) = _
    rw [readValue, skipSpace_cons rfl]
    rfl
  | .bool true =>
    change readValue (m + 1) ('t' :: 'r' :: 'u' :: 'e' :: rest) = _
    rw [readValue, skipSpace_cons rfl]
    rfl
  | .bool false =>
    change readValue (m + 1) ('f' :: 'a' :: 'l' :: 's' :: 'e' :: rest) = _
    rw [readValue, skipSpace_cons rfl]
    rfl
  | .number n => exact readValue_number spelled stop m
  | .text codes =>
    obtain ⟨s, rfl⟩ := spelled
    rw [chars, textChars_append, readValue, skipSpace_cons rfl]
    simp only [readCodes_codesOf, Option.map_some]
  | .array [] =>
    change readValue (m + 1) ('[' :: ']' :: rest) = _
    rw [readValue, skipSpace_cons rfl]
    simp only [skipSpace_cons (c := ']') rfl]
  | .array (w :: ws) =>
    have length : 2 * (w.chars spacing (depth + 1) ++ itemChars spacing (depth + 1) ws).length < m := by
      simp only [chars, List.cons_append, List.length_cons, List.length_append, List.length_nil] at steps ⊢
      omega
    exact readValue_array fine depth spelled.1
      (readItems_chars fine (depth + 1) depth (w :: ws) spelled w ws rfl m length rest)
  | .object [] =>
    change readValue (m + 1) ('\x7b' :: '\x7d' :: rest) = _
    rw [readValue, skipSpace_cons rfl]
    simp only [skipSpace_cons (c := '\x7d') rfl]
  | .object ((codes, w) :: ms) =>
    have length : 2 * (textChars codes ++ w.chars spacing (depth + 1) ++ memberChars spacing (depth + 1) ms).length < m := by
      simp only [chars, List.cons_append, List.length_cons, List.length_append, List.length_nil] at steps ⊢
      omega
    have members := readMembers_chars fine (depth + 1) depth ((codes, w) :: ms) spelled codes w ms rfl m length rest
    obtain ⟨s, rfl⟩ := spelled.1
    exact readValue_object fine depth s members

private theorem readItems_chars (fine : spacing.Fine) (depth outer : Nat) (items : List Written)
    (spelled : SpelledItems items) (w : Written) (ws : List Written) (form : items = w :: ws) (n : Nat)
    (steps : 2 * (w.chars spacing depth ++ itemChars spacing depth ws).length < n) (rest : List Char) :
    readItems n (w.chars spacing depth ++ (itemChars spacing depth ws ++ (spacing.line outer ++ ']' :: rest))) =
      some (items, rest) := by
  obtain ⟨m, rfl⟩ : ∃ m, n = m + 1 := ⟨n - 1, by omega⟩
  rw [List.length_append] at steps
  match items with
  | [] => cases form
  | [w] =>
    obtain ⟨rfl, rfl⟩ := List.cons.inj form
    have stop := stops_itemChars fine depth outer [] rest
    rw [readItems, readValue_chars fine depth w spelled.1 m (by omega) _ stop]
    simp only [itemChars, List.nil_append, skipSpace_blank (fine.line outer), skipSpace_cons (c := ']') rfl]
  | w :: w' :: ws =>
    obtain ⟨rfl, rfl⟩ := List.cons.inj form
    have stop := stops_itemChars fine depth outer (w' :: ws) rest
    have length : 2 * (w'.chars spacing depth ++ itemChars spacing depth ws).length < m := by
      simp only [itemChars, List.cons_append, List.length_cons, List.length_append] at steps ⊢
      omega
    have later := readItems_chars fine depth outer (w' :: ws) spelled.2 w' ws rfl m length rest
    rw [readItems, readValue_chars fine depth w spelled.1 m (by omega) _ stop]
    simp only [itemChars, List.cons_append, List.append_assoc, skipSpace_cons (c := ',') rfl,
      readItems_blank (fine.line depth), later, Option.map_some]

private theorem readMembers_chars (fine : spacing.Fine) (depth outer : Nat) (members : List (List Nat × Written))
    (spelled : SpelledMembers members) (codes : List Nat) (w : Written) (ms : List (List Nat × Written))
    (form : members = (codes, w) :: ms) (n : Nat)
    (steps : 2 * (textChars codes ++ w.chars spacing depth ++ memberChars spacing depth ms).length < n)
    (rest : List Char) :
    readMembers n (textChars codes ++ (':' :: (spacing.gap ++ (w.chars spacing depth ++
      (memberChars spacing depth ms ++ (spacing.line outer ++ '\x7d' :: rest)))))) = some (members, rest) := by
  obtain ⟨m, rfl⟩ : ∃ m, n = m + 1 := ⟨n - 1, by omega⟩
  rw [List.length_append, List.length_append] at steps
  match members with
  | [] => cases form
  | [(codes, w)] =>
    obtain ⟨⟨s, rfl⟩, here, -⟩ := spelled
    obtain ⟨same, rfl⟩ := List.cons.inj form
    obtain ⟨rfl, rfl⟩ := Prod.mk.inj same
    have stop := stops_memberChars fine depth outer [] rest
    have value := readValue_chars fine depth w here m (by omega) _ stop
    rw [textChars_append, readMembers, skipSpace_cons rfl]
    simp only [readCodes_codesOf, skipSpace_cons (c := ':') rfl, readValue_blank fine.gap, value]
    simp only [memberChars, List.nil_append, skipSpace_blank (fine.line outer), skipSpace_cons (c := '\x7d') rfl]
  | (codes, w) :: (codes', w') :: ms =>
    obtain ⟨⟨s, rfl⟩, here, below⟩ := spelled
    obtain ⟨same, rfl⟩ := List.cons.inj form
    obtain ⟨rfl, rfl⟩ := Prod.mk.inj same
    have stop := stops_memberChars fine depth outer ((codes', w') :: ms) rest
    have length : 2 * (textChars codes' ++ w'.chars spacing depth ++ memberChars spacing depth ms).length < m := by
      simp only [memberChars, List.cons_append, List.length_cons, List.length_append] at steps ⊢
      omega
    have later := readMembers_chars fine depth outer ((codes', w') :: ms) below codes' w' ms rfl m length rest
    have value := readValue_chars fine depth w here m (by omega) _ stop
    rw [textChars_append, readMembers, skipSpace_cons rfl]
    simp only [readCodes_codesOf, skipSpace_cons (c := ':') rfl, readValue_blank fine.gap, value]
    simp only [memberChars, List.cons_append, List.append_assoc, skipSpace_cons (c := ',') rfl,
      readMembers_blank (fine.line depth), later, Option.map_some]

end

/-- A written value is what its text is read as, whatever white space stands after it. -/
theorem read_chars_append (fine : spacing.Fine) {w : Written} (spelled : w.Spelled) {after : List Char}
    (blank : Blank after) :
    read (String.ofList (w.chars spacing 0 ++ after)) = some w := by
  have stop := stops_blank blank Numeral.stops_nil
  have none := skipSpace_blank blank []
  rw [List.append_nil] at stop none
  have value := readValue_chars fine 0 w spelled (2 * (w.chars spacing 0 ++ after).length + 2)
    (by rw [List.length_append]; omega) after stop
  unfold read
  simp only [String.toList_ofList, value, none]
  rfl

theorem read_chars (fine : spacing.Fine) {w : Written} (spelled : w.Spelled) :
    read (String.ofList (w.chars spacing 0)) = some w := by
  have blank : Blank [] := nofun
  have whole := read_chars_append fine spelled blank
  rwa [List.append_nil] at whole

end Reading

end Written
end Handoff
