import Handoff.Proofs.Design.Inversion
import Handoff.Proofs.Design.KeyOrder

set_option autoImplicit false
set_option relaxedAutoImplicit false

/-!
The grammar of designs: which values are read as designs, said by their shapes and not by how they are read.

`Fits` says that a value has a shape. A value without repeated keys is read as a node, or as a design, exactly when
it has that shape.
-/

namespace Handoff.Design

/-- What may stand at a place in a document. -/
inductive Shape where
  | text
  | number
  | flag
  /-- A whole number of 32 bits without a sign. -/
  | word
  | choice (words : List String)
  /-- What may also be null. -/
  | optional (shape : Shape)
  | either (first second : Shape)
  | list (item : Shape)
  | tuple (count : Nat) (item : Shape)
  /-- An object that has the required keys, and in which these fields have these shapes. Other members are free. -/
  | record (required : List String) (fields : List (String × Shape))
  | node

abbrev Shape.Fields := List (String × Shape)

namespace Shape

def pair (first second : String) : Shape :=
  .either (.tuple 2 .number) (.record [first, second] [(first, .number), (second, .number)])

def padding : Shape :=
  .either .number (.record [] [("top", .number), ("right", .number), ("bottom", .number), ("left", .number)])

def weight : Shape :=
  .either .number .text

def align : Shape :=
  .choice ["flex-start", "start", "center", "end", "flex-end", "stretch"]

def justify : Shape :=
  .choice ["flex-start", "start", "center", "end", "flex-end", "between", "space-between", "around", "space-around",
    "evenly", "space-evenly"]

def headerFields : Fields :=
  [("id", .text), ("name", .optional .text), ("position", .optional (pair "x" "y")),
    ("size", .optional (pair "width" "height")), ("opacity", .optional .number)]

def panelFields : Fields :=
  [("children", .list .node), ("background", .optional .text), ("padding", .optional padding),
    ("radius", .optional .number)]

def stackFields : Fields :=
  [("direction", .choice ["row", "column"]), ("gap", .optional .number), ("align", .optional align),
    ("justify", .optional justify), ("background", .optional .text), ("padding", .optional padding),
    ("children", .list .node)]

def gridFields : Fields :=
  [("columns", .word), ("gap", .optional .number), ("background", .optional .text), ("padding", .optional padding),
    ("children", .list .node)]

def rectFields : Fields :=
  [("fill", .optional .text), ("stroke", .optional .text), ("strokeWidth", .optional .number),
    ("radius", .optional .number)]

def ellipseFields : Fields :=
  [("fill", .optional .text), ("stroke", .optional .text), ("strokeWidth", .optional .number)]

def labelFields : Fields :=
  [("text", .text), ("color", .optional .text), ("fontFamily", .optional .text), ("fontSize", .optional .number),
    ("fontWeight", .optional weight), ("fontStyle", .optional (.choice ["normal", "italic", "oblique"])),
    ("align", .optional (.choice ["left", "center", "right", "justify"])),
    ("variant", .optional (.choice ["h1", "h2", "h3", "body", "caption"]))]

def imageFields : Fields :=
  [("src", .text), ("alt", .optional .text), ("radius", .optional .number),
    ("objectFit", .optional (.choice ["cover", "contain", "fill", "none", "scale-down"]))]

def lineFields : Fields :=
  [("points", .tuple 4 .number), ("stroke", .optional .text), ("strokeWidth", .optional .number)]

def pathFields : Fields :=
  [("points", .list .number), ("closed", .flag), ("fill", .optional .text), ("stroke", .optional .text),
    ("strokeWidth", .optional .number)]

/-- The attributes of the nodes of a type. A type that is none of the known ones leaves all of them free. -/
def fieldsOf (type : String) : Fields :=
  match type with
  | "frame" | "box" | "group" => panelFields
  | "stack" => stackFields
  | "grid" => gridFields
  | "rect" => rectFields
  | "ellipse" => ellipseFields
  | "text" => labelFields
  | "image" => imageFields
  | "line" => lineFields
  | "curve" | "polygon" | "draw" => pathFields
  | _ => []

/-- The attributes that the nodes of a type are written with even where they were not given. -/
def alwaysWritten (type : String) : List String :=
  match type with
  | "stack" => ["direction"]
  | "grid" => ["columns"]
  | "text" => ["text"]
  | "image" => ["src"]
  | "line" | "curve" | "polygon" | "draw" => ["points"]
  | _ => []

/-- A design: an object with a root. -/
def tree : Shape :=
  .record ["root"] [("version", .optional .text), ("name", .optional .text), ("root", .node)]

end Shape

/-- A value has a shape. -/
inductive Fits : Shape → Json → Prop
  | text (s : String) : Fits .text (.string s)
  | whole (n : Int) : Fits .number (.int n)
  | number (x : Float) : Fits .number (.float x)
  | flag (b : Bool) : Fits .flag (.bool b)
  | word (n : Int) : 0 ≤ n → n < 4294967296 → Fits .word (.int n)
  | choice {words : List String} {word : String} : word ∈ words → Fits (.choice words) (.string word)
  /-- A word may also be the key of a single member without a value. -/
  | choiceKey {words : List String} {word : String} : word ∈ words → Fits (.choice words) (.object [(word, .null)])
  | null {shape : Shape} : Fits (.optional shape) .null
  | some {shape : Shape} {v : Json} : Fits shape v → Fits (.optional shape) v
  | first {shape other : Shape} {v : Json} : Fits shape v → Fits (.either shape other) v
  | second {shape other : Shape} {v : Json} : Fits other v → Fits (.either shape other) v
  | list {item : Shape} {items : List Json} : (∀ v ∈ items, Fits item v) → Fits (.list item) (.array items)
  | tuple {count : Nat} {item : Shape} {items : List Json} : items.length = count → (∀ v ∈ items, Fits item v) →
      Fits (.tuple count item) (.array items)
  | record {required : List String} {fields : Shape.Fields} {members : Members} :
      (∀ key ∈ required, ∃ v, members.lookup key = some v) →
      (∀ field ∈ fields, ∀ v, members.lookup field.1 = some v → Fits field.2 v) →
      Fits (.record required fields) (.object members)
  /-- A node has an id and a type, and what it has of the attributes of its type has their shapes. -/
  | node {type : String} {members : Members} : members.lookup "type" = some (.string type) →
      Fits (.record ["id"] (Shape.headerFields ++ Shape.fieldsOf type)) (.object members) →
      Fits .node (.object members)

section Inversion

variable {shape other item : Shape} {v : Json}

theorem fits_optional_iff : Fits (.optional shape) v ↔ v = .null ∨ Fits shape v := by
  constructor
  · intro fits
    cases fits with
    | null => exact .inl rfl
    | some fits => exact .inr fits
  · rintro (rfl | fits)
    · exact .null
    · exact .some fits

theorem fits_either_iff : Fits (.either shape other) v ↔ Fits shape v ∨ Fits other v := by
  constructor
  · intro fits
    cases fits with
    | first fits => exact .inl fits
    | second fits => exact .inr fits
  · rintro (fits | fits)
    · exact .first fits
    · exact .second fits

theorem fits_list_iff {items : List Json} : Fits (.list item) (.array items) ↔ ∀ v ∈ items, Fits item v := by
  constructor
  · rintro ⟨⟩
    assumption
  · exact .list

theorem fits_tuple_iff {count : Nat} {items : List Json} :
    Fits (.tuple count item) (.array items) ↔ items.length = count ∧ ∀ v ∈ items, Fits item v := by
  constructor
  · rintro ⟨⟩
    exact ⟨by assumption, by assumption⟩
  · rintro ⟨length, all⟩
    exact .tuple length all

theorem fits_record_iff {required : List String} {fields : Shape.Fields} {members : Members} :
    Fits (.record required fields) (.object members) ↔
      (∀ key ∈ required, ∃ v, members.lookup key = some v) ∧
        ∀ field ∈ fields, ∀ v, members.lookup field.1 = some v → Fits field.2 v := by
  constructor
  · rintro ⟨⟩
    exact ⟨by assumption, by assumption⟩
  · rintro ⟨required, fields⟩
    exact .record required fields

theorem fits_record_append {required : List String} {first second : Shape.Fields} {members : Members} :
    Fits (.record required (first ++ second)) (.object members) ↔
      Fits (.record required first) (.object members) ∧ Fits (.record [] second) (.object members) := by
  simp only [fits_record_iff, List.forall_mem_append, List.not_mem_nil, false_implies, implies_true, true_and,
    and_assoc]

/-- Members that do not belong to the attributes of a record may be left out. -/
theorem fits_record_congr {fields : Shape.Fields} {members others : Members}
    (same : ∀ field ∈ fields, members.lookup field.1 = others.lookup field.1) :
    Fits (.record [] fields) (.object members) ↔ Fits (.record [] fields) (.object others) := by
  rw [fits_record_iff, fits_record_iff]
  refine and_congr (iff_of_true nofun nofun) (forall₂_congr fun field member => ?_)
  rw [same field member]

end Inversion

def Takes {α : Type} (read : Reader α) (shape : Shape) : Prop :=
  ∀ v, v.Sound → ((∃ a, read v = .ok a) ↔ Fits shape v)

/-- Among these members, a check finds no fault in its field exactly when the value there has the shape. -/
structure Check.Judges (members : Members) (check : Check) (field : String × Shape) : Prop where
  key : check.1 = field.1
  fault : ∀ v, members.lookup field.1 = some v → (check.2 v = none ↔ Fits field.2 v)

@[simp]
theorem Field.judges_check {α : Type} {key : String} {read : Reader α} {shape : Shape} {members : Members}
    (takes : Takes read shape) (sound : (Json.object members).Sound) :
    Check.Judges members (Field.check ⟨key, read⟩) (key, shape) := by
  refine ⟨rfl, ?_⟩
  intro v found
  exact Field.faultOf_eq_none.trans (takes v (sound.of_lookup found))

/-- The checks of a record's fields find no fault exactly when every field that the object has is of its shape. -/
private theorem firstFault_judges {checks : List Check} {fields : Shape.Fields} {members : Members}
    (distinct : (members.map Prod.fst).Nodup) (apart : (fields.map Prod.fst).Nodup)
    (judges : List.Forall₂ (Check.Judges members) checks fields) :
    firstFault checks members = none ↔
      ∀ field ∈ fields, ∀ v, members.lookup field.1 = some v → Fits field.2 v := by
  -- A key is checked where its field stands in the shape, and no field after that has the key.
  have looked (key : String) (v : Json) (found : members.lookup key = some v) :
      ((checks.lookup key).bind fun check => check v) = none ↔ ∀ field ∈ fields, field.1 = key → Fits field.2 v := by
    induction judges with
    | nil => simp
    | @cons check field checks fields first _ ih =>
      rw [List.map_cons, List.nodup_cons] at apart
      rw [List.lookup_cons, first.key, List.forall_mem_cons]
      by_cases here : key = field.1
      · subst here
        have others : ∀ other ∈ fields, other.1 = field.1 → Fits other.2 v :=
          fun other member same => absurd (List.mem_map.mpr ⟨other, member, same⟩) apart.1
        rw [beq_self_eq_true]
        exact (first.fault v found).trans ⟨fun fits => ⟨fun _ => fits, others⟩, fun all => all.1 rfl⟩
      · rw [beq_false_of_ne here]
        exact (ih apart.2).trans ⟨fun all => ⟨fun same => absurd same.symm here, all⟩, And.right⟩
  rw [firstFault_eq_none]
  constructor
  · intro none field member v found
    exact (looked field.1 v found).mp (none _ (Entries.mem_of_lookup found)) field member rfl
  · intro all entry member
    have found := Entries.lookup_of_mem distinct member
    exact (looked entry.1 entry.2 found).mpr fun field belongs same => all field belongs entry.2 (same ▸ found)

/-- An object is a record exactly when it has the required fields and all its fields are of their shapes. -/
theorem Record.decode_ok_iff {α : Type} {record : Record α} {fields : Shape.Fields} {members : Members}
    (sound : (Json.object members).Sound) (apart : (fields.map Prod.fst).Nodup)
    (judges : List.Forall₂ (Check.Judges members) record.checks fields) :
    (∃ a, record.decode members = .ok a) ↔ Fits (.record record.required fields) (.object members) := by
  rw [fits_record_iff, ← firstFault_judges sound.distinct apart judges, ← firstMissing_eq_none]
  constructor
  · rintro ⟨a, read⟩
    have parts := Record.decode_eq_ok.mp read
    exact ⟨parts.2.1, parts.1⟩
  · rintro ⟨missing, fault⟩
    exact ⟨_, Record.decode_eq_ok.mpr ⟨fault, missing, rfl⟩⟩

section Readers

variable {α : Type}

private theorem not_ok {ε : Type} {fault : ε} : ¬ ∃ a, (Except.error fault : Except ε α) = .ok a := by
  rintro ⟨_, ⟨⟩⟩

@[simp]
theorem takes_text : Takes readText .text := by
  intro v _
  cases v with
  | string s => exact iff_of_true ⟨s, rfl⟩ (.text s)
  | null | bool _ | int _ | float _ | array _ | object _ => exact iff_of_false nofun nofun

@[simp]
theorem takes_number : Takes readNumber .number := by
  intro v _
  cases v with
  | int n => exact iff_of_true ⟨_, rfl⟩ (.whole n)
  | float x => exact iff_of_true ⟨x, rfl⟩ (.number x)
  | null | bool _ | string _ | array _ | object _ => exact iff_of_false nofun nofun

@[simp]
theorem takes_flag : Takes readFlag .flag := by
  intro v _
  cases v with
  | bool b => exact iff_of_true ⟨b, rfl⟩ (.flag b)
  | null | int _ | float _ | string _ | array _ | object _ => exact iff_of_false nofun nofun

@[simp]
theorem takes_word : Takes readWord .word := by
  intro v _
  cases v with
  | int n =>
    rw [readWord]
    constructor
    · rintro ⟨a, read⟩
      split at read
      · rename_i range
        rw [UInt32.size] at range
        exact .word n range.1 (by omega)
      · cases read
    · rintro ⟨⟩
      rw [if_pos ⟨by assumption, by rw [UInt32.size]; omega⟩]
      exact ⟨_, rfl⟩
  | null | bool _ | float _ | string _ | array _ | object _ => exact iff_of_false nofun nofun

private theorem readWordOf_ok_iff {words : List (String × α)} {word : String} :
    (∃ a, readWordOf words word = .ok a) ↔ word ∈ words.map Prod.fst := by
  unfold readWordOf
  cases found : words.lookup word with
  | none => exact iff_of_false nofun (Entries.lookup_eq_none_iff.mp found)
  | some a => exact iff_of_true ⟨a, rfl⟩ (List.mem_map_of_mem (Entries.mem_of_lookup found))

@[simp]
theorem takes_choice {words : List (String × α)} {names : List String} (same : words.map Prod.fst = names) :
    Takes (readChoice words) (.choice names) := by
  intro v _
  subst same
  cases v with
  | null | bool _ | int _ | float _ | array _ => exact iff_of_false not_ok (by rintro ⟨⟩)
  | string word =>
    refine Iff.trans readWordOf_ok_iff ⟨.choice, ?_⟩
    rintro ⟨⟩
    assumption
  | object members =>
    rcases members with _ | ⟨⟨word, v⟩, _ | ⟨other, rest⟩⟩
    · exact iff_of_false not_ok (by rintro ⟨⟩)
    · have known := @readWordOf_ok_iff _ words word
      cases found : readWordOf words word with
      | error fault =>
        rw [found] at known
        simp only [readChoice, found]
        refine iff_of_false not_ok ?_
        rintro ⟨⟩
        exact not_ok (known.mpr (by assumption))
      | ok a =>
        rw [found] at known
        have member := known.mp ⟨a, rfl⟩
        cases v with
        | null =>
          simp only [readChoice, found]
          exact iff_of_true ⟨a, rfl⟩ (.choiceKey member)
        | bool _ | int _ | float _ | string _ | array _ | object _ =>
          simp only [readChoice, found]
          exact iff_of_false not_ok (by rintro ⟨⟩)
    · exact iff_of_false not_ok (by rintro ⟨⟩)

@[simp]
theorem takes_optional {read : Reader α} {shape : Shape} (takes : Takes read shape) :
    Takes (readOptional read) (.optional shape) := by
  intro v sound
  rw [fits_optional_iff, ← takes v sound]
  have mapped : (∃ a, (read v).map some = .ok a) ↔ ∃ a, read v = .ok a := by
    cases read v <;> simp [Except.map]
  cases v with
  | null => exact iff_of_true ⟨none, rfl⟩ (.inl rfl)
  | bool _ | int _ | float _ | string _ | array _ | object _ => simpa [readOptional] using mapped

@[simp]
theorem takes_optional_choice {words : List (String × α)} {names : List String} (same : words.map Prod.fst = names) :
    Takes (readOptional (readChoice words)) (.optional (.choice names)) :=
  takes_optional (takes_choice same)

private theorem readEach_ok_iff {read : Reader α} {shape : Shape} (takes : Takes read shape) {items : List Json}
    (sound : ∀ v ∈ items, v.Sound) : (∃ as, readEach read items = .ok as) ↔ ∀ v ∈ items, Fits shape v := by
  induction items with
  | nil => exact iff_of_true ⟨[], rfl⟩ (by simp)
  | cons v vs ih =>
    rw [List.forall_mem_cons] at sound
    rw [List.forall_mem_cons, ← takes v sound.1, ← ih sound.2, readEach]
    cases read v with
    | error fault => simp
    | ok a => cases readEach read vs <;> simp

@[simp]
theorem takes_numbers : Takes readNumbers (.list .number) := by
  intro v sound
  cases v with
  | array items => exact (readEach_ok_iff takes_number (Json.soundItems_iff.mp sound)).trans fits_list_iff.symm
  | null | bool _ | int _ | float _ | string _ | object _ => exact iff_of_false nofun nofun

private theorem length_of_readEach {read : Reader α} {items : List Json} {as : List α}
    (h : readEach read items = .ok as) : as.length = items.length := by
  induction items generalizing as with
  | nil =>
    cases h
    rfl
  | cons v vs ih =>
    rw [readEach] at h
    cases first : read v with
    | error fault =>
      rw [first] at h
      cases h
    | ok a =>
      rw [first] at h
      cases rest : readEach read vs with
      | error fault =>
        rw [rest] at h
        cases h
      | ok tail =>
        rw [rest] at h
        cases h
        rw [List.length_cons, List.length_cons, ih rest]

private theorem readTuple_ok_iff {count : Nat} {expected : Expected} {items : List Json}
    (sound : ∀ v ∈ items, v.Sound) :
    (∃ xs, readTuple count expected items = .ok xs) ↔ Fits (.tuple count .number) (.array items) := by
  have each := readEach_ok_iff takes_number fun v (member : v ∈ items.take count) =>
    sound v (List.mem_of_mem_take member)
  rw [fits_tuple_iff, readTuple]
  by_cases exact : items.length = count
  · rw [← exact, List.take_length] at each ⊢
    rw [← each]
    cases readEach readNumber items <;> simp
  · refine iff_of_false ?_ fun fits => exact fits.1
    cases readEach readNumber (items.take count) with
    | error fault => exact not_ok
    | ok xs =>
      rcases Nat.lt_or_gt_of_ne exact with short | long
      · simp [short]
      · simp [long, Nat.not_lt.mpr (Nat.le_of_lt long)]

private theorem length_of_readTuple {count : Nat} {expected : Expected} {items : List Json} {xs : List Float}
    (h : readTuple count expected items = .ok xs) : xs.length = count := by
  rw [readTuple] at h
  cases each : readEach readNumber (items.take count) with
  | error fault =>
    rw [each] at h
    cases h
  | ok ys =>
    have length := length_of_readEach each
    rw [List.length_take] at length
    simp only [each] at h
    split at h
    · cases h
    · split at h
      · cases h
      · cases h
        omega

theorem takes_pair {first second : String} (apart : first ≠ second) (expected : Expected)
    (build : Float → Float → α) : Takes (readPair first second expected build) (.pair first second) := by
  intro v sound
  rw [Shape.pair, fits_either_iff]
  cases v with
  | null | bool _ | int _ | float _ | string _ =>
    exact iff_of_false not_ok (not_or.mpr ⟨by rintro ⟨⟩, by rintro ⟨⟩⟩)
  | array items =>
    have tuple := @readTuple_ok_iff 2 expected items (Json.soundItems_iff.mp sound)
    rw [readPair]
    refine Iff.trans ?_ (or_iff_left_of_imp (by rintro ⟨⟩)).symm
    rw [← tuple]
    cases read : readTuple 2 expected items with
    | error fault => exact iff_of_false not_ok not_ok
    | ok xs =>
      obtain ⟨x, y, rfl⟩ := List.length_eq_two.mp (length_of_readTuple read)
      exact iff_of_true ⟨_, rfl⟩ ⟨_, rfl⟩
  | object members =>
    refine Iff.trans ?_ (or_iff_right_of_imp (by rintro ⟨⟩)).symm
    exact Record.decode_ok_iff sound (by simp [apart]) (by simp [sound])

@[simp]
theorem takes_point : Takes readPoint (.pair "x" "y") :=
  takes_pair (by decide) .point Point.mk

@[simp]
theorem takes_size : Takes readSize (.pair "width" "height") :=
  takes_pair (by decide) .size Size.mk

@[simp]
theorem takes_segment : Takes readSegment (.tuple 4 .number) := by
  intro v sound
  cases v with
  | null | bool _ | int _ | float _ | string _ | object _ => exact iff_of_false not_ok (by rintro ⟨⟩)
  | array items =>
    rw [readSegment, ← @readTuple_ok_iff 4 .fourNumbers items (Json.soundItems_iff.mp sound)]
    cases read : readTuple 4 .fourNumbers items with
    | error fault => exact iff_of_false not_ok not_ok
    | ok xs =>
      obtain ⟨x1, y1, x2, y2, rfl⟩ := List.length_eq_four.mp (length_of_readTuple read)
      exact iff_of_true ⟨_, rfl⟩ ⟨_, rfl⟩

@[simp]
theorem takes_fontWeight : Takes readFontWeight .weight := by
  intro v _
  rw [Shape.weight, fits_either_iff]
  cases v with
  | int n => exact iff_of_true ⟨_, rfl⟩ (.inl (.whole n))
  | float x => exact iff_of_true ⟨_, rfl⟩ (.inl (.number x))
  | string s => exact iff_of_true ⟨_, rfl⟩ (.inr (.text s))
  | null | bool _ | array _ | object _ => exact iff_of_false nofun (not_or.mpr ⟨nofun, nofun⟩)

@[simp]
theorem takes_padding : Takes readPadding .padding := by
  intro v sound
  rw [Shape.padding, fits_either_iff]
  cases v with
  | int n => exact iff_of_true ⟨_, rfl⟩ (.inl (.whole n))
  | float x => exact iff_of_true ⟨_, rfl⟩ (.inl (.number x))
  | null | bool _ | string _ | array _ => exact iff_of_false nofun (not_or.mpr ⟨nofun, nofun⟩)
  | object members =>
    refine Iff.trans ?_ (or_iff_right_of_imp nofun).symm
    have sides := @Record.decode_ok_iff _ paddingRecord
      [("top", .number), ("right", .number), ("bottom", .number), ("left", .number)] members sound
      (by decide) (by simp [paddingRecord, sideField, sound])
    refine Iff.trans ?_ sides
    rw [readPadding]
    cases paddingRecord.decode members <;> simp

end Readers

section Records

variable {members : Members}

private theorem takes_header (sound : (Json.object members).Sound) :
    (∃ header, headerRecord.decode members = .ok header) ↔
      Fits (.record ["id"] Shape.headerFields) (.object members) := by
  refine Record.decode_ok_iff sound (by decide) ?_
  simp [headerRecord, Shape.headerFields, idField, nameField, positionField, sizeField, opacityField, optionalField,
    sound]

/-- How the nodes of a type are read: their attributes are a record, of which only a container's asks for the
children, or there are none. -/
private inductive Reads (type : String) (fields : Shape.Fields) : Prop
  | container (record : Kids → Record Container) (required : ∀ kids, (record kids).required = [])
      (judges : ∀ kids members, (Json.object members).Sound →
        Check.Judges members (kidsCheck kids) ("children", .list .node) →
        List.Forall₂ (Check.Judges members) (record kids).checks fields)
      (reads : ∀ kids header members,
        decodeKind type kids header members = decodeContainer (record kids) kids header members)
  | leaf {α : Type} (record : Record α) (leaf : α → Leaf) (required : record.required = [])
      (judges : ∀ members, (Json.object members).Sound → List.Forall₂ (Check.Judges members) record.checks fields)
      (reads : ∀ kids header members, decodeKind type kids header members = decodeLeaf record leaf header members)
  | unknown (none : fields = [])
      (reads : ∀ kids header members,
        decodeKind type kids header members = .ok (.leaf { header with extra := members } (.unknown type)))

private theorem judges_panel (role : PanelRole) {kids : Kids} (sound : (Json.object members).Sound)
    (judges : Check.Judges members (kidsCheck kids) ("children", .list .node)) :
    List.Forall₂ (Check.Judges members) (panelRecord role kids).checks Shape.panelFields := by
  simp [panelRecord, Shape.panelFields, backgroundField, paddingField, radiusField, optionalField, sound, judges]

private theorem judges_stack {kids : Kids} (sound : (Json.object members).Sound)
    (judges : Check.Judges members (kidsCheck kids) ("children", .list .node)) :
    List.Forall₂ (Check.Judges members) (stackRecord kids).checks Shape.stackFields := by
  simp [stackRecord, Shape.stackFields, Shape.align, Shape.justify, directionField, gapField, alignField, justifyField,
    backgroundField, paddingField, optionalField, Direction.words, Align.words, Justify.words, sound, judges]

private theorem judges_grid {kids : Kids} (sound : (Json.object members).Sound)
    (judges : Check.Judges members (kidsCheck kids) ("children", .list .node)) :
    List.Forall₂ (Check.Judges members) (gridRecord kids).checks Shape.gridFields := by
  simp [gridRecord, Shape.gridFields, columnsField, gapField, backgroundField, paddingField, optionalField, sound,
    judges]

private theorem judges_rect (sound : (Json.object members).Sound) :
    List.Forall₂ (Check.Judges members) rectRecord.checks Shape.rectFields := by
  simp [rectRecord, Shape.rectFields, fillField, strokeField, strokeWidthField, radiusField, optionalField, sound]

private theorem judges_ellipse (sound : (Json.object members).Sound) :
    List.Forall₂ (Check.Judges members) ellipseRecord.checks Shape.ellipseFields := by
  simp [ellipseRecord, Shape.ellipseFields, fillField, strokeField, strokeWidthField, optionalField, sound]

private theorem judges_label (sound : (Json.object members).Sound) :
    List.Forall₂ (Check.Judges members) labelRecord.checks Shape.labelFields := by
  simp [labelRecord, Shape.labelFields, textField, colorField, fontFamilyField, fontSizeField, fontWeightField,
    fontStyleField, textAlignField, variantField, optionalField, FontStyle.words, TextAlign.words, TextVariant.words,
    sound]

private theorem judges_image (sound : (Json.object members).Sound) :
    List.Forall₂ (Check.Judges members) imageRecord.checks Shape.imageFields := by
  simp [imageRecord, Shape.imageFields, srcField, altField, radiusField, objectFitField, optionalField, ObjectFit.words,
    sound]

private theorem judges_line (sound : (Json.object members).Sound) :
    List.Forall₂ (Check.Judges members) lineRecord.checks Shape.lineFields := by
  simp [lineRecord, Shape.lineFields, segmentField, strokeField, strokeWidthField, optionalField, sound]

private theorem judges_path (sound : (Json.object members).Sound) :
    List.Forall₂ (Check.Judges members) pathRecord.checks Shape.pathFields := by
  simp [pathRecord, Shape.pathFields, pointsField, closedField, fillField, strokeField, strokeWidthField,
    optionalField, sound]

theorem fieldsOf_unknown {type : String} (other : type ∉ typeNames) : Shape.fieldsOf type = [] := by
  unfold Shape.fieldsOf
  split
  all_goals first | rfl | exact absurd (by decide) other

private theorem reads_type (type : String) : Reads type (Shape.fieldsOf type) := by
  by_cases known : type ∈ typeNames
  · simp only [typeNames, List.mem_cons, List.not_mem_nil, or_false] at known
    rcases known with rfl | rfl | rfl | rfl | rfl | rfl | rfl | rfl | rfl | rfl | rfl | rfl | rfl
    · exact .container _ (fun _ => rfl) (fun _ _ => judges_panel .frame) fun _ _ _ => rfl
    · exact .container _ (fun _ => rfl) (fun _ _ => judges_panel .box) fun _ _ _ => rfl
    · exact .container _ (fun _ => rfl) (fun _ _ => judges_panel .group) fun _ _ _ => rfl
    · exact .container _ (fun _ => rfl) (fun _ _ => judges_stack) fun _ _ _ => rfl
    · exact .container _ (fun _ => rfl) (fun _ _ => judges_grid) fun _ _ _ => rfl
    · exact .leaf _ _ rfl (fun _ => judges_rect) fun _ _ _ => rfl
    · exact .leaf _ _ rfl (fun _ => judges_ellipse) fun _ _ _ => rfl
    · exact .leaf _ _ rfl (fun _ => judges_label) fun _ _ _ => rfl
    · exact .leaf _ _ rfl (fun _ => judges_image) fun _ _ _ => rfl
    · exact .leaf _ _ rfl (fun _ => judges_line) fun _ _ _ => rfl
    · exact .leaf _ _ rfl (fun _ => judges_path) fun _ _ _ => rfl
    · exact .leaf _ _ rfl (fun _ => judges_path) fun _ _ _ => rfl
    · exact .leaf _ _ rfl (fun _ => judges_path) fun _ _ _ => rfl
  · exact .unknown (fieldsOf_unknown known) (decodeKind_unknown known)

private theorem fieldsOf_apart (type : String) :
    ((Shape.fieldsOf type).map Prod.fst).Nodup ∧
      ∀ field ∈ Shape.fieldsOf type, field.1 ≠ "type" ∧ field.1 ∉ headerRecord.keys := by
  by_cases known : type ∈ typeNames
  · simp only [typeNames, List.mem_cons, List.not_mem_nil, or_false] at known
    rcases known with rfl | rfl | rfl | rfl | rfl | rfl | rfl | rfl | rfl | rfl | rfl | rfl | rfl
    all_goals decide
  · rw [fieldsOf_unknown known]
    exact ⟨List.nodup_nil, by simp⟩

private theorem decodeKind_ok_iff (type : String) {kids : Kids} (header : Header)
    (sound : (Json.object members).Sound)
    (judges : Check.Judges members (kidsCheck kids) ("children", .list .node)) :
    (∃ node, decodeKind type kids header members = .ok node) ↔
      Fits (.record [] (Shape.fieldsOf type)) (.object members) := by
  have mapped {α : Type} (x : Except Fault α) (f : α → Node) :
      (∃ node, x.map f = .ok node) ↔ ∃ a, x = .ok a := by
    cases x <;> simp [Except.map]
  cases reads_type type with
  | container record required checks reads =>
    have read := Record.decode_ok_iff sound (fieldsOf_apart type).1 (checks kids members sound judges)
    rw [required] at read
    rw [reads, decodeContainer, mapped, read]
  | leaf record leaf required checks reads =>
    have read := Record.decode_ok_iff sound (fieldsOf_apart type).1 (checks members sound)
    rw [required] at read
    rw [reads, decodeLeaf, mapped, read]
  | unknown none reads =>
    rw [reads, none]
    exact iff_of_true ⟨_, rfl⟩ (.record (by simp) (by simp))

end Records

section Members

variable {members : Members}

theorem fits_node_iff :
    Fits .node (.object members) ↔ ∃ type, members.lookup "type" = some (.string type) ∧
      Fits (.record ["id"] Shape.headerFields) (.object members) ∧
        Fits (.record [] (Shape.fieldsOf type)) (.object members) := by
  simp only [← fits_record_append]
  constructor
  · rintro ⟨⟩
    exact ⟨_, by assumption, by assumption⟩
  · rintro ⟨type, typed, attributes⟩
    exact .node typed attributes

/-- What is left of a node's members when its type is taken out, along with the common attributes, makes a node of the
type exactly when all of them have the shapes of its attributes. -/
private theorem left_ok_iff {kids : Kids} {type : String} {rest : Members} (sound : (Json.object members).Sound)
    (taken : (members.without headerRecord.keys).takeOut "type" = some (.string type, rest))
    (inner : ∀ v, members.lookup "children" = some v → ((∃ nodes, kids = .ok nodes) ↔ Fits (.list .node) v))
    (header : Header) :
    (∃ node, decodeKind type kids header rest = .ok node) ↔
      Fits (.record [] (Shape.fieldsOf type)) (.object members) := by
  have left := sound.without headerRecord.keys
  have soundRest := (left.perm (Entries.perm_of_takeOut taken)).tail
  -- Beyond the type and the common attributes, what is looked up has stayed the same.
  have looked (key : String) (typed : key ≠ "type") (own : key ∉ headerRecord.keys) :
      rest.lookup key = members.lookup key :=
    ((Entries.lookup_of_takeOut left.distinct taken).2 key typed).trans (Entries.lookup_without members own)
  have judges : Check.Judges rest (kidsCheck kids) ("children", .list .node) := by
    refine ⟨rfl, ?_⟩
    intro v found
    rw [looked "children" (by decide) (by decide)] at found
    rw [← inner v found]
    cases kids <;> simp [kidsCheck]
  refine (decodeKind_ok_iff type header soundRest judges).trans (fits_record_congr fun field member => ?_)
  have apart := (fieldsOf_apart type).2 field member
  exact looked field.1 apart.1 apart.2

private theorem decodeMembers_ok_iff {kids : Kids} (sound : (Json.object members).Sound)
    (inner : ∀ v, members.lookup "children" = some v → ((∃ nodes, kids = .ok nodes) ↔ Fits (.list .node) v)) :
    (∃ node, decodeMembers kids members = .ok node) ↔ Fits .node (.object members) := by
  have distinct := (sound.without headerRecord.keys).distinct
  have kept := Entries.lookup_without members (show "type" ∉ headerRecord.keys by decide)
  rw [fits_node_iff]
  constructor
  · rintro ⟨node, read⟩
    obtain ⟨header, type, rest, common, taken, made⟩ := decodeMembers_eq_ok.mp read
    have typed := kept.symm.trans (Entries.lookup_of_takeOut distinct taken).1
    exact ⟨type, typed, (takes_header sound).mp ⟨header, common⟩, (left_ok_iff sound taken inner header).mp ⟨node, made⟩⟩
  · rintro ⟨type, typed, headed, fields⟩
    obtain ⟨header, common⟩ := (takes_header sound).mpr headed
    have held := kept.trans typed
    cases taken : (members.without headerRecord.keys).takeOut "type" with
    | none =>
      rw [Entries.lookup_eq_none_iff.mpr (Entries.takeOut_eq_none_iff.mp taken)] at held
      cases held
    | some pair =>
      obtain ⟨v, rest⟩ := pair
      obtain rfl := Option.some.inj ((Entries.lookup_of_takeOut distinct taken).1.symm.trans held)
      obtain ⟨node, made⟩ := (left_ok_iff sound taken inner header).mpr fields
      exact ⟨node, decodeMembers_eq_ok.mpr ⟨header, type, rest, common, taken, made⟩⟩

end Members

mutual

theorem takes_node (v : Json) (sound : v.Sound) : (∃ node, Node.decode v = .ok node) ↔ Fits .node v :=
  match v with
  | .null | .bool _ | .int _ | .float _ | .string _ | .array _ => iff_of_false nofun nofun
  | .object members => by
    refine decodeMembers_ok_iff sound ?_
    exact decodeKids_ok_iff members sound.2

theorem decodeKids_ok_iff (members : List (String × Json)) (sound : Json.SoundMembers members) (v : Json)
    (found : members.lookup "children" = some v) :
    (∃ nodes, decodeKids members = .ok nodes) ↔ Fits (.list .node) v :=
  match members with
  | [] => by cases found
  | (key, first) :: rest => by
    rw [List.lookup_cons] at found
    rw [decodeKids]
    by_cases here : key = "children"
    · rw [beq_iff_eq.mpr here.symm] at found
      obtain rfl := Option.some.inj found
      rw [if_pos here]
      exact decodeItems_ok_iff first sound.1
    · rw [beq_false_of_ne (Ne.symm here)] at found
      rw [if_neg here]
      exact decodeKids_ok_iff rest sound.2 v found

private theorem decodeItems_ok_iff (v : Json) (sound : v.Sound) :
    (∃ nodes, decodeItems v = .ok nodes) ↔ Fits (.list .node) v :=
  match v with
  | .null | .bool _ | .int _ | .float _ | .string _ | .object _ => iff_of_false nofun nofun
  | .array items => (decodeAll_ok_iff items sound).trans fits_list_iff.symm

private theorem decodeAll_ok_iff (items : List Json) (sound : Json.SoundItems items) :
    (∃ nodes, decodeAll items = .ok nodes) ↔ ∀ v ∈ items, Fits .node v :=
  match items with
  | [] => iff_of_true ⟨[], rfl⟩ nofun
  | v :: vs => by
    rw [List.forall_mem_cons, ← takes_node v sound.1, ← decodeAll_ok_iff vs sound.2, decodeAll]
    cases Node.decode v with
    | error fault => simp
    | ok node => cases decodeAll vs <;> simp

end

theorem takes_tree : Takes Tree.decode .tree := by
  intro v sound
  cases v with
  | null | bool _ | int _ | float _ | string _ | array _ => exact iff_of_false nofun nofun
  | object members =>
    have judges : List.Forall₂ (Check.Judges members) treeRecord.checks
        [("version", .optional .text), ("name", .optional .text), ("root", .node)] := by
      have root : Takes Node.decode .node := takes_node
      simp [treeRecord, versionField, nameField, rootField, optionalField, root, sound]
    have read := Record.decode_ok_iff sound (by decide) judges
    rw [Shape.tree, ← show treeRecord.required = ["root"] from rfl, ← read, Tree.decode]
    cases treeRecord.decode members <;> simp [Except.map]

end Handoff.Design
