import Handoff.Design.Fault
import Handoff.Design.Style

set_option autoImplicit false
set_option relaxedAutoImplicit false

/-!
Reading objects by their fields.

A record names its fields and how each is read. The members of an object are checked in the order of the
document, so that its first fault is found; then the fields are looked up.
-/

namespace Handoff.Design

abbrev Reader (α : Type) := Json → Except Fault α

structure Field (α : Type) where
  key : String
  read : Reader α

def faultOf {α : Type} (read : Reader α) (v : Json) : Option Fault :=
  match read v with
  | .ok _ => none
  | .error fault => some fault

abbrev Check := String × (Json → Option Fault)

namespace Field

variable {α : Type}

def check (field : Field α) : Check :=
  (field.key, faultOf field.read)

/-- The field's value, or the default when the object does not have it. -/
def getD (field : Field α) (members : Members) (default : α) : α :=
  match members.lookup field.key with
  | some v =>
    match field.read v with
    | .ok a => a
    | .error _ => default
  | none => default

end Field

/-- The first fault among the members that have a check. -/
def firstFault (checks : List Check) (members : Members) : Option Fault :=
  members.findSome? fun entry => (checks.lookup entry.1).bind fun check => check entry.2

/-- The first of the required fields that the object does not have. -/
def firstMissing (required : List String) (members : Members) : Option Fault :=
  (required.find? fun key => (members.lookup key).isNone).map .missing

/-- How an object is read as a record. -/
structure Record (α : Type) where
  checks : List Check
  required : List String := []
  build : Members → α

namespace Record

variable {α : Type}

def keys (record : Record α) : List String :=
  record.checks.map (·.1)

/-- The record that an object is; its other members are left aside. -/
def decode (record : Record α) (members : Members) : Except Fault α :=
  match firstFault record.checks members with
  | some fault => .error fault
  | none =>
    match firstMissing record.required members with
    | some fault => .error fault
    | none => .ok (record.build members)

end Record

def readText : Reader String
  | .string s => .ok s
  | v => .error (.wrongKind v .text)

def readNumber : Reader Float
  | .int n => .ok (Json.wholeFloat n)
  | .float x => .ok x
  | v => .error (.wrongKind v .number)

def readFlag : Reader Bool
  | .bool b => .ok b
  | v => .error (.wrongKind v .flag)

def readWord : Reader UInt32
  | .int n => if 0 ≤ n ∧ n.toNat < UInt32.size then .ok (UInt32.ofNat n.toNat) else .error (.outOfRange n)
  | v => .error (.wrongKind v .word)

def readWordOf {α : Type} (words : List (String × α)) (word : String) : Except Fault α :=
  match words.lookup word with
  | some a => .ok a
  | none => .error (.unknownWord word (words.map (·.1)))

/-- A choice by its word, which may also be the key of a single member without a value. -/
def readChoice {α : Type} (words : List (String × α)) : Reader α
  | .string word => readWordOf words word
  | .object [(word, v)] =>
    match readWordOf words word, v with
    | .error fault, _ => .error fault
    | .ok a, .null => .ok a
    | .ok _, v => .error (.wrongKind v .nothing)
  | .object _ => .error .notOneMember
  | v => .error (.wrongKind v .choice)

def readOptional {α : Type} (read : Reader α) : Reader (Option α)
  | .null => .ok none
  | v => (read v).map some

/-- The items read one by one up to the first fault. -/
def readEach {α : Type} (read : Reader α) : List Json → Except Fault (List α)
  | [] => .ok []
  | v :: vs =>
    match read v with
    | .error fault => .error fault
    | .ok a =>
      match readEach read vs with
      | .error fault => .error fault
      | .ok as => .ok (a :: as)

def readNumbers : Reader (List Float)
  | .array items => readEach readNumber items
  | v => .error (.wrongKind v .sequence)

def readTuple (count : Nat) (expected : Expected) (items : List Json) : Except Fault (List Float) :=
  match readEach readNumber (items.take count) with
  | .error fault => .error fault
  | .ok xs =>
    if items.length < count then .error (.tooShort items.length expected)
    else if count < items.length then .error (.tooLong items.length)
    else .ok xs

def optionalField {α : Type} (key : String) (read : Reader α) : Field (Option α) :=
  ⟨key, readOptional read⟩

/-- A pair of numbers, as an object or as an array of two. -/
def readPair {α : Type} (first second : String) (expected : Expected) (build : Float → Float → α) :
    Reader α
  | .object members =>
    let firstField : Field Float := ⟨first, readNumber⟩
    let secondField : Field Float := ⟨second, readNumber⟩
    Record.decode
      { checks := [firstField.check, secondField.check]
        required := [first, second]
        build := fun ms => build (firstField.getD ms 0) (secondField.getD ms 0) } members
  | .array items =>
    match readTuple 2 expected items with
    | .error fault => .error fault
    | .ok [x, y] => .ok (build x y)
    | .ok _ => .error (.tooShort items.length expected)
  | v => .error (.wrongKind v expected)

def readPoint : Reader Point :=
  readPair "x" "y" .point Point.mk

def readSize : Reader Size :=
  readPair "width" "height" .size Size.mk

def readSegment : Reader Segment
  | .array items =>
    match readTuple 4 .fourNumbers items with
    | .error fault => .error fault
    | .ok [x1, y1, x2, y2] => .ok ⟨x1, y1, x2, y2⟩
    | .ok _ => .error (.tooShort items.length .fourNumbers)
  | v => .error (.wrongKind v .fourNumbers)

def readFontWeight : Reader FontWeight
  | .int n => .ok (.numeric (Json.wholeFloat n))
  | .float x => .ok (.numeric x)
  | .string word => .ok (.keyword word)
  | _ => .error .noFontWeight

def sideField (key : String) : Field Float :=
  ⟨key, readNumber⟩

def paddingRecord : Record Padding :=
  { checks := ["top", "right", "bottom", "left"].map fun key => (sideField key).check
    build := fun ms =>
      .sides ((sideField "top").getD ms 0) ((sideField "right").getD ms 0)
        ((sideField "bottom").getD ms 0) ((sideField "left").getD ms 0) }

/-- Padding by one number or by sides; a side that is not given is zero. -/
def readPadding : Reader Padding
  | .int n => .ok (.uniform (Json.wholeFloat n))
  | .float x => .ok (.uniform x)
  | .object members =>
    match paddingRecord.decode members with
    | .ok padding => .ok padding
    | .error _ => .error .noPadding
  | _ => .error .noPadding

end Handoff.Design
