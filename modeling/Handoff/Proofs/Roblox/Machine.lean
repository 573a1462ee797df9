import Handoff.Roblox.Drawing
import Handoff.Proofs.Decimal.Digits

set_option autoImplicit false
set_option relaxedAutoImplicit false

/-!
A machine that runs scripts: it makes instances, writes down what is assigned to each, and forgets the locals of
a block at its end.

A widget's statements make one instance, which gets its parent after all its settings.
-/

namespace Handoff.Roblox

/-- What a local stands for: an object of the engine, or an instance of the script by its place in the order of
making. -/
inductive Thing where
  | service (name : String)
  | member (of : Thing) (name : String)
  | child (of : Thing) (name : String)
  | made (n : Nat)
  deriving DecidableEq, Repr

/-- What a statement gives an instance. Values are kept as they are written in the script. -/
inductive Assignment where
  | property (name value : String)
  | parent (holder : Thing)
  deriving DecidableEq, Repr

/-- An instance with its assignments in the order of the script. -/
structure Instance where
  cls : Class
  log : List Assignment := []
  deriving DecidableEq, Repr

/-- The locals in scope, the innermost first, and the instances in the order of making. -/
structure Machine where
  locals : Entries Thing := []
  made : List Instance := []
  deriving DecidableEq, Repr

namespace Machine

def bind (m : Machine) (v : Variable) (thing : Thing) : Machine :=
  { m with locals := (v.name, thing) :: m.locals }

def resolve? (m : Machine) (v : Variable) : Option Thing :=
  List.lookup v.name m.locals

/-- Gives an assignment to the instance that a local stands for. -/
def assign (m : Machine) (v : Variable) (a : Assignment) : Option Machine :=
  match m.resolve? v with
  | some (.made n) => some { m with made := m.made.modify n fun i => { i with log := i.log ++ [a] } }
  | _ => none

/-- Runs a statement; `none` for one that uses a local that is not in scope, or assigns to no instance. -/
def step (units : Units) (m : Machine) : Statement → Option Machine
  | .declare v (.service name) => some (m.bind v (.service name))
  | .declare v (.member of name) => (m.resolve? of).map fun thing => m.bind v (.member thing name)
  | .declare v (.child of name) => (m.resolve? of).map fun thing => m.bind v (.child thing name)
  | .declare v (.fresh cls) =>
    some { locals := (v.name, .made m.made.length) :: m.locals, made := m.made ++ [⟨cls, []⟩] }
  | .set v property value => m.assign v (.property property.label (value.expression units))
  | .attach v parent => (m.resolve? parent).bind fun thing => m.assign v (.parent thing)

def run (units : Units) : List Statement → Machine → Option Machine
  | [], m => some m
  | s :: rest, m => (m.step units s).bind (run units rest)

/-- Runs a script; the locals of a block end with it. -/
def execute (units : Units) : List Chunk → Machine → Option Machine
  | [], m => some m
  | .statement s :: rest, m => (m.step units s).bind (execute units rest)
  | .block body :: rest, m =>
    (run units body m).bind fun after => execute units rest { after with locals := m.locals }

theorem run_append (units : Units) (a b : List Statement) (m : Machine) :
    run units (a ++ b) m = (run units a m).bind (run units b) := by
  induction a generalizing m with
  | nil => rfl
  | cons s rest ih =>
    simp only [List.cons_append, run]
    cases m.step units s with
    | none => rfl
    | some after => exact ih after

theorem execute_append (units : Units) (a b : List Chunk) (m : Machine) :
    execute units (a ++ b) m = (execute units a m).bind (execute units b) := by
  induction a generalizing m with
  | nil => rfl
  | cons chunk rest ih =>
    cases chunk with
    | statement s =>
      simp only [List.cons_append, execute]
      cases m.step units s with
      | none => rfl
      | some after => exact ih after
    | block body =>
      simp only [List.cons_append, execute]
      cases run units body m with
      | none => rfl
      | some after => exact ih _

theorem execute_statements (units : Units) (list : List Statement) (m : Machine) :
    execute units (list.map Chunk.statement) m = run units list m := by
  induction list generalizing m with
  | nil => rfl
  | cons s rest ih =>
    simp only [List.map_cons, execute, run]
    cases m.step units s with
    | none => rfl
    | some after => exact ih after

end Machine

/-- The number in a name, if it has one: what follows the mark after the class. -/
private def numberPart (name : String) : List Char :=
  (name.toList.dropWhile (· ≠ '_')).drop 1

private def classPart (name : String) : List Char :=
  name.toList.takeWhile (· ≠ '_')

private theorem name_numbered_toList (cls : Class) (n : Nat) :
    (Variable.numbered cls n).name.toList = cls.name.toList ++ '_' :: n.repr.toList := by
  simp only [Variable.name, String.toList_append]
  rw [List.append_assoc]
  rfl

private theorem ne_mark_of_mem_className (cls : Class) : ∀ c ∈ cls.name.toList, (c ≠ '_' : Bool) = true := by
  cases cls <;> simp [Class.name]

private theorem numberPart_numbered (cls : Class) (n : Nat) :
    numberPart (Variable.numbered cls n).name = n.repr.toList := by
  rw [numberPart, name_numbered_toList, List.dropWhile_append_of_pos (ne_mark_of_mem_className cls)]
  simp

private theorem classPart_numbered (cls : Class) (n : Nat) :
    classPart (Variable.numbered cls n).name = cls.name.toList := by
  rw [classPart, name_numbered_toList, List.takeWhile_append_of_pos (ne_mark_of_mem_className cls)]
  simp

theorem Class.name_injective : Function.Injective Class.name := by
  intro a b h
  cases a <;> cases b <;> first | rfl | exact absurd h (by decide)

private theorem mark_mem_numbered (cls : Class) (n : Nat) :
    '_' ∈ (Variable.numbered cls n).name.toList := by
  rw [name_numbered_toList]
  simp

/-- Locals of one name are the same: only numbered ones have the mark, with the class before it and the number
after it. -/
theorem Variable.name_injective : Function.Injective Variable.name := by
  have plain (v : Variable) (h : '_' ∉ v.name.toList) (cls : Class) (n : Nat) :
      v.name ≠ (numbered cls n).name := by
    intro same
    exact h (same ▸ mark_mem_numbered cls n)
  intro a b h
  cases a with
  | numbered c m =>
    cases b with
    | numbered d n =>
      have classes := congrArg classPart h
      have numbers := congrArg numberPart h
      rw [classPart_numbered, classPart_numbered] at classes
      rw [numberPart_numbered, numberPart_numbered] at numbers
      obtain rfl := Class.name_injective (String.toList_injective classes)
      obtain rfl := Numeral.toDigits_injective (m := m) (n := n) (by simpa using numbers)
      rfl
    | _ => exact absurd h.symm (plain _ (by decide) c m)
  | _ =>
    cases b with
    | numbered d n => exact absurd h (plain _ (by decide) d n)
    | _ => first | rfl | exact absurd h (by decide)

end Handoff.Roblox
