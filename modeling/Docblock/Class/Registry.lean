import Docblock.Class.Declaration
import Docblock.ValueType

/-!
# Registries of classes

Classes and constants are declared ahead. A class is found by its name with or without a leading
separator; it belongs to every class that its declared ancestors reach.
-/

namespace Docblock

structure Registry where
  classes : List ClassDeclaration
  constants : List (String × Value)

namespace Registry

def empty : Registry := ⟨[], []⟩

instance : Inhabited Registry := ⟨empty⟩

/-- The class under a name as it is registered. -/
def lookup? (r : Registry) (name : String) : Option ClassDeclaration :=
  r.classes.find? fun c => c.name == name

def describe? (r : Registry) (name : String) : Option ClassDeclaration :=
  r.lookup? (ClassName.registered name)

def exists? (r : Registry) (name : String) : Bool := (r.describe? name).isSome

def put (c : ClassDeclaration) : List ClassDeclaration → List ClassDeclaration
  | [] => [c]
  | d :: rest => if d.name = c.name then c :: rest else d :: put c rest

/-- Register a class in place of one of the same name. -/
def register (r : Registry) (c : ClassDeclaration) : Registry :=
  { r with classes := put c r.classes }

def defineConstant (r : Registry) (name : String) (v : Value) : Registry :=
  { r with constants := (ClassName.registered name, v) :: r.constants }

/-- The value of a constant, or of a class constant written behind `::`. -/
def constant? (r : Registry) (reference : String) : Option Value :=
  match ClassName.memberReference? reference with
  | some (className, constant) =>
    (r.describe? className).bind fun c => c.constant? constant
  | none => r.constants.lookup (ClassName.registered reference)

def ancestorsOf (r : Registry) (name : String) : List String :=
  match r.lookup? name with
  | some c => c.ancestors
  | none => []

/-- The given names and the declared ancestors of each. -/
def widen (r : Registry) (names : List String) : List String :=
  (names ++ names.flatMap r.ancestorsOf).eraseDups

/-- The names that `steps` rounds of widening reach. -/
def reached (r : Registry) : Nat → List String → List String
  | 0, names => names
  | steps + 1, names => r.reached steps (r.widen names)

/-- Whether a class is `ancestor` or has it among its ancestors. Every round but the last meets a
class not met before, so more rounds than classes reach nothing new. -/
def isSubclass (r : Registry) : Hierarchy := fun className ancestor =>
  (r.reached (r.classes.length + 1) [ClassName.registered className]).contains
    (ClassName.registered ancestor)

theorem find?_put (c : ClassDeclaration) (name : String) (classes : List ClassDeclaration) :
    (put c classes).find? (fun d => d.name == name) =
      if c.name = name then some c else classes.find? fun d => d.name == name := by
  induction classes with
  | nil => by_cases same : c.name = name <;> simp [put, same]
  | cons d rest ih =>
    by_cases replaced : d.name = c.name
    · by_cases same : c.name = name <;> simp [put, replaced, same]
    · by_cases same : c.name = name
      · have other : d.name ≠ name := fun h => replaced (h.trans same.symm)
        simp [put, other, ih, same]
      · by_cases here : d.name = name
        · subst here
          simp [put, replaced, same]
        · simp [put, replaced, here, ih, same]

theorem lookup?_register (r : Registry) (c : ClassDeclaration) (name : String) :
    (r.register c).lookup? name = if c.name = name then some c else r.lookup? name :=
  find?_put c name r.classes

theorem name_of_lookup? {r : Registry} {name : String} {c : ClassDeclaration}
    (h : r.lookup? name = some c) : c.name = name := by
  simpa using List.find?_some h

end Registry

end Docblock
