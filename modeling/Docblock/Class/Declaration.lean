import Docblock.ClassName
import Docblock.Value.Basic

/-!
# Declarations of classes

What is known about a class: its doc comment, its public properties with their defaults, its
ancestors and its constants. A class with a constructor builds its objects from the whole map of
argument values; any other class has its properties assigned one by one.
-/

namespace Docblock

/-- Builds the object of a class from argument values, or tells why it cannot. -/
abbrev Constructor := (className : String) → OrderedMap Value → Except String Annotation

namespace Constructor

/-- Keep the argument values as the properties of the object. -/
def keep : Constructor := fun className values => .ok ⟨className, values⟩

/-- Keep the argument values if one of them is called `value` and is set. -/
def keepMandatory : Constructor := fun className values =>
  match values.set? "value" with
  | some _ => keep className values
  | none => .error "value is mandatory"

def refuse (reason : String) : Constructor := fun _ _ => .error reason

def fixed (properties : OrderedMap Value) : Constructor := fun className _ =>
  .ok ⟨className, properties⟩

end Constructor

structure PropertyDeclaration where
  name : String
  doc : String := ""
  default : Value := .null

structure ClassDeclaration where
  name : String
  doc : String
  properties : List PropertyDeclaration
  ancestors : List String
  constants : List (String × Value)
  constructor? : Option Constructor

namespace ClassDeclaration

/-- A declaration, its name and its ancestors without one leading separator. -/
def make (name : String) (doc : String := "") (properties : List PropertyDeclaration := [])
    (ancestors : List String := []) (constants : List (String × Value) := [])
    (constructor? : Option Constructor := none) : ClassDeclaration :=
  ⟨ClassName.registered name, doc, properties, ancestors.map ClassName.registered, constants,
    constructor?⟩

def constant? (c : ClassDeclaration) (name : String) : Option Value := c.constants.lookup name

def hasConstructor (c : ClassDeclaration) : Bool := c.constructor?.isSome

/-- An object that holds the default of every property. -/
def defaultObject (c : ClassDeclaration) : Annotation :=
  ⟨c.name, c.properties.foldl (fun m p => m.insert (.ofString p.name) p.default) .empty⟩

end ClassDeclaration

end Docblock
