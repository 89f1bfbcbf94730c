import Docblock.Schema.Property
import Docblock.Target

/-!
# Schemas of annotation classes

Where an annotation may stand, whether a constructor builds its objects, and its properties in
order. At most one property is the default, which takes the value given without a name.
-/

namespace Docblock

inductive SchemaError where
  | duplicate (name : String)
  | multipleDefaults (name : String) (properties : List String)
deriving Repr, DecidableEq

structure AnnotationSchema where
  name : String
  target : Target
  usesConstructor : Bool
  properties : List PropertySchema

namespace AnnotationSchema

/-- The schema with these parts, unless it has more than one default property. -/
def make (name : String) (target : Target) (usesConstructor : Bool)
    (properties : List PropertySchema) : Except SchemaError AnnotationSchema :=
  let defaults := (properties.filter fun p => p.isDefault).map fun p => p.name
  if 1 < defaults.length then .error (.multipleDefaults name defaults)
  else .ok ⟨name, target, usesConstructor, properties⟩

def property? (s : AnnotationSchema) (name : String) : Option PropertySchema :=
  s.properties.find? fun p => p.name == name

def default? (s : AnnotationSchema) : Option PropertySchema :=
  s.properties.find? fun p => p.isDefault

def propertyNames (s : AnnotationSchema) : List String := s.properties.map fun p => p.name

/-- Declare a property: in place of one of the same name, last otherwise. -/
def declare (property : PropertySchema) : List PropertySchema → List PropertySchema
  | [] => [property]
  | p :: rest => if p.name = property.name then property :: rest else p :: declare property rest

@[simp] theorem declare_nil (property : PropertySchema) : declare property [] = [property] := rfl

/-- Declaring a present name keeps the names, and a new name goes last. -/
theorem names_declare (property : PropertySchema) (properties : List PropertySchema) :
    (declare property properties).map (fun p => p.name) =
      if property.name ∈ properties.map (fun p => p.name) then properties.map (fun p => p.name)
      else properties.map (fun p => p.name) ++ [property.name] := by
  induction properties with
  | nil => simp
  | cons p rest ih =>
    by_cases same : p.name = property.name
    · simp [declare, same]
    · have differs : property.name ≠ p.name := Ne.symm same
      by_cases present : property.name ∈ rest.map (fun p => p.name)
      · simp only [List.map_cons, declare, same, if_false, ih, present, if_true,
          List.mem_cons, or_true]
      · have absent : property.name ∉ p.name :: rest.map (fun p => p.name) := by
          simp only [List.mem_cons, not_or]
          exact ⟨differs, present⟩
        simp only [List.map_cons, declare, same, if_false, ih, present, absent, List.cons_append]

end AnnotationSchema

end Docblock
