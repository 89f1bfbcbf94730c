import Docblock.Class.Registry
import Docblock.Reading.Check

/-!
# Annotation objects

A class with a constructor gets all its arguments at once. Any other object starts from the
defaults of its class and takes the arguments one by one: a name that is a property sets it, and
`value` sets the default property.
-/

namespace Docblock.AnnotationSchema

def assign (s : AnnotationSchema) (place : Place) (all : OrderedMap Value) (object : Annotation)
    (key : Key) (v : Value) : Except AnnotationError Annotation :=
  if (s.property? key.toString).isSome then .ok (object.set key.toString v)
  else if key ≠ .ofString "value" then
    .error (.unknownProperty place.name place.context key.toString s.propertyNames)
  else
    match s.default? with
    | some p => .ok (object.set p.name v)
    | none => .error (.noValuesAccepted place.name place.context (Value.array all).json)

def assignAll (s : AnnotationSchema) (place : Place) (all : OrderedMap Value) :
    Annotation → List (Key × Value) → Except AnnotationError Annotation
  | object, [] => .ok object
  | object, (key, v) :: rest =>
    match s.assign place all object key v with
    | .ok object => s.assignAll place all object rest
    | .error e => .error e

/-- The object before any argument is assigned. -/
def blank (s : AnnotationSchema) (registry : Registry) : Annotation :=
  match registry.describe? s.name with
  | some c => c.defaultObject
  | none => ⟨s.name, .empty⟩

def construct (s : AnnotationSchema) (registry : Registry) (place : Place)
    (values : OrderedMap Value) : Except AnnotationError Annotation :=
  match (registry.describe? s.name).bind fun c => c.constructor? with
  | some constructor =>
    match constructor s.name values with
    | .ok object => .ok object
    | .error reason => .error (.construction place.name place.context reason)
  | none => .ok ⟨s.name, values⟩

def instantiate (s : AnnotationSchema) (registry : Registry) (place : Place)
    (values : OrderedMap Value) : Except AnnotationError Annotation :=
  if s.usesConstructor then s.construct registry place values
  else s.assignAll place values (s.blank registry) values.entries

/-- The object of an annotation with these arguments, all checks made. -/
def objectOf (s : AnnotationSchema) (registry : Registry) (place : Place)
    (values : OrderedMap Value) : Except AnnotationError Annotation := do
  s.checkEnumerations place values
  let values ← s.checkProperties registry.isSubclass place values
  s.instantiate registry place values

end Docblock.AnnotationSchema
