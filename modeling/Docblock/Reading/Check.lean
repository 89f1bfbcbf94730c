import Docblock.AnnotationError
import Docblock.Value.Json

/-!
# Checking arguments

The folded arguments are checked against the schema before an object is made of them: values of
enumerated properties first, then required properties and types. A single value for an array
property is replaced by a list of it.
-/

namespace Docblock

/-- An annotation as it is written, and where. -/
structure Place where
  name : String
  context : String

namespace PropertySchema

/-- A set value that is not in the enumeration of the property is refused. -/
def checkEnumeration (place : Place) (values : OrderedMap Value) (p : PropertySchema) :
    Except AnnotationError Unit :=
  match p.enumeration?, values.set? p.name with
  | some enumeration, some v =>
    if enumeration.allows v then .ok ()
    else .error (.notEnumerated p.name place.name place.context enumeration.describe v.toString)
  | _, _ => .ok ()

/-- The name under which the value of a property is given. The default property takes the value
called `value` if it is not set under its own name. -/
def sourceName (p : PropertySchema) (values : OrderedMap Value) : String :=
  if p.isDefault && (values.set? p.name).isNone && (values.set? "value").isSome then "value"
  else p.name

/-- The values with the one under `name` as a list. -/
def listed (values : OrderedMap Value) (name : String) (v : Value) : OrderedMap Value :=
  if v.isArray then values else values.insert (.ofString name) (.array (.ofValues [v]))

/-- The first element of a list that is not of the type. -/
def misfit? (classes : Hierarchy) (element : ValueType) (v : Option Value) : Option Value :=
  (v.bind Value.array?).bind fun items =>
    items.values.find? fun item => !element.accepts classes item

def mismatch (place : Place) (p : PropertySchema) (expected : String) (actual : Value) :
    AnnotationError :=
  .typeMismatch p.name place.name place.context expected actual.describeType

/-- Check one property and put its value into the form of its type. -/
def check (classes : Hierarchy) (place : Place) (values : OrderedMap Value) (p : PropertySchema) :
    Except AnnotationError (OrderedMap Value) :=
  let name := p.sourceName values
  match values.set? name, p.type? with
  | none, _ =>
    if p.required then
      .error (.requiredMissing p.name place.name place.context p.expected)
    else .ok values
  | some _, none => .ok values
  | some v, some (.array none _) => .ok (listed values name v)
  | some v, some (.array (some element) _) =>
    let values := listed values name v
    match misfit? classes (.ofName element) (values.set? name) with
    | some item =>
      .error (mismatch place p
        ("either a(n) " ++ element ++ ", or an array of " ++ element ++ "s") item)
    | none => .ok values
  | some v, some (.named typeName declared) =>
    if (ValueType.ofName typeName).accepts classes v then .ok values
    else .error (mismatch place p ("a(n) " ++ declared) v)

end PropertySchema

namespace AnnotationSchema

def checkEnumerations (s : AnnotationSchema) (place : Place) (values : OrderedMap Value) :
    Except AnnotationError Unit :=
  s.properties.forM fun p => p.checkEnumeration place values

def checkProperties (s : AnnotationSchema) (classes : Hierarchy) (place : Place)
    (values : OrderedMap Value) : Except AnnotationError (OrderedMap Value) :=
  s.properties.foldlM (fun values p => p.check classes place values) values

end AnnotationSchema

end Docblock
