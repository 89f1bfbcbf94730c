import Docblock.Class.StandardName
import Docblock.Schema.Property
import Docblock.Target

/-!
# Records

The standard annotations are read into typed records. A record is read as a whole or the reading
fails.
-/

namespace Docblock

inductive RecordError where
  | wrongClass (expected found : String)
  | missing (className property : String)
  | invalid (className property expected actual : String)
deriving Repr, DecidableEq

namespace RecordError

def message : RecordError → String
  | wrongClass expected found => "Expected an instance of " ++ expected ++ ", got " ++ found
  | missing className property =>
    "@" ++ className ++ " is missing property \"" ++ property ++ "\""
  | invalid className property expected actual =>
    "Property \"" ++ property ++ "\" of @" ++ className ++ " expects " ++ expected ++ ", got "
      ++ actual

end RecordError

/-- Reads the annotations of one class into records. -/
structure RecordReader (α : Type) where
  className : String
  fields : Annotation → Except RecordError α

namespace RecordReader

variable {α : Type}

def read (reader : RecordReader α) (a : Annotation) : Except RecordError α :=
  if a.className = reader.className then reader.fields a
  else .error (.wrongClass reader.className a.className)

def selects (reader : RecordReader α) (a : Annotation) : Bool := a.className == reader.className

/-- The record of the first annotation of the class, if there is one. -/
def first? (reader : RecordReader α) (annotations : List Annotation) :
    Except RecordError (Option α) :=
  match annotations.find? reader.selects with
  | some a => (reader.read a).map some
  | none => .ok none

/-- The records of all annotations of the class; others are passed over. -/
def all (reader : RecordReader α) (annotations : List Annotation) : Except RecordError (List α) :=
  (annotations.filter reader.selects).mapM reader.read

end RecordReader

namespace Record

def invalid (a : Annotation) (property expected : String) (actual : Value) : RecordError :=
  .invalid a.className property expected actual.typeName

/-- The value of a property that must be set. -/
def mandatory (a : Annotation) (property : String) : Except RecordError Value :=
  match a.properties.set? property with
  | some v => .ok v
  | none => .error (.missing a.className property)

def text (a : Annotation) (property : String) : Except RecordError String := do
  let v ← mandatory a property
  match v with
  | .string s => .ok s
  | v => .error (invalid a property "string" v)

/-- The map a property holds; a property that is not set counts as the empty map. -/
def map (a : Annotation) (property : String) : Except RecordError (OrderedMap Value) :=
  match a.get? property with
  | none | some .null => .ok .empty
  | some (.array items) => .ok items
  | some other => .error (invalid a property "array" other)

/-- Where an annotation class may be used. -/
structure Targets where
  targets : Target
  literal : String

/-- The values of an enumeration and labels for some of them. -/
structure EnumerationLabels where
  values : List Value
  literal : OrderedMap Value

/-- A property as declared on its class. -/
structure Attribute where
  name : String
  typeName : String
  required : Bool

def targetMask? (v : Value) : Option Target :=
  v.int?.bind fun n => if 0 ≤ n then Target.ofBits? n.toInt.toNat else none

def targets : RecordReader Targets where
  className := StandardName.target
  fields a := do
    let mask ← mandatory a "targets"
    match targetMask? mask with
    | some target => .ok ⟨target, ← text a "literal"⟩
    | none => .error (invalid a "targets" "target bitmask" mask)

def enumeration : RecordReader EnumerationLabels where
  className := StandardName.enumeration
  fields a := do
    let values ← map a "value"
    let literal ← map a "literal"
    .ok ⟨values.values, literal⟩

def flag (a : Annotation) (property : String) : Except RecordError Bool :=
  match a.get? property with
  | none | some .null => .ok false
  | some (.bool b) => .ok b
  | some other => .error (invalid a property "boolean" other)

def singleAttribute : RecordReader Attribute where
  className := StandardName.singleAttribute
  fields a := do
    let required ← flag a "required"
    let name ← text a "name"
    let typeName ← text a "type"
    .ok ⟨name, typeName, required⟩

def attributes : RecordReader (List Attribute) where
  className := StandardName.attributes
  fields a := do
    let items ← map a "value"
    items.values.mapM fun item =>
      match item.object? with
      | some inner => singleAttribute.read inner
      | none => .error (invalid a "value" StandardName.singleAttribute item)

def ignoredNames : RecordReader (List String) where
  className := StandardName.ignoreAnnotation
  fields a := do
    let items ← map a "names"
    items.values.mapM fun item =>
      match item with
      | .string s => .ok s
      | item => .error (invalid a "names" "string" item)

/-- The labels are those given, or the values themselves if none are. -/
def EnumerationLabels.toEnumeration (e : EnumerationLabels) : Enumeration :=
  let labelled := if e.literal.isEmpty then e.values else e.literal.values
  ⟨e.values, labelled.map Value.toString⟩

end Record

end Docblock
