import Docblock.Reading.DocText

/-!
# Schemas from declarations

The schema of a class is read from its declaration: the class doc comment carries the marker and
may restrict the targets and declare properties; the doc comments of public properties give types,
required properties and enumerations. Doc comments are read with the same grammar as any text, so
reading a schema may need other schemas. A class that is needed for its own schema is refused.
-/

namespace Docblock

namespace Reflection

def marker : String := "@Annotation"

/-- The type text behind the first `@var` that blanks and a type follow. -/
def varType? : List Char → Option (List Char)
  | [] => none
  | c :: cs =>
    match Text.dropLeading? "@var".toList (c :: cs) with
    | some rest =>
      let type := rest.dropWhile Text.isBlank
      if rest.length = type.length || type.isEmpty then varType? cs
      else some (type.takeWhile fun d => !Text.isBlank d)
    | none => varType? cs

/-- A property as its class declares it. -/
def ofAttribute (a : Record.Attribute) : PropertySchema where
  name := a.name
  type? := PropertyType.ofDeclared? a.typeName
  required := a.required

/-- The properties declared on the class so far, and those among them that an annotation adds. -/
structure Draft where
  target : Target
  properties : List PropertySchema

def Draft.initial : Draft := ⟨.all, []⟩

def Draft.declareAll (d : Draft) (attributes : List Record.Attribute) : Draft :=
  { d with properties :=
      attributes.foldl (fun ps a => AnnotationSchema.declare (ofAttribute a) ps) d.properties }

/-- Take over what one annotation of the class doc comment says. -/
def Draft.apply (d : Draft) (a : Annotation) : Except AnnotationError Draft :=
  if a.className = StandardName.target then
    match Record.targets.read a with
    | .ok record => .ok { d with target := record.targets }
    | .error e => .error (.record e)
  else if a.className = StandardName.attributes then
    match Record.attributes.read a with
    | .ok attributes => .ok (d.declareAll attributes)
    | .error e => .error (.record e)
  else .ok d

/-- The type of a property: its own `@var` counts before what the class declares. -/
def typeOf (doc : String) (declared : Option PropertySchema) : Option PropertyType :=
  match varType? doc.toList with
  | some written => PropertyType.ofDeclared? (String.ofList written)
  | none => declared.bind fun p => p.type?

/-- Reads the annotations of a doc comment: context, target and text. -/
abbrev DocReader := (context : String) → Target → (doc : String) → Lookup (List Annotation)

/-- The enumeration that the doc comment of a property declares. -/
def enumerationOf (read : DocReader) (c : ClassDeclaration) (p : PropertyDeclaration) :
    Lookup (Option Enumeration) := do
  if !Text.occursIn "@Enum" p.doc then return none
  let annotations ← read ("property " ++ c.name ++ "::$" ++ p.name) .onProperty p.doc
  match Record.enumeration.first? annotations with
  | .ok record => return record.map Record.EnumerationLabels.toEnumeration
  | .error e => throw (.record e)

def propertySchema (read : DocReader) (c : ClassDeclaration) (declared : List PropertySchema)
    (isDefault : Bool) (p : PropertyDeclaration) : Lookup PropertySchema := do
  let onClass := declared.find? fun d => d.name == p.name
  let enumeration ← enumerationOf read c p
  return {
    name := p.name
    type? := typeOf p.doc onClass
    required := Text.occursIn "@Required" p.doc || onClass.any fun d => d.required
    isDefault := isDefault
    enumeration? := enumeration }

/-- Add the public properties to those declared on the class; the first of them is the default. -/
def addProperties (read : DocReader) (c : ClassDeclaration) (declared : List PropertySchema) :
    Bool → List PropertySchema → List PropertyDeclaration → Lookup (List PropertySchema)
  | _, properties, [] => return properties
  | isFirst, properties, p :: rest => do
    let property ← propertySchema read c declared isFirst p
    addProperties read c declared false (AnnotationSchema.declare property properties) rest

/-- The schema of a marked class. -/
def schemaOfClass (read : DocReader) (c : ClassDeclaration) : Lookup AnnotationSchema := do
  let annotations ← read ("class @" ++ c.name) .onClass c.doc
  let draft ← (annotations.foldlM Draft.apply Draft.initial : Except AnnotationError Draft)
  let properties ←
    if c.hasConstructor then pure draft.properties
    else addProperties read c draft.properties true draft.properties c.properties
  match AnnotationSchema.make c.name draft.target c.hasConstructor properties with
  | .ok schema => return schema
  | .error e => throw (.schema e)

/-- Read the schema of a class and remember it, or remember that the class is no annotation. A
class is entered while it is being read and left again whatever comes of it. -/
def reflect (registry : Registry) (build : ClassDeclaration → Lookup AnnotationSchema)
    (name : String) : Lookup Unit := do
  match registry.describe? name with
  | none => modify fun m => m.markPlain name
  | some c =>
    if !Text.occursIn marker c.doc then
      modify fun m => m.markPlain name
    else if (← get).reflecting.contains name then
      throw (.circular name)
    else
      modify fun m => m.enter name
      let built ← ExceptT.lift (build c).run
      modify fun m => m.leave name
      match built with
      | .error e => throw e
      | .ok schema =>
        match (← get).schemas.add schema with
        | .ok schemas => modify fun m => { m with schemas }
        | .error e => throw (.schema e)

/-- The schema of a class as remembered, or read now. -/
def recalled (registry : Registry) (build : ClassDeclaration → Lookup AnnotationSchema)
    (name : String) : Lookup (Option AnnotationSchema) := do
  match (← get).schemas.find? name with
  | some schema => return some schema
  | none =>
    if (← get).isPlain name then return none
    reflect registry build name
    return (← get).schemas.find? name

/-- Schemas read to a depth of nested readings. The classes being read are distinct, so the number
of registered classes is depth enough. -/
def schemaOf (registry : Registry) : Nat → Settings → String → Lookup (Option AnnotationSchema)
  | 0, _, name => recalled registry (fun c => throw (.circular c.name)) name
  | depth + 1, owner, name =>
    recalled registry (fun c => do
      let settings ← docSettings owner
      let read : DocReader := fun context target doc =>
        readDoc ⟨registry, settings, context, schemaOf registry depth settings⟩ target doc
      schemaOfClass read c) name

end Reflection

end Docblock
