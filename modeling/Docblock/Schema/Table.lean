import Docblock.Schema.Annotation

/-!
# Tables of schemas

Schemas are found by class name and listed in the order in which they were added. A name is added
once.
-/

namespace Docblock

structure SchemaTable where
  find? : String → Option AnnotationSchema
  names : List String

namespace SchemaTable

def empty : SchemaTable := ⟨fun _ => none, []⟩

instance : Inhabited SchemaTable := ⟨empty⟩

def contains (t : SchemaTable) (name : String) : Bool := (t.find? name).isSome

def add (t : SchemaTable) (schema : AnnotationSchema) : Except SchemaError SchemaTable :=
  if t.contains schema.name then .error (.duplicate schema.name)
  else .ok
    ⟨fun name => if name = schema.name then some schema else t.find? name, t.names ++ [schema.name]⟩

/-- Add schemas until one of them is present already: the table reached and the error, if any. -/
def addAll (t : SchemaTable) : List AnnotationSchema → SchemaTable × Option SchemaError
  | [] => (t, none)
  | schema :: rest =>
    match t.add schema with
    | .ok t => t.addAll rest
    | .error e => (t, some e)

/-- The schemas in order. -/
def toList (t : SchemaTable) : List AnnotationSchema := t.names.filterMap t.find?

def includeTable (t other : SchemaTable) : SchemaTable × Option SchemaError := t.addAll other.toList

def erase (t : SchemaTable) (name : String) : SchemaTable :=
  if t.contains name then
    ⟨fun other => if other = name then none else t.find? other, t.names.filter fun n => n != name⟩
  else t

def size (t : SchemaTable) : Nat := t.names.length

def isEmpty (t : SchemaTable) : Bool := t.names.isEmpty

@[simp] theorem toList_empty : empty.toList = [] := rfl

theorem find?_erase (t : SchemaTable) (name other : String) :
    (t.erase name).find? other = if other = name then none else t.find? other := by
  by_cases present : t.contains name
  · simp [erase, present]
  · by_cases same : other = name
    · subst same
      have absent : t.find? other = none := by simpa [contains] using present
      simp [erase, contains, absent]
    · simp [erase, present, same]

end SchemaTable

end Docblock
