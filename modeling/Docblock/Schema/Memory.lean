import Docblock.AnnotationError
import Docblock.Class.Registry
import Docblock.Schema.Standard
import Docblock.Settings.Basic

/-!
# What a parser remembers

A parser keeps the schemas it has read, the classes it found to be no annotations, which classes
exist, and the settings under which doc comments of classes are read. It also knows which classes
are being read at the moment. What it has learned survives a failure.
-/

namespace Docblock

structure Memory where
  schemas : SchemaTable
  /-- Classes without the marker. -/
  plain : List String
  /-- Classes asked for and whether they exist. -/
  known : List (String × Bool)
  /-- Classes whose schemas are being read, innermost first. -/
  reflecting : List String
  /-- Fixed at the first use. -/
  docSettings? : Option Settings

namespace Memory

def initial : Memory := ⟨.standard, [], [], [], none⟩

instance : Inhabited Memory := ⟨initial⟩

def isPlain (m : Memory) (name : String) : Bool := m.plain.contains name

def markPlain (m : Memory) (name : String) : Memory := { m with plain := name :: m.plain }

def learn (m : Memory) (name : String) (present : Bool) : Memory :=
  { m with known := (name, present) :: m.known }

def enter (m : Memory) (name : String) : Memory := { m with reflecting := name :: m.reflecting }

def leave (m : Memory) (name : String) : Memory :=
  { m with reflecting := m.reflecting.filter fun n => n != name }

end Memory

/-- A step that consults and extends the memory. -/
abbrev Recall := StateM Memory

/-- A step that may also fail; the memory is kept then. -/
abbrev Lookup := ExceptT AnnotationError Recall

/-- Whether a class exists; the registry is asked once. -/
def classExists (registry : Registry) (name : String) : Recall Bool := do
  match (← get).known.lookup name with
  | some present => return present
  | none =>
    let present := registry.exists? name
    modify fun m => m.learn name present
    return present

/-- The first of some names under which a class exists. -/
def firstExisting? (registry : Registry) : List String → Recall (Option String)
  | [] => return none
  | name :: rest => do
    if ← classExists registry (ClassName.bare name) then return some name
    firstExisting? registry rest

/-- The settings for doc comments of classes: the standard imports, the ignored names of the first
owner, and unresolved names passed over. -/
def docSettings (owner : Settings) : Recall Settings := do
  match (← get).docSettings? with
  | some settings => return settings
  | none =>
    let settings : Settings :=
      { imports := StandardName.imports
        ignoredNames := owner.ignoredNames
        ignoreNotImported := true }
    modify fun m => { m with docSettings? := some settings }
    return settings

end Docblock
