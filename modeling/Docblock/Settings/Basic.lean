import Docblock.ClassName
import Docblock.Json
import Docblock.Settings.Sorted
import Docblock.Target
import Docblock.Text.LowerCase

/-!
# Settings

How the names of annotations are resolved and which unresolved names are passed over. Names are
resolved in namespaces or through imports, never through both. Import aliases are found regardless
of case.
-/

namespace Docblock

inductive SettingsError where
  | importsAndNamespaces
  /-- A namespace without any segment. -/
  | emptyNamespace (written : String)
  /-- A settings document that cannot be read. -/
  | unreadable
deriving Repr, DecidableEq

namespace SettingsError

/-- The text of an error; what makes a document unreadable is not told. -/
def message? : SettingsError → Option String
  | importsAndNamespaces =>
    some "You have to either use addNamespace(), or setImports(), but not both."
  | emptyNamespace written =>
    some ("Invalid value for namespaces: " ++ written ++ " (namespace must not be empty)")
  | unreadable => none

end SettingsError

structure Settings where
  /-- Namespaces in which names are looked up, in order. -/
  namespaces : List String := []
  /-- Class names by alias, sorted. -/
  imports : List (String × String) := []
  ignoredNames : List String := []
  ignoredNamespaces : List String := []
  ignoreNotImported : Bool := false
  /-- Where top-level annotations stand; the empty target switches the check off. -/
  target : Target := .none
deriving Repr, DecidableEq, Inhabited

namespace Settings

/-- The alias of the namespace of the code that is read. -/
def namespaceAlias : String := "__NAMESPACE__"

def check (s : Settings) : Except SettingsError Unit :=
  if !s.namespaces.isEmpty && !s.imports.isEmpty then .error .importsAndNamespaces
  else
    match s.namespaces.find? ClassName.isBlankPath with
    | some written => .error (.emptyNamespace written)
    | none => .ok ()

/-- The import under an alias, regardless of case. -/
def import? (s : Settings) (shortName : String) : Option String :=
  (s.imports.find? fun entry => Text.lower entry.1 == Text.lower shortName).map Prod.snd

def currentNamespace? (s : Settings) : Option String := s.import? namespaceAlias

/-- A name in the form in which namespaces are compared: one separator behind it, lower case. -/
def comparable (name : String) : String := Text.lower (ClassName.stem name ++ "\\")

def inNamespace (name nameSpace : String) : Bool :=
  (comparable nameSpace).toList.isPrefixOf (comparable name).toList

/-- Whether an unresolved name is passed over. -/
def isIgnored (s : Settings) (name : String) : Bool :=
  s.ignoreNotImported || s.ignoredNames.contains name
    || s.ignoredNamespaces.any fun nameSpace => inNamespace name nameSpace

def addNamespace (s : Settings) (nameSpace : String) : Except SettingsError Settings :=
  if s.imports.isEmpty then .ok { s with namespaces := s.namespaces ++ [nameSpace] }
  else .error .importsAndNamespaces

/-- The table of imports with aliases in lower case; of two equal aliases the later counts. -/
def importTable (imports : List (String × String)) : List (String × String) :=
  Sorted.table (imports.map fun entry => (Text.lower entry.1, entry.2))

def setImports (s : Settings) (imports : List (String × String)) : Except SettingsError Settings :=
  if s.namespaces.isEmpty then .ok { s with imports := importTable imports }
  else .error .importsAndNamespaces

def setIgnoredNames (s : Settings) (names : List String) : Settings :=
  { s with ignoredNames := Sorted.set names }

def setIgnoredNamespaces (s : Settings) (namespaces : List String) : Settings :=
  { s with ignoredNamespaces := Sorted.set namespaces }

def setIgnoreNotImported (s : Settings) (ignore : Bool) : Settings :=
  { s with ignoreNotImported := ignore }

def setTarget (s : Settings) (target : Target) : Settings := { s with target := target }

/-- The settings as they are installed from a document: aliases in lower case, and checked. -/
def install (s : Settings) : Except SettingsError Settings :=
  let installed := { s with imports := importTable s.imports }
  match installed.check with
  | .ok () => .ok installed
  | .error e => .error e

def json (s : Settings) : String :=
  String.ofList <| Json.object
    [Json.field "namespaces" (Json.list (s.namespaces.map Json.text)),
     Json.field "imports" (Json.object (s.imports.map fun entry =>
       Json.field entry.1 (Json.text entry.2))),
     Json.field "ignored_annotation_names" (Json.list (s.ignoredNames.map Json.text)),
     Json.field "ignored_annotation_namespaces" (Json.list (s.ignoredNamespaces.map Json.text)),
     Json.field "ignore_not_imported_annotations" (Json.bool s.ignoreNotImported),
     Json.field "target" (Nat.toDigits 10 s.target.bits)]

end Settings

end Docblock
