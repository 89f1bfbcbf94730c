import Docblock.Decimal.Integer
import Docblock.Settings.Basic
import Docblock.Toml.Reading

/-!
# Settings documents

Settings are written as a TOML table. Every field may be missing, and no other field may occur.
-/

namespace Docblock.Settings

open Toml (Node Entries)

def text? : Node → Option String
  | .string s => some s
  | _ => none

def texts? : Node → Option (List String)
  | .array items => items.mapM text?
  | _ => none

def imports? : Node → Option (List (String × String))
  | .table _ entries =>
    (entries.mapM fun entry => (text? entry.2).map fun s => (entry.1, s)).map Sorted.table
  | _ => none

def target? : Node → Option Target
  | .integer n => if 0 ≤ n then Target.ofBits? n.toNat else none
  | _ => none

/-- Set the field that an entry of the table names. -/
def withField (s : Settings) : String × Node → Option Settings
  | ("namespaces", node) => (texts? node).map fun names => { s with namespaces := names }
  | ("imports", node) => (imports? node).map fun imports => { s with imports := imports }
  | ("ignored_annotation_names", node) => (texts? node).map s.setIgnoredNames
  | ("ignored_annotation_namespaces", node) => (texts? node).map s.setIgnoredNamespaces
  | ("ignore_not_imported_annotations", .boolean ignore) => some (s.setIgnoreNotImported ignore)
  | ("target", node) => (target? node).map s.setTarget
  | _ => none

def ofTable? (entries : Entries) : Option Settings := entries.foldlM withField {}

/-- Read and install the settings of a document. -/
def load (document : String) : Except SettingsError Settings :=
  match (Toml.read? document).bind ofTable? with
  | some s => s.install
  | none => .error .unreadable

end Docblock.Settings
