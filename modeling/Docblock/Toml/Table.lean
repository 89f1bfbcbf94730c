/-!
# TOML tables

The values of a TOML document and the rules by which statements build its tables: a key is defined
once, and a table that was written inline or by dotted keys is not opened again by a header.
Fractional numbers, dates and arrays of tables are not part of this reader.
-/

namespace Docblock.Toml

/-- How a table came to be. -/
inductive Origin where
  | header
  /-- Named only on the way to another table. -/
  | implied
  | dotted
  | inline
deriving Repr, DecidableEq

inductive Node where
  | string (s : String)
  | integer (n : Int)
  | boolean (b : Bool)
  | array (items : List Node)
  | table (origin : Origin) (entries : List (String × Node))
deriving Repr, Inhabited

abbrev Entries := List (String × Node)

def replace (key : String) (node : Node) (entries : Entries) : Entries :=
  entries.map fun entry => if entry.1 = key then (key, node) else entry

/-- Define the value of a dotted key. -/
def define : List String → Node → Entries → Option Entries
  | [], _, _ => none
  | [key], node, entries =>
    if (entries.lookup key).isSome then none else some (entries ++ [(key, node)])
  | key :: path, node, entries =>
    match entries.lookup key with
    | none => (define path node []).map fun inner => entries ++ [(key, .table .dotted inner)]
    | some (.table .dotted inner) =>
      (define path node inner).map fun inner => replace key (.table .dotted inner) entries
    | some _ => none

/-- Open the table that a header names. -/
def openTable : List String → Entries → Option Entries
  | [], _ => none
  | [key], entries =>
    match entries.lookup key with
    | none => some (entries ++ [(key, .table .header [])])
    | some (.table .implied inner) => some (replace key (.table .header inner) entries)
    | some _ => none
  | key :: path, entries =>
    match entries.lookup key with
    | none => (openTable path []).map fun inner => entries ++ [(key, .table .implied inner)]
    | some (.table .inline _) => none
    | some (.table origin inner) =>
      (openTable path inner).map fun inner => replace key (.table origin inner) entries
    | some _ => none

/-- Change the entries of the table at a path. -/
def within : List String → (Entries → Option Entries) → Entries → Option Entries
  | [], f, entries => f entries
  | key :: path, f, entries =>
    match entries.lookup key with
    | some (.table origin inner) =>
      (within path f inner).map fun inner => replace key (.table origin inner) entries
    | _ => none

inductive Statement where
  | header (path : List String)
  | define (path : List String) (node : Node)
deriving Repr

/-- The table that statements build below the header `section`. -/
def build : List String → List Statement → Entries → Option Entries
  | _, [], entries => some entries
  | _, .header path :: rest, entries => (openTable path entries).bind (build path rest)
  | current, .define path node :: rest, entries =>
    (within current (define path node) entries).bind (build current rest)

end Docblock.Toml
