import Docblock.Value.Basic

/-!
# Arguments

Arguments are folded into one map. A named argument sets its name. The first argument without a
name becomes `value`, and further ones make a list of it.
-/

namespace Docblock

inductive Argument where
  | named (name : String) (v : Value)
  | positional (v : Value)

namespace Argument

def valueKey : Key := .ofString "value"

/-- A value as a list: an array as it is, anything else as a list of one. -/
def asList : Value → OrderedMap Value
  | .array items => items
  | v => .ofValues [v]

def add (values : OrderedMap Value) : Argument → OrderedMap Value
  | named name v => values.insert (.ofString name) v
  | positional v =>
    match values.set? "value" with
    | none => values.insert valueKey v
    | some _ => values.modify valueKey fun first => .array ((asList first).push v)

def fold (arguments : List Argument) : OrderedMap Value := arguments.foldl add .empty

@[simp] theorem fold_nil : fold [] = .empty := rfl

theorem fold_concat (arguments : List Argument) (a : Argument) :
    fold (arguments ++ [a]) = add (fold arguments) a := by
  simp [fold]

end Argument

end Docblock
