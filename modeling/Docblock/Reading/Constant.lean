import Docblock.Reading.Name

/-!
# Constants

A name in place of a value refers to a constant, to a constant of a class, or with `::class` to the
name of a class. The class part of a reference that is no constant as written is resolved first.
-/

namespace Docblock

/-- The reference with its class part resolved. -/
def resolveReference (registry : Registry) (s : Settings) (reference : String) : Recall String := do
  if (registry.constant? reference).isSome || ClassName.isQualified reference then
    return reference
  match ClassName.constantReference? reference with
  | none => return reference
  | some (className, constant) =>
    match ← resolveConstantClass? registry s className with
    | some resolved => return resolved ++ "::" ++ constant
    | none => return reference

/-- The value of a resolved reference. -/
def referenceValue? (registry : Registry) (reference : String) : Option Value :=
  match ClassName.classLiteral? reference with
  | some className => some (.string className)
  | none => registry.constant? (ClassName.bare reference)

namespace Reading

def constant (scope : Scope) : Reading Value := do
  let written ← identifier scope
  let reference ← resolveReference scope.registry scope.settings written
  match referenceValue? scope.registry reference with
  | some v => return v
  | none => throw (.undefinedConstant reference scope.context)

end Reading

end Docblock
