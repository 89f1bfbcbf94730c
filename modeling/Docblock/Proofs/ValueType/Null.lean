import Docblock.ValueType

/-!
# Types that null belongs to

Whether null belongs to a type can be told from the type alone: it takes no class, no collection and
no constant to decide it. Every type of values, a union or an intersection included, gives the same
answer as the check of the value null.
-/

namespace Docblock

theorem ConstantType.accepts_null (only : ConstantType) : only.accepts .null = false := by
  cases only <;> rfl

namespace ValueType

variable (classes : Hierarchy)

mutual

theorem acceptsNull_eq : (type : ValueType) → type.acceptsNull = type.accepts classes .null
  | .mixed | .null | .boolean | .integer | .float | .string | .object none | .object (some _)
  | .list _ | .map _ _ => by
    unfold acceptsNull accepts
    rfl
  | .union members => by
    unfold acceptsNull accepts
    exact someAcceptsNull_eq members
  | .intersection members => by
    unfold acceptsNull accepts
    exact allAcceptNull_eq members
  | .constant only => by
    unfold acceptsNull accepts
    exact only.accepts_null.symm

theorem someAcceptsNull_eq : (members : List ValueType) →
    someAcceptsNull members = someAccepts classes members .null
  | [] => by
    unfold someAcceptsNull someAccepts
    rfl
  | member :: rest => by
    unfold someAcceptsNull someAccepts
    rw [acceptsNull_eq member, someAcceptsNull_eq rest]

theorem allAcceptNull_eq : (members : List ValueType) →
    allAcceptNull members = allAccept classes members .null
  | [] => by
    unfold allAcceptNull allAccept
    rfl
  | member :: rest => by
    unfold allAcceptNull allAccept
    rw [acceptsNull_eq member, allAcceptNull_eq rest]

end

/-- A type is known to accept null exactly if the value null passes its check, whatever the class
hierarchy. -/
theorem acceptsNull_iff_accepts (type : ValueType) (classes : Hierarchy) :
    type.acceptsNull = true ↔ type.accepts classes .null = true := by
  rw [acceptsNull_eq classes type]

end ValueType

end Docblock
