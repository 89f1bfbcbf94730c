import Docblock.Record.Basic
import Docblock.Schema.Annotation
import Docblock.Token.Basic

/-!
# Errors

Each error is one cause of failure with what it is about. The context says where the text came
from; its part of a message is left out when it is empty. The message opens with the family of the
error.
-/

namespace Docblock

namespace SchemaError

def message : SchemaError → String
  | duplicate name => "Metadata for annotation \"" ++ name ++ "\" is already registered"
  | multipleDefaults name properties =>
    "Annotation \"" ++ name ++ "\" declares more than one default property: "
      ++ Text.joined ", " properties

end SchemaError

/-- What a reader wanted to see ahead. -/
inductive Expectation where
  | kinds (accepted : List TokenKind)
  | name
  | value
  /-- Not another level of nesting below the given number of levels. -/
  | nesting (levels : Nat)
deriving Repr, DecidableEq

namespace Expectation

def describe : Expectation → String
  | kinds accepted => Text.joined " or " (accepted.map TokenKind.describe)
  | name => "namespace separator or identifier"
  | value => "PlainValue"
  | nesting levels =>
    "at most " ++ String.ofList (Nat.toDigits 10 levels) ++ " levels of nesting"

end Expectation

/-- A token met instead: its text and its offset. -/
structure Found where
  text : String
  offset : Nat
deriving Repr, DecidableEq

namespace Found

def ofToken (t : Token) : Found := ⟨t.text, t.start.offset⟩

def describe : Option Found → String
  | some found =>
    "'" ++ found.text ++ "' at position " ++ String.ofList (Nat.toDigits 10 found.offset)
  | none => "end of string"

end Found

inductive AnnotationError where
  | unexpected (expected : Expectation) (found : Option Found) (context : String)
  | illegalKey (keyType context : String)
  | notImported (name context : String)
  | classNotFound (name context : String)
  | notMarked (className name context : String)
  | targetNotAllowed (name context : String) (allowed : Target)
  | notEnumerated (property name context allowed given : String)
  | requiredMissing (property name context expected : String)
  | typeMismatch (property name context expected actual : String)
  | unknownProperty (name context property : String) (available : List String)
  | noValuesAccepted (name context values : String)
  | construction (name context reason : String)
  | undefinedConstant (reference context : String)
  /-- The schema of a class is needed to read the class itself. -/
  | circular (className : String)
  | schema (error : SchemaError)
  | record (error : RecordError)
deriving Repr, DecidableEq

namespace AnnotationError

/-- The context behind some words, or nothing. -/
def placed (words context : String) : String :=
  if context = "" then "" else words ++ context

def attributeOf (property name context : String) : String :=
  "Attribute \"" ++ property ++ "\" of @" ++ name ++ " declared" ++ placed " on " context

def message : AnnotationError → String
  | unexpected expected found context =>
    "[Syntax Error] Expected " ++ expected.describe ++ ", got " ++ Found.describe found
      ++ placed " in " context ++ "."
  | illegalKey keyType context =>
    "[Syntax Error] Illegal collection key of type " ++ keyType ++ placed " in " context ++ "."
  | notImported name context =>
    "[Semantical Error] The annotation \"@" ++ name ++ "\"" ++ placed " in " context
      ++ " was never imported. Did you maybe forget to add a \"use\" statement for this annotation?"
  | classNotFound name context =>
    "[Semantical Error] The annotation \"@" ++ name ++ "\"" ++ placed " in " context
      ++ " does not exist, or could not be auto-loaded."
  | notMarked className name context =>
    "[Semantical Error] The class \"" ++ className ++ "\" is not annotated with @Annotation. "
      ++ "Are you sure this class can be used as annotation? If so, then you need to add "
      ++ "@Annotation to the _class_ doc comment of \"" ++ className ++ "\". If it is indeed no "
      ++ "annotation, then you need to add @IgnoreAnnotation(\"" ++ name
      ++ "\") to the _class_ doc comment" ++ placed " in " context ++ "."
  | targetNotAllowed name context allowed =>
    "[Semantical Error] Annotation @" ++ name ++ " is not allowed to be declared"
      ++ placed " on " context ++ ". You may only use this annotation on these code elements: "
      ++ allowed.describe ++ "."
  | notEnumerated property name context allowed given =>
    "[Enum Error] " ++ attributeOf property name context ++ " accepts only [" ++ allowed
      ++ "], but got " ++ given ++ "."
  | requiredMissing property name context expected =>
    "[Type Error] " ++ attributeOf property name context ++ " expects " ++ expected
      ++ ". This value should not be null."
  | typeMismatch property name context expected actual =>
    "[Type Error] " ++ attributeOf property name context ++ " expects " ++ expected
      ++ ", but got " ++ actual ++ "."
  | unknownProperty name context property available =>
    "[Creation Error] The annotation @" ++ name ++ " declared" ++ placed " on " context
      ++ " does not have a property named \"" ++ property ++ "\". Available properties: "
      ++ Text.joined ", " available
  | noValuesAccepted name context values =>
    "[Creation Error] The annotation @" ++ name ++ " declared" ++ placed " on " context
      ++ " does not accept any values, but got " ++ values ++ "."
  | construction name context reason =>
    "[Creation Error] An error occurred while instantiating the annotation @" ++ name
      ++ " declared" ++ placed " on " context ++ ": \"" ++ reason ++ "\"."
  | undefinedConstant reference context =>
    "[Semantical Error] Couldn't find constant " ++ reference ++ placed ", " context ++ "."
  | circular className =>
    "[Semantical Error] Annotation metadata for \"" ++ className ++ "\" depends on itself."
  | schema error => error.message
  | record error => error.message

/-- Errors of the written form, as opposed to its meaning. -/
def isSyntactic : AnnotationError → Bool
  | unexpected .. | illegalKey .. => true
  | _ => false

end AnnotationError

end Docblock
