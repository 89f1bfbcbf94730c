import Docblock.Text.Trim

/-!
# Class names

A class name is a path of segments joined by backslashes. A leading backslash marks a name as
fully qualified, and a class constant is written behind two colons.
-/

namespace Docblock.ClassName

def isSeparator (c : Char) : Bool := c == '\\'

/-- The name without the separators in front of it. -/
def bare (name : String) : String := Text.trimStart isSeparator name

/-- The name without the separators behind it. -/
def stem (name : String) : String := Text.trimEnd isSeparator name

/-- The name without one leading separator, as classes are registered. -/
def registered (name : String) : String :=
  match name.toList with
  | '\\' :: rest => String.ofList rest
  | _ => name

def isQualified (name : String) : Bool := name.toList.head? == some '\\'

def isBlankPath (name : String) : Bool := name.toList.all isSeparator

/-- The name inside a namespace. -/
def inside (nameSpace name : String) : String := nameSpace ++ "\\" ++ name

/-- The first segment, by which imports are found. -/
def firstSegment (name : String) : String :=
  String.ofList (name.toList.takeWhile fun c => !isSeparator c)

/-- What follows the first segment, separator included. -/
def afterFirstSegment (name : String) : String :=
  String.ofList (name.toList.dropWhile fun c => !isSeparator c)

/-- The parts of a text between occurrences of `::`. -/
def constantParts : List Char → List (List Char)
  | ':' :: ':' :: rest => [] :: constantParts rest
  | [] => [[]]
  | c :: rest =>
    match constantParts rest with
    | [] => [[c]]
    | part :: parts => (c :: part) :: parts

/-- The first two parts of a reference to a class constant. -/
def constantReference? (reference : String) : Option (String × String) :=
  match constantParts reference.toList with
  | className :: constant :: _ => some (String.ofList className, String.ofList constant)
  | _ => none

/-- The class and everything behind the first `::`. -/
def memberReference? (reference : String) : Option (String × String) :=
  (Text.cut? "::".toList reference.toList).map fun (className, constant) =>
    (String.ofList className, String.ofList constant)

/-- The class named by a reference that ends in `::class`, in any case. -/
def classLiteral? (reference : String) : Option String :=
  let cs := reference.toList
  let className := cs.take (cs.length - 7)
  if 7 ≤ cs.length && (cs.drop (cs.length - 7)).map Char.toLower == "::class".toList then
    some (String.ofList className)
  else none

theorem firstSegment_append_after (name : String) :
    firstSegment name ++ afterFirstSegment name = name := by
  simp [firstSegment, afterFirstSegment, ← String.ofList_append]

end Docblock.ClassName
