import Docblock.Class.Registry
import Docblock.Class.StandardName
import Docblock.Target
import Docblock.Value.Json
import Docblock.Value.LooseEquality

/-!
# The standard annotation classes

Every registry starts with these classes. Three of them have constructors that check their
arguments and store them in the form in which the records are read.
-/

namespace Docblock.Standard

/-- The names a target annotation lists. -/
def targetNames (values : OrderedMap Value) : Except String (List Value) :=
  match values.set? "value" with
  | some (.string s) => .ok [.string s]
  | some (.array items) => .ok items.values
  | other =>
    let actual := match other with
      | some v => v.typeName
      | none => "NULL"
    .error ("@Target expects either a string value, or an array of strings, but got " ++ actual
      ++ ".")

def namedTarget (v : Value) : Except String Target :=
  match v.string?.bind Target.ofName? with
  | some target => .ok target
  | none =>
    .error ("Invalid Target \"" ++ v.toString ++ "\". Available targets: ["
      ++ Target.availableNames ++ "]")

def constructTarget : Constructor := fun className values => do
  let names ← targetNames values
  let targets ← names.mapM namedTarget
  let mask := (targets.foldl Target.union .none).bits
  let properties := (OrderedMap.empty : OrderedMap Value)
    |>.insert (.ofString "value") (.array (.ofValues names))
    |>.insert (.ofString "targets") (.int (Int64.ofNat mask))
    |>.insert (.ofString "literal") (.string (Text.joined ", " (names.map Value.toString)))
  .ok ⟨className, properties⟩

/-- The values of an enumeration; a single value stands for a list of one. -/
def enumerators (values : OrderedMap Value) : OrderedMap Value :=
  match values.set? "value" with
  | some (.array items) => items
  | some single => .ofValues [single]
  | none => .empty

def enumeratorLabels (values : OrderedMap Value) : Except String (OrderedMap Value) :=
  match values.set? "literal" with
  | some (.array items) => .ok items
  | some other => .error ("@Enum literal expects an array, but got " ++ other.typeName ++ ".")
  | none => .ok .empty

def checkScalars (items : List Value) : Except String Unit :=
  match items.find? fun v => !v.isScalar with
  | some v => .error ("@Enum supports only scalar values \"" ++ v.typeName ++ "\" given.")
  | none => .ok ()

/-- Every label belongs to a value that is loosely equal to its key. -/
def checkLabels (items : List Value) (labels : List (Key × Value)) : Except String Unit :=
  match labels.find? fun entry => !items.any fun v => v.looselyEquals entry.1.toValue with
  | some (key, label) =>
    .error ("Undefined enumerator value \"" ++ key.toString ++ "\" for literal \""
      ++ label.toString ++ "\".")
  | none => .ok ()

def constructEnumeration : Constructor := fun className values => do
  let items := enumerators values
  checkScalars items.values
  let labels ← enumeratorLabels values
  checkLabels items.values labels.entries
  let properties := (OrderedMap.empty : OrderedMap Value)
    |>.insert (.ofString "value") (.array items)
    |>.insert (.ofString "literal") (.array labels)
  .ok ⟨className, properties⟩

def constructIgnoreAnnotation : Constructor := fun className values => do
  let names ← match values.named? "value" with
    | some (.string s) => .ok (OrderedMap.ofValues [Value.string s])
    | some (.array items) => .ok items
    | other =>
      .error ("@IgnoreAnnotation expects either a string name, or an array of strings, but got "
        ++ (other.getD .null).json ++ ".")
  .ok ⟨className, OrderedMap.empty.insert (.ofString "names") (.array names)⟩

def onClassDoc : String := "/**\n * @Annotation\n * @Target(\"CLASS\")\n */"

def onPropertyDoc : String := "/**\n * @Annotation\n * @Target(\"PROPERTY\")\n */"

def onAnnotationDoc : String := "/**\n * @Annotation\n * @Target(\"ANNOTATION\")\n */"

def plain (name : String) : PropertyDeclaration := { name }

def classes : List ClassDeclaration :=
  [.make StandardName.marker "/** Marker for annotation classes. */",
   .make StandardName.target onClassDoc [plain "value", plain "targets", plain "literal"] [] []
     (some constructTarget),
   .make StandardName.enumeration onPropertyDoc [plain "value", plain "literal"] [] []
     (some constructEnumeration),
   .make StandardName.singleAttribute onAnnotationDoc
     [⟨"name", "/** @var string */", .null⟩, ⟨"type", "/** @var string */", .null⟩,
      ⟨"required", "/** @var bool */", .bool false⟩],
   .make StandardName.attributes onClassDoc [⟨"value", "/** @var array<Attribute> */", .null⟩],
   .make StandardName.required onPropertyDoc,
   .make StandardName.ignoreAnnotation onClassDoc [plain "names"] [] []
     (some constructIgnoreAnnotation)]

end Docblock.Standard

namespace Docblock.Registry

/-- The registry that holds the standard classes only. -/
def standard : Registry := Standard.classes.foldl register empty

end Docblock.Registry
