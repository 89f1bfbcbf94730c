import Docblock.Class.Standard
import Docblock.Parser

/-!
# A sample application

A small application to try parsers on: its annotation classes, its mapping classes with an entity,
its constants, and parsers that resolve names in the three possible ways.
-/

namespace Docblock.Sample

/-- A doc comment of several lines. -/
def docComment (lines : List String) : String :=
  "/**\n" ++ String.join (lines.map fun line => " * " ++ line ++ "\n") ++ " */"

def annotationDoc : String := docComment ["@Annotation"]

def documented (name : String) (lines : List String) (default : Value := .null) :
    PropertyDeclaration :=
  ⟨name, docComment lines, default⟩

def undocumented (name : String) : PropertyDeclaration := { name }

def emptyArray : Value := .array .empty

def strings (items : List String) : Value := .array (.ofValues (items.map Value.string))

def annotationClasses : List ClassDeclaration :=
  [.make "App\\Annotation\\Name" annotationDoc [undocumented "foo"],
   .make "App\\Annotation\\Marker" (docComment ["A flag without values.", "", "@Annotation"]),
   .make "App\\Annotation\\Route"
     (docComment ["@Annotation", "@Target(\x7b\"METHOD\", \"CLASS\"\x7d)"])
     [documented "path" ["@var string", "@Required"],
      documented "name" ["@var string"],
      documented "methods" ["@var array<string>"] emptyArray,
      documented "defaults" ["@var array"] emptyArray]
     [] [("GET", .string "GET")],
   .make "App\\Annotation\\Typed" annotationDoc
     [documented "mixed" ["@var mixed"],
      documented "flag" ["@var bool"],
      documented "count" ["@var int"],
      documented "ratio" ["@var float"],
      documented "label" ["@var string"],
      documented "numbers" ["@var array<integer>"],
      documented "tags" ["@var string[]"],
      documented "node" ["@var App\\Annotation\\Node"],
      documented "nodes" ["@var array<App\\Annotation\\Node>"]],
   .make "App\\Annotation\\RequiredValue" annotationDoc [documented "value" ["@Required"]],
   .make "App\\Annotation\\ClassOnly" (docComment ["@Annotation", "@Target(\"CLASS\")"])
     [undocumented "value"],
   .make "App\\Annotation\\PropertyOnly" (docComment ["@Annotation", "@Target(\"PROPERTY\")"])
     [undocumented "value"],
   .make "App\\Annotation\\NestedOnly" (docComment ["@Annotation", "@Target(\"ANNOTATION\")"])
     [undocumented "value"],
   .make "App\\Annotation\\WithConstructor" annotationDoc [] [] [] (some Constructor.keep),
   .make "App\\Annotation\\StrictConstructor" annotationDoc [] [] []
     (some Constructor.keepMandatory),
   .make "App\\Annotation\\WithAttributes"
     (docComment
       ["@Annotation",
        "@Attributes(\x7b",
        "  @Attribute(\"label\", type = \"string\", required = true),",
        "  @Attribute(\"weight\", type = \"int\"),",
        "  @Attribute(\"labels\", type = \"array<string>\"),",
        "\x7d)"])
     [undocumented "label", undocumented "weight", undocumented "labels"],
   .make "App\\Annotation\\Node" annotationDoc [undocumented "value"],
   .make "App\\Annotation\\Leaf" annotationDoc [undocumented "value"] ["App\\Annotation\\Node"],
   .make "App\\Annotation\\Loop" (docComment ["@Annotation", "@\\App\\Annotation\\Loop"]),
   .make "App\\Annotation\\NotAnnotation" (docComment ["Plain class."]) [undocumented "value"]]

def onPropertyOrAnnotation : String :=
  docComment ["@Annotation", "@Target(\x7b\"PROPERTY\", \"ANNOTATION\"\x7d)"]

def mappingClasses : List ClassDeclaration :=
  [.make "App\\Mapping\\Entity" (docComment ["@Annotation", "@Target(\"CLASS\")"])
     [documented "repositoryClass" ["@var string"],
      documented "readOnly" ["@var bool"] (.bool false)],
   .make "App\\Mapping\\Column" onPropertyOrAnnotation
     [documented "name" ["@var string"],
      documented "type"
        ["@var string", "@Enum(\x7b\"string\", \"integer\", \"boolean\", \"datetime\"\x7d)"]
        (.string "string"),
      documented "length" ["@var integer"],
      documented "nullable" ["@var bool"] (.bool false),
      documented "options" ["@var array"] emptyArray],
   .make "App\\Mapping\\JoinTable" onPropertyOrAnnotation
     [documented "name" ["@var string"],
      documented "joinColumns" ["@var array<App\\Mapping\\JoinColumn>"] emptyArray,
      documented "inverseJoinColumns" ["@var array<App\\Mapping\\JoinColumn>"] emptyArray],
   .make "App\\Mapping\\JoinColumn" onPropertyOrAnnotation
     [documented "name" ["@var string"],
      documented "referencedColumnName" ["@var string"] (.string "id")],
   .make "App\\Entity\\User" (docComment ["@Entity"]) [] []
     [("ROLE_ADMIN", .string "admin"), ("MAX_LOGINS", .int 3)]]

def constants : List (String × Value) :=
  [("APP_VERSION", .string "1.2.0"), ("APP_LIMIT", .int 42),
   ("APP_CHANNELS", strings ["web", "cli"]), ("App\\Annotation\\FLAG", .bool true)]

/-- The standard classes and those of the application. -/
def registry : Registry :=
  let classes := (annotationClasses ++ mappingClasses).foldl Registry.register .standard
  constants.foldl (fun r entry => r.defineConstant entry.1 entry.2) classes

/-- Names are written in full. -/
def plainParser : Parser := .new registry

/-- Names are looked up in the namespace of the annotation classes. -/
def namespacedParser : Parser :=
  { plainParser with settings := { namespaces := ["App\\Annotation"] } }

def imports : List (String × String) :=
  [("Route", "App\\Annotation\\Route"), ("Name", "App\\Annotation\\Name"),
   ("ORM", "App\\Mapping"), ("User", "App\\Entity\\User"),
   (Settings.namespaceAlias, "App\\Annotation")]

/-- Names are imported, or belong to the namespace of the annotation classes. -/
def importingParser : Parser :=
  { plainParser with settings := { imports := Settings.importTable imports } }

end Docblock.Sample
