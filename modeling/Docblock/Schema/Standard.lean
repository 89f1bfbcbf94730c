import Docblock.Class.StandardName
import Docblock.Schema.Table

/-!
# Schemas of the standard annotation classes

These schemas are given and never read from doc comments.
-/

namespace Docblock.SchemaTable

def standardAttribute : AnnotationSchema where
  name := StandardName.singleAttribute
  target := .nested
  usesConstructor := false
  properties :=
    [{ name := "name", type? := some (.ofName "string"), required := true, isDefault := true },
     { name := "type", type? := some (.ofName "string"), required := true },
     { name := "required", type? := some (.ofName "boolean") }]

def standardAttributes : AnnotationSchema where
  name := StandardName.attributes
  target := .onClass
  usesConstructor := false
  properties :=
    [{ name := "value"
       type? := some (.array (some StandardName.singleAttribute)
         ("array<" ++ StandardName.singleAttribute ++ ">"))
       required := true
       isDefault := true }]

def standardEnumeration : AnnotationSchema where
  name := StandardName.enumeration
  target := .onProperty
  usesConstructor := true
  properties :=
    [{ name := "value", type? := some (.array none "array"), required := true, isDefault := true },
     { name := "literal", type? := some (.array none "array") }]

def standardTarget : AnnotationSchema where
  name := StandardName.target
  target := .onClass
  usesConstructor := true
  properties :=
    [{ name := "value"
       type? := some (.array (some "string") "array<string>")
       isDefault := true }]

def standardRequired : AnnotationSchema where
  name := StandardName.required
  target := .onProperty
  usesConstructor := false
  properties := []

def standardIgnoreAnnotation : AnnotationSchema where
  name := StandardName.ignoreAnnotation
  target := .onClass
  usesConstructor := true
  properties := [{ name := "value", isDefault := true }]

def standardSchemas : List AnnotationSchema :=
  [standardAttribute, standardAttributes, standardEnumeration, standardTarget, standardRequired,
   standardIgnoreAnnotation]

def standard : SchemaTable := (empty.addAll standardSchemas).1

/-- No two of the standard schemas share a name. -/
theorem addAll_standardSchemas : (empty.addAll standardSchemas).2 = none := rfl

end Docblock.SchemaTable
