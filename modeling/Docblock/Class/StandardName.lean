/-!
# Names of the standard annotation classes

The standard annotations describe other annotations: where they may be used, what properties they
have and which values those take.
-/

namespace Docblock.StandardName

def marker : String := "Quill\\Annotation\\Annotation"

def target : String := "Quill\\Annotation\\Target"

def enumeration : String := "Quill\\Annotation\\Enum"

def singleAttribute : String := "Quill\\Annotation\\Attribute"

def attributes : String := "Quill\\Annotation\\Attributes"

def required : String := "Quill\\Annotation\\Required"

def ignoreAnnotation : String := "Quill\\Annotation\\IgnoreAnnotation"

/-- The imports under which doc comments of annotation classes use the standard annotations. -/
def imports : List (String × String) :=
  [("attribute", singleAttribute), ("attributes", attributes), ("enum", enumeration),
   ("ignoreannotation", ignoreAnnotation), ("target", target)]

end Docblock.StandardName
