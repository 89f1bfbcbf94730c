import Docblock.Proofs.Parser.Failures
import Docblock.Proofs.Parser.Tidy

/-!
# Families of errors

Messages of errors open with the family of the error, except those about making a schema, which
never come up, and those about reading a record. The latter are about attributes, or about the
names to ignore when these are collected: the checks do not see to everything that the records ask
for.
-/

namespace Docblock

namespace AnnotationError

def families : List String :=
  ["[Syntax Error]", "[Semantical Error]", "[Enum Error]", "[Type Error]", "[Creation Error]"]

def HasFamily (e : AnnotationError) : Prop :=
  ∃ family ∈ families, family.toList <+: e.message.toList

-- The definitions of messages are opened here, as their equations take too long to derive.

theorem not_hasFamily_record (r : RecordError) : ¬ (record r).HasFamily := by
  have hheads : ∀ family ∈ families, family.toList.head? = some '[' := by simp [families]
  have hhead : (record r).message.toList.head? ≠ some '[' := by
    delta message RecordError.message
    cases r <;> simp
  rintro ⟨family, hfamily, rest, hrest⟩
  apply hhead
  rw [← hrest, List.head?_append, hheads family hfamily]
  rfl

/-- All messages open with a family but for those of schemas and records. -/
theorem hasFamily_of_ne {e : AnnotationError} (hrecord : ∀ r, e ≠ record r)
    (hschema : ∀ s, e ≠ schema s) : e.HasFamily := by
  have hopens {family opening : String} {rest : List Char} (h : family.toList <+: opening.toList) :
      family.toList <+: opening.toList ++ rest := h.trans (List.prefix_append _ _)
  unfold HasFamily
  delta message
  cases e with
  | record r => exact absurd rfl (hrecord r)
  | schema s => exact absurd rfl (hschema s)
  | unexpected | illegalKey =>
    refine ⟨"[Syntax Error]", by decide, ?_⟩
    simp only [String.toList_append, List.append_assoc]
    exact hopens (by decide)
  | notImported | classNotFound | notMarked | targetNotAllowed | undefinedConstant | circular =>
    refine ⟨"[Semantical Error]", by decide, ?_⟩
    simp only [String.toList_append, List.append_assoc]
    exact hopens (by decide)
  | notEnumerated =>
    refine ⟨"[Enum Error]", by decide, ?_⟩
    simp only [String.toList_append, List.append_assoc]
    exact hopens (by decide)
  | requiredMissing | typeMismatch =>
    refine ⟨"[Type Error]", by decide, ?_⟩
    simp only [String.toList_append, List.append_assoc]
    exact hopens (by decide)
  | unknownProperty | noValuesAccepted | construction =>
    refine ⟨"[Creation Error]", by decide, ?_⟩
    simp only [String.toList_append, List.append_assoc]
    exact hopens (by decide)

end AnnotationError

namespace Parser

variable {registry : Registry} {p : Parser}

/-- The message of every error opens with a family, unless the error is about a record. -/
theorem hasFamily_of_respond (hreachable : Reachable registry p) (hkeeps : registry.KeepsStandard)
    {request : Request} {e : AnnotationError} (herror : (p.respond request).1.error? = some e) :
    (e.HasFamily ↔ ∀ r, e ≠ .record r) ∧
      (registry.IsInert → e.RecordIn (request.Misreads registry.isSubclass)) := by
  obtain ⟨names, hfaithful⟩ := hreachable.faithful
  constructor
  · refine ⟨?_, fun hrecord => AnnotationError.hasFamily_of_ne hrecord ?_⟩
    · rintro hfamily r rfl
      exact AnnotationError.not_hasFamily_record r hfamily
    · rintro s rfl
      exact hfaithful.error_ne_schema request s herror
  · intro hinert
    exact hfaithful.recordIn_of_respond hkeeps hinert herror

/-- A class that inherits from the standard attribute, and classes with attributes that pass all
checks and still are no records. -/
def attributeClasses : List ClassDeclaration :=
  [.make "Field" "/** @Annotation */" [Standard.plain "name"] [StandardName.singleAttribute],
   .make "Inherited" "/** @Annotation @Attributes(\x7b@\\Field(\"a\")\x7d) */",
   .make "Misnamed"
     "/** @Annotation @Attributes(\x7b@Attribute(name = \"a\", 5, type = \"int\")\x7d) */",
   .make "Unnamed"
     "/** @Annotation @Attributes(\x7b@Attribute(name = \"a\", null, type = \"int\")\x7d) */"]

def attributeParser : Parser := .new (attributeClasses.foldl Registry.register .standard)

theorem keepsStandard_attributeParser : attributeParser.registry.KeepsStandard := by
  have hfresh : ∀ c ∈ attributeClasses, Registry.standard.lookup? c.name = none := by
    unfold attributeClasses
    simp only [List.forall_mem_cons, List.not_mem_nil, false_implies, implies_true, and_true]
    exact ⟨rfl, rfl, rfl, rfl⟩
  exact List.foldlRecOn attributeClasses _ Registry.keepsStandard_standard
    fun _ h c hc => h.register (hfresh c hc)

theorem inert_attributeParser : attributeParser.registry.IsInert := by
  have hinert : ∀ c ∈ attributeClasses, c.IsInert := by
    unfold attributeClasses
    simp only [List.forall_mem_cons, List.not_mem_nil, false_implies, implies_true, and_true]
    exact ⟨inert_make (by decide) nofun, inert_make (by decide) nofun,
      inert_make (by decide) nofun, inert_make (by decide) nofun⟩
  exact List.foldlRecOn attributeClasses _ Registry.inert_standard
    fun _ h c hc => h.register (hinert c hc)

/-- The attribute of `Inherited` is of a class that inherits from the standard one, which the checks
allow. The other attributes are given a name twice. -/
theorem errors_attributeParser :
    (attributeParser.respond (.parse "@\\Missing" "")).1.error? =
        some (.classNotFound "Missing" "") ∧
      (attributeParser.respond (.parse "@\\Inherited" "")).1.error? =
        some (.record (.wrongClass StandardName.singleAttribute "Field")) ∧
      (attributeParser.respond (.parse "@\\Misnamed" "")).1.error? =
        some (.record (.invalid StandardName.singleAttribute "name" "string" "integer")) ∧
      (attributeParser.respond (.parse "@\\Unnamed" "")).1.error? =
        some (.record (.missing StandardName.singleAttribute "name")) ∧
      (attributeParser.respond (.collectIgnoredNames "@IgnoreAnnotation(\x7b1\x7d)" "")).1.error? =
        some (.record (.invalid StandardName.ignoreAnnotation "names" "string" "integer")) := by
  refine ⟨?_, ?_, ?_, ?_, ?_⟩
  all_goals decide +kernel

theorem hasFamily_of_respond_attributes :
    (AnnotationError.classNotFound "Missing" "").HasFamily ∧
      Request.Misreads attributeParser.registry.isSubclass (.parse "@\\Inherited" "")
        (.wrongClass StandardName.singleAttribute "Field") := by
  obtain ⟨hmissing, hinherited, -⟩ := errors_attributeParser
  have hreachable : Reachable _ attributeParser := .new
  exact ⟨(hasFamily_of_respond hreachable keepsStandard_attributeParser hmissing).1.2 nofun,
    (hasFamily_of_respond hreachable keepsStandard_attributeParser hinherited).2
      inert_attributeParser _ rfl⟩

/-- Records of every kind come up. -/
theorem not_hasFamily_attributes :
    attributeParser.registry.KeepsStandard ∧
      (∃ e, (attributeParser.respond (.parse "@\\Inherited" "")).1.error? = some e ∧
        ¬ e.HasFamily) ∧
      (∃ e, (attributeParser.respond (.parse "@\\Misnamed" "")).1.error? = some e ∧
        ¬ e.HasFamily) ∧
      (∃ e, (attributeParser.respond (.parse "@\\Unnamed" "")).1.error? = some e ∧
        ¬ e.HasFamily) ∧
      ∃ e, (attributeParser.respond
          (.collectIgnoredNames "@IgnoreAnnotation(\x7b1\x7d)" "")).1.error? = some e ∧
        ¬ e.HasFamily := by
  have hrecord (r : RecordError) := AnnotationError.not_hasFamily_record r
  obtain ⟨-, hinherited, hmisnamed, hunnamed, hignored⟩ := errors_attributeParser
  exact ⟨keepsStandard_attributeParser, ⟨_, hinherited, hrecord _⟩, ⟨_, hmisnamed, hrecord _⟩,
    ⟨_, hunnamed, hrecord _⟩, _, hignored, hrecord _⟩

end Parser

end Docblock
