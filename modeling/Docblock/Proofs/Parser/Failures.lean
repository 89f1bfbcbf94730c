import Docblock.Proofs.Parser.Cycles
import Docblock.Proofs.Schema.Records

/-!
# Records that requests fail for

A request that fails because a record cannot be read fails for an attribute of some class, or for
the names to ignore if these are asked for. All other records can be read whenever they are made.
-/

namespace Docblock

open Reflection

namespace Parser

inductive Request.Misreads (classes : Hierarchy) : Request → RecordError → Prop
  | attribute {request : Request} {r : RecordError} :
      r.OfAttribute classes → Misreads classes request r
  | ignoredName {doc context : String} {r : RecordError} :
      r.OfIgnoredName → Misreads classes (.collectIgnoredNames doc context) r

variable {registry : Registry} {names : List String} {p : Parser}

section Scratch

variable (hkeeps : registry.KeepsStandard) (hinert : registry.IsInert)

include hkeeps hinert

theorem failsOnly_scratch (settings : Settings) (context : String) (target : Target)
    (input : String) : Lookup.FailsOnly
      (AnnotationError.RecordIn (RecordError.OfAttribute registry.isSubclass))
      (readDoc (scratchScope registry names settings context) target input) :=
  failsOnly_readerFrom (failsOnly_schemaFromScratch hkeeps hinert []) context target input

theorem failsOnly_scratchNames (doc context : String) : Lookup.FailsOnly
    (AnnotationError.RecordIn
      (Request.Misreads registry.isSubclass (.collectIgnoredNames doc context)))
    (scratchNames registry names doc context) := by
  have hread :=
    @failsOnly_scratch registry names hkeeps hinert (.forDocs names) context .onClass doc
  refine .bind (fun m n e h r hr => .attribute (hread m n e h r hr)) fun as has => ?_
  cases hall : Record.ignoredNames.all as with
  | ok names => exact Lookup.failsOnly_pure _
  | error r =>
    refine Lookup.failsOnly_throw (AnnotationError.recordIn_record (.ignoredName ?_))
    obtain ⟨a, ha, hfailed⟩ := Except.exists_of_mapM_eq_error hall
    obtain ⟨hmem, hselected⟩ := List.mem_filter.1 ha
    have hclass : a.className = StandardName.ignoreAnnotation := eq_of_beq hselected
    obtain ⟨place, given, hobject⟩ := objectOf_of_standard hinert
      (madeOn_of_scratch hkeeps hinert has a hmem) (s := SchemaTable.standardIgnoreAnnotation)
      (by rw [hclass]; rfl)
    exact Record.ignoredNames_error_of_objectOf hkeeps hclass hobject hfailed

/-- A parser in use fails for these records only. -/
theorem Faithful.recordIn_of_respond (h : p.Faithful registry names) {request : Request}
    {e : AnnotationError} (herror : (p.respond request).1.error? = some e) :
    e.RecordIn (request.Misreads registry.isSubclass) := by
  rw [(h.respond request).1] at herror
  cases request with
  | parse input context =>
    intro r hr
    exact .attribute (failsOnly_scratch hkeeps hinert p.settings context p.settings.target input
      .initial _ e (Prod.ext (Answer.error?_annotations.1 herror) rfl) r hr)
  | collectIgnoredNames doc context =>
    exact failsOnly_scratchNames hkeeps hinert doc context .initial _ e
      (Prod.ext (Answer.error?_names.1 herror) rfl)

end Scratch

end Parser

end Docblock
