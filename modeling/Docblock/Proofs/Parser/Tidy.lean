import Docblock.Proofs.Parser.Cycles
import Docblock.Proofs.Schema.Tidy

/-!
# What a parser remembers between requests

Whatever a parser has been asked for, and whether it could answer or not, it is left reading no
class and with a tidy memory. It never reports that a schema came twice or has several default
properties, although the making of schemas has errors for both.
-/

namespace Docblock

open Reflection

namespace Parser

variable {registry : Registry} {names : List String} {p : Parser}

theorem keepsTidy_scope (p : Parser) (settings : Settings) (context : String) (target : Target)
    (input : String) : KeepsTidy p.registry (readDoc (p.scope settings context) target input) :=
  keepsTidy_readDoc (p.scope settings context)
    (fun name _ hc => keepsTidy_schemaOf _ settings (ClassName.bare_bare name) hc) target input

theorem keepsTidy_collecting (p : Parser) (doc context : String) : KeepsTidy p.registry
    (do let settings ← docSettings p.settings
        let annotations ← readDoc (p.scope settings context) .onClass doc
        match Record.ignoredNames.all annotations with
        | .ok names => return names.flatten
        | .error e => throw (.record e)) := by
  refine (keepsTidy_docSettings p.settings).bind fun settings _ => ?_
  refine (keepsTidy_scope p settings context .onClass doc).bind fun annotations _ => ?_
  cases Record.ignoredNames.all annotations with
  | ok names => exact (tidiness p.registry).related_pure _
  | error e => exact (tidiness p.registry).related_throw _

/-- Answering a request keeps the memory tidy, also when the answer is an error. -/
theorem tidy_respond (h : p.memory.Tidy p.registry) (request : Request) :
    (p.respond request).2.memory.Tidy p.registry := by
  cases request with
  | parse input context => exact keepsTidy_scope p p.settings context p.settings.target input _ h
  | collectIgnoredNames doc context => exact keepsTidy_collecting p doc context _ h

theorem Reachable.tidy (h : Reachable registry p) : p.memory.Tidy registry := by
  induction h with
  | new => exact Memory.tidy_initial registry
  | withSettings hmade =>
    rw [withSettings_eq hmade]
    exact Memory.tidy_initial registry
  | respond request hbefore ih =>
    obtain ⟨names, hfaithful⟩ := hbefore.faithful
    obtain rfl := hfaithful.registry_eq
    exact tidy_respond ih request
  | change c _ ih =>
    obtain ⟨settings, hsettings⟩ := change_eq _ c
    rw [hsettings]
    exact ih

/-- Reading a text with schemas from scratch refuses no schema for its properties. -/
theorem readDoc_ne_schema {settings : Settings} {context : String} {target : Target}
    {input : String} (e : SchemaError) :
    ((readDoc (scratchScope registry names settings context) target input).result .initial).1 ≠
      .error (.schema e) := by
  intro h
  have hblames := readerFrom_blames registry settings
    (schemaFromScratch registry (.forDocs names) []) ⟨context, target, input⟩
    (Memory.knows_initial registry)
  have hrun : (readerFrom registry settings (schemaFromScratch registry (.forDocs names) []) context
      target input).result .initial = (.error (.schema e), _) := Prod.ext h rfl
  rw [hrun] at hblames
  rcases hblames with hown | ⟨name, -, -, hname⟩
  · exact absurd hown id
  · exact schemaFromScratch_ne_schema registry (.forDocs names) [] name e hname

theorem Faithful.error_ne_schema (h : p.Faithful registry names) (request : Request)
    (e : SchemaError) : (p.respond request).1.error? ≠ some (.schema e) := by
  intro herror
  rcases h.error_cases herror with ⟨r, hr⟩ | ⟨settings, context, target, input, hread⟩
  · cases hr
  · exact readDoc_ne_schema e hread

/-- Between any two requests no class is being read and the memory is tidy, and no request is ever
refused because of a schema that came twice or has several default properties. -/
theorem memory_tidy (hreachable : Reachable registry p) :
    p.memory.reflecting = [] ∧ p.memory.Tidy registry ∧
      ∀ request e, (p.respond request).1.error? ≠ some (.schema e) := by
  obtain ⟨names, hfaithful⟩ := hreachable.faithful
  exact ⟨hfaithful.idle, hreachable.tidy, hfaithful.error_ne_schema⟩

def afterLoop : Parser :=
  ((Sample.plainParser.respond (.parse "@\\App\\Annotation\\Name" "")).2.respond
    (.parse "@\\App\\Annotation\\Loop" "")).2

theorem memory_tidy_afterLoop :
    "App\\Annotation\\Name" ∈ afterLoop.memory.schemas.names ∧
      afterLoop.memory.reflecting = [] ∧ afterLoop.memory.Tidy Sample.registry ∧
        ∀ request e, (afterLoop.respond request).1.error? ≠ some (.schema e) :=
  ⟨by decide +kernel, memory_tidy (.respond _ (.respond _ .new))⟩

end Parser

end Docblock
