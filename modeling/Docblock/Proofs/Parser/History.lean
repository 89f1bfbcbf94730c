import Docblock.Proofs.Schema.Transparency

/-!
# Histories of parsers

A parser is made with settings. It is then asked to read texts, and its settings are changed, any
number of times and in any order. Whatever happens, its memory stays faithful, so that every answer
is the one that reading from scratch gives.
-/

namespace Docblock

namespace Parser

inductive Request where
  | parse (input context : String)
  | collectIgnoredNames (doc context : String)

inductive Answer where
  | annotations (outcome : Except AnnotationError (List Annotation))
  | names (outcome : Except AnnotationError (List String))

inductive Change where
  | addNamespace (nameSpace : String)
  | setImports (imports : List (String × String))
  | setIgnoredNames (names : List String)
  | setIgnoredNamespaces (namespaces : List String)
  | setIgnoreNotImported (ignore : Bool)
  | setTarget (target : Target)

def respond (p : Parser) : Request → Answer × Parser
  | .parse input context =>
    let (outcome, p) := p.parse input context
    (.annotations outcome, p)
  | .collectIgnoredNames doc context =>
    let (outcome, p) := p.collectIgnoredNames doc context
    (.names outcome, p)

/-- The parser after a change; a refused change leaves it as it is. -/
def change (p : Parser) : Change → Parser
  | .addNamespace nameSpace => (p.addNamespace nameSpace).toOption.getD p
  | .setImports imports => (p.setImports imports).toOption.getD p
  | .setIgnoredNames names => p.setIgnoredNames names
  | .setIgnoredNamespaces namespaces => p.setIgnoredNamespaces namespaces
  | .setIgnoreNotImported ignore => p.setIgnoreNotImported ignore
  | .setTarget target => p.setTarget target

/-- The parsers that a history over a registry can lead to. -/
inductive Reachable (registry : Registry) : Parser → Prop where
  | new : Reachable registry (Parser.new registry)
  | withSettings {settings : Settings} {p : Parser} :
      Parser.withSettings registry settings = .ok p → Reachable registry p
  | respond {p : Parser} (request : Request) :
      Reachable registry p → Reachable registry (p.respond request).2
  | change {p : Parser} (c : Change) : Reachable registry p → Reachable registry (p.change c)

/-- The memory is faithful, no class is being read, and settings for doc comments of classes that
are still open will be settled with `names`. -/
structure Faithful (registry : Registry) (names : List String) (p : Parser) : Prop where
  registry_eq : p.registry = registry
  memory : p.memory.Faithful registry names
  idle : p.memory.reflecting = []
  unsettled : p.memory.docSettings? = none → p.settings.ignoredNames = names

/-- The scope that finds schemas from scratch. -/
def scratchScope (registry : Registry) (names : List String) (settings : Settings)
    (context : String) : Scope :=
  ⟨registry, settings, context,
    fun name => .ofExcept (Reflection.schemaFromScratch registry (.forDocs names) [] name)⟩

def scratchNames (registry : Registry) (names : List String) (doc context : String) :
    Lookup (List String) := do
  let annotations ← readDoc (scratchScope registry names (.forDocs names) context) .onClass doc
  match Record.ignoredNames.all annotations with
  | .ok names => return names.flatten
  | .error e => throw (.record e)

def scratchAnswer (registry : Registry) (names : List String) (settings : Settings) :
    Request → Answer
  | .parse input context =>
    .annotations ((readDoc (scratchScope registry names settings context) settings.target
      input).result .initial).1
  | .collectIgnoredNames doc context =>
    .names ((scratchNames registry names doc context).result .initial).1

variable {registry : Registry} {names : List String} {p : Parser}

theorem outcome_eq {α : Type} (p : Parser) (step : Lookup α) :
    p.outcome step = ((step.result p.memory).1, { p with memory := (step.result p.memory).2 }) := rfl

theorem depth_suffices (h : p.Faithful registry names) :
    registry.unopened p.memory.reflecting ≤ p.registry.classes.length := by
  rw [h.registry_eq]
  exact registry.unopened_le _

theorem related_scope (h : p.Faithful registry names) (settings : Settings) (context : String)
    (target : Target) (input : String) :
    Transparent registry names settings.ignoredNames p.registry.classes.length []
      (readDoc (p.scope settings context) target input)
      (readDoc (scratchScope registry names settings context) target input) := by
  obtain rfl := h.registry_eq
  have hschemas (name : String) :
      Transparent p.registry names settings.ignoredNames p.registry.classes.length []
        (p.schemaOf settings (ClassName.bare name))
        (.ofExcept (Reflection.schemaFromScratch p.registry (.forDocs names) []
          (ClassName.bare name))) :=
    transparent_schemaOf _ settings [] (ClassName.bare_bare name)
  exact (transparency p.registry names settings.ignoredNames p.registry.classes.length
    []).related_readDoc (p.scope settings context) (fun name =>
      .ofExcept (Reflection.schemaFromScratch p.registry (.forDocs names) [] name)) hschemas target
      input

/-- A step that agrees with one from scratch has its outcome and keeps the parser faithful. -/
theorem Faithful.outcome {α : Type} (h : p.Faithful registry names) {step scratch : Lookup α}
    (hstep : Transparent registry names p.settings.ignoredNames p.registry.classes.length []
      step scratch) :
    (p.outcome step).1 = (scratch.result .initial).1 ∧
      (p.outcome step).2.Faithful registry names := by
  obtain ⟨hend, hgrown, hagrees⟩ := hstep p.memory h.memory h.unsettled (depth_suffices h)
  rw [outcome_eq]
  refine ⟨?_, h.registry_eq, hend, ?_, fun hopen => h.unsettled (hgrown.unsettled hopen)⟩
  · have hknows := Memory.knows_initial registry
    cases hrun : step.result p.memory with
    | mk outcome n =>
      rw [hrun] at hagrees
      cases outcome with
      | error e => exact (hagrees h.idle .initial hknows).symm
      | ok a =>
        have hnothing : n.Lacks [] := by
          intro name hname
          cases hname
        obtain ⟨o, ho, -⟩ := hagrees hnothing .initial hknows
        rw [ho]
  · exact hgrown.reflecting.trans h.idle

theorem transparent_records (h : p.Faithful registry names) (doc context : String) :
    Transparent registry names p.settings.ignoredNames p.registry.classes.length []
      (do let settings ← docSettings p.settings
          let annotations ← readDoc (p.scope settings context) .onClass doc
          match Record.ignoredNames.all annotations with
          | .ok names => return names.flatten
          | .error e => throw (.record e))
      (scratchNames registry names doc context) := by
  intro m hm howner hdepth
  obtain ⟨start, hsettle, hstart, hgrown, -⟩ := settle hm howner
  have hrecords (annotations : List Annotation) :
      Transparent registry names (Settings.forDocs names).ignoredNames p.registry.classes.length []
        (match Record.ignoredNames.all annotations with
          | .ok names => return names.flatten
          | .error e => throw (.record e) : Lookup (List String))
        (match Record.ignoredNames.all annotations with
          | .ok names => return names.flatten
          | .error e => throw (.record e)) := by
    cases Record.ignoredNames.all annotations with
    | ok names => exact .of_pure _
    | error e => exact .of_throw _
  have hread := Transparent.bind (related_scope h (.forDocs names) context .onClass doc)
    fun annotations _ => hrecords annotations
  obtain ⟨hend, hlast, hagrees⟩ :=
    hread start hstart (fun _ => rfl) (by rw [hgrown.reflecting]; exact hdepth)
  rw [Lookup.result_bind, Lookup.result_recall, hsettle]
  refine ⟨hend, hgrown.trans hlast, ?_⟩
  unfold Agrees at hagrees ⊢
  rw [hgrown.reflecting] at hagrees
  exact hagrees

theorem Faithful.parse_eq (h : p.Faithful registry names) (input context : String) :
    (p.parse input context).1 = ((readDoc (scratchScope registry names p.settings context)
      p.settings.target input).result .initial).1 :=
  (h.outcome (related_scope h p.settings context p.settings.target input)).1

/-- A faithful parser answers from scratch, and stays faithful. -/
theorem Faithful.respond (h : p.Faithful registry names) (request : Request) :
    (p.respond request).1 = scratchAnswer registry names p.settings request ∧
      (p.respond request).2.Faithful registry names := by
  cases request with
  | parse input context =>
    obtain ⟨houtcome, hfaithful⟩ :=
      h.outcome (related_scope h p.settings context p.settings.target input)
    exact ⟨congrArg Answer.annotations houtcome, hfaithful⟩
  | collectIgnoredNames doc context =>
    obtain ⟨houtcome, hfaithful⟩ := h.outcome (transparent_records h doc context)
    exact ⟨congrArg Answer.names houtcome, hfaithful⟩

theorem change_eq (p : Parser) (c : Change) : ∃ settings, p.change c = { p with settings } := by
  cases c with
  | addNamespace nameSpace =>
    unfold Parser.change addNamespace
    dsimp only
    cases p.settings.addNamespace nameSpace with
    | ok settings => exact ⟨settings, rfl⟩
    | error e => exact ⟨p.settings, rfl⟩
  | setImports imports =>
    unfold Parser.change setImports
    dsimp only
    cases p.settings.setImports imports with
    | ok settings => exact ⟨settings, rfl⟩
    | error e => exact ⟨p.settings, rfl⟩
  | setIgnoredNames names => exact ⟨_, rfl⟩
  | setIgnoredNamespaces namespaces => exact ⟨_, rfl⟩
  | setIgnoreNotImported ignore => exact ⟨_, rfl⟩
  | setTarget target => exact ⟨_, rfl⟩

/-- Other ignored names come too late once the settings for doc comments of classes are fixed. -/
theorem Faithful.change (h : p.Faithful registry names) (c : Change) :
    ∃ others, (p.change c).Faithful registry others ∧
      ((p.change c).settings.ignoredNames = p.settings.ignoredNames → others = names) := by
  obtain ⟨settings, hsettings⟩ := change_eq p c
  rw [hsettings]
  by_cases hopen : p.memory.docSettings? = none
  · refine ⟨settings.ignoredNames,
      ⟨h.registry_eq, h.memory.of_unsettled hopen, h.idle, fun _ => rfl⟩, ?_⟩
    intro hsame
    exact hsame.trans (h.unsettled hopen)
  · refine ⟨names, ⟨h.registry_eq, h.memory, h.idle, ?_⟩, fun _ => rfl⟩
    intro hunsettled
    exact absurd hunsettled hopen

theorem faithful_fresh (registry : Registry) (settings : Settings) :
    Faithful registry settings.ignoredNames ⟨registry, settings, .initial⟩ :=
  ⟨rfl, Memory.faithful_initial registry _, rfl, fun _ => rfl⟩

theorem withSettings_eq {settings : Settings}
    (h : withSettings registry settings = .ok p) : p = ⟨registry, settings, .initial⟩ := by
  unfold withSettings at h
  split at h
  · exact (Except.ok.inj h).symm
  · cases h

/-- Every parser that a history leads to is faithful. -/
theorem Reachable.faithful (h : Reachable registry p) : ∃ names, p.Faithful registry names := by
  induction h with
  | new => exact ⟨_, faithful_fresh registry {}⟩
  | withSettings hmade =>
    rw [withSettings_eq hmade]
    exact ⟨_, faithful_fresh registry _⟩
  | respond request _ ih =>
    obtain ⟨names, hfaithful⟩ := ih
    exact ⟨names, (hfaithful.respond request).2⟩
  | change c _ ih =>
    obtain ⟨names, hfaithful⟩ := ih
    obtain ⟨others, hchanged, -⟩ := hfaithful.change c
    exact ⟨others, hchanged⟩

end Parser

end Docblock
