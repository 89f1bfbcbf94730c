import Docblock.Schema.Reflection
import Docblock.Settings.Document

/-!
# Parsers

A parser reads the annotations of doc comments. It has a registry of classes, settings and a
memory, which grows with every text it reads.
-/

namespace Docblock

structure Parser where
  registry : Registry
  settings : Settings
  memory : Memory

namespace Parser

def new (registry : Registry) : Parser := ⟨registry, {}, .initial⟩

def withSettings (registry : Registry) (settings : Settings) : Except SettingsError Parser :=
  match settings.check with
  | .ok () => .ok ⟨registry, settings, .initial⟩
  | .error e => .error e

/-- A parser with the settings of a document. -/
def ofDocument (registry : Registry) (document : String) : Except SettingsError Parser :=
  match Settings.load document with
  | .ok settings => withSettings registry settings
  | .error e => .error e

def schemaOf (p : Parser) (settings : Settings) (name : String) :
    Lookup (Option AnnotationSchema) :=
  Reflection.schemaOf p.registry p.registry.classes.length settings name

def scope (p : Parser) (settings : Settings) (context : String) : Scope :=
  ⟨p.registry, settings, context, p.schemaOf settings⟩

/-- The outcome of a step and the parser after it. -/
def outcome {α : Type} (p : Parser) (step : Lookup α) : Except AnnotationError α × Parser :=
  let (result, memory) := step.run.run p.memory
  (result, { p with memory })

/-- Read the annotations of a text. The context says where it came from. -/
def parse (p : Parser) (input : String) (context : String := "") :
    Except AnnotationError (List Annotation) × Parser :=
  p.outcome (readDoc (p.scope p.settings context) p.settings.target input)

/-- The names that the doc comment of a class tells to ignore. -/
def collectIgnoredNames (p : Parser) (doc : String) (context : String := "") :
    Except AnnotationError (List String) × Parser :=
  p.outcome do
    let settings ← docSettings p.settings
    let annotations ← readDoc (p.scope settings context) .onClass doc
    match Record.ignoredNames.all annotations with
    | .ok names => return names.flatten
    | .error e => throw (.record e)

def addNamespace (p : Parser) (nameSpace : String) : Except SettingsError Parser :=
  (p.settings.addNamespace nameSpace).map fun settings => { p with settings }

def setImports (p : Parser) (imports : List (String × String)) : Except SettingsError Parser :=
  (p.settings.setImports imports).map fun settings => { p with settings }

def setIgnoredNames (p : Parser) (names : List String) : Parser :=
  { p with settings := p.settings.setIgnoredNames names }

def setIgnoredNamespaces (p : Parser) (namespaces : List String) : Parser :=
  { p with settings := p.settings.setIgnoredNamespaces namespaces }

def setIgnoreNotImported (p : Parser) (ignore : Bool) : Parser :=
  { p with settings := p.settings.setIgnoreNotImported ignore }

def setTarget (p : Parser) (target : Target) : Parser :=
  { p with settings := p.settings.setTarget target }

end Parser

end Docblock
