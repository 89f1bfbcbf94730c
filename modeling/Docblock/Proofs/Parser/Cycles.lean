import Docblock.Proofs.Parser.History
import Docblock.Proofs.Schema.Circularity
import Docblock.Proofs.Schema.Nesting
import Docblock.Sample

/-!
# Cycles of annotation classes

Annotation classes may refer to each other in their doc comments, also in cycles. Whatever a parser
has been asked for, it reads schemas in order: every reading comes to its end, the classes being
read at any time are distinct, only cycles are reported, and what it remembers is closed under
references and free of cycles.
-/

namespace Docblock

open Reflection Relation

namespace Parser

def Answer.error? : Answer → Option AnnotationError
  | .annotations (.error e) => some e
  | .names (.error e) => some e
  | _ => none

theorem Answer.error?_annotations {outcome : Except AnnotationError (List Annotation)}
    {e : AnnotationError} :
    (Answer.annotations outcome).error? = some e ↔ outcome = .error e := by
  cases outcome <;> simp [error?]

theorem Answer.error?_names {outcome : Except AnnotationError (List String)}
    {e : AnnotationError} : (Answer.names outcome).error? = some e ↔ outcome = .error e := by
  cases outcome <;> simp [error?]

/-- The names that doc comments of classes ignore: the present ones until the first use. -/
def docIgnoredNames (p : Parser) : List String :=
  match p.memory.docSettings? with
  | some settings => settings.ignoredNames
  | none => p.settings.ignoredNames

/-- The scope in which the reading of schemas is watched. There is room for all marked classes to be
read inside each other, and the memory has to be orderly all the time. -/
noncomputable def watchedScope (p : Parser) (alarm : AnnotationError) (settings : Settings)
    (context : String) : Scope :=
  ⟨p.registry, settings, context,
    watchedSchemaOf alarm (fun m => m.Orderly p.registry p.docIgnoredNames) p.registry
      p.registry.marked.classes.length settings⟩

/-- Answer a request, or give the alarm if something is out of order on the way. -/
noncomputable def watchedRespond (p : Parser) (alarm : AnnotationError) :
    Request → Answer × Parser
  | .parse input context =>
    let (outcome, p) := p.outcome
      (watchedReadDoc alarm (p.watchedScope alarm p.settings context) p.settings.target input)
    (.annotations outcome, p)
  | .collectIgnoredNames doc context =>
    let (outcome, p) := p.outcome do
      let settings ← docSettings p.settings
      let annotations ← watchedReadDoc alarm (p.watchedScope alarm settings context) .onClass doc
      match Record.ignoredNames.all annotations with
      | .ok names => return names.flatten
      | .error e => throw (.record e)
    (.names outcome, p)

variable {registry : Registry} {names : List String} {p : Parser}

theorem Faithful.docIgnoredNames_eq (h : p.Faithful registry names) :
    p.docIgnoredNames = names := by
  unfold docIgnoredNames
  cases hsettings : p.memory.docSettings? with
  | none => exact h.unsettled hsettings
  | some settings =>
    rw [h.memory.settled settings hsettings]
    rfl

/-- Between requests a parser with an orderly memory is ready for the next one. -/
theorem Faithful.ready (h : p.Faithful registry names)
    (horderly : p.memory.Orderly registry names) :
    p.memory.Ready registry names p.settings.ignoredNames p.registry.classes.length
      p.registry.marked.classes.length where
  faithful := h.memory
  settles := h.unsettled
  orderly := horderly
  depth_suffices := depth_suffices h
  room_suffices := by
    rw [h.registry_eq]
    exact registry.marked.unopened_le _

theorem Faithful.undisturbed (h : p.Faithful registry names) (alarm : AnnotationError)
    (settings : Settings) (context : String) (target : Target) (input : String) :
    Undisturbed registry names settings.ignoredNames p.registry.classes.length
      p.registry.marked.classes.length
      (watchedReadDoc alarm (p.watchedScope alarm settings context) target input)
      (readDoc (p.scope settings context) target input) := by
  obtain rfl := h.registry_eq
  obtain rfl := h.docIgnoredNames_eq
  exact undisturbed_readDoc alarm (p.watchedScope alarm settings context) (p.schemaOf settings)
    (fun name => undisturbed_schemaOf alarm _ _ settings (ClassName.bare_bare name)) target input

theorem Faithful.watched_outcome {α : Type} (h : p.Faithful registry names)
    (horderly : p.memory.Orderly registry names) {watched step : Lookup α}
    (hstep : Undisturbed registry names p.settings.ignoredNames p.registry.classes.length
      p.registry.marked.classes.length watched step) :
    p.outcome watched = p.outcome step ∧ (p.outcome step).2.memory.Orderly registry names := by
  obtain ⟨hsame, -, hend⟩ := hstep p.memory (h.ready horderly)
  rw [outcome_eq, outcome_eq, hsame]
  exact ⟨rfl, hend.orderly⟩

theorem Faithful.watched_respond (h : p.Faithful registry names)
    (horderly : p.memory.Orderly registry names) (alarm : AnnotationError) (request : Request) :
    p.watchedRespond alarm request = p.respond request ∧
      (p.respond request).2.memory.Orderly registry names := by
  cases request with
  | parse input context =>
    obtain ⟨hsame, hend⟩ := h.watched_outcome horderly
      (h.undisturbed alarm p.settings context p.settings.target input)
    exact ⟨congrArg (fun outcome => (Answer.annotations outcome.1, outcome.2)) hsame, hend⟩
  | collectIgnoredNames doc context =>
    let r := watching registry names names p.registry.classes.length
      p.registry.marked.classes.length
    let records (annotations : List Annotation) : Lookup (List String) :=
      match Record.ignoredNames.all annotations with
      | .ok names => return names.flatten
      | .error e => throw (.record e)
    have hrecords (annotations : List Annotation) :
        r.Related (records annotations) (records annotations) := by
      unfold records
      cases Record.ignoredNames.all annotations with
      | ok names => exact r.related_pure _
      | error e => exact r.related_throw _
    obtain ⟨hsame, hend⟩ := h.watched_outcome horderly (undisturbed_settled p.settings
      (fun settings => watchedReadDoc alarm (p.watchedScope alarm settings context) .onClass doc >>=
        records)
      (fun settings => readDoc (p.scope settings context) .onClass doc >>= records)
      (r.related_bind (h.undisturbed alarm (.forDocs names) context .onClass doc)
        fun annotations _ => hrecords annotations))
    exact ⟨congrArg (fun outcome => (Answer.names outcome.1, outcome.2)) hsame, hend⟩

/-- Settings change, memories do not. Names ignored before the first use do not matter yet. -/
theorem Faithful.orderly_change (h : p.Faithful registry names)
    (horderly : p.memory.Orderly registry names) (c : Change) {others : List String}
    (hothers : (p.change c).Faithful registry others) :
    (p.change c).memory.Orderly registry others := by
  obtain ⟨settings, hsettings⟩ := change_eq p c
  rw [hsettings] at hothers ⊢
  cases hopen : p.memory.docSettings? with
  | none => exact Memory.orderly_of_standard (h.memory.unsettled hopen) h.idle
  | some docs =>
    have hnames := h.memory.settled docs hopen
    have hsame : Settings.forDocs others = .forDocs names :=
      (hothers.memory.settled docs hopen).symm.trans hnames
    have hequal : others = names := congrArg Settings.ignoredNames hsame
    exact hequal ▸ horderly

/-- Every parser that a history leads to has an orderly memory. -/
theorem Reachable.orderly (h : Reachable registry p) :
    ∃ names, p.Faithful registry names ∧ p.memory.Orderly registry names := by
  induction h with
  | new => exact ⟨_, faithful_fresh registry {}, Memory.orderly_of_standard rfl rfl⟩
  | withSettings hmade =>
    rw [withSettings_eq hmade]
    exact ⟨_, faithful_fresh registry _, Memory.orderly_of_standard rfl rfl⟩
  | respond request _ ih =>
    obtain ⟨names, hfaithful, horderly⟩ := ih
    exact ⟨names, (hfaithful.respond request).2,
      (hfaithful.watched_respond horderly (.circular "") request).2⟩
  | change c _ ih =>
    obtain ⟨names, hfaithful, horderly⟩ := ih
    obtain ⟨others, hchanged, -⟩ := hfaithful.change c
    exact ⟨others, hchanged, hfaithful.orderly_change horderly c hchanged⟩

/-- Reading a text with schemas from scratch reports cycles only. -/
theorem cycle_of_readDoc {settings : Settings} {context : String} {target : Target}
    {input className : String}
    (h : ((readDoc (scratchScope registry names settings context) target input).result .initial).1 =
      .error (.circular className)) :
    TransGen (References registry names) className className := by
  have hblames := readerFrom_blames registry settings
    (schemaFromScratch registry (.forDocs names) []) ⟨context, target, input⟩
    (Memory.knows_initial registry)
  have hrun : (readerFrom registry settings (schemaFromScratch registry (.forDocs names) []) context
      target input).result .initial = (.error (.circular className), _) := Prod.ext h rfl
  rw [hrun] at hblames
  rcases hblames with hown | ⟨name, -, hbare, hname⟩
  · exact absurd hown id
  · rcases reaches_of_circular hbare hname with ⟨hmem, -⟩ | hcycle
    · cases hmem
    · exact hcycle

/-- An error is a record's, or some text gives it that is read with schemas from scratch. -/
theorem Faithful.error_cases (h : p.Faithful registry names) {request : Request}
    {e : AnnotationError} (herror : (p.respond request).1.error? = some e) :
    (∃ r, e = .record r) ∨ ∃ settings context target input,
      ((readDoc (scratchScope registry names settings context) target input).result .initial).1 =
        .error e := by
  rw [(h.respond request).1] at herror
  cases request with
  | parse input context => exact .inr ⟨_, _, _, _, Answer.error?_annotations.1 herror⟩
  | collectIgnoredNames doc context =>
    have houtcome := Answer.error?_names.1 herror
    unfold scratchNames at houtcome
    rw [Lookup.result_bind] at houtcome
    cases hread : (readDoc (scratchScope registry names (.forDocs names) context) .onClass
      doc).result .initial with
    | mk outcome m =>
      rw [hread] at houtcome
      cases outcome with
      | error f =>
        obtain rfl := Except.error.inj houtcome
        exact .inr ⟨_, _, _, _, congrArg Prod.fst hread⟩
      | ok found =>
        dsimp only at houtcome
        revert houtcome
        cases Record.ignoredNames.all found with
        | ok names => nofun
        | error r => exact fun hsame => .inl ⟨r, (Except.error.inj hsame).symm⟩

/-- A class is reported as circular only if it refers to itself, directly or through others. -/
theorem Faithful.cycle_of_circular (h : p.Faithful registry names) {request : Request}
    {className : String} (herror : (p.respond request).1.error? = some (.circular className)) :
    TransGen (References registry names) className className := by
  rcases h.error_cases herror with ⟨r, hr⟩ | ⟨settings, context, target, input, hread⟩
  · cases hr
  · exact cycle_of_readDoc hread

/-- Whatever a parser has been asked for before, its memory is orderly, a request does what it does
under watch, and a class is reported as circular only if it is on a cycle of references. -/
theorem reflection_orderly (hreachable : Reachable registry p) :
    p.memory.Orderly registry p.docIgnoredNames ∧
      (∀ alarm request, p.watchedRespond alarm request = p.respond request) ∧
      ∀ request className, (p.respond request).1.error? = some (.circular className) →
        TransGen (References registry p.docIgnoredNames) className className := by
  obtain ⟨names, hfaithful, horderly⟩ := hreachable.orderly
  rw [hfaithful.docIgnoredNames_eq]
  exact ⟨horderly, fun alarm request => (hfaithful.watched_respond horderly alarm request).1,
    fun _ _ => hfaithful.cycle_of_circular⟩

/-- The class `Loop` asks for itself in its own doc comment. -/
theorem reflection_orderly_loop :
    Sample.plainParser.memory.Orderly Sample.registry Sample.plainParser.docIgnoredNames ∧
      (∀ alarm request, Sample.plainParser.watchedRespond alarm request =
        Sample.plainParser.respond request) ∧
      TransGen (References Sample.registry Sample.plainParser.docIgnoredNames)
        "App\\Annotation\\Loop" "App\\Annotation\\Loop" := by
  have hloop : (Sample.plainParser.respond (.parse "@\\App\\Annotation\\Loop" "")).1.error? =
      some (.circular "App\\Annotation\\Loop") := by
    decide +kernel
  obtain ⟨horderly, hwatched, hcycles⟩ := reflection_orderly (.new : Reachable _ Sample.plainParser)
  exact ⟨horderly, hwatched, hcycles _ _ hloop⟩

end Parser

end Docblock
