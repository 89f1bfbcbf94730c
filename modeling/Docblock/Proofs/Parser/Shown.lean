import Docblock.Proofs.Grammar.Origin
import Docblock.Proofs.Lookup.Verdict
import Docblock.Proofs.Parser.History

/-!
# What texts show a parser

The tokens of a text and the names that are passed over tell which calls it shows. A parser answers
a text with the objects of the calls that it shows, or with the first error among them, and every
text that it reads without an error shows calls.
-/

namespace Docblock

open Grammar Reading Reflection

theorem Scope.answers_askSchema (scope : Scope) {className : String}
    {r : Except AnnotationError (Option AnnotationSchema)}
    (h : (scope.schemaOf className).Answers scope.registry r) :
    (scope.askSchema className).Answers scope.registry
      (if scope.registry.exists? className then r.map some else .ok none) := by
  unfold askSchema
  refine Lookup.answers_ok_bind (Lookup.answers_recall (Recall.gives_classExists className)) ?_
  cases scope.registry.exists? className with
  | false => exact Lookup.answers_pure none
  | true =>
    cases r with
    | ok found => exact Lookup.answers_ok_bind h (Lookup.answers_pure (some found))
    | error e => exact Lookup.answers_error_bind h _

/-- The schema for a name, read from scratch. -/
theorem answers_schemaNamed_scratch (registry : Registry) (names : List String)
    (settings : Settings) (context written : String) :
    ((Parser.scratchScope registry names settings context).schemaNamed written).Answers registry
      ((settings.verdict registry context written).answer
        (schemaFromScratch registry (.forDocs names) [])) := by
  unfold Scope.schemaNamed Settings.verdict Verdict.answer
  cases hfound : settings.annotationClass? registry written with
  | none =>
    have hclass : ((Parser.scratchScope registry names settings context).classNamed
        written).Answers registry (if settings.isIgnored written then .ok none
          else .error (.notImported written context)) :=
      (Parser.scratchScope registry names settings context).answers_classNamed_missing hfound
    dsimp only
    cases hignored : settings.isIgnored written with
    | true =>
      rw [hignored] at hclass
      exact Lookup.answers_ok_bind hclass (Lookup.answers_pure none)
    | false =>
      rw [hignored] at hclass
      exact Lookup.answers_error_bind hclass _
  | some found =>
    have hclass : ((Parser.scratchScope registry names settings context).classNamed
        written).Answers registry (.ok (some (ClassName.bare found))) :=
      (Parser.scratchScope registry names settings context).answers_classNamed_found hfound
    refine Lookup.answers_ok_bind hclass ?_
    have hasked : ((Parser.scratchScope registry names settings context).askSchema
        (ClassName.bare found)).Answers registry
          (if registry.exists? (ClassName.bare found) then
            (schemaFromScratch registry (.forDocs names) [] (ClassName.bare found)).map some
          else .ok none) :=
      (Parser.scratchScope registry names settings context).answers_askSchema
        (Lookup.answers_ofExcept _)
    dsimp only
    cases hexists : registry.exists? (ClassName.bare found) with
    | false =>
      rw [hexists] at hasked
      exact Lookup.answers_ok_bind hasked (Lookup.answers_throw _)
    | true =>
      rw [hexists, if_pos rfl] at hasked
      rw [Bool.not_true, if_neg Bool.false_ne_true]
      cases hclass : registry.isAnnotation (ClassName.bare found) with
      | false =>
        obtain ⟨hstandard, hplain⟩ := isPlain_of_not_isAnnotation hclass
        rw [schemaFromScratch_plain hstandard hplain] at hasked
        refine Lookup.answers_ok_bind hasked ?_
        change Lookup.Answers registry (if settings.ignoreNotImported ||
          settings.ignoredNames.contains written then _ else _) _
        cases settings.ignoreNotImported || settings.ignoredNames.contains written with
        | true => exact Lookup.answers_pure none
        | false => exact Lookup.answers_throw _
      | true =>
        have hsome : schemaFromScratch registry (.forDocs names) [] (ClassName.bare found) ≠
            .ok none := schemaFromScratch_ne_none hclass
        rw [if_pos rfl]
        dsimp only
        cases hread : schemaFromScratch registry (.forDocs names) [] (ClassName.bare found) with
        | error e =>
          rw [hread] at hasked
          exact Lookup.answers_error_bind hasked _
        | ok answer =>
          rw [hread] at hasked hsome
          cases answer with
          | none => exact absurd rfl hsome
          | some schema => exact Lookup.answers_ok_bind hasked (Lookup.answers_pure (some schema))

namespace Parser

variable {registry : Registry} {names : List String} {p : Parser} {context input : String}

def PassesOver (p : Parser) (context name : String) : Prop :=
  p.settings.verdict p.registry context name = .passedOver

def Shows (p : Parser) (context input : String) (calls : List Call) : Prop :=
  match DocText.body? input with
  | none => calls = []
  | some body => Document (p.PassesOver context) none (Token.scan body) calls

theorem Shows.exists_used {calls : List Call} (h : p.Shows context input calls) :
    ∀ call ∈ calls, ∀ a ∈ call.2, ∃ used, Written (p.PassesOver context) maxNesting used a.2 := by
  unfold Shows at h
  cases hbody : DocText.body? input with
  | none =>
    rw [hbody] at h
    obtain rfl : calls = [] := h
    exact nofun
  | some body =>
    rw [hbody] at h
    exact Document.exists_used h

section Scratch

variable (registry : Registry) (names : List String) (settings : Settings) (context : String)

theorem settled_scratchScope : (scratchScope registry names settings context).IsSettled := by
  intro written
  have hanswers := answers_schemaNamed_scratch registry names settings context written
  rw [Scope.schemaFor_of_answers hanswers]
  exact hanswers

/-- From scratch, the schema for a name is found as the verdict on the name says. -/
theorem schemaFor_eq_answer (written : String) :
    (scratchScope registry names settings context).schemaFor written =
      (settings.verdict registry context written).answer
        (schemaFromScratch registry (.forDocs names) []) :=
  Scope.schemaFor_of_answers (answers_schemaNamed_scratch registry names settings context written)

theorem schemaFor_scratchScope (written : String) :
    (scratchScope registry names settings context).schemaFor written = .ok none ↔
      settings.verdict registry context written = .passedOver := by
  rw [schemaFor_eq_answer]
  cases hverdict : settings.verdict registry context written with
  | passedOver => simp [Verdict.answer]
  | refused e => simp [Verdict.answer]
  | read className =>
    have hsome : schemaFromScratch registry (.forDocs names) [] className ≠ .ok none :=
      schemaFromScratch_ne_none (Settings.isAnnotation_of_verdict hverdict).2
    simp [Verdict.answer, hsome]

end Scratch

/-- With schemas from scratch, a text is read as what the calls in it mean. -/
theorem Shows.readDoc_eq {calls : List Call} (h : p.Shows context input calls)
    (names : List String) (target : Target) :
    ((readDoc (scratchScope p.registry names p.settings context) target input).result .initial).1 =
      documentMeaning (scratchScope p.registry names p.settings context) target calls := by
  unfold Shows at h
  cases hbody : DocText.body? input with
  | none =>
    rw [hbody] at h
    obtain rfl : calls = [] := h
    unfold readDoc
    rw [hbody]
    rfl
  | some body =>
    rw [hbody] at h
    have hpassed := schemaFor_scratchScope p.registry names p.settings context
    have hanswers : Answers (scratchScope p.registry names p.settings context)
        (annotations (scratchScope p.registry names p.settings context) target
          (Token.scan body).length) (.ofTokens (Token.scan body))
        (documentMeaning (scratchScope p.registry names p.settings context) target calls)
        ⟨lastPassed none (Token.scan body), []⟩ :=
      answers_document (settled_scratchScope p.registry names p.settings context) hpassed h
        (Nat.le_refl _)
    obtain ⟨n, -, hrun⟩ := hanswers .initial (Memory.knows_initial p.registry)
    rw [result_readDoc hbody, hrun]
    cases documentMeaning (scratchScope p.registry names p.settings context) target calls <;> rfl

/-- A text is answered with what the calls in it mean. -/
theorem Faithful.parse_of_shows (h : p.Faithful registry names) {calls : List Call}
    (hshows : p.Shows context input calls) :
    (p.parse input context).1 = documentMeaning (scratchScope registry names p.settings context)
      p.settings.target calls := by
  rw [h.parse_eq]
  obtain rfl := h.registry_eq
  exact hshows.readDoc_eq names p.settings.target

/-- A text that is read without an error shows calls. -/
theorem Faithful.exists_shows (h : p.Faithful registry names) {as : List Annotation}
    (hparse : (p.parse input context).1 = .ok as) : ∃ calls, p.Shows context input calls := by
  rw [h.parse_eq] at hparse
  unfold Shows
  cases hbody : DocText.body? input with
  | none => exact ⟨[], rfl⟩
  | some body =>
    have hpassed := schemaFor_scratchScope registry names p.settings context
    rw [result_readDoc hbody] at hparse
    dsimp only
    unfold PassesOver
    rw [h.registry_eq]
    split at hparse
    next found last n hrun =>
      exact (onlyGives_annotations (settled_scratchScope registry names p.settings context) hpassed
        (Nat.le_refl _) .initial found last n (Memory.knows_initial registry) hrun).2
    · cases hparse

end Parser

end Docblock
