import Docblock.Proofs.Lookup.Verdict
import Docblock.Proofs.Parser.Described
import Docblock.Sample

/-!
# How annotations are judged by their names

While a parser reads a text it looks for classes and for schemas, and remembers what it found. At
each point of the way, the next annotation is passed over, refused, or read with the schema of its
class as its name and the registry demand, whatever was remembered before.
-/

namespace Docblock

open Reflection

namespace Parser

/-- What a parser can have in memory while it reads a text: looks for classes and for schemas have
been added to what it began with. -/
inductive Midway (p : Parser) : Memory → Prop where
  | start : Midway p p.memory
  | looked {m : Memory} (className : String) : Midway p m →
      Midway p ((classExists p.registry className).run m).2
  | recalled {m : Memory} (className : String) : Midway p m →
      Midway p ((p.schemaOf p.settings (ClassName.bare className)).result m).2

variable {registry : Registry} {names : List String} {p : Parser} {m : Memory}

def keepingMidway (p : Parser) : LookupRelation p.registry where
  Related x _ := ∀ m, p.Midway m → p.Midway (x.result m).2
  related_pure _ _ hm := hm
  related_throw _ _ hm := hm
  related_bind := by
    intro α β x y f g hx hf m hm
    have hn := hx m hm
    rw [Lookup.result_bind]
    cases hrun : x.result m with
    | mk outcome n =>
      rw [hrun] at hn
      cases outcome with
      | ok a => exact hf a ⟨m, n, hrun⟩ n hn
      | error e => exact hn
  related_exists name m hm := hm.looked name

theorem midway_askSchema (p : Parser) (context className : String) (hm : p.Midway m) :
    p.Midway (((p.scope p.settings context).askSchema (ClassName.bare className)).result m).2 :=
  (keepingMidway p).related_askSchema (p.scope p.settings context) (p.schemaOf p.settings)
    (keepingMidway p).twin_self (fun _ h => h.recalled className) m hm

theorem midway_classNamed (p : Parser) (context written : String) (hm : p.Midway m) :
    p.Midway (((p.scope p.settings context).classNamed written).result m).2 := by
  have hkeeps : (keepingMidway p).Related ((p.scope p.settings context).classNamed written)
      ((p.scope p.settings context).classNamed written) := by
    unfold Scope.classNamed
    split
    · exact (keepingMidway p).related_pure _
    · refine (keepingMidway p).related_bind
        ((keepingMidway p).related_resolveAnnotation? p.settings written) fun found _ => ?_
      cases found with
      | some resolved => exact (keepingMidway p).related_pure _
      | none =>
        dsimp only
        split
        · exact (keepingMidway p).related_pure _
        · exact (keepingMidway p).related_throw _
  exact hkeeps m hm

/-- The annotations of a text, and so each of them, begin and end on the way. -/
theorem midway_annotations (p : Parser) (context : String) (target : Target) (steps : Nat)
    (w : Window) (hm : p.Midway m) :
    p.Midway ((Reading.annotations (p.scope p.settings context) target steps).result w m).2 :=
  LookupRelation.reads_annotations (p.scope p.settings context) (p.schemaOf p.settings)
    (keepingMidway p).twin_self (fun name _ h => midway_askSchema p context name h) target steps w
    m hm

theorem midway_value (p : Parser) (context : String) (room : Nat) (w : Window)
    (hm : p.Midway m) :
    p.Midway ((Reading.value (p.scope p.settings context) room).result w m).2 :=
  LookupRelation.reads_value (p.scope p.settings context) (p.schemaOf p.settings)
    (keepingMidway p).twin_self (fun name _ h => midway_askSchema p context name h) room w m hm

/-- A parser that goes on from a memory on the way is faithful. -/
theorem Faithful.midway (h : p.Faithful registry names) (hm : p.Midway m) :
    Faithful registry names { p with memory := m } := by
  induction hm with
  | start => exact h
  | looked className _ ih =>
    have hstep : Transparent registry names p.settings.ignoredNames p.registry.classes.length []
        (liftM (classExists registry className) : Lookup Bool)
        (liftM (classExists registry className)) := .of_exists className
    obtain rfl := h.registry_eq
    exact (ih.outcome hstep).2
  | recalled className _ ih =>
    obtain rfl := h.registry_eq
    exact (ih.outcome (transparent_schemaOf p.registry.classes.length p.settings []
      (ClassName.bare_bare className))).2

def schemaFor (p : Parser) : Verdict → Except AnnotationError (Option AnnotationSchema)
  | .passedOver => .ok none
  | .refused e => .error e
  | .read className => ((p.schemaOf p.settings className).result p.memory).1

/-- A class is asked for on the way as it would be at the beginning. -/
theorem Faithful.askSchema_eq (h : p.Faithful registry names) (hm : p.Midway m)
    (context className : String) :
    (((p.scope p.settings context).askSchema (ClassName.bare className)).result m).1 =
      if registry.exists? (ClassName.bare className) then
        ((p.schemaOf p.settings (ClassName.bare className)).result p.memory).1.map some
      else .ok none := by
  have hbare := ClassName.bare_bare className
  have hknows := (h.midway hm).memory.knows
  have hn := hm.looked (ClassName.bare className)
  obtain rfl := h.registry_eq
  obtain ⟨n, hrun, -⟩ := result_classExists hknows (ClassName.bare className)
  have hmemory : ((classExists p.registry (ClassName.bare className)).run m).2 = n :=
    congrArg Prod.snd hrun
  rw [hmemory] at hn
  have hasked : ((p.schemaOf p.settings (ClassName.bare className)).result n).1 =
      ((p.schemaOf p.settings (ClassName.bare className)).result p.memory).1 :=
    ((h.midway hn).schemaOf_eq hbare).trans (h.schemaOf_eq hbare).symm
  have hlook : (liftM (classExists (p.scope p.settings context).registry
      (ClassName.bare className)) : Lookup Bool).result m =
        (.ok (p.registry.exists? (ClassName.bare className)), n) := hrun
  unfold Scope.askSchema
  rw [Lookup.result_bind_ok hlook, ← hasked]
  cases p.registry.exists? (ClassName.bare className) with
  | false => rfl
  | true =>
    rw [if_pos rfl, if_pos rfl, Lookup.result_bind]
    have hsource : (p.scope p.settings context).schemaOf = p.schemaOf p.settings := rfl
    rw [hsource]
    cases (p.schemaOf p.settings (ClassName.bare className)).result n with
    | mk outcome o => cases outcome <;> rfl

/-- What is found for a class depends on the class alone. -/
theorem Faithful.schemaOf_cases (h : p.Faithful registry names) {className : String}
    (hbare : ClassName.bare className = className) :
    (registry.isAnnotation className = false ∧
        ((p.schemaOf p.settings className).result p.memory).1 = .ok none) ∨
      (registry.isAnnotation className = true ∧
        ((p.schemaOf p.settings className).result p.memory).1 ≠ .ok none) := by
  rw [h.schemaOf_eq hbare]
  cases hclass : registry.isAnnotation className with
  | false =>
    obtain ⟨hstandard, hplain⟩ := isPlain_of_not_isAnnotation hclass
    exact .inl ⟨rfl, schemaFromScratch_plain hstandard hplain⟩
  | true => exact .inr ⟨rfl, schemaFromScratch_ne_none hclass⟩

/-- The schema for a name is found as the verdict on the name says. -/
theorem Faithful.schemaNamed_eq (h : p.Faithful registry names) (hm : p.Midway m)
    (context written : String) :
    ∃ n, p.Midway n ∧ ((p.scope p.settings context).schemaNamed written).result m =
      (p.schemaFor (p.settings.verdict registry context written), n) := by
  have hknows := (h.midway hm).memory.knows
  have hcases (className : String) := h.schemaOf_cases (ClassName.bare_bare className)
  have hasked (n : Memory) (hn : p.Midway n) (className : String) :=
    h.askSchema_eq hn context className
  have hn := midway_classNamed p context written hm
  obtain rfl := h.registry_eq
  have hscope : (p.scope p.settings context).registry = p.registry := rfl
  have hsettings : (p.scope p.settings context).settings = p.settings := rfl
  obtain ⟨n, -, hclass⟩ := (p.scope p.settings context).answers_classNamed written m
    (hscope ▸ hknows)
  rw [hclass] at hn
  rw [hscope, hsettings] at hclass
  unfold Scope.schemaNamed Settings.verdict
  rw [Lookup.result_bind, hclass]
  cases p.settings.annotationClass? p.registry written with
  | none =>
    refine ⟨n, hn, ?_⟩
    cases p.settings.isIgnored written <;> rfl
  | some found =>
    dsimp only
    have hask := hasked n hn found
    have ho := midway_askSchema p context found hn
    rw [Lookup.result_bind]
    cases hrun : ((p.scope p.settings context).askSchema (ClassName.bare found)).result n with
    | mk outcome o =>
      rw [hrun] at hask ho
      refine ⟨o, ho, ?_⟩
      obtain rfl : outcome = _ := hask
      cases p.registry.exists? (ClassName.bare found) with
      | false => rfl
      | true =>
        obtain ⟨hplain, hanswer⟩ | ⟨hmarked, hanswer⟩ := hcases found
        · rw [hplain, hanswer, hsettings]
          cases (p.settings.ignoreNotImported || p.settings.ignoredNames.contains written) <;> rfl
        · rw [hmarked, if_pos rfl]
          change _ = (((p.schemaOf p.settings (ClassName.bare found)).result p.memory).1, o)
          cases hread : ((p.schemaOf p.settings (ClassName.bare found)).result p.memory).1 with
          | error e => rfl
          | ok answer =>
            cases answer with
            | none => exact absurd hread hanswer
            | some schema => rfl

/-- What reading an annotation comes to by the verdict on its name: if the annotation is not passed
over or refused, reading goes on behind the name with the schema that the parser has for the class,
unless the schema cannot be read. -/
def Fulfils (p : Parser) (context : String) (target : Target) (value : Reading (Option Value))
    (written : String) (behind : Window)
    (outcome : Except AnnotationError (Option Annotation × Window) × Memory) : Verdict → Prop
  | .passedOver => outcome.1 = .ok (none, behind)
  | .refused e => outcome.1 = .error e
  | .read className =>
    (∃ schema n, p.Describes className schema ∧ p.Midway n ∧ outcome =
      (Reading.objectNamed (p.scope p.settings context) target value written schema).result
        behind n) ∨
    ∃ e, ((p.schemaOf p.settings className).result p.memory).1 = .error e ∧ outcome.1 = .error e

/-- An annotation at a sign of a text is passed over, refused or read as the verdict on its name
says, whatever was parsed before and wherever in the parse this is. Of a name that stands for a
class that is not registered, it is known that it is qualified or imported. -/
theorem object_fulfils_verdict (hreachable : Reachable registry p) (hm : p.Midway m)
    {context text written : String} {i : Nat} {behind : Window} {k : Memory}
    (hsign : ∃ sign, (Token.scan text)[i]? = some sign ∧ sign.kind = .atSign)
    (hname : (Reading.identifier (p.scope p.settings context)).result
      (.atIndex (Token.scan text) (i + 1)) m = (.ok (written, behind), k))
    (target : Target) (value : Reading (Option Value)) :
    p.Fulfils context target value written behind
        ((Reading.object (p.scope p.settings context) target value).result
          (.atIndex (Token.scan text) i) m)
        (p.settings.verdict registry context written) ∧
      ∀ found, p.settings.annotationClass? registry written = some found →
        registry.exists? (ClassName.bare found) = false →
        ClassName.isQualified written = true ∨
          p.settings.namespaces = [] ∧ p.settings.imported? written = some found := by
  obtain ⟨names, hfaithful⟩ := hreachable.faithful
  refine ⟨?_, fun found hfound hmissing => Settings.qualified_or_imported hfound hmissing⟩
  obtain ⟨sign, hat, hkind⟩ := hsign
  obtain ⟨hi, rfl⟩ := List.getElem?_eq_some_iff.1 hat
  have hk : p.Midway k := by
    have hkeeps := LookupRelation.reads_identifier (p.scope p.settings context) p.registry
      (p.schemaOf p.settings) (keepingMidway p) (.atIndex (Token.scan text) (i + 1)) m hm
    have hafter : ((Reading.identifier (p.scope p.settings context)).result
      (.atIndex (Token.scan text) (i + 1)) m).2 = k := congrArg Prod.snd hname
    rw [← hafter]
    exact hkeeps
  obtain ⟨n, hn, hschema⟩ := hfaithful.schemaNamed_eq hk context written
  rw [Reading.result_object_named hi hkind hname, hschema]
  cases hverdict : p.settings.verdict registry context written with
  | passedOver => rfl
  | refused e => rfl
  | read className =>
    obtain ⟨hbare, hmarked⟩ := Settings.isAnnotation_of_verdict hverdict
    have hsome : ((p.schemaOf p.settings className).result p.memory).1 ≠ .ok none := by
      rcases hfaithful.schemaOf_cases hbare with ⟨hplain, -⟩ | ⟨-, hsome⟩
      · rw [hmarked] at hplain
        cases hplain
      · exact hsome
    unfold schemaFor
    dsimp only
    cases hread : ((p.schemaOf p.settings className).result p.memory).1 with
    | error e => exact .inr ⟨e, hread, rfl⟩
    | ok answer =>
      cases answer with
      | none => exact absurd hread hsome
      | some schema => exact .inl ⟨schema, n, hread, hn, rfl⟩

-- Unification is kept from running this parser.
@[irreducible] def afterMissing : Parser :=
  (((Parser.new Sample.registry).change (.addNamespace "App\\Annotation")).respond
    (.parse "@Missing" "")).2

def unfoundSource : String := "@Route(\"/home\")"

theorem object_fulfils_verdict_route : ∃ behind,
    afterMissing.Fulfils "class Page" .onClass (Reading.value
        (afterMissing.scope afterMissing.settings "class Page") Reading.maxNesting) "Route" behind
      ((Reading.object (afterMissing.scope afterMissing.settings "class Page") .onClass
        (Reading.value (afterMissing.scope afterMissing.settings "class Page")
          Reading.maxNesting)).result (.atIndex (Token.scan unfoundSource) 0)
            afterMissing.memory)
      (.read "App\\Annotation\\Route") := by
  have hreachable : Reachable Sample.registry afterMissing := by
    unfold afterMissing
    exact .respond (.parse "@Missing" "") (.change (.addNamespace "App\\Annotation") .new)
  have hm : afterMissing.Midway afterMissing.memory := .start
  have hsign : ∃ sign, (Token.scan unfoundSource)[0]? = some sign ∧ sign.kind = .atSign :=
    ⟨_, rfl, rfl⟩
  have hread : ((Reading.identifier (afterMissing.scope afterMissing.settings "class Page")).result
      (.atIndex (Token.scan unfoundSource) (0 + 1)) afterMissing.memory).1.toOption.map Prod.fst =
        some "Route" := by
    decide +kernel
  have hverdict : afterMissing.settings.verdict Sample.registry "class Page" "Route" =
      .read "App\\Annotation\\Route" := by
    decide +kernel
  obtain ⟨⟨written, behind⟩, k, hrun, hwritten⟩ := Except.exists_run_of_map hread
  obtain rfl : written = "Route" := hwritten
  have hfulfils := (object_fulfils_verdict hreachable hm hsign hrun .onClass
    (Reading.value (afterMissing.scope afterMissing.settings "class Page")
      Reading.maxNesting)).1
  rw [hverdict] at hfulfils
  exact ⟨behind, hfulfils⟩

end Parser

end Docblock
