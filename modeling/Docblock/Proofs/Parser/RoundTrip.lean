import Docblock.Proofs.Object.Assigning
import Docblock.Proofs.Parser.ReadingBack
import Docblock.Sample

/-!
# Values are read back

A property without type and enumeration gives back every value that is written for it, unless the
arrays of the value go too deep, which is refused as a fault of the written form. Two things can get
in the way: a class name that is not written as one name, and a typed default property beside a
property called `value`.
-/

namespace Docblock

namespace Parser

variable {registry : Registry} {p : Parser} {className : String} {s : AnnotationSchema}
  {q : PropertySchema} {v : Value}

/-- The parser knows a class without required properties, allowed where the parser reads, with a
property that takes any value. -/
structure Offers (p : Parser) (className : String) (s : AnnotationSchema) (q : PropertySchema) :
    Prop where
  registered : p.registry.exists? className = true
  described : p.Describes className s
  allowed : p.settings.target.isEmpty = true ∨ s.target.intersects p.settings.target = true
  free : s.IsFree q
  identifier : Token.IsWhole .identifier q.name

/-- What is written for the property is read back, or refused if it goes too deep. -/
def GivesBack (p : Parser) (className property : String) (v : Value) (context : String) : Prop :=
  if v.nesting ≤ Reading.maxNesting then
    ∃ a w, (p.parse (annotationSource className property v) context).1 = .ok [a] ∧
      a.className = className ∧ a.get? property = some w ∧ (w == v) = true
  else
    ∃ e, (p.parse (annotationSource className property v) context).1 = .error e ∧
      e.isSyntactic = true

theorem bare_of_isWhole (h : Token.IsWhole .qualifiedName ("\\" ++ className)) :
    ClassName.bare ("\\" ++ className) = className ∧ ClassName.bare className = className := by
  obtain ⟨c, cs, hs, hfirst, -⟩ := h.name rfl
  have hchars : '\\' :: className.toList = c :: cs := by
    rw [← hs, String.toList_append]
    rfl
  obtain ⟨rfl, rfl⟩ := List.cons.inj hchars
  obtain hstart | ⟨-, hstart⟩ := hfirst
  · exact absurd hstart (by decide)
  · have hhead : className.toList.head? ≠ some '\\' := by
      intro hslash
      cases hcs : className.toList with
      | nil =>
        rw [hcs] at hslash
        cases hslash
      | cons d ds =>
        rw [hcs] at hslash hstart
        obtain rfl := Option.some.inj hslash
        have hslash : Lexeme.isNameStart '\\' = true := hstart
        exact absurd hslash (by decide)
    have hself := ClassName.bare_eq_self hhead
    refine ⟨?_, hself⟩
    have hdrop : ClassName.bare ("\\" ++ className) = ClassName.bare className := by
      unfold ClassName.bare Text.trimStart
      rw [String.toList_append]
      rfl
    rw [hdrop, hself]

theorem Faithful.admits {names : List String} (h : p.Faithful registry names)
    (hoffers : p.Offers className s q) (hbare : ClassName.bare className = className)
    (context : String) : Reading.Admits (scratchScope registry names p.settings context)
      p.settings.target className s where
  present := by
    rw [← hoffers.registered, h.registry_eq]
    rfl
  described m := by
    have hscratch := (h.describes_iff hbare s).1 hoffers.described
    change (Lookup.ofExcept (Reflection.schemaFromScratch registry (.forDocs names) []
      className)).result m = _
    rw [hscratch]
    rfl
  allowed := hoffers.allowed

/-- Whatever a parser has read before, values written for a property that takes any value are read
back. The class name is one name, and the property is not called `value` beside a default property
with a type. -/
theorem givesBack_of_offers (hreachable : Reachable registry p) (h : p.Offers className s q)
    (hclass : Token.IsWhole .qualifiedName ("\\" ++ className)) (hsole : s.IsSole q)
    (hv : v.IsWritable) (context : String) : p.GivesBack className q.name v context := by
  obtain ⟨names, hfaithful⟩ := hreachable.faithful
  obtain ⟨hqualified, hbare⟩ := bare_of_isWhole hclass
  have hadmits := hfaithful.admits h hbare context
  have hwritten := scan_annotationSource hclass h.identifier hv
  have hparse := hfaithful.parse_eq (annotationSource className q.name v) context
  rw [result_readDoc (body?_annotationSource className q.name v)] at hparse
  have hknows := Memory.knows_initial registry
  unfold GivesBack
  split
  · next hdepth =>
    obtain ⟨last, htaken⟩ := Reading.takes_spelled hadmits hqualified
      (hfaithful.wellFormed_of_describes hbare h.described) h.free hsole
      (Key.ofString_of_isWhole h.identifier rfl) hv hdepth hwritten
    obtain ⟨n, -, hrun⟩ := htaken .initial hknows
    rw [hrun] at hparse
    have hname := hfaithful.name_of_describes hbare h.described
    have hget := (s.blank registry).get?_set q.name q.name v.reread
    rw [if_pos rfl] at hget
    refine ⟨_, _, hparse, ?_, hget, Value.reread_beq v hv⟩
    rw [← hname] at hbare
    exact (AnnotationSchema.className_blank hbare).trans hname
  · next hdepth =>
    obtain ⟨e, n, hrun, expected, found, place, he⟩ := Reading.fails_spelled hadmits hqualified hv
      (Nat.lt_of_not_le hdepth) hwritten .initial hknows
    rw [hrun] at hparse
    refine ⟨e, hparse, ?_⟩
    rw [he]
    rfl

def offers (p : Parser) (className property : String) : Bool :=
  match ((p.schemaOf p.settings className).result p.memory).1 with
  | .ok (some s) =>
    p.registry.exists? className
      && (p.settings.target.isEmpty || s.target.intersects p.settings.target)
      && !s.usesConstructor && s.properties.all (fun r => !r.required)
      && s.properties.any fun r =>
        r.name == property && r.type?.isNone && r.enumeration?.isNone
  | _ => false

theorem exists_offers {property : String} (hidentifier : Token.IsWhole .identifier property)
    (h : p.offers className property = true) :
    ∃ s q, p.Offers className s q ∧ q.name = property := by
  unfold offers at h
  split at h
  · next s hs =>
    simp only [Bool.and_eq_true, Bool.or_eq_true, Bool.not_eq_true', List.all_eq_true,
      List.any_eq_true, beq_iff_eq, Option.isNone_iff_eq_none] at h
    obtain ⟨⟨⟨⟨hregistered, hallowed⟩, hstyle⟩, hoptional⟩, q, hq, ⟨rfl, htype⟩, henumeration⟩ := h
    exact ⟨s, q, ⟨hregistered, hs, hallowed, ⟨hstyle, hoptional, hq, htype, henumeration⟩,
      hidentifier⟩, rfl⟩
  · cases h

def writtenSample : Value :=
  .array ((OrderedMap.empty.insert (.text "key") (.array (.ofValues [.int (-7), .null]))).push
    (.string "a \"quote\" and a \\"))

theorem givesBack_sample :
    ∃ s q, Sample.plainParser.Offers "App\\Annotation\\Name" s q ∧ s.IsSole q ∧
      writtenSample.IsWritable ∧
      Sample.plainParser.GivesBack "App\\Annotation\\Name" q.name writtenSample "sample" := by
  have hproperty : Token.IsWhole .identifier "foo" := ⟨3, by decide⟩
  have hclass : Token.IsWhole .qualifiedName ("\\" ++ "App\\Annotation\\Name") :=
    ⟨20, by decide +kernel⟩
  have hoffers : Sample.plainParser.offers "App\\Annotation\\Name" "foo" = true := by
    decide +kernel
  obtain ⟨s, q, hq, hname⟩ := exists_offers hproperty hoffers
  have hsole : s.IsSole q := by
    intro hvalue
    rw [hname] at hvalue
    exact absurd hvalue (by decide)
  have hv : writtenSample.IsWritable := by
    have hkey : Key.ofString "key" = .text "key" := by decide
    have hentries : writtenSample = .array
        ⟨[(.text "key", .array ⟨[(.int 0, .int (-7)), (.int 1, .null)], 2⟩),
          (.int 0, .string "a \"quote\" and a \\")], 1⟩ := rfl
    rw [hentries]
    simp [Value.IsWritable, Value.EntriesWritable, Key.IsWritable, hkey]
  exact ⟨s, q, hq, hsole, hv, givesBack_of_offers .new hq hclass hsole hv "sample"⟩

theorem not_givesBack {property context : String} (hdepth : v.nesting ≤ Reading.maxNesting)
    (h : (p.parse (annotationSource className property v) context).1.isOk = false) :
    ¬ p.GivesBack className property v context := by
  unfold GivesBack
  rw [if_pos hdepth]
  rintro ⟨a, w, hparse, -⟩
  rw [hparse] at h
  cases h

def spacedRegistry : Registry :=
  Registry.standard.register (.make "Foo Bar" Sample.annotationDoc [Sample.undocumented "p"])

/-- A class with a typed default property beside a property called `value`. -/
def shadowedRegistry : Registry :=
  Registry.standard.register (.make "C" Sample.annotationDoc
    [Sample.documented "q" ["@var int"], Sample.undocumented "value"])

/-- Neither of the two conditions can be left out. -/
theorem not_givesBack_spaced_or_shadowed :
    (∃ s q, (new spacedRegistry).Offers "Foo Bar" s q ∧ q.name = "p" ∧
      ¬ (new spacedRegistry).GivesBack "Foo Bar" "p" (.int 1) "") ∧
    ∃ s q, (new shadowedRegistry).Offers "C" s q ∧ q.name = "value" ∧
      ¬ (new shadowedRegistry).GivesBack "C" "value" (.string "x") "" := by
  constructor
  · obtain ⟨s, q, hq, hname⟩ := @exists_offers (new spacedRegistry) "Foo Bar" "p"
      ⟨1, by decide⟩ (by decide +kernel)
    exact ⟨s, q, hq, hname, not_givesBack (by decide) (by decide +kernel)⟩
  · obtain ⟨s, q, hq, hname⟩ := @exists_offers (new shadowedRegistry) "C" "value"
      ⟨5, by decide⟩ (by decide +kernel)
    exact ⟨s, q, hq, hname, not_givesBack (by decide) (by decide +kernel)⟩

end Parser

end Docblock
