import Docblock.Proofs.Parser.AttributeText
import Docblock.Proofs.Parser.Cycles
import Docblock.Proofs.Parser.Described

/-!
# Two ways to declare a type

The type of a property is declared by `@var` in its own doc comment or by an attribute in the doc
comment of its class. The first is looked for in the text as it stands, the second goes through the
reading of annotations. Both deliver the text of the type, but for the blanks in it: behind `@var`
it is cut at the first one.
-/

namespace Docblock

open Grammar Reading Reflection
open Token (IsWhole)

namespace Registry

/-- Constructors build objects of the class that they are asked for. -/
def BuildsNamed (r : Registry) : Prop :=
  ∀ c ∈ r.classes, ∀ k, c.constructor? = some k → ∀ className values a,
    k className values = .ok a → a.className = className

variable {r : Registry}

theorem IsInert.buildsNamed (h : r.IsInert) : r.BuildsNamed :=
  fun c hc k hk className values a ha => ((h.classes c hc).constructor k hk className values a ha).1

theorem BuildsNamed.className_of_objectOf (h : r.BuildsNamed) {s : AnnotationSchema} {place : Place}
    {values : OrderedMap Value} {a : Annotation} (hbare : ClassName.bare s.name = s.name)
    (hobject : s.objectOf r place values = .ok a) : a.className = s.name := by
  cases hstyle : s.usesConstructor with
  | false => exact AnnotationSchema.className_of_objectOf hbare hstyle hobject
  | true =>
    cases hconstructor : (r.describe? s.name).bind fun c => c.constructor? with
    | some k =>
      obtain ⟨c, hc, hk⟩ := Option.bind_eq_some_iff.1 hconstructor
      obtain ⟨others, hbuilt⟩ := AnnotationSchema.construct_of_objectOf hstyle hconstructor hobject
      exact h c (mem_of_describe? hc) k hk s.name others a hbuilt
    | none =>
      obtain ⟨others, -, hmade⟩ := AnnotationSchema.instantiate_of_objectOf hobject
      unfold AnnotationSchema.instantiate AnnotationSchema.construct at hmade
      rw [if_pos hstyle, hconstructor] at hmade
      rw [← Except.ok.inj hmade]

/-- A class that is found under its name is registered without a separator in front. -/
theorem bare_of_describe? {c : ClassDeclaration} (h : r.describe? c.name = some c) :
    ClassName.bare c.name = c.name := by
  refine ClassName.bare_eq_self fun hhead => ?_
  have hself : c.name = ClassName.registered c.name := name_of_describe? h
  unfold ClassName.registered at hself
  split at hself
  · next rest hname =>
    have htail := congrArg String.toList hself
    rw [hname, String.toList_ofList] at htail
    exact List.cons_ne_self _ _ htail
  · next hother =>
    obtain ⟨rest, hname⟩ := List.head?_eq_some_iff.1 hhead
    exact hother rest hname

end Registry

namespace Reflection

variable {registry : Registry} {settings : Settings} {c : ClassDeclaration} {s : AnnotationSchema}

/-- The schema of a registered class is read step by step while the class is being read. -/
theorem steps_of_schemaFromScratch (hstandard : SchemaTable.standard.find? c.name = none)
    (hc : registry.describe? c.name = some c)
    (h : schemaFromScratch registry settings [] c.name = .ok (some s)) :
    ∃ annotations draft properties, SchemaSteps
      (readerFrom registry settings (schemaFromScratch registry settings [c.name])) c .initial
        annotations draft properties s := by
  cases hmarked : Text.occursIn marker c.doc with
  | false =>
    have hplain : IsPlain registry c.name := by
      intro d hd
      obtain rfl := Option.some.inj (hc.symm.trans hd)
      exact hmarked
    rw [schemaFromScratch_plain hstandard hplain] at h
    cases h
  | true =>
    rw [schemaFromScratch_marked hstandard hc hmarked (List.not_mem_nil)] at h
    cases hrun : (schemaOfClass (readerFrom registry settings
        (schemaFromScratch registry settings [c.name])) c).result .initial with
    | mk outcome m =>
      rw [hrun] at h
      cases outcome with
      | error e => cases h
      | ok found =>
        obtain rfl := Option.some.inj (Except.ok.inj h)
        exact steps_of_schemaOfClass hrun

end Reflection

namespace Parser

variable {registry : Registry} {names : List String} {settings : Settings}
  {context name type written : String} {p : Parser} {all : List AttributeTerm}

/-- What is read while a class is being read, is read from scratch alike. -/
theorem readDoc_of_readerFrom {opened : List String} {target : Target} {doc : String}
    {annotations : List Annotation} {n : Memory}
    (h : (readerFrom registry settings (schemaFromScratch registry (.forDocs names) opened) context
      target doc).result .initial = (.ok annotations, n)) :
    ((readDoc (scratchScope registry names settings context) target doc).result .initial).1 =
      .ok annotations := by
  have hsource (name : String) : (succession registry).Related
      (.ofExcept (schemaFromScratch registry (.forDocs names) opened (ClassName.bare name)))
      (.ofExcept (schemaFromScratch registry (.forDocs names) [] (ClassName.bare name))) := by
    intro m k hm hk found m' hrun
    rw [Lookup.result_ofExcept] at hrun
    obtain ⟨hfound, rfl⟩ := Prod.mk.inj hrun
    rw [Lookup.result_ofExcept, schemaFromScratch_of_subset (List.nil_subset opened) hfound]
    exact ⟨hm, k, rfl, hk⟩
  have hknows := Memory.knows_initial registry
  obtain ⟨-, k, hrun, -⟩ := LookupRelation.related_readDoc
    ⟨registry, settings, context,
      fun name => .ofExcept (schemaFromScratch registry (.forDocs names) opened name)⟩
    (fun name => .ofExcept (schemaFromScratch registry (.forDocs names) [] name))
    (succession registry) hsource target doc .initial .initial hknows hknows annotations n h
  exact congrArg Prod.fst hrun

theorem schemaFor_of_standard {className : String} {s : AnnotationSchema}
    (hread : settings.verdict registry context written = .read className)
    (hs : SchemaTable.standard.find? className = some s) :
    (scratchScope registry names settings context).schemaFor written = .ok (some s) := by
  rw [schemaFor_eq_answer, hread]
  exact schemaFromScratch_standard hs

/-- A call means an object of the class that its name is read as. -/
theorem verdict_of_callMeaning (hnamed : registry.BuildsNamed)
    {value : Term → Except AnnotationError (Option Docblock.Value)} {target : Target}
    {arguments : List (Option String × Term)} {a : Annotation}
    (h : callMeaning (scratchScope registry names settings context) value target (name, arguments) =
      .ok (some a)) : settings.verdict registry context name = .read a.className := by
  have hanswer := schemaFor_eq_answer registry names settings context name
  cases hfound : (scratchScope registry names settings context).schemaFor name with
  | error e =>
    unfold callMeaning at h
    rw [hfound] at h
    cases h
  | ok found =>
    cases found with
    | none =>
      unfold callMeaning at h
      rw [hfound] at h
      cases h
    | some s =>
      rw [hfound] at hanswer
      obtain ⟨values, object, place, -, hobject, hsame⟩ := objectOf_of_callMeaning hfound h
      obtain rfl := Option.some.inj hsame
      cases hverdict : settings.verdict registry context name with
      | passedOver =>
        rw [hverdict] at hanswer
        cases hanswer
      | refused e =>
        rw [hverdict] at hanswer
        cases hanswer
      | read className =>
        rw [hverdict] at hanswer
        have hbare := (Settings.isAnnotation_of_verdict hverdict).1
        have hname := name_of_schemaFromScratch hbare hanswer.symm
        rw [hnamed.className_of_objectOf (by rw [hname, hbare]) hobject, hname]

def forDocs (p : Parser) : Parser := { p with settings := .forDocs p.docIgnoredNames }

/-- A class with a public property whose doc comment is the `@var` of this type. -/
structure DeclaresByVar (registry : Registry) (c : ClassDeclaration) (name : String)
    (type : TypeText) : Prop where
  registered : registry.describe? c.name = some c
  own : SchemaTable.standard.find? c.name = none
  reflected : c.hasConstructor = false
  declared : ∃ property ∈ c.properties, property.name = name
  documented : ∀ property ∈ c.properties, property.name = name → property.doc = varDoc type

/-- Attributes that can be listed on a class, and that give a property no other type. -/
structure ListsAttributes (p : Parser) (context name type : String) (all : List AttributeTerm) :
    Prop where
  few : all.length < 2 ^ 63
  standard : ∀ a ∈ all,
    p.settings.verdict p.registry context a.written = .read StandardName.singleAttribute
  agree : ∀ a ∈ all, a.name = name → a.type = type

/-- A class whose doc comment lists an attribute with this type for a property. No public property
of this name has a `@var` of its own. -/
structure DeclaresByAttribute (p : Parser) (d : ClassDeclaration) (name : String)
    (type : TypeText) : Prop where
  registered : p.registry.describe? d.name = some d
  own : SchemaTable.standard.find? d.name = none
  untyped : ∀ property ∈ d.properties, property.name = name →
    varType? property.doc.toList = none
  shown : ∃ calls, p.forDocs.Shows ("class @" ++ d.name) d.doc calls ∧
    (∀ call ∈ calls, p.forDocs.settings.verdict p.registry ("class @" ++ d.name) call.1 =
      .read StandardName.attributes → ∃ all, call.2 = AttributeTerm.listed all ∧
        p.forDocs.ListsAttributes ("class @" ++ d.name) name type.text all) ∧
    ∃ written all, (written, AttributeTerm.listed all) ∈ calls ∧
      p.forDocs.settings.verdict p.registry ("class @" ++ d.name) written =
        .read StandardName.attributes ∧
      ∃ a ∈ all, a.name = name

/-- A class declares what is listed in a doc comment of this form. -/
theorem declaresByAttribute_attributesDoc (hkeeps : p.registry.KeepsStandard)
    {d : ClassDeclaration} {name : String} {type : TypeText}
    (hregistered : p.registry.describe? d.name = some d)
    (hown : SchemaTable.standard.find? d.name = none)
    (huntyped : ∀ property ∈ d.properties, property.name = name →
      Reflection.varType? property.doc.toList = none)
    (hdoc : d.doc = attributesDoc "Attributes" all) (hfew : all.length < 2 ^ 63)
    (hwritten : ∀ a ∈ all, a.written = "Attribute")
    (hagree : ∀ a ∈ all, a.name = name → a.type = type.text)
    (hdeclared : ∃ a ∈ all, a.name = name) : p.DeclaresByAttribute d name type := by
  have hread : p.forDocs.settings.verdict p.registry ("class @" ++ d.name) "Attributes" =
      .read StandardName.attributes := verdict_attributes hkeeps p.docIgnoredNames _
  have hsingle : p.forDocs.settings.verdict p.registry ("class @" ++ d.name) "Attribute" =
      .read StandardName.singleAttribute := verdict_attribute hkeeps p.docIgnoredNames _
  have hlists : p.forDocs.ListsAttributes ("class @" ++ d.name) name type.text all := by
    refine ⟨hfew, fun a ha => ?_, hagree⟩
    rw [hwritten a ha]
    exact hsingle
  have hnamed : AttributeTerm.AreNamed (p.forDocs.PassesOver ("class @" ++ d.name)) all := by
    intro a ha
    rw [hwritten a ha]
    exact ⟨⟨.identifier, ⟨9, by decide +kernel⟩, rfl⟩,
      not_passesOver_of_verdict hsingle⟩
  have hnonempty : all ≠ [] := by
    obtain ⟨a, ha, -⟩ := hdeclared
    exact List.ne_nil_of_mem ha
  have hwhole : IsWhole .identifier "Attributes" := ⟨10, by decide +kernel⟩
  have hshows := shows_attributesDoc p.forDocs ("class @" ++ d.name) hwhole rfl
    (not_passesOver_of_verdict hread) hnamed hnonempty
  rw [← hdoc] at hshows
  refine ⟨hregistered, hown, huntyped, _, hshows, ?_, "Attributes", all, ?_, hread, hdeclared⟩
  · intro call hcall hattributes
    obtain rfl | hcall := List.mem_cons.1 hcall
    · exact absurd hattributes (verdict_mark_ne p.registry p.docIgnoredNames _)
    · obtain rfl := List.mem_singleton.1 hcall
      exact ⟨all, rfl, hlists⟩
  · exact List.mem_cons_of_mem _ List.mem_cons_self

theorem Faithful.typedAs_of_var (h : p.Faithful registry names) {c : ClassDeclaration}
    {declared : TypeText} (hc : DeclaresByVar registry c name declared) {s : AnnotationSchema}
    (hs : p.Describes c.name s) :
    TypedAs name (PropertyType.ofDeclared? (String.ofList declared.firstWord)) s.properties := by
  have hscratch := (h.describes_iff (Registry.bare_of_describe? hc.registered) s).1 hs
  obtain ⟨annotations, draft, properties, hsteps⟩ :=
    steps_of_schemaFromScratch hc.own hc.registered hscratch
  refine hsteps.typedAs (fun property hproperty hname => ?_) (.inr ⟨hc.reflected, hc.declared⟩)
  rw [hc.documented property hproperty hname]
  exact typeOf_varDoc declared _

/-- A list of attributes is read as the names and types that are written in it. -/
theorem ListsAttributes.declares (hlists : p.ListsAttributes context name type all)
    (hread : p.settings.verdict p.registry context written = .read StandardName.attributes)
    {found : Option Annotation}
    (hmeans : callMeaning (scratchScope p.registry names p.settings context)
      (meaning (scratchScope p.registry names p.settings context) maxNesting) .onClass
        (written, AttributeTerm.listed all) = .ok found) :
    ∃ object, found = some object ∧ object.className = StandardName.attributes ∧
      ∀ records, Record.attributes.read object = .ok records →
        records.map (fun record => (record.name, record.typeName)) =
          all.map AttributeTerm.declares :=
  AttributeTerm.declares_of_callMeaning (schemaFor_of_standard hread rfl)
    (fun a ha => schemaFor_of_standard (hlists.standard a ha) rfl) hlists.few hmeans

/-- No call gives the property another type. -/
theorem types_of_callMeaning (hnamed : p.registry.BuildsNamed) {call : Call} {a : Annotation}
    (hlisted : p.settings.verdict p.registry context call.1 = .read StandardName.attributes →
      ∃ all, call.2 = AttributeTerm.listed all ∧ p.ListsAttributes context name type all)
    (hmeans : callMeaning (scratchScope p.registry names p.settings context)
      (meaning (scratchScope p.registry names p.settings context) maxNesting) .onClass call =
        .ok (some a)) : Types name (PropertyType.ofDeclared? type) a := by
  intro hclass records hread record hrecord hname
  obtain ⟨written, arguments⟩ := call
  have hverdict := verdict_of_callMeaning hnamed hmeans
  rw [hclass] at hverdict
  obtain ⟨all, rfl, hlists⟩ := hlisted hverdict
  obtain ⟨object, hsame, -, hdeclares⟩ := hlists.declares hverdict hmeans
  obtain rfl := Option.some.inj hsame
  have hpair : (record.name, record.typeName) ∈ all.map AttributeTerm.declares := by
    rw [← hdeclares records hread]
    exact List.mem_map_of_mem hrecord
  obtain ⟨b, hb, hboth⟩ := List.mem_map.1 hpair
  obtain ⟨hfirst, hsecond⟩ := Prod.mk.inj hboth
  rw [← hsecond, hlists.agree b hb (hfirst.trans hname)]

theorem ListsAttributes.declares_of_mem (hlists : p.ListsAttributes context name type all)
    (hread : p.settings.verdict p.registry context written = .read StandardName.attributes)
    (hdeclared : ∃ b ∈ all, b.name = name) {found : Option Annotation}
    (hmeans : callMeaning (scratchScope p.registry names p.settings context)
      (meaning (scratchScope p.registry names p.settings context) maxNesting) .onClass
        (written, AttributeTerm.listed all) = .ok found) :
    ∃ a ∈ found, Declares name a := by
  obtain ⟨object, rfl, hclass, hdeclares⟩ := hlists.declares hread hmeans
  refine ⟨object, rfl, hclass, fun records hrecords => ?_⟩
  obtain ⟨b, hb, hname⟩ := hdeclared
  have hpair : b.declares ∈ records.map fun record => (record.name, record.typeName) := by
    rw [hdeclares records hrecords]
    exact List.mem_map_of_mem hb
  obtain ⟨record, hrecord, hboth⟩ := List.mem_map.1 hpair
  exact ⟨record, hrecord, (Prod.mk.inj hboth).1.trans hname⟩

theorem Faithful.typedAs_of_attribute (h : p.Faithful registry names)
    (hnamed : registry.BuildsNamed) {d : ClassDeclaration} {declared : TypeText}
    (hd : p.DeclaresByAttribute d name declared) {t : AnnotationSchema}
    (ht : p.Describes d.name t) :
    TypedAs name (PropertyType.ofDeclared? declared.text) t.properties := by
  have hscratch := (h.describes_iff (Registry.bare_of_describe? (h.registry_eq ▸ hd.registered))
    t).1 ht
  obtain rfl := h.registry_eq
  obtain rfl := h.docIgnoredNames_eq
  obtain ⟨annotations, draft, properties, hsteps⟩ :=
    steps_of_schemaFromScratch hd.own hd.registered hscratch
  obtain ⟨calls, hshows, hlisted, written, all, hcall, hread, hdeclared⟩ := hd.shown
  obtain ⟨n, hrun⟩ := hsteps.read
  have hmeaning : documentMeaning (scratchScope p.registry p.docIgnoredNames p.forDocs.settings
      ("class @" ++ d.name)) .onClass calls = .ok annotations :=
    (hshows.readDoc_eq p.docIgnoredNames .onClass).symm.trans (readDoc_of_readerFrom hrun)
  obtain ⟨hfrom, hall⟩ := mem_documentMeaning hmeaning
  have htypes : ∀ a ∈ annotations, Types name (PropertyType.ofDeclared? declared.text) a := by
    intro a ha
    obtain ⟨call, hmem, hmeans⟩ := hfrom a ha
    exact types_of_callMeaning (p := p.forDocs) hnamed (hlisted call hmem) hmeans
  have hdrafted : TypedAs name (PropertyType.ofDeclared? declared.text) draft.properties := by
    refine Draft.typedAs_foldlM hsteps.drafted htypes (.inr ?_)
    obtain ⟨found, hmeans, hin⟩ := hall _ hcall
    obtain ⟨others, harguments, hlists⟩ := hlisted _ hcall hread
    obtain rfl := AttributeTerm.listed_injective harguments
    obtain ⟨a, ha, hdeclares⟩ := hlists.declares_of_mem hread hdeclared hmeans
    exact ⟨a, hin a ha, hdeclares⟩
  refine hsteps.typedAs (fun property hproperty hname => ?_) (.inl hdrafted)
  exact typeOf_of_typedAs (hd.untyped property hproperty hname) hdrafted

/-- Two classes that declare a property with the same type text, one by `@var` and the other by an
attribute, give it the same type exactly if the text is written without blanks. What the attribute
declares is the type of the whole text, and what `@var` declares is that of its first word. -/
theorem declaredTypes_agree_iff (hreachable : Reachable registry p)
    (hnamed : registry.BuildsNamed) {declared : TypeText} {c d : ClassDeclaration}
    {s t : AnnotationSchema} (hc : DeclaresByVar registry c name declared)
    (hd : p.DeclaresByAttribute d name declared) (hs : p.Describes c.name s)
    (ht : p.Describes d.name t) :
    ∃ q r, s.property? name = some q ∧ t.property? name = some r ∧
      q.type? = PropertyType.ofDeclared? (String.ofList declared.firstWord) ∧
      r.type? = PropertyType.ofDeclared? declared.text ∧
      (q.type? = r.type? ↔ ¬ declared.IsSpaced) := by
  obtain ⟨names, hfaithful⟩ := hreachable.faithful
  obtain ⟨q, hq, hvar⟩ := hfaithful.typedAs_of_var hc hs
  obtain ⟨r, hr, hattribute⟩ := hfaithful.typedAs_of_attribute hnamed hd ht
  refine ⟨q, r, hq, hr, hvar, hattribute, ?_⟩
  calc
    q.type? = r.type? ↔ String.ofList declared.firstWord = String.ofList declared.chars := by
      rw [hvar, hattribute, PropertyType.ofDeclared?_injective.eq_iff]
      rfl
    _ ↔ declared.firstWord = declared.chars := String.ofList_inj
    _ ↔ ¬ declared.IsSpaced := declared.firstWord_eq_iff

def noted (declared : TypeText) : ClassDeclaration :=
  .make "Noted" "/** @Annotation */" [⟨"items", varDoc declared, .null⟩]

def listed (declared : TypeText) : ClassDeclaration :=
  .make "Listed" (attributesDoc "Attributes" [⟨"Attribute", "items", declared.text, none⟩])
    [Standard.plain "items"]

-- Unification is kept from running this parser.
@[irreducible] def declaringParser (declared : TypeText) : Parser :=
  .new ((Registry.standard.register (noted declared)).register (listed declared))

section Declaring

variable (declared : TypeText)

theorem registry_declaringParser : (declaringParser declared).registry =
    (Registry.standard.register (noted declared)).register (listed declared) := by
  unfold declaringParser
  rfl

theorem reachable_declaringParser :
    Reachable (declaringParser declared).registry (declaringParser declared) := by
  unfold declaringParser
  exact .new

theorem buildsNamed_declaringParser : (declaringParser declared).registry.BuildsNamed := by
  rw [registry_declaringParser]
  have hnoted : (noted declared).IsInert := inert_make (by simp [Value.isNull]) nofun
  have hlisted : (listed declared).IsInert := inert_make (by decide) nofun
  exact ((Registry.inert_standard.register hnoted).register hlisted).buildsNamed

theorem keepsStandard_declaringParser : (declaringParser declared).registry.KeepsStandard := by
  rw [registry_declaringParser]
  refine .register (.register Registry.keepsStandard_standard rfl) ?_
  exact rfl

theorem declaresByVar_noted :
    DeclaresByVar (declaringParser declared).registry (noted declared) "items" declared where
  registered := by
    have hname : ClassName.registered (noted declared).name = (noted declared).name := by
      change ClassName.registered (ClassName.registered "Noted") = ClassName.registered "Noted"
      decide
    have hother : (listed declared).name ≠ (noted declared).name := by
      change ClassName.registered "Listed" ≠ ClassName.registered "Noted"
      decide
    unfold Registry.describe?
    rw [registry_declaringParser, hname, Registry.lookup?_register, if_neg hother,
      Registry.lookup?_register, if_pos rfl]
  own := rfl
  reflected := rfl
  declared := ⟨_, List.mem_singleton_self _, rfl⟩
  documented property hproperty _ := by
    obtain rfl := List.mem_singleton.1 hproperty
    rfl

theorem declaresByAttribute_listed :
    (declaringParser declared).DeclaresByAttribute (listed declared) "items" declared := by
  have hname : ClassName.registered (listed declared).name = (listed declared).name := by
    change ClassName.registered (ClassName.registered "Listed") = ClassName.registered "Listed"
    decide
  have hown : SchemaTable.standard.find? (listed declared).name = none := rfl
  have hregistered : (declaringParser declared).registry.describe? (listed declared).name =
      some (listed declared) := by
    unfold Registry.describe?
    rw [registry_declaringParser, hname, Registry.lookup?_register, if_pos rfl]
  refine declaresByAttribute_attributesDoc (keepsStandard_declaringParser declared) hregistered hown
    (fun property hproperty _ => ?_) rfl (Nat.one_lt_two_pow (by decide)) ?_ ?_
    ⟨_, List.mem_singleton_self _, rfl⟩
  · obtain rfl := List.mem_singleton.1 hproperty
    decide
  · intro a ha
    obtain rfl := List.mem_singleton.1 ha
    rfl
  · intro a ha _
    obtain rfl := List.mem_singleton.1 ha
    rfl

end Declaring

def integersByText (spaced : Bool) : TypeText :=
  .mapping ⟨"string".toList, by decide, SimpleName.plain_of_all (by decide)⟩ spaced (.name .int)

def typeOf? (p : Parser) (className name : String) : Option (Option PropertyType) :=
  match ((p.schemaOf p.settings className).result p.memory).1 with
  | .ok (some s) => (s.property? name).map fun q => q.type?
  | _ => none

theorem exists_of_typeOf? {className name : String} {type? : Option PropertyType}
    (h : p.typeOf? className name = some type?) :
    ∃ s q, p.Describes className s ∧ s.property? name = some q ∧ q.type? = type? := by
  unfold typeOf? at h
  split at h
  · next s hs =>
    obtain ⟨q, hq, hsame⟩ := Option.map_eq_some_iff.1 h
    exact ⟨s, q, hs, hq, hsame⟩
  · cases h

/-- Without a blank in the text both classes have an array of integers. -/
theorem declaredTypes_agree_word :
    ∃ s t q r, (declaringParser (integersByText false)).Describes "Noted" s ∧
      (declaringParser (integersByText false)).Describes "Listed" t ∧
      s.property? "items" = some q ∧ t.property? "items" = some r ∧
      q.type? = some (.array (some "integer") "array<string,int>") ∧ q.type? = r.type? := by
  have hnoted : (declaringParser (integersByText false)).typeOf? "Noted" "items" =
      some (some (.array (some "integer") "array<string,int>")) := by
    decide +kernel
  have hlisted : (declaringParser (integersByText false)).typeOf? "Listed" "items" =
      some (some (.array (some "integer") "array<string,int>")) := by
    decide +kernel
  obtain ⟨s, q, hs, hq, hqtype⟩ := exists_of_typeOf? hnoted
  obtain ⟨t, -, ht, -, -⟩ := exists_of_typeOf? hlisted
  obtain ⟨q', r, hq', hr, -, -, hagree⟩ := declaredTypes_agree_iff
    (reachable_declaringParser _) (buildsNamed_declaringParser _) (declaresByVar_noted _)
    (declaresByAttribute_listed _) hs ht
  obtain rfl := Option.some.inj (hq.symm.trans hq')
  exact ⟨s, t, q, r, hs, ht, hq, hr, hqtype, hagree.2 (by simp [integersByText, TypeText.IsSpaced])⟩

/-- With a blank behind the comma the type behind `@var` is cut, and the classes differ. -/
theorem declaredTypes_differ_blank :
    ∃ s t q r, DeclaresByVar (declaringParser (integersByText true)).registry
        (noted (integersByText true)) "items" (integersByText true) ∧
      (declaringParser (integersByText true)).DeclaresByAttribute (listed (integersByText true))
        "items" (integersByText true) ∧
      (declaringParser (integersByText true)).Describes "Noted" s ∧
      (declaringParser (integersByText true)).Describes "Listed" t ∧
      s.property? "items" = some q ∧ t.property? "items" = some r ∧
      q.type? = some (.array none "array<string,") ∧
      r.type? = some (.array (some "integer") "array<string, int>") ∧ q.type? ≠ r.type? := by
  have hnoted : (declaringParser (integersByText true)).typeOf? "Noted" "items" =
      some (some (.array none "array<string,")) := by
    decide +kernel
  have hlisted : (declaringParser (integersByText true)).typeOf? "Listed" "items" =
      some (some (.array (some "integer") "array<string, int>")) := by
    decide +kernel
  obtain ⟨s, q, hs, hq, hqtype⟩ := exists_of_typeOf? hnoted
  obtain ⟨t, r, ht, hr, hrtype⟩ := exists_of_typeOf? hlisted
  have hdiffer : q.type? ≠ r.type? := by
    rw [hqtype, hrtype]
    decide
  exact ⟨s, t, q, r, declaresByVar_noted _, declaresByAttribute_listed _, hs, ht, hq, hr, hqtype,
    hrtype, hdiffer⟩

end Parser

end Docblock
