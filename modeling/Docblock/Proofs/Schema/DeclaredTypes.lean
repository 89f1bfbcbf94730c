import Docblock.Proofs.Schema.TypeText
import Docblock.Proofs.Schema.WellFormed
import Mathlib.Data.List.TakeWhile

/-!
# Types of declared properties

A property has the type that its own doc comment declares by `@var`, or else the type that its class
declares for it. A type text between quotes is read whole, while behind `@var` it ends at the first
blank. Since a property type keeps the text that declares it, the two agree on texts without blanks
only.
-/

namespace Docblock

namespace SimpleName

theorem any_isBlank (n : SimpleName) : n.chars.any Text.isBlank = false := by
  rw [List.any_eq_false]
  intro c hc
  rw [(n.plain c hc).1]
  exact Bool.false_ne_true

end SimpleName

namespace TypeText

/-- A blank stands behind some comma of the text. -/
def IsSpaced : TypeText → Prop
  | name _ => False
  | brackets element => element.IsSpaced
  | angles element => element.IsSpaced
  | mapping _ spaced element => spaced = true ∨ element.IsSpaced

def firstWord (t : TypeText) : List Char := t.chars.takeWhile fun c => !Text.isBlank c

theorem toList_text (t : TypeText) : t.text.toList = t.chars := String.toList_ofList

theorem any_gap (spaced : Bool) : (gap spaced).any Text.isBlank = spaced := by
  cases spaced <;> rfl

theorem isSpaced_iff (t : TypeText) : t.IsSpaced ↔ t.chars.any Text.isBlank = true := by
  have hopener : "array<".toList.any Text.isBlank = false := by decide
  induction t with
  | name n =>
    rw [chars_name, n.any_isBlank]
    exact iff_of_false id Bool.false_ne_true
  | brackets element ih =>
    have hmarks : ['[', ']'].any Text.isBlank = false := by decide
    rw [chars_brackets, List.any_append, hmarks, Bool.or_false]
    exact ih
  | angles element ih =>
    have hcloser : ['>'].any Text.isBlank = false := by decide
    rw [chars_angles, List.any_append, List.any_append, hopener, hcloser, Bool.or_false,
      Bool.false_or]
    exact ih
  | mapping key spaced element ih =>
    have hcloser : ['>'].any Text.isBlank = false := by decide
    have hcomma : (',' :: gap spaced).any Text.isBlank = spaced := any_gap spaced
    rw [chars_mapping, List.any_append, List.any_append, List.any_append, List.any_append,
      hopener, hcloser, key.any_isBlank, hcomma, Bool.false_or, Bool.false_or, Bool.or_false,
      Bool.or_eq_true]
    exact or_congr_right ih

/-- A text is one word exactly if it is written without blanks. -/
theorem firstWord_eq_iff (t : TypeText) : t.firstWord = t.chars ↔ ¬ t.IsSpaced := by
  rw [firstWord, List.takeWhile_eq_self_iff, isSpaced_iff, Bool.not_eq_true, List.any_eq_false]
  simp only [Bool.not_eq_true', Bool.not_eq_true]

theorem exists_chars_eq_cons (t : TypeText) :
    ∃ c rest, t.chars = c :: rest ∧ Text.isBlank c = false := by
  induction t with
  | name n =>
    cases hchars : n.chars with
    | nil => exact absurd hchars n.nonempty
    | cons c rest => exact ⟨c, rest, hchars, (n.plain c (hchars ▸ List.mem_cons_self)).1⟩
  | brackets element ih =>
    obtain ⟨c, rest, hchars, hc⟩ := ih
    exact ⟨c, rest ++ ['[', ']'], by rw [chars_brackets, hchars, List.cons_append], hc⟩
  | angles element => exact ⟨'a', _, rfl, by decide⟩
  | mapping key spaced element => exact ⟨'a', _, rfl, by decide⟩

end TypeText

namespace PropertyType

theorem eq_mixed_of_canonicalName {name : String} (h : canonicalName name = "mixed") :
    name = "mixed" := by
  unfold canonicalName at h
  split at h
  · exact absurd h (by decide)
  · exact absurd h (by decide)
  · exact absurd h (by decide)
  · exact absurd h (by decide)
  · exact h

/-- A declared type keeps its text, and only `mixed` declares none. -/
theorem ofDeclared?_cases (text : String) : (text = "mixed" ∧ ofDeclared? text = none) ∨
    ∃ type, ofDeclared? text = some type ∧ type.declared = text := by
  unfold ofDeclared?
  dsimp only
  split
  · next hmixed => exact .inl ⟨eq_mixed_of_canonicalName hmixed, rfl⟩
  · right
    split
    · exact ⟨_, rfl, rfl⟩
    · split
      · exact ⟨_, rfl, rfl⟩
      · refine ⟨_, rfl, ?_⟩
        split <;> rfl

/-- No two texts declare one type. -/
theorem ofDeclared?_injective : Function.Injective ofDeclared? := by
  intro text other hsame
  obtain ⟨rfl, hnone⟩ | ⟨type, hsome, hdeclared⟩ := ofDeclared?_cases text
  · obtain ⟨rfl, -⟩ | ⟨type, hsome, -⟩ := ofDeclared?_cases other
    · rfl
    · rw [hnone, hsome] at hsame
      cases hsame
  · obtain ⟨rfl, hnone⟩ | ⟨others, hother, rfl⟩ := ofDeclared?_cases other
    · rw [hsome, hnone] at hsame
      cases hsame
    · rw [hsome, hother] at hsame
      rw [← hdeclared, Option.some.inj hsame]

end PropertyType

namespace Reflection

theorem takeWhile_append_cons {p : Char → Bool} {c : Char} (hc : p c = false)
    (front rest : List Char) : (front ++ c :: rest).takeWhile p = front.takeWhile p := by
  rw [List.takeWhile_append]
  split
  · next hlength =>
    rw [List.takeWhile_cons_of_neg (by simp [hc]), List.append_nil]
    exact ((List.takeWhile_prefix p).eq_of_length hlength).symm
  · rfl

/-- Behind the first `@var` and a blank, the type goes up to the next blank. -/
theorem varType?_var {type : List Char} {c : Char} {rest : List Char} (htype : type = c :: rest)
    (hc : Text.isBlank c = false) :
    varType? ("@var ".toList ++ type) = some (type.takeWhile fun d => !Text.isBlank d) := by
  have hleading : Text.dropLeading? "@var".toList ("@var ".toList ++ type) = some (' ' :: type) :=
    rfl
  have hblank : (' ' :: type).dropWhile Text.isBlank = type := by
    rw [List.dropWhile_cons_of_pos (by decide), htype, List.dropWhile_cons_of_neg (by simp [hc])]
  have hstep : "@var ".toList ++ type = '@' :: ("var ".toList ++ type) := rfl
  rw [hstep] at hleading ⊢
  unfold varType?
  rw [hleading]
  dsimp only
  rw [hblank, if_neg (by simp [htype])]

theorem varType?_cons {c : Char} {cs : List Char}
    (h : Text.dropLeading? "@var".toList (c :: cs) = none) : varType? (c :: cs) = varType? cs := by
  rw [varType?, h]

def varDoc (type : TypeText) : String := "/** @var " ++ type.text ++ " */"

/-- What is read behind `@var` is the first word. -/
theorem varType?_varDoc (type : TypeText) :
    varType? (varDoc type).toList = some type.firstWord := by
  obtain ⟨c, rest, hchars, hc⟩ := type.exists_chars_eq_cons
  have hfront (cs : List Char) : varType? ("/** @var ".toList ++ cs) =
      varType? ("@var ".toList ++ cs) := by
    have hsplit : "/** @var ".toList ++ cs = '/' :: '*' :: '*' :: ' ' :: ("@var ".toList ++ cs) :=
      rfl
    rw [hsplit, varType?_cons rfl, varType?_cons rfl, varType?_cons rfl, varType?_cons rfl]
  have hclose : " */".toList = ' ' :: "*/".toList := rfl
  have htype : type.chars ++ ' ' :: "*/".toList = c :: (rest ++ ' ' :: "*/".toList) := by
    rw [hchars, List.cons_append]
  have hblank : (!Text.isBlank ' ') = false := by decide
  unfold varDoc
  rw [String.toList_append, String.toList_append, type.toList_text, List.append_assoc, hfront,
    hclose, varType?_var htype hc, takeWhile_append_cons hblank]
  rfl

def TypedAs (name : String) (type? : Option PropertyType) (properties : List PropertySchema) :
    Prop :=
  ∃ q, (properties.find? fun p => p.name == name) = some q ∧ q.type? = type?

theorem find?_declare (property : PropertySchema) (name : String)
    (properties : List PropertySchema) :
    (AnnotationSchema.declare property properties).find? (fun p => p.name == name) =
      if property.name = name then some property
      else properties.find? fun p => p.name == name := by
  induction properties with
  | nil => by_cases hname : property.name = name <;> simp [hname]
  | cons p rest ih =>
    unfold AnnotationSchema.declare
    by_cases hsame : p.name = property.name
    · rw [if_pos hsame]
      by_cases hname : property.name = name
      · simp [hname]
      · simp [hname, hsame]
    · rw [if_neg hsame]
      by_cases hname : p.name = name
      · have hother : property.name ≠ name := fun h => hsame (hname.trans h.symm)
        simp [hname, hother]
      · simp [hname, ih]

variable {name : String} {type? : Option PropertyType} {property : PropertySchema}
  {properties : List PropertySchema}

theorem typedAs_declare (hname : property.name = name) (htype : property.type? = type?) :
    TypedAs name type? (AnnotationSchema.declare property properties) :=
  ⟨property, by rw [find?_declare, if_pos hname], htype⟩

theorem TypedAs.declare (h : TypedAs name type? properties)
    (htype : property.name = name → property.type? = type?) :
    TypedAs name type? (AnnotationSchema.declare property properties) := by
  by_cases hname : property.name = name
  · exact typedAs_declare hname (htype hname)
  · obtain ⟨q, hq, hsame⟩ := h
    exact ⟨q, by rw [find?_declare, if_neg hname, hq], hsame⟩

/-- Attributes type a property if one of them is about it and all that are agree. -/
theorem Draft.typedAs_declareAll {d : Draft} {attributes : List Record.Attribute}
    (hall : ∀ a ∈ attributes, a.name = name → PropertyType.ofDeclared? a.typeName = type?)
    (h : TypedAs name type? d.properties ∨ ∃ a ∈ attributes, a.name = name) :
    TypedAs name type? (d.declareAll attributes).properties := by
  obtain ⟨target, properties⟩ := d
  unfold Draft.declareAll
  dsimp only at h ⊢
  induction attributes generalizing properties with
  | nil => exact h.resolve_right nofun
  | cons a rest ih =>
    rw [List.foldl_cons]
    refine ih (fun b hb => hall b (List.mem_cons_of_mem a hb)) _ ?_
    have hfirst := hall a List.mem_cons_self
    obtain hbefore | ⟨b, hb, hname⟩ := h
    · exact .inl (hbefore.declare hfirst)
    · obtain rfl | hmem := List.mem_cons.1 hb
      · exact .inl (typedAs_declare hname (hfirst hname))
      · exact .inr ⟨b, hmem, hname⟩

def Types (name : String) (type? : Option PropertyType) (a : Annotation) : Prop :=
  a.className = StandardName.attributes → ∀ attributes, Record.attributes.read a = .ok attributes →
    ∀ declared ∈ attributes, declared.name = name →
      PropertyType.ofDeclared? declared.typeName = type?

def Declares (name : String) (a : Annotation) : Prop :=
  a.className = StandardName.attributes ∧ ∀ attributes, Record.attributes.read a = .ok attributes →
    ∃ declared ∈ attributes, declared.name = name

theorem Draft.typedAs_apply {d e : Draft} {a : Annotation} (happly : d.apply a = .ok e)
    (ha : Types name type? a) (h : TypedAs name type? d.properties ∨ Declares name a) :
    TypedAs name type? e.properties := by
  obtain ⟨hclass, record, -, rfl⟩ | ⟨hclass, attributes, hread, rfl⟩ | ⟨-, hclass, rfl⟩ :=
    apply_cases happly
  · refine h.resolve_right fun hdeclares => ?_
    have hother : StandardName.target ≠ StandardName.attributes := by decide
    exact hother (hclass.symm.trans hdeclares.1)
  · exact typedAs_declareAll (ha hclass attributes hread)
      (h.imp_right fun hdeclares => hdeclares.2 attributes hread)
  · exact h.resolve_right fun hdeclares => hclass hdeclares.1

/-- The annotations of a class type a property if one of them declares it and all that do agree. -/
theorem Draft.typedAs_foldlM {annotations : List Annotation} {d e : Draft}
    (hfold : annotations.foldlM Draft.apply d = .ok e)
    (hall : ∀ a ∈ annotations, Types name type? a)
    (h : TypedAs name type? d.properties ∨ ∃ a ∈ annotations, Declares name a) :
    TypedAs name type? e.properties := by
  induction annotations generalizing d with
  | nil =>
    obtain rfl := Except.ok.inj hfold
    exact h.resolve_right nofun
  | cons a rest ih =>
    obtain ⟨next, happly, hrest⟩ := exists_of_foldlM_cons hfold
    have hfirst := hall a List.mem_cons_self
    refine ih hrest (fun b hb => hall b (List.mem_cons_of_mem a hb)) ?_
    obtain hbefore | ⟨b, hb, hdeclares⟩ := h
    · exact .inl (typedAs_apply happly hfirst (.inl hbefore))
    · obtain rfl | hmem := List.mem_cons.1 hb
      · exact .inl (typedAs_apply happly hfirst (.inr hdeclares))
      · exact .inr ⟨b, hmem, hdeclares⟩

/-- The properties that are added type a property if one of them is of this name, or the property
has its type already, and all of them agree. -/
theorem typedAs_addProperties {read : DocReader} {c : ClassDeclaration}
    {declared others : List PropertySchema} {isFirst : Bool} {rest : List PropertyDeclaration}
    {m n : Memory}
    (hrun : (addProperties read c declared isFirst properties rest).result m = (.ok others, n))
    (hall : ∀ p ∈ rest, p.name = name →
      typeOf p.doc (declared.find? fun d => d.name == name) = type?)
    (h : TypedAs name type? properties ∨ ∃ p ∈ rest, p.name = name) :
    TypedAs name type? others := by
  induction rest generalizing isFirst properties m with
  | nil =>
    obtain ⟨hothers, -⟩ := Prod.mk.inj hrun
    obtain rfl := Except.ok.inj hothers
    exact h.resolve_right nofun
  | cons p rest ih =>
    unfold addProperties at hrun
    obtain ⟨property, o, hproperty, hrest⟩ := Lookup.bind_eq_ok hrun
    obtain ⟨enumeration, hmade⟩ := eq_of_propertySchema hproperty
    have hname : property.name = p.name := by rw [hmade]
    have htype : property.type? = typeOf p.doc (declared.find? fun d => d.name == p.name) := by
      rw [hmade]
    have hfirst : property.name = name → property.type? = type? := by
      intro hsame
      rw [hname] at hsame
      rw [htype, hsame]
      exact hall p List.mem_cons_self hsame
    refine ih hrest (fun q hq => hall q (List.mem_cons_of_mem p hq)) ?_
    obtain hbefore | ⟨q, hq, hsame⟩ := h
    · exact .inl (hbefore.declare hfirst)
    · obtain rfl | hmem := List.mem_cons.1 hq
      · have hnamed := hname.trans hsame
        exact .inl (typedAs_declare hnamed (hfirst hnamed))
      · exact .inr ⟨q, hmem, hsame⟩

/-- Of a property with a `@var` of its own, what the class declares does not count. -/
theorem typeOf_varDoc (type : TypeText) (declared : Option PropertySchema) :
    typeOf (varDoc type) declared = PropertyType.ofDeclared? (String.ofList type.firstWord) := by
  unfold typeOf
  rw [varType?_varDoc]

theorem typeOf_of_typedAs {doc : String} (hdoc : varType? doc.toList = none)
    (h : TypedAs name type? properties) :
    typeOf doc (properties.find? fun d => d.name == name) = type? := by
  obtain ⟨q, hq, hsame⟩ := h
  unfold typeOf
  rw [hdoc, hq]
  exact hsame

/-- A property has a type in the schema of a class if the draft types it or it is added, and all
public properties of its name agree. -/
theorem SchemaSteps.typedAs {read : DocReader} {c : ClassDeclaration} {m : Memory}
    {annotations : List Annotation} {draft : Draft} {schema : AnnotationSchema}
    (h : SchemaSteps read c m annotations draft properties schema)
    (hall : ∀ p ∈ c.properties, p.name = name →
      typeOf p.doc (draft.properties.find? fun d => d.name == name) = type?)
    (hdeclared : TypedAs name type? draft.properties ∨
      c.hasConstructor = false ∧ ∃ p ∈ c.properties, p.name = name) :
    TypedAs name type? schema.properties := by
  rw [AnnotationSchema.properties_of_make h.made]
  obtain ⟨hstyle, rfl⟩ | ⟨-, n, o, hrun⟩ := h.added
  · refine hdeclared.resolve_right ?_
    rintro ⟨hother, -⟩
    rw [hstyle] at hother
    cases hother
  · exact typedAs_addProperties hrun hall (hdeclared.imp_right And.right)

end Reflection

end Docblock
