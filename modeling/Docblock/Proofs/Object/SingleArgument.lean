import Docblock.Proofs.Object.Checking
import Docblock.Proofs.Schema.WellFormed
import Docblock.Proofs.Token.Scanning
import Docblock.Reading.Object

/-!
# Objects with a single argument

A property without type and enumeration takes any single argument given under its name, as long as
no other property looks at the argument. Only the default property looks at another name than its
own, at `value`.
-/

namespace Docblock

namespace Key

theorem ofString_of_head {s : String} {c : Char} {cs : List Char} (hs : s.toList = c :: cs)
    (hdigit : c.isDigit = false) (hminus : c ≠ '-') : ofString s = .text s := by
  have hnone : canonicalInteger? (c :: cs) = none := by
    unfold canonicalInteger?
    split
    · next heq => exact absurd (List.cons.inj heq).1 hminus
    · simp [hdigit]
  unfold ofString
  rw [hs, hnone]

theorem ofString_of_isWhole {kind : TokenKind} {s : String} (h : Token.IsWhole kind s)
    (hkind : kind.isName = true) : ofString s = .text s := by
  obtain ⟨c, cs, hs, hfirst, -⟩ := h.name hkind
  obtain hstart | ⟨rfl, -⟩ := hfirst
  · obtain ⟨hdigit, hsign⟩ := Lexeme.not_digit_of_isNameStart hstart
    refine ofString_of_head hs hdigit ?_
    rintro rfl
    exact absurd hsign (by decide)
  · exact ofString_of_head hs (by decide) (by decide)

end Key

namespace PropertySchema

variable {classes : Hierarchy} {place : Place} {values : OrderedMap Value} {p : PropertySchema}

theorem check_eq_of_untyped (htype : p.type? = none) (hoptional : p.required = false) :
    p.check classes place values = .ok values := by
  unfold check
  dsimp only
  rw [htype, hoptional]
  generalize values.set? (p.sourceName values) = given
  cases given <;> rfl

theorem check_eq_of_unset (hunset : values.set? (p.sourceName values) = none)
    (hoptional : p.required = false) : p.check classes place values = .ok values := by
  unfold check
  dsimp only
  rw [hunset, hoptional]
  rfl

end PropertySchema

namespace AnnotationSchema

variable {s : AnnotationSchema} {q : PropertySchema}

/-- The property takes whatever is given for it alone. -/
structure IsFree (s : AnnotationSchema) (q : PropertySchema) : Prop where
  propertyStyle : s.usesConstructor = false
  optional : ∀ p ∈ s.properties, p.required = false
  declared : q ∈ s.properties
  untyped : q.type? = none
  unrestricted : q.enumeration? = none

/-- No other property is the default and has a type, if the property is called `value`. -/
def IsSole (s : AnnotationSchema) (q : PropertySchema) : Prop :=
  q.name = "value" → ∀ p ∈ s.properties, p.isDefault = true → p.name ≠ "value" → p.type? = none

variable {registry : Registry} {place : Place} {v : Value}

theorem set?_single_of_ne {name other : String} (hne : other ≠ name) (v : Value) :
    (Argument.fold [.named name v]).set? other = none := by
  have hnamed : (Argument.fold [.named name v]).named? other = none := by
    have hinsert := OrderedMap.named?_insert .empty name other v
    rw [if_neg (Ne.symm hne)] at hinsert
    exact hinsert
  unfold OrderedMap.set?
  rw [hnamed]
  rfl

theorem checkEnumerations_single (h : s.WellFormed) (hfree : s.IsFree q) :
    s.checkEnumerations place (Argument.fold [.named q.name v]) = .ok () := by
  have hone (p : PropertySchema) (hp : p ∈ s.properties) :
      p.checkEnumeration place (Argument.fold [.named q.name v]) = .ok () := by
    unfold PropertySchema.checkEnumeration
    by_cases hsame : p.name = q.name
    · obtain rfl := h.eq_of_name hp hfree.declared hsame
      rw [hfree.unrestricted]
    · rw [set?_single_of_ne hsame]
      cases p.enumeration? <;> rfl
  unfold checkEnumerations
  generalize s.properties = properties at hone
  induction properties with
  | nil => rfl
  | cons p rest ih =>
    have hfirst := hone p List.mem_cons_self
    have hrest := ih fun r hr => hone r (List.mem_cons_of_mem p hr)
    change (p.checkEnumeration place _ >>= fun _ => rest.forM _) = _
    rw [hfirst]
    exact hrest

theorem checkProperties_single (h : s.WellFormed) (hfree : s.IsFree q) (hsole : s.IsSole q)
    (classes : Hierarchy) :
    s.checkProperties classes place (Argument.fold [.named q.name v]) =
      .ok (Argument.fold [.named q.name v]) := by
  have hone (p : PropertySchema) (hp : p ∈ s.properties) :
      p.check classes place (Argument.fold [.named q.name v]) =
        .ok (Argument.fold [.named q.name v]) := by
    have hoptional := hfree.optional p hp
    by_cases htype : p.type? = none
    · exact PropertySchema.check_eq_of_untyped htype hoptional
    · refine PropertySchema.check_eq_of_unset ?_ hoptional
      have hother : p.name ≠ q.name := by
        intro hsame
        obtain rfl := h.eq_of_name hp hfree.declared hsame
        exact htype hfree.untyped
      obtain hsource | ⟨hsource, hdefault, -, hset⟩ :=
        p.sourceName_cases (Argument.fold [.named q.name v])
      · rw [hsource]
        exact set?_single_of_ne hother v
      · -- The argument is `value`, and a typed default property would look at it.
        by_cases hvalue : q.name = "value"
        · rw [hvalue] at hother
          exact absurd (hsole hvalue p hp hdefault hother) htype
        · rw [set?_single_of_ne (Ne.symm hvalue)] at hset
          cases hset
  unfold checkProperties
  generalize s.properties = properties at hone
  induction properties with
  | nil => rfl
  | cons p rest ih =>
    rw [List.foldlM_cons, hone p List.mem_cons_self]
    exact ih fun r hr => hone r (List.mem_cons_of_mem p hr)

/-- The object of a single argument is the blank one with the property set. -/
theorem objectOf_single (h : s.WellFormed) (hfree : s.IsFree q) (hsole : s.IsSole q)
    (hname : Key.ofString q.name = .text q.name) :
    s.objectOf registry place (Argument.fold [.named q.name v]) =
      .ok ((s.blank registry).set q.name v) := by
  have hentries : (Argument.fold [.named q.name v]).entries = [(.text q.name, v)] := by
    change [(Key.ofString q.name, v)] = _
    rw [hname]
  have hassign : s.assign place (Argument.fold [.named q.name v]) (s.blank registry)
      (.text q.name) v = .ok ((s.blank registry).set q.name v) := by
    unfold assign
    rw [Key.toString_text, h.property?_eq hfree.declared]
    rfl
  unfold objectOf
  rw [checkEnumerations_single h hfree]
  change (s.checkProperties _ place _ >>= fun values => s.instantiate registry place values) = _
  rw [checkProperties_single h hfree hsole]
  change s.instantiate registry place (Argument.fold [.named q.name v]) = _
  unfold instantiate
  rw [hfree.propertyStyle, hentries]
  change s.assignAll place _ (s.blank registry) [(.text q.name, v)] = _
  unfold assignAll
  rw [hassign]
  rfl

end AnnotationSchema

end Docblock
