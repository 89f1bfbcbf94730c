import Docblock.Proofs.Object.Arguments
import Docblock.Proofs.Schema.Recalled
import Docblock.Proofs.Schema.WellFormed
import Docblock.Reading.Object

/-!
# Where arguments are stored

An argument is stored in the property of its name, or in the default property if it is called
`value` and no property is. Several arguments may be stored in one property; the last of them stays.
-/

namespace Docblock

namespace AnnotationSchema

variable {s : AnnotationSchema} {place : Place} {all values : OrderedMap Value}

def receiver? (s : AnnotationSchema) (key : Key) : Option String :=
  if (s.property? key.toString).isSome then some key.toString
  else if key = .ofString "value" then s.default?.map fun p => p.name
  else none

def lastOf? (s : AnnotationSchema) (entries : List (Key × Value)) (name : String) :
    Option (Key × Value) :=
  (entries.filter fun e => s.receiver? e.1 == some name).getLast?

theorem lastOf?_cons (s : AnnotationSchema) (e : Key × Value) (entries : List (Key × Value))
    (name : String) : s.lastOf? (e :: entries) name =
      if s.receiver? e.1 = some name then some ((s.lastOf? entries name).getD e)
      else s.lastOf? entries name := by
  unfold lastOf?
  by_cases hreceiver : s.receiver? e.1 = some name
  · rw [if_pos hreceiver, List.filter_cons_of_pos (by simp [hreceiver]), List.getLast?_cons]
  · rw [if_neg hreceiver, List.filter_cons_of_neg (by simpa using hreceiver)]

theorem mem_of_lastOf? {entries : List (Key × Value)} {name : String} {e : Key × Value}
    (h : s.lastOf? entries name = some e) : e ∈ entries ∧ s.receiver? e.1 = some name := by
  have hmem := List.mem_of_getLast? h
  rw [List.mem_filter] at hmem
  simpa using hmem

theorem lastOf?_eq_none_iff {entries : List (Key × Value)} {name : String} :
    s.lastOf? entries name = none ↔ ∀ e ∈ entries, s.receiver? e.1 ≠ some name := by
  unfold lastOf?
  rw [List.getLast?_eq_none_iff, List.filter_eq_nil_iff]
  simp

theorem lastOf?_map (f : Key → Value → Value) (entries : List (Key × Value)) (name : String) :
    s.lastOf? (entries.map fun e => (e.1, f e.1 e.2)) name =
      (s.lastOf? entries name).map fun e => (e.1, f e.1 e.2) := by
  induction entries with
  | nil => rfl
  | cons e rest ih =>
    rw [List.map_cons, lastOf?_cons, lastOf?_cons, ih]
    by_cases hreceiver : s.receiver? e.1 = some name
    · rw [if_pos hreceiver, if_pos hreceiver]
      cases s.lastOf? rest name <;> rfl
    · rw [if_neg hreceiver, if_neg hreceiver]

def rejection (s : AnnotationSchema) (place : Place) (all : OrderedMap Value) (key : Key) :
    AnnotationError :=
  if key = .ofString "value" then
    .noValuesAccepted place.name place.context (Value.array all).json
  else .unknownProperty place.name place.context key.toString s.propertyNames

/-- One argument is stored in its property, or refused. -/
theorem assign_eq (s : AnnotationSchema) (place : Place) (all : OrderedMap Value)
    (object : Annotation) (key : Key) (v : Value) :
    s.assign place all object key v = match s.receiver? key with
      | some name => .ok (object.set name v)
      | none => .error (s.rejection place all key) := by
  unfold assign receiver? rejection
  by_cases hproperty : (s.property? key.toString).isSome = true
  · rw [if_pos hproperty, if_pos hproperty]
  · rw [if_neg hproperty, if_neg hproperty]
    by_cases hvalue : key = .ofString "value"
    · rw [if_neg fun hne => hne hvalue, if_pos hvalue, if_pos hvalue]
      cases s.default? <;> rfl
    · rw [if_pos hvalue, if_neg hvalue, if_neg hvalue]

theorem assign_ok {object next : Annotation} {key : Key} {v : Value}
    (h : s.assign place all object key v = .ok next) :
    ∃ name, s.receiver? key = some name ∧ next = object.set name v := by
  rw [assign_eq] at h
  cases hreceiver : s.receiver? key with
  | none =>
    rw [hreceiver] at h
    cases h
  | some name =>
    rw [hreceiver] at h
    exact ⟨name, rfl, (Except.ok.inj h).symm⟩

/-- A property holds the last argument that is stored in it, or what it held before. -/
theorem get?_assignAll {object a : Annotation} {entries : List (Key × Value)}
    (h : s.assignAll place all object entries = .ok a) (name : String) :
    a.get? name = match s.lastOf? entries name with
      | some e => some e.2
      | none => object.get? name := by
  induction entries generalizing object with
  | nil =>
    obtain rfl := Except.ok.inj h
    rfl
  | cons e rest ih =>
    obtain ⟨key, v⟩ := e
    unfold assignAll at h
    cases hassign : s.assign place all object key v with
    | error e =>
      rw [hassign] at h
      cases h
    | ok next =>
      rw [hassign] at h
      obtain ⟨receiver, hreceiver, rfl⟩ := assign_ok hassign
      rw [ih h, lastOf?_cons]
      dsimp only
      by_cases hsame : receiver = name
      · rw [if_pos (by rw [hreceiver, hsame])]
        cases s.lastOf? rest name with
        | some last => rfl
        | none =>
          dsimp only
          rw [object.get?_set, if_pos hsame]
          rfl
      · have hother : s.receiver? key ≠ some name := by
          rw [hreceiver]
          exact fun heq => hsame (Option.some.inj heq)
        rw [if_neg hother]
        cases s.lastOf? rest name with
        | some last => rfl
        | none =>
          dsimp only
          rw [object.get?_set, if_neg hsame]

theorem className_assignAll {object a : Annotation} {entries : List (Key × Value)}
    (h : s.assignAll place all object entries = .ok a) : a.className = object.className := by
  induction entries generalizing object with
  | nil =>
    obtain rfl := Except.ok.inj h
    rfl
  | cons e rest ih =>
    obtain ⟨key, v⟩ := e
    unfold assignAll at h
    cases hassign : s.assign place all object key v with
    | error e =>
      rw [hassign] at h
      cases h
    | ok next =>
      rw [hassign] at h
      obtain ⟨receiver, -, rfl⟩ := assign_ok hassign
      have hrest := ih h
      exact hrest

theorem className_blank {registry : Registry} (hbare : ClassName.bare s.name = s.name) :
    (s.blank registry).className = s.name := by
  unfold blank
  cases hc : registry.describe? s.name with
  | none => rfl
  | some c => exact Registry.name_eq_of_describe? hbare hc

end AnnotationSchema

end Docblock
