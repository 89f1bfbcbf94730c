import Docblock.Proofs.Grammar.Document
import Docblock.Proofs.Object.Records
import Docblock.Proofs.OrderedMap.Operations
import Docblock.Proofs.Schema.DeclaredTypes
import Docblock.Proofs.Value.Source
import Mathlib.Data.List.Forall2

/-!
# Attributes as terms

A class declares properties by a call whose one argument is a collection of attributes. Each of them
is a call in turn, with the name of the property first and its type behind `type`. Where such a call
means anything at all, it means an object from which just these names and types are read.
-/

namespace Docblock

namespace OrderedMap

variable {α : Type}

theorem values_foldl_push {m : OrderedMap α} (h : m.IsSound) {n : Nat}
    (hindex : m.nextIndex = Int64.ofNat n) {values : List α} (hfew : n + values.length < 2 ^ 63) :
    (values.foldl push m).values = m.values ++ values := by
  induction values generalizing m n with
  | nil => exact (List.append_nil _).symm
  | cons a rest ih =>
    rw [List.length_cons] at hfew
    have hlast : .int Int64.maxValue ∉ m.keys := by
      intro hmem
      have hvalue := congrArg Int64.toInt (hindex.symm.trans (h.nextIndex_eq_maxValue hmem))
      rw [Int64.toInt_ofNat_of_lt (by omega), Int64.toInt_maxValue] at hvalue
      omega
    obtain ⟨key, -, hentries⟩ := h.appends_push hlast a
    have hvalues : (m.push a).values = m.values ++ [a] := by
      unfold values
      rw [hentries, List.map_append]
      rfl
    have hnext : (m.push a).nextIndex = Int64.ofNat (n + 1) := by
      rw [push, nextIndex_insert, hindex, Value.indexAfter_ofNat (by omega)]
    have hsound : (m.push a).IsSound := h.insert _ a
    rw [List.foldl_cons, ih hsound hnext (by omega), hvalues, List.append_assoc]
    rfl

end OrderedMap

theorem Except.forall₂_of_mapM_eq_ok {ε α β : Type} {f : α → Except ε β} {all : List α}
    {found : List β} (h : all.mapM f = .ok found) :
    List.Forall₂ (fun a b => f a = .ok b) all found := by
  induction all generalizing found with
  | nil =>
    obtain rfl := Except.ok.inj h
    exact .nil
  | cons a rest ih =>
    rw [List.mapM_cons] at h
    obtain ⟨b, ha, h⟩ := Except.exists_of_bind_eq_ok h
    obtain ⟨others, hrest, h⟩ := Except.exists_of_bind_eq_ok h
    obtain rfl := Except.ok.inj h
    exact .cons ha (ih hrest)

namespace AnnotationSchema

variable {s : AnnotationSchema} {registry : Registry} {place : Place} {given : List Argument}
  {a : Annotation} {key : Key} {v : Value} {name : String}

/-- An object holds the last argument for a property as it was given, unless it had to be
wrapped. -/
theorem get?_of_objectOf (hstyle : s.usesConstructor = false)
    (h : s.objectOf registry place (Argument.fold given) = .ok a)
    (hlast : s.lastOf? (Argument.fold given).entries name = some (key, v))
    (hplain : v.isArray = true ∨ ∀ p ∈ s.properties, p.isArray = false) :
    a.get? name = some v := by
  obtain ⟨others, hchecked, hassigned⟩ := objectOf_ok hstyle h
  obtain ⟨hleaves, -, -⟩ := foldlM_check_ok (OrderedMap.isNormal_fold given) hchecked
  have hget := get?_of_leaves hleaves hassigned name
  rw [hlast] at hget
  dsimp only at hget
  obtain hsame | ⟨-, hsingle, hwraps, -⟩ :=
    PropertySchema.left_cases (Argument.fold given) s.properties key.toString v
  · rw [hget, hsame]
  · obtain harray | hnone := hplain
    · rw [harray] at hsingle
      cases hsingle
    · obtain ⟨p, hp, harray, -⟩ := PropertySchema.wraps_eq_true_iff.1 hwraps
      rw [hnone p hp] at harray
      cases harray

end AnnotationSchema

namespace Grammar

open AnnotationSchema SchemaTable

variable {scope : Scope} {value : Term → Except AnnotationError (Option Docblock.Value)}
  {target : Target} {room : Nat}

/-- A call of a name with a schema means an object of that schema, made of its arguments. -/
theorem objectOf_of_callMeaning {name : String} {arguments : List (Option String × Term)}
    {s : AnnotationSchema} {found : Option Annotation} (hs : scope.schemaFor name = .ok (some s))
    (h : callMeaning scope value target (name, arguments) = .ok found) :
    ∃ values a place, argumentsMeaning value arguments = .ok values ∧
      s.objectOf scope.registry place values = .ok a ∧ found = some a := by
  unfold callMeaning at h
  obtain ⟨schema, hschema, h⟩ := Except.exists_of_bind_eq_ok h
  obtain rfl := Except.ok.inj (hs.symm.trans hschema)
  dsimp only at h
  split at h
  · cases h
  · obtain ⟨values, hvalues, h⟩ := Except.exists_of_bind_eq_ok h
    obtain ⟨a, hobject, h⟩ := Except.exists_of_bind_eq_ok h
    exact ⟨values, a, _, hvalues, hobject, (Except.ok.inj h).symm⟩

/-- An attribute as it is listed on a class: `@Attribute("name", type = "type")`, possibly with a
flag behind. -/
structure AttributeTerm where
  written : String
  name : String
  type : String
  required? : Option Bool := none

namespace AttributeTerm

def arguments (a : AttributeTerm) : List (Option String × Term) :=
  (none, .literal (.string a.name)) :: (some "type", .literal (.string a.type)) ::
    (a.required?.map fun b => (some "required", Term.literal (.bool b))).toList

def term (a : AttributeTerm) : Term := .call a.written a.arguments

def entry (a : AttributeTerm) : Option KeyTerm × Term := (none, a.term)

def given (a : AttributeTerm) : List Docblock.Argument :=
  .positional (.string a.name) :: .named "type" (.string a.type) ::
    (a.required?.map fun b => Docblock.Argument.named "required" (.bool b)).toList

def declares (a : AttributeTerm) : String × String := (a.name, a.type)

variable {a : AttributeTerm} {registry : Registry} {place : Place} {object : Annotation}

theorem argumentsMeaning_arguments (room : Nat) (a : AttributeTerm) :
    argumentsMeaning (meaning scope room) a.arguments = .ok (Docblock.Argument.fold a.given) := by
  obtain ⟨written, name, type, _ | b⟩ := a <;> cases room <;> rfl

theorem fields_of_objectOf
    (h : standardAttribute.objectOf registry place (Docblock.Argument.fold a.given) = .ok object) :
    object.className = StandardName.singleAttribute ∧
      object.get? "name" = some (.string a.name) ∧ object.get? "type" = some (.string a.type) := by
  have hplain : ∀ p ∈ standardAttribute.properties, p.isArray = false := by decide
  have hname : standardAttribute.lastOf? (Docblock.Argument.fold a.given).entries "name" =
      some (.ofString "value", .string a.name) := by
    obtain ⟨written, name, type, _ | b⟩ := a <;> rfl
  have htype : standardAttribute.lastOf? (Docblock.Argument.fold a.given).entries "type" =
      some (.ofString "type", .string a.type) := by
    obtain ⟨written, name, type, _ | b⟩ := a <;> rfl
  exact ⟨className_of_objectOf rfl rfl h, get?_of_objectOf rfl h hname (.inr hplain),
    get?_of_objectOf rfl h htype (.inr hplain)⟩

/-- The record of an attribute has its name and its type. -/
theorem declares_of_read
    (h : standardAttribute.objectOf registry place (Docblock.Argument.fold a.given) = .ok object)
    {record : Record.Attribute} (hread : Record.singleAttribute.read object = .ok record) :
    (record.name, record.typeName) = a.declares := by
  obtain ⟨hclass, hname, htype⟩ := fields_of_objectOf h
  rw [Record.read_of_className hclass] at hread
  unfold Record.singleAttribute at hread
  obtain ⟨required, -, hread⟩ := Except.exists_of_bind_eq_ok hread
  obtain ⟨name, hfirst, hread⟩ := Except.exists_of_bind_eq_ok hread
  obtain ⟨type, hsecond, hread⟩ := Except.exists_of_bind_eq_ok hread
  rw [Record.text_of_get? hname] at hfirst
  rw [Record.text_of_get? htype] at hsecond
  obtain rfl := Except.ok.inj hfirst
  obtain rfl := Except.ok.inj hsecond
  obtain rfl := Except.ok.inj hread
  rfl

theorem objectOf_of_meaning (hs : scope.schemaFor a.written = .ok (some standardAttribute))
    {found : Option Docblock.Value} (h : meaning scope (room + 1) a.term = .ok found) :
    ∃ object place, found = some (.object object.className object.properties) ∧
      standardAttribute.objectOf scope.registry place (Docblock.Argument.fold a.given) =
        .ok object := by
  unfold term at h
  rw [meaning_call] at h
  obtain ⟨called, hcall, h⟩ := Except.exists_of_bind_eq_ok h
  obtain ⟨values, object, place, hvalues, hobject, rfl⟩ := objectOf_of_callMeaning hs hcall
  rw [argumentsMeaning_arguments] at hvalues
  obtain rfl := Except.ok.inj hvalues
  exact ⟨object, place, (Except.ok.inj h).symm, hobject⟩

def Makes (registry : Registry) (a : AttributeTerm) (object : Annotation) : Prop :=
  ∃ place, standardAttribute.objectOf registry place (Docblock.Argument.fold a.given) = .ok object

variable {all : List AttributeTerm}

theorem objects_of_mapM
    (hs : ∀ a ∈ all, scope.schemaFor a.written = .ok (some standardAttribute))
    {found : List (Option Key × Option Docblock.Value)}
    (h : (all.map entry).mapM (entryMeaning scope (meaning scope (room + 1))) = .ok found) :
    ∃ objects, List.Forall₂ (Makes scope.registry) all objects ∧
      found = objects.map fun object =>
        (none, some (.object object.className object.properties)) := by
  have hall := List.forall₂_map_left_iff.1 (Except.forall₂_of_mapM_eq_ok h)
  clear h
  induction hall with
  | nil => exact ⟨[], .nil, rfl⟩
  | @cons a first rest others hfirst _ ih =>
    obtain ⟨v, hv, hfirst⟩ := Except.exists_of_bind_eq_ok hfirst
    obtain rfl := Except.ok.inj hfirst
    obtain ⟨object, place, rfl, hobject⟩ := objectOf_of_meaning (hs a List.mem_cons_self) hv
    obtain ⟨objects, hobjects, rfl⟩ := ih fun b hb => hs b (List.mem_cons_of_mem a hb)
    exact ⟨object :: objects, .cons ⟨place, hobject⟩ hobjects, rfl⟩

/-- A collection of attributes means the list of their objects. -/
theorem values_of_entriesMeaning
    (hs : ∀ a ∈ all, scope.schemaFor a.written = .ok (some standardAttribute))
    (hfew : all.length < 2 ^ 63) {items : OrderedMap Docblock.Value}
    (h : entriesMeaning scope (meaning scope (room + 1)) (all.map entry) = .ok items) :
    ∃ objects, List.Forall₂ (Makes scope.registry) all objects ∧
      items.values = objects.map fun object => .object object.className object.properties := by
  obtain ⟨found, hfound, h⟩ := Except.exists_of_bind_eq_ok h
  obtain ⟨objects, hobjects, rfl⟩ := objects_of_mapM hs hfound
  obtain rfl := Except.ok.inj h
  refine ⟨objects, hobjects, ?_⟩
  have hpushed : (objects.map fun object => ((none : Option Key),
      some (Docblock.Value.object object.className object.properties))).foldl
        OrderedMap.addEntry .empty =
      (objects.map fun object => Docblock.Value.object object.className object.properties).foldl
        OrderedMap.push .empty := by
    rw [List.foldl_map, List.foldl_map]
    rfl
  rw [hpushed]
  refine OrderedMap.values_foldl_push OrderedMap.isSound_empty (n := 0) rfl ?_
  rw [List.length_map, ← hobjects.length_eq, Nat.zero_add]
  exact hfew

theorem declares_of_mapM {objects : List Annotation} (h : List.Forall₂ (Makes registry) all objects)
    {records : List Record.Attribute}
    (hread : objects.mapM Record.singleAttribute.read = .ok records) :
    records.map (fun record => (record.name, record.typeName)) = all.map declares := by
  have hall := Except.forall₂_of_mapM_eq_ok hread
  clear hread
  induction h generalizing records with
  | nil =>
    cases hall
    rfl
  | cons hobject _ ih =>
    cases hall with
    | cons hfirst hrest =>
      obtain ⟨place, hobject⟩ := hobject
      rw [List.map_cons, List.map_cons, declares_of_read hobject hfirst, ih hrest]

theorem entry_injective : Function.Injective entry := by
  rintro ⟨written, name, type, required?⟩ ⟨other, otherName, otherType, otherRequired?⟩ h
  simp only [entry, term, arguments, Prod.mk.injEq, Term.call.injEq, List.cons.injEq,
    Term.literal.injEq, Docblock.Value.string.injEq, true_and] at h
  obtain ⟨rfl, rfl, rfl, hrequired⟩ := h
  cases required? <;> cases otherRequired? <;> simp_all

def listed (all : List AttributeTerm) : List (Option String × Term) :=
  [(none, .collection (all.map entry))]

theorem listed_injective : Function.Injective listed := by
  intro all others h
  simp only [listed, List.cons.injEq, Prod.mk.injEq, Term.collection.injEq, true_and,
    and_true] at h
  exact List.map_injective_iff.2 entry_injective h

theorem items_of_argumentsMeaning {values : OrderedMap Docblock.Value}
    (h : argumentsMeaning (meaning scope (room + 1)) (listed all) = .ok values) :
    ∃ items, entriesMeaning scope (meaning scope room) (all.map entry) = .ok items ∧
      values = Docblock.Argument.fold [.positional (.array items)] := by
  obtain ⟨given, hgiven, hvalues⟩ := Except.exists_of_bind_eq_ok h
  obtain rfl := Except.ok.inj hvalues
  obtain ⟨first, others, hfirst, hrest, rfl⟩ :=
    List.forall₂_cons_left_iff.1 (Except.forall₂_of_mapM_eq_ok hgiven)
  obtain rfl := List.forall₂_nil_left_iff.1 hrest
  obtain ⟨v, hv, hfirst⟩ := Except.exists_of_bind_eq_ok hfirst
  obtain rfl := Except.ok.inj hfirst
  rw [meaning_collection] at hv
  obtain ⟨items, hitems, hv⟩ := Except.exists_of_bind_eq_ok hv
  obtain rfl := Except.ok.inj hv
  exact ⟨items, hitems, rfl⟩

/-- A list of attributes on a class means an object that says about properties what they do. -/
theorem declares_of_callMeaning {written : String}
    (hschema : scope.schemaFor written = .ok (some standardAttributes))
    (hs : ∀ a ∈ all, scope.schemaFor a.written = .ok (some standardAttribute))
    (hfew : all.length < 2 ^ 63) {found : Option Annotation}
    (h : callMeaning scope (meaning scope (room + 2)) target (written, listed all) = .ok found) :
    ∃ object, found = some object ∧ object.className = StandardName.attributes ∧
      ∀ records, Record.attributes.read object = .ok records →
        records.map (fun record => (record.name, record.typeName)) = all.map declares := by
  obtain ⟨values, object, place, hvalues, hobject, rfl⟩ := objectOf_of_callMeaning hschema h
  obtain ⟨items, hitems, rfl⟩ := items_of_argumentsMeaning hvalues
  obtain ⟨objects, hobjects, hlist⟩ := values_of_entriesMeaning hs hfew hitems
  have hclass : object.className = StandardName.attributes := className_of_objectOf rfl rfl hobject
  have hget : object.get? "value" = some (.array items) :=
    get?_of_objectOf (s := standardAttributes) rfl hobject rfl (.inl rfl)
  refine ⟨object, rfl, hclass, fun records hread => ?_⟩
  rw [Record.read_of_className hclass] at hread
  unfold Record.attributes at hread
  dsimp only at hread
  rw [Record.map_of_get? hget] at hread
  change items.values.mapM _ = _ at hread
  rw [hlist, List.mapM_map] at hread
  exact declares_of_mapM hobjects hread

end AttributeTerm

end Grammar

end Docblock
