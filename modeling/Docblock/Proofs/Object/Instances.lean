import Docblock.Proofs.Object.Assigning
import Docblock.Proofs.Object.Deciding
import Mathlib.Data.List.Induction

/-!
# Objects whose properties are assigned

An object of a class without a constructor is made exactly if each argument has a property to be
stored in, and otherwise the first argument without one is refused. It holds the defaults that its
class declares, in their order, with the arguments assigned over them and behind them, and nothing
else.
-/

namespace Docblock

theorem List.eraseDups_concat {α : Type} [BEq α] [LawfulBEq α] (all : List α) (a : α) :
    (all ++ [a]).eraseDups = if all.contains a then all.eraseDups else all.eraseDups ++ [a] := by
  rw [List.eraseDups_append, List.removeAll]
  by_cases hpresent : a ∈ all <;> simp [hpresent, List.eraseDups_cons]

theorem List.nodup_eraseDups {α : Type} [BEq α] [LawfulBEq α] (all : List α) :
    all.eraseDups.Nodup := by
  induction all using List.reverseRecOn with
  | nil => exact List.nodup_nil
  | append_singleton all a ih =>
    rw [List.eraseDups_concat]
    split
    · exact ih
    · next hnew =>
      rw [List.contains_iff_mem, ← List.mem_eraseDups] at hnew
      refine List.nodup_append.2 ⟨ih, by simp, ?_⟩
      rintro b hb _ hc rfl
      rw [List.mem_singleton.1 hc] at hb
      exact hnew hb

namespace OrderedMap

variable {α : Type}

def ofEntries (entries : List (Key × α)) : OrderedMap α :=
  entries.foldl (fun m e => m.insert e.1 e.2) .empty

theorem ofEntries_concat (entries : List (Key × α)) (e : Key × α) :
    ofEntries (entries ++ [e]) = (ofEntries entries).insert e.1 e.2 := by
  simp [ofEntries]

/-- Each key stands where it was first assigned. -/
theorem keys_ofEntries (entries : List (Key × α)) :
    (ofEntries entries).keys = (entries.map Prod.fst).eraseDups := by
  induction entries using List.reverseRecOn with
  | nil => rfl
  | append_singleton entries e ih =>
    rw [ofEntries_concat, keys_insert, ih, List.map_append, List.map_singleton,
      List.eraseDups_concat]
    simp only [List.mem_eraseDups, List.contains_iff_mem]

/-- A key has the value that it was assigned last. -/
theorem get?_ofEntries (entries : List (Key × α)) (key : Key) :
    (ofEntries entries).get? key =
      (entries.filter fun e => e.1 == key).getLast?.map Prod.snd := by
  induction entries using List.reverseRecOn with
  | nil => rfl
  | append_singleton entries e ih =>
    rw [ofEntries_concat, get?_insert, ih, List.filter_append]
    by_cases hsame : e.1 = key
    · rw [if_pos hsame, List.filter_cons_of_pos (by simpa using hsame), List.filter_nil,
        List.getLast?_concat]
      rfl
    · rw [if_neg hsame, List.filter_cons_of_neg (by simpa using hsame), List.filter_nil,
        List.append_nil]

end OrderedMap

def Registry.ownProperties (registry : Registry) (className : String) : List PropertyDeclaration :=
  match registry.describe? className with
  | some c => c.properties
  | none => []

namespace AnnotationSchema

open OrderedMap

variable {s : AnnotationSchema} {registry : Registry} {place : Place}
  {all values : OrderedMap Value} {key : Key}

/-- There is a property for an argument: one of its name, or the default for `value`. -/
def Receives (s : AnnotationSchema) (key : Key) : Prop :=
  (∃ p ∈ s.properties, p.name = key.toString) ∨
    key = .ofString "value" ∧ ∃ p ∈ s.properties, p.isDefault = true

theorem receives_iff_isSome : s.Receives key ↔ (s.receiver? key).isSome = true := by
  have hproperty : (s.property? key.toString).isSome = true ↔
      ∃ p ∈ s.properties, p.name = key.toString := by
    simp [property?, List.find?_isSome]
  have hdefault : s.default?.isSome = true ↔ ∃ p ∈ s.properties, p.isDefault = true := by
    simp [default?, List.find?_isSome]
  unfold Receives receiver?
  rw [← hproperty, ← hdefault]
  split
  · next hfound => simp [hfound]
  · next hmissing =>
    split
    · next hvalue =>
      subst hvalue
      simp [hmissing]
    · next hother => simp [hmissing, hother]

def received (s : AnnotationSchema) (entries : List (Key × Value)) : List (Key × Value) :=
  entries.filterMap fun e => (s.receiver? e.1).map fun name => (.ofString name, e.2)

/-- If there is a property for each argument, they are assigned one after another. -/
theorem assignAll_eq_ok {entries : List (Key × Value)} (h : ∀ e ∈ entries, s.Receives e.1)
    (object : Annotation) : s.assignAll place all object entries =
      .ok ⟨object.className,
        (s.received entries).foldl (fun m e => m.insert e.1 e.2) object.properties⟩ := by
  induction entries generalizing object with
  | nil => rfl
  | cons e rest ih =>
    obtain ⟨key, v⟩ := e
    have hfirst : s.Receives key := h _ List.mem_cons_self
    obtain ⟨name, hname⟩ := Option.isSome_iff_exists.1 (receives_iff_isSome.1 hfirst)
    have hreceived : s.received ((key, v) :: rest) = (.ofString name, v) :: s.received rest := by
      unfold received
      rw [List.filterMap_cons, hname]
      rfl
    rw [assignAll, assign_eq, hname, hreceived]
    exact ih (fun e he => h e (List.mem_cons_of_mem _ he)) _

/-- The first argument that there is no property for is refused. -/
theorem assignAll_eq_error {before after : List (Key × Value)} {v : Value}
    (h : ∀ e ∈ before, s.Receives e.1) (hkey : ¬ s.Receives key) (object : Annotation) :
    s.assignAll place all object (before ++ (key, v) :: after) =
      .error (s.rejection place all key) := by
  induction before generalizing object with
  | nil =>
    have hnone : s.receiver? key = none := by
      rw [receives_iff_isSome] at hkey
      simpa using hkey
    rw [List.nil_append, assignAll, assign_eq, hnone]
  | cons e rest ih =>
    have hfirst : s.Receives e.1 := h _ List.mem_cons_self
    obtain ⟨name, hname⟩ := Option.isSome_iff_exists.1 (receives_iff_isSome.1 hfirst)
    rw [List.cons_append, assignAll, assign_eq, hname]
    exact ih (fun e he => h e (List.mem_cons_of_mem _ he)) _

theorem exists_assignAll_iff {entries : List (Key × Value)} (object : Annotation) :
    (∃ a, s.assignAll place all object entries = .ok a) ↔ ∀ e ∈ entries, s.Receives e.1 := by
  constructor
  · rintro ⟨a, ha⟩ e he
    apply Classical.byContradiction
    intro hrefused
    obtain ⟨⟨key, v⟩, before, after, hkey, hsplit, hbefore⟩ :=
      exists_first (P := fun e => ¬ s.Receives e.1) he hrefused
    rw [hsplit, assignAll_eq_error (fun e he => Classical.not_not.1 (hbefore e he)) hkey] at ha
    cases ha
  · exact fun hall => ⟨_, assignAll_eq_ok hall _⟩

theorem properties_blank (s : AnnotationSchema) (registry : Registry) :
    (s.blank registry).properties =
      ofEntries ((registry.ownProperties s.name).map fun p => (.ofString p.name, p.default)) := by
  unfold blank Registry.ownProperties
  cases registry.describe? s.name with
  | none => rfl
  | some c =>
    unfold ofEntries
    rw [List.foldl_map]
    rfl

/-- The object holds the defaults with the arguments assigned over them. -/
structure Assigned (s : AnnotationSchema) (own : List PropertyDeclaration)
    (entries : List (Key × Value)) (a : Annotation) : Prop where
  /-- A property holds the last argument stored in it, or else its default. -/
  holds : ∀ name, a.get? name = ((s.lastOf? entries name).map Prod.snd).or
    ((own.filter fun p => p.name == name).getLast?.map fun p => p.default)
  /-- The properties of the class come first, and then those that arguments are stored in. -/
  keys : a.properties.keys = (own.map (fun p => Key.ofString p.name) ++
    entries.filterMap fun e => (s.receiver? e.1).map Key.ofString).eraseDups

theorem Assigned.isNormal {own : List PropertyDeclaration} {entries : List (Key × Value)}
    {a : Annotation} (h : s.Assigned own entries a) : a.properties.IsNormal := by
  constructor
  · rw [h.keys]
    exact List.nodup_eraseDups _
  · intro key hkey
    rw [h.keys, List.mem_eraseDups, List.mem_append, List.mem_map, List.mem_filterMap] at hkey
    obtain ⟨p, -, rfl⟩ | ⟨e, -, he⟩ := hkey
    · rw [Key.toString_ofString]
    · obtain ⟨name, -, rfl⟩ := Option.map_eq_some_iff.1 he
      rw [Key.toString_ofString]

theorem get?_default (own : List PropertyDeclaration) (name : String) :
    (ofEntries (own.map fun p => (Key.ofString p.name, p.default))).named? name =
      (own.filter fun p => p.name == name).getLast?.map fun p => p.default := by
  have hname (p : PropertyDeclaration) :
      (Key.ofString p.name == Key.ofString name) = (p.name == name) := by
    rw [Bool.eq_iff_iff, beq_iff_eq, beq_iff_eq]
    exact ⟨fun hkey => Key.ofString_injective hkey, congrArg Key.ofString⟩
  unfold named?
  rw [get?_ofEntries, List.filter_map, List.getLast?_map, Option.map_map]
  simp only [Function.comp_def, hname]

theorem assigned_of_assignAll {a : Annotation} {entries : List (Key × Value)}
    (h : s.assignAll place all (s.blank registry) entries = .ok a) :
    s.Assigned (registry.ownProperties s.name) entries a := by
  constructor
  · intro name
    have hdefault : (s.blank registry).get? name =
        ((registry.ownProperties s.name).filter fun p => p.name == name).getLast?.map
          fun p => p.default := by
      unfold Annotation.get?
      rw [properties_blank, get?_default]
    have hlast := get?_assignAll h name
    cases hstored : s.lastOf? entries name with
    | none =>
      rw [hstored] at hlast
      exact hlast.trans hdefault
    | some e =>
      rw [hstored] at hlast
      exact hlast
  · rw [assignAll_eq_ok ((exists_assignAll_iff _).1 ⟨a, h⟩)] at h
    obtain rfl := Except.ok.inj h
    have hproperties : (s.received entries).foldl (fun m e => m.insert e.1 e.2)
        (s.blank registry).properties = ofEntries
          ((registry.ownProperties s.name).map (fun p => (.ofString p.name, p.default)) ++
            s.received entries) := by
      rw [properties_blank]
      exact (List.foldl_append ..).symm
    dsimp only
    rw [hproperties, keys_ofEntries, List.map_append, List.map_map, received, List.map_filterMap]
    simp only [Function.comp_def, Option.map_map]

theorem instantiate_eq (hstyle : s.usesConstructor = false) :
    s.instantiate registry place values =
      s.assignAll place values (s.blank registry) values.entries := by
  unfold instantiate
  rw [hstyle]
  rfl

/-- An object without a constructor is made if and only if there is a property for each argument.
The first argument without one is refused, and the object that is made holds the defaults of its
class with the arguments assigned over them. -/
theorem instantiate_assigns (hstyle : s.usesConstructor = false) :
    ((∃ a, s.instantiate registry place values = .ok a) ↔ ∀ key ∈ values.keys, s.Receives key) ∧
      (∀ before key v after, values.entries = before ++ (key, v) :: after →
        (∀ e ∈ before, s.Receives e.1) → ¬ s.Receives key →
        s.instantiate registry place values = .error (s.rejection place values key)) ∧
      ∀ a, s.instantiate registry place values = .ok a →
        s.Assigned (registry.ownProperties s.name) values.entries a := by
  have hkeys : (∀ key ∈ values.keys, s.Receives key) ↔ ∀ e ∈ values.entries, s.Receives e.1 :=
    List.forall_mem_map
  rw [instantiate_eq hstyle, hkeys]
  refine ⟨exists_assignAll_iff _, ?_, fun a => assigned_of_assignAll⟩
  intro before key v after hsplit hbefore hkey
  rw [hsplit]
  exact assignAll_eq_error hbefore hkey _

def page : AnnotationSchema where
  name := "Page"
  target := .all
  usesConstructor := false
  properties := [{ name := "path", isDefault := true }, { name := "title" }]

def pages : Registry :=
  Registry.empty.register
    (.make "Page" "" [{ name := "path" }, { name := "layout", default := .string "wide" }])

theorem instantiate_assigns_page :
    ∃ a, page.instantiate pages ⟨"Page", "class Start"⟩
        (Argument.fold [.named "title" (.string "Start"), .positional (.string "/")]) = .ok a ∧
      page.Assigned [{ name := "path" }, { name := "layout", default := .string "wide" }]
        [(.text "title", .string "Start"), (.text "value", .string "/")] a := by
  have hall := @instantiate_assigns page pages ⟨"Page", "class Start"⟩
    (Argument.fold [.named "title" (.string "Start"), .positional (.string "/")]) rfl
  have hreceives : ∀ key ∈ [Key.text "title", .text "value"], page.Receives key := by
    intro key hkey
    rw [receives_iff_isSome]
    revert key
    decide
  obtain ⟨a, ha⟩ := hall.1.2 hreceives
  exact ⟨a, ha, hall.2.2 a ha⟩

end AnnotationSchema

end Docblock
