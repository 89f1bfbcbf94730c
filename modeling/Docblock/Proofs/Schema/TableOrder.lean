import Docblock.Proofs.Schema.Tidy
import Mathlib.Data.List.Find
import Mathlib.Data.List.TakeWhile
import Mathlib.Data.Set.Card

/-!
# The order of tables

A table finds schemas by name and keeps their names in order. Every call changes the two together,
also a call that fails half-way. So a table is known from the record of what was added to it and
removed from it: it lists the schemas whose names did not change again, in the order in which they
were added.
-/

namespace Docblock

theorem List.takeWhile_congr {α : Type} {p q : α → Bool} {as : List α}
    (h : ∀ a ∈ as, p a = q a) : as.takeWhile p = as.takeWhile q := by
  induction as with
  | nil => rfl
  | cons a rest ih =>
    rw [List.takeWhile_cons, List.takeWhile_cons, h a List.mem_cons_self,
      ih fun b hb => h b (List.mem_cons_of_mem a hb)]

namespace SchemaTable

/-- A call that may change a table. A table to include is made by calls of its own. -/
inductive Call where
  | add (schema : AnnotationSchema)
  | includeMade (calls : List Call)
  | erase (name : String)

mutual

def perform (t : SchemaTable) : Call → SchemaTable × Option SchemaError
  | .add schema =>
    match t.add schema with
    | .ok added => (added, none)
    | .error e => (t, some e)
  | .includeMade calls => t.includeTable (performAll empty calls)
  | .erase name => (t.erase name, none)

def performAll (t : SchemaTable) : List Call → SchemaTable
  | [] => t
  | call :: rest => performAll (perform t call).1 rest

end

def made (calls : List Call) : SchemaTable := performAll empty calls

inductive Change where
  | added (schema : AnnotationSchema)
  | removed (name : String)

def Change.name : Change → String
  | added schema => schema.name
  | removed name => name

def fresh (t : SchemaTable) (schemas : List AnnotationSchema) : List AnnotationSchema :=
  schemas.takeWhile fun s => !t.contains s.name

def changesBy (t : SchemaTable) : Call → List Change
  | .add schema => (t.fresh [schema]).map .added
  | .includeMade calls => (t.fresh (made calls).toList).map .added
  | .erase name => if t.contains name then [.removed name] else []

def history (t : SchemaTable) : List Call → List Change
  | [] => []
  | call :: rest => t.changesBy call ++ history (t.perform call).1 rest

/-- The schemas that were added and whose names did not change again, in the order of their
additions. -/
def lasting : List Change → List AnnotationSchema
  | [] => []
  | .added schema :: later =>
    if schema.name ∈ later.map Change.name then lasting later else schema :: lasting later
  | .removed _ :: later => lasting later

theorem lasting_append (changes later : List Change) : lasting (changes ++ later) =
    (lasting changes).filter (fun s => s.name ∉ later.map Change.name) ++ lasting later := by
  induction changes with
  | nil => rfl
  | cons change rest ih =>
    cases change with
    | removed name => exact ih
    | added schema =>
      rw [List.cons_append, lasting, lasting, List.map_append, ih]
      by_cases hrest : schema.name ∈ rest.map Change.name
      · rw [if_pos (List.mem_append_left _ hrest), if_pos hrest]
      · by_cases hlater : schema.name ∈ later.map Change.name
        · rw [if_pos (List.mem_append_right _ hlater), if_neg hrest,
            List.filter_cons_of_neg (by simpa using hlater)]
        · rw [if_neg (by simp [hrest, hlater]), if_neg hrest,
            List.filter_cons_of_pos (by simpa using hlater), List.cons_append]

theorem lasting_added {schemas : List AnnotationSchema}
    (h : (schemas.map fun s => s.name).Nodup) : lasting (schemas.map .added) = schemas := by
  induction schemas with
  | nil => rfl
  | cons schema rest ih =>
    rw [List.map_cons, List.nodup_cons] at h
    have hnames : (rest.map Change.added).map Change.name = rest.map fun s => s.name :=
      List.map_map
    rw [List.map_cons, lasting, hnames, if_neg h.1, ih h.2]

/-- A table lists the names under which it has schemas, each once, and every schema is under its own
name. -/
structure InStep (t : SchemaTable) : Prop where
  distinct : t.names.Nodup
  listed : t.Listed
  named : ∀ name s, t.find? name = some s → s.name = name

variable {t added : SchemaTable} {schema : AnnotationSchema}

theorem perform_add (t : SchemaTable) (schema : AnnotationSchema) :
    t.perform (.add schema) = t.addAll [schema] := by
  unfold perform addAll addAll
  rfl

theorem perform_includeMade (t : SchemaTable) (calls : List Call) :
    t.perform (.includeMade calls) = t.includeTable (made calls) := by
  unfold perform
  rfl

theorem perform_erase (t : SchemaTable) (name : String) :
    t.perform (.erase name) = (t.erase name, none) := by
  unfold perform
  rfl

theorem performAll_nil (t : SchemaTable) : t.performAll [] = t := by
  unfold performAll
  rfl

theorem performAll_cons (t : SchemaTable) (call : Call) (rest : List Call) :
    t.performAll (call :: rest) = (t.perform call).1.performAll rest := by
  rw [performAll]

theorem inStep_empty : empty.InStep where
  distinct := List.nodup_nil
  listed name := by simp [empty]
  named _ _ h := nomatch h

theorem contains_eq_false_of_find? {name : String} (h : t.find? name = none) :
    t.contains name = false := by
  rw [contains, h]
  rfl

theorem add_of_contains (h : t.contains schema.name = true) :
    t.add schema = .error (.duplicate schema.name) := if_pos h

namespace InStep

theorem contains_iff (h : t.InStep) (name : String) :
    t.contains name = true ↔ name ∈ t.names := by
  rw [contains, Option.isSome_iff_exists]
  exact (h.listed name).symm

theorem add (h : t.InStep) (hadd : t.add schema = .ok added) : added.InStep where
  distinct := by
    have hnew : schema.name ∉ t.names := by
      rw [h.listed, absent_of_add hadd]
      simp
    rw [names_add hadd, ← List.concat_eq_append]
    exact h.distinct.concat hnew
  listed := h.listed.add hadd
  named name s hs := by
    rw [find?_add hadd] at hs
    split at hs
    next hname => rw [← Option.some.inj hs, hname]
    next => exact h.named name s hs

theorem addAll (h : t.InStep) (schemas : List AnnotationSchema) : (t.addAll schemas).1.InStep := by
  induction schemas generalizing t with
  | nil => exact h
  | cons schema rest ih =>
    unfold SchemaTable.addAll
    cases hadd : t.add schema with
    | ok added => exact ih (h.add hadd)
    | error e => exact h

theorem names_erase (h : t.InStep) (name : String) :
    (t.erase name).names = t.names.filter fun n => n != name := by
  unfold SchemaTable.erase
  split
  · rfl
  next habsent =>
    rw [h.contains_iff] at habsent
    exact (List.filter_eq_self.2 fun n hn => bne_iff_ne.2 (ne_of_mem_of_not_mem hn habsent)).symm

theorem erase (h : t.InStep) (name : String) : (t.erase name).InStep where
  distinct := by
    rw [h.names_erase]
    exact h.distinct.filter _
  listed other := by
    rw [h.names_erase, List.mem_filter, h.listed, find?_erase]
    by_cases hsame : other = name
    · simp [hsame]
    · simp [hsame]
  named other s hs := by
    rw [find?_erase] at hs
    split at hs
    · cases hs
    · exact h.named other s hs

theorem perform (h : t.InStep) (call : Call) : (t.perform call).1.InStep := by
  cases call with
  | add schema =>
    rw [perform_add]
    exact h.addAll [schema]
  | includeMade calls =>
    rw [perform_includeMade]
    exact h.addAll (made calls).toList
  | erase name =>
    rw [perform_erase]
    exact h.erase name

theorem performAll (h : t.InStep) (calls : List Call) : (t.performAll calls).InStep := by
  induction calls generalizing t with
  | nil =>
    rw [performAll_nil]
    exact h
  | cons call rest ih =>
    rw [performAll_cons]
    exact ih (h.perform call)

theorem names_toList (h : t.InStep) : t.toList.map (fun s => s.name) = t.names := by
  have hall : ∀ name ∈ t.names, (t.find? name).map (fun s => s.name) = some name := by
    intro name hname
    obtain ⟨s, hs⟩ := (h.listed name).1 hname
    rw [hs, Option.map_some, h.named name s hs]
  calc t.toList.map (fun s => s.name)
    _ = t.names.filterMap fun name => (t.find? name).map fun s => s.name := List.map_filterMap
    _ = t.names.filterMap some := List.filterMap_congr hall
    _ = t.names := List.filterMap_some

theorem mem_names_iff (h : t.InStep) (name : String) :
    name ∈ t.names ↔ ∃ s ∈ t.toList, s.name = name := by
  rw [← h.names_toList, List.mem_map]

theorem size_eq_ncard (h : t.InStep) : t.size = {name | t.contains name = true}.ncard := by
  have hnames : {name | t.contains name = true} = (t.names.toFinset : Set String) := by
    ext name
    rw [Set.mem_ofPred_eq, h.contains_iff, List.coe_toFinset]
    rfl
  rw [hnames, Set.ncard_coe_finset, List.toFinset_card_of_nodup h.distinct]
  rfl

theorem toList_add (h : t.InStep) (hadd : t.add schema = .ok added) :
    added.toList = t.toList ++ [schema] := by
  have hnew : ∀ name ∈ t.names, added.find? name = t.find? name := by
    intro name hname
    have hother : name ≠ schema.name := by
      rintro rfl
      rw [h.listed, absent_of_add hadd] at hname
      simp at hname
    rw [find?_add hadd, if_neg hother]
  have hlast : added.find? schema.name = some schema := by
    rw [find?_add hadd, if_pos rfl]
  unfold SchemaTable.toList
  rw [names_add hadd, List.filterMap_append, List.filterMap_congr hnew,
    List.filterMap_cons_some hlast, List.filterMap_nil]

theorem toList_erase (h : t.InStep) (name : String) :
    (t.erase name).toList = t.toList.filter fun s => s.name != name := by
  unfold SchemaTable.toList
  rw [h.names_erase, List.filter_filterMap, List.filterMap_filter]
  refine List.filterMap_congr fun other hother => ?_
  obtain ⟨s, hs⟩ := (h.listed other).1 hother
  rw [find?_erase, hs, Option.filter_some, h.named other s hs]
  by_cases hsame : other = name
  · simp [hsame]
  · simp [hsame]

/-- Schemas of distinct names are added up to the first one whose name is present. -/
theorem addAll_eq (h : t.InStep) {schemas : List AnnotationSchema}
    (hdistinct : (schemas.map fun s => s.name).Nodup) :
    (t.addAll schemas).1.toList = t.toList ++ t.fresh schemas ∧
      (t.addAll schemas).2 = (schemas.find? fun s => t.contains s.name).map
        fun s => .duplicate s.name := by
  induction schemas generalizing t with
  | nil => exact ⟨(List.append_nil _).symm, rfl⟩
  | cons schema rest ih =>
    rw [List.map_cons, List.nodup_cons] at hdistinct
    unfold SchemaTable.addAll fresh
    cases hadd : t.add schema with
    | error e =>
      have hpresent : t.contains schema.name = true := by
        by_contra habsent
        rw [SchemaTable.add, if_neg habsent] at hadd
        cases hadd
      rw [add_of_contains hpresent] at hadd
      simp [hpresent, ← Except.error.inj hadd]
    | ok added =>
      have habsent := contains_eq_false_of_find? (absent_of_add hadd)
      -- The schema that was just added has none of the names to come.
      have hrest : ∀ s ∈ rest, added.contains s.name = t.contains s.name := by
        intro s hs
        have hother : s.name ≠ schema.name := by
          intro hsame
          exact hdistinct.1 (hsame ▸ List.mem_map_of_mem hs)
        rw [contains, contains, find?_add hadd, if_neg hother]
      obtain ⟨htoList, herror⟩ := ih (h.add hadd) hdistinct.2
      have hfresh : added.fresh rest = t.fresh rest :=
        List.takeWhile_congr fun s hs => by rw [hrest s hs]
      rw [hfresh, h.toList_add hadd, List.append_assoc] at htoList
      rw [List.find?_congr hrest] at herror
      dsimp only
      rw [List.takeWhile_cons_of_pos (by simp [habsent]),
        List.find?_cons_of_neg (by simp [habsent])]
      exact ⟨htoList, herror⟩

theorem nodup_names_toList (h : t.InStep) : (t.toList.map fun s => s.name).Nodup := by
  rw [h.names_toList]
  exact h.distinct

/-- The schemas of an included table are taken over up to the first one whose name is present. -/
theorem includeTable_eq (h : t.InStep) {other : SchemaTable} (hother : other.InStep) :
    (t.includeTable other).1.toList = t.toList ++ t.fresh other.toList ∧
      (t.includeTable other).2 = (other.toList.find? fun s => t.contains s.name).map
        fun s => .duplicate s.name :=
  h.addAll_eq hother.nodup_names_toList

end InStep

theorem inStep_made (calls : List Call) : (made calls).InStep := inStep_empty.performAll calls

structure Follows (t : SchemaTable) (changes : List Change) : Prop where
  inStep : t.InStep
  toList : t.toList = lasting changes

namespace Follows

variable {changes : List Change}

theorem addAll (h : t.Follows changes) {schemas : List AnnotationSchema}
    (hdistinct : (schemas.map fun s => s.name).Nodup) :
    (t.addAll schemas).1.Follows (changes ++ (t.fresh schemas).map .added) where
  inStep := h.inStep.addAll schemas
  toList := by
    have hfresh : ((t.fresh schemas).map fun s => s.name).Nodup :=
      hdistinct.sublist ((List.takeWhile_sublist _).map _)
    have hnames : ((t.fresh schemas).map Change.added).map Change.name =
        (t.fresh schemas).map fun s => s.name := List.map_map
    have hkept : ∀ s ∈ lasting changes, s.name ∉ (t.fresh schemas).map fun s => s.name := by
      intro s hs hname
      obtain ⟨other, hother, hsame⟩ := List.mem_map.1 hname
      unfold fresh at hother
      have habsent := List.mem_takeWhile_imp hother
      have hpresent : t.contains s.name = true := by
        rw [h.inStep.contains_iff, h.inStep.mem_names_iff]
        exact ⟨s, h.toList ▸ hs, rfl⟩
      rw [hsame, hpresent] at habsent
      cases habsent
    rw [lasting_append, hnames, lasting_added hfresh,
      List.filter_eq_self.2 fun s hs => decide_eq_true (hkept s hs), ← h.toList]
    exact (h.inStep.addAll_eq hdistinct).1

theorem erase (h : t.Follows changes) (name : String) :
    (t.erase name).Follows (changes ++ t.changesBy (.erase name)) where
  inStep := h.inStep.erase name
  toList := by
    rw [h.inStep.toList_erase, h.toList, changesBy]
    split
    · have hname : [Change.removed name].map Change.name = [name] := rfl
      rw [lasting_append, hname, lasting, lasting, List.append_nil]
      exact List.filter_congr fun s _ => by simp [bne, beq_eq_decide]
    next habsent =>
      have hother : ∀ s ∈ lasting changes, (s.name != name) = true := by
        intro s hs
        rw [h.inStep.contains_iff, h.inStep.mem_names_iff] at habsent
        exact bne_iff_ne.2 fun hsame => habsent ⟨s, h.toList ▸ hs, hsame⟩
      rw [List.filter_eq_self.2 hother, List.append_nil]

theorem perform (h : t.Follows changes) (call : Call) :
    (t.perform call).1.Follows (changes ++ t.changesBy call) := by
  cases call with
  | add schema =>
    rw [perform_add]
    exact h.addAll (List.nodup_singleton _)
  | includeMade calls =>
    rw [perform_includeMade]
    exact h.addAll (inStep_made calls).nodup_names_toList
  | erase name =>
    rw [perform_erase]
    exact h.erase name

theorem performAll (h : t.Follows changes) (calls : List Call) :
    (t.performAll calls).Follows (changes ++ t.history calls) := by
  induction calls generalizing t changes with
  | nil =>
    rw [performAll_nil, history, List.append_nil]
    exact h
  | cons call rest ih =>
    rw [performAll_cons, history, ← List.append_assoc]
    exact ih (h.perform call)

end Follows

theorem follows_made (calls : List Call) : (made calls).Follows (empty.history calls) := by
  have hempty : empty.Follows [] := ⟨inStep_empty, rfl⟩
  exact hempty.performAll calls

theorem isSome_perform_add_iff (h : t.InStep) (schema : AnnotationSchema) :
    (t.perform (.add schema)).2.isSome ↔ t.contains schema.name = true := by
  have hone : ([schema].map fun s => s.name).Nodup := List.nodup_singleton _
  rw [perform_add, (h.addAll_eq hone).2, Option.isSome_map, List.find?_isSome]
  simp

theorem perform_add_of_isSome (h : (t.perform (.add schema)).2.isSome) :
    (t.perform (.add schema)).1 = t := by
  unfold perform at h ⊢
  cases hadd : t.add schema with
  | ok added =>
    rw [hadd] at h
    cases h
  | error e => rfl

theorem isSome_perform_includeMade_iff (h : t.InStep) (calls : List Call) :
    (t.perform (.includeMade calls)).2.isSome ↔
      ∃ name, t.contains name = true ∧ (made calls).contains name = true := by
  have hmade := inStep_made calls
  rw [perform_includeMade, (h.includeTable_eq hmade).2, Option.isSome_map, List.find?_isSome]
  constructor
  · rintro ⟨s, hs, hpresent⟩
    refine ⟨s.name, hpresent, ?_⟩
    rw [hmade.contains_iff, hmade.mem_names_iff]
    exact ⟨s, hs, rfl⟩
  · rintro ⟨name, hpresent, hother⟩
    rw [hmade.contains_iff, hmade.mem_names_iff] at hother
    obtain ⟨s, hs, rfl⟩ := hother
    exact ⟨s, hs, hpresent⟩

/-- Whatever calls make a table, its names and its schemas belong together, and it lists the schemas
that last. Adding fails exactly if the name is present, and then nothing changes. Including fails
exactly if a name is shared, and it takes over what comes before the first shared name. -/
theorem made_inStep (calls : List Call) :
    (made calls).Follows (empty.history calls) ∧
      (made calls).toList.map (fun s => s.name) = (made calls).names ∧
      (made calls).size = {name | (made calls).contains name = true}.ncard ∧
      (∀ schema, ((made calls).perform (.add schema)).2.isSome ↔
        (made calls).contains schema.name = true) ∧
      (∀ schema, ((made calls).perform (.add schema)).2.isSome →
        ((made calls).perform (.add schema)).1 = made calls) ∧
      (∀ others, ((made calls).perform (.includeMade others)).2.isSome ↔
        ∃ name, (made calls).contains name = true ∧ (made others).contains name = true) ∧
      ∀ others, ((made calls).perform (.includeMade others)).1.toList =
        (made calls).toList ++ (made calls).fresh (made others).toList := by
  have h := inStep_made calls
  refine ⟨follows_made calls, h.names_toList, h.size_eq_ncard, isSome_perform_add_iff h,
    fun _ => perform_add_of_isSome, isSome_perform_includeMade_iff h, fun others => ?_⟩
  rw [perform_includeMade]
  exact (h.includeTable_eq (inStep_made others)).1

/-- What is removed and added again goes last, and an inclusion that fails keeps what it has added. -/
example : (made [.add ⟨"Foo", .all, false, []⟩, .add ⟨"Bar", .all, false, []⟩,
    .add ⟨"Baz", .all, false, []⟩, .erase "Foo", .add ⟨"Bar", .all, true, []⟩,
    .includeMade [.add ⟨"Foo", .all, false, []⟩, .add ⟨"Baz", .all, false, []⟩,
      .add ⟨"Qux", .all, false, []⟩]]).names = ["Bar", "Baz", "Foo"] := by
  decide

end SchemaTable

end Docblock
