import Docblock.Proofs.Json.Trees
import Docblock.Proofs.Value.LooseEquality
import Docblock.Value.Json

/-!
# JSON texts tell values apart

The JSON text of a value without objects and floats denotes one tree, in which maps whose keys count
up from zero are lists and other maps are objects in the order of their entries. Normal keys and
their texts determine each other, so that no object has two fields of one name, and so that values
with the same tree are equal. Hence two such values have the same text exactly if they are equal.
-/

namespace Docblock

def Key.IsNormal (key : Key) : Prop := Key.ofString key.toString = key

instance (key : Key) : Decidable key.IsNormal :=
  inferInstanceAs (Decidable (Key.ofString key.toString = key))

theorem Key.isNormal_int (index : Int64) : (Key.int index).IsNormal :=
  Key.ofString_machineText index

namespace OrderedMap

variable {α : Type} {m : OrderedMap α} {es fs : List (Key × α)}

theorem IsNormal.insertKey (h : m.IsNormal) {key : Key} (hkey : key.IsNormal) (a : α) :
    (m.insert key a).IsNormal := by
  rw [← hkey]
  exact h.insert key.toString a

theorem IsNormal.push (h : m.IsNormal) (a : α) : (m.push a).IsNormal :=
  h.insertKey (Key.isNormal_int m.nextIndex) a

theorem IsNormal.erase (h : m.IsNormal) (key : Key) : (m.erase key).IsNormal where
  distinct := by
    rw [keys_erase]
    exact h.distinct.erase key
  normal other hother := by
    rw [keys_erase] at hother
    exact h.normal other (List.mem_of_mem_erase hother)

theorem isNormal_ofValues (values : List α) : (ofValues values).IsNormal :=
  List.foldlRecOn values OrderedMap.push isNormal_empty fun _ h a _ => h.push a

/-- Only what is inserted under a given key can have a key that is not normal. -/
theorem IsNormal.apply (h : m.IsNormal) {op : Operation α}
    (hop : ∀ key a, op = .insert key a → key.IsNormal) : (op.apply m).IsNormal := by
  cases op with
  | push a => exact h.push a
  | insert key a => exact h.insertKey (hop key a rfl) a
  | replace key a => exact h.modify key fun _ => a
  | remove key => exact h.erase key
  | collect values => exact isNormal_ofValues values

theorem IsNormal.after (h : m.IsNormal) {ops : List (Operation α)}
    (hops : ∀ key a, .insert key a ∈ ops → key.IsNormal) : (m.after ops).IsNormal := by
  induction ops generalizing m with
  | nil => exact h
  | cons op ops ih =>
    apply ih
    · apply h.apply
      rintro key a rfl
      exact hops key a List.mem_cons_self
    · intro key a hmem
      exact hops key a (List.mem_cons_of_mem op hmem)

/-- An entry of a map with normal keys has the key of the same name in another such map. -/
theorem IsNormal.eq_of_toString {n : OrderedMap α} (hm : m.IsNormal) (hn : n.IsNormal)
    {e f : Key × α} (he : e ∈ m.entries) (hf : f ∈ n.entries)
    (h : e.1.toString.toList = f.1.toString.toList) : e.1 = f.1 := by
  rw [← hm.normal e.1 (List.mem_map_of_mem he), String.toList_inj.1 h,
    hn.normal f.1 (List.mem_map_of_mem hf)]

theorem IsNormal.nodup_toString (h : m.IsNormal) :
    (m.entries.map fun e => e.1.toString.toList).Nodup := by
  have hnames := h.distinct.map_on (f := fun key => key.toString.toList) (by
    simp only [keys, List.mem_map, forall_exists_index, and_imp]
    rintro _ e he rfl _ f hf rfl
    exact h.eq_of_toString h he hf)
  rwa [keys, List.map_map] at hnames

theorem countsFrom_congr {n : Nat} (h : es.map Prod.fst = fs.map Prod.fst) :
    countsFrom n es = countsFrom n fs := by
  induction es generalizing fs n with
  | nil =>
    obtain rfl := List.map_eq_nil_iff.1 h.symm
    rfl
  | cons e es ih =>
    cases fs with
    | nil => simp at h
    | cons f fs =>
      rw [List.map_cons, List.map_cons, List.cons.injEq] at h
      rw [countsFrom, countsFrom, h.1, ih h.2]

/-- The keys of lists are settled by their places. -/
theorem keys_eq_of_countsFrom {n : Nat} (hes : countsFrom n es = true)
    (hfs : countsFrom n fs = true) (h : es.length = fs.length) : es.map Prod.fst = fs.map Prod.fst := by
  induction es generalizing fs n with
  | nil =>
    obtain rfl := List.length_eq_zero_iff.1 h.symm
    rfl
  | cons e es ih =>
    cases fs with
    | nil => simp at h
    | cons f fs =>
      rw [countsFrom, Bool.and_eq_true, beq_iff_eq] at hes hfs
      rw [List.map_cons, List.map_cons, hes.1, hfs.1, ih hes.2 hfs.2 (Nat.succ.inj h)]

theorem map_eq_of_forall₂ {β : Type} {P : Key × α → Key × α → Prop} {f : Key × α → β}
    (h : es.Forall₂ P fs) (hf : ∀ e ∈ es, ∀ e', P e e' → f e = f e') : es.map f = fs.map f := by
  induction h with
  | nil => rfl
  | cons hee' _ ih =>
    rw [List.forall_mem_cons] at hf
    rw [List.map_cons, List.map_cons, hf.1 _ hee', ih hf.2]

theorem forall₂_of_map_eq {β : Type} {P : Key × α → Key × α → Prop} {f : Key × α → β}
    (h : es.map f = fs.map f) (hf : ∀ e ∈ es, ∀ e' ∈ fs, f e = f e' → P e e') :
    es.Forall₂ P fs := by
  induction es generalizing fs with
  | nil =>
    obtain rfl := List.map_eq_nil_iff.1 h.symm
    exact .nil
  | cons e es ih =>
    cases fs with
    | nil => simp at h
    | cons e' fs =>
      obtain ⟨hee', hrest⟩ := List.cons.inj h
      apply List.Forall₂.cons
      · exact hf e List.mem_cons_self e' List.mem_cons_self hee'
      · apply ih hrest
        intro d hd d' hd'
        exact hf d (List.mem_cons_of_mem e hd) d' (List.mem_cons_of_mem e' hd')

theorem forall₂_relatesEntries_iff {R : α → α → Prop} : es.Forall₂ (RelatesEntries R) fs ↔
    es.map Prod.fst = fs.map Prod.fst ∧ (es.map Prod.snd).Forall₂ R (fs.map Prod.snd) := by
  induction es generalizing fs with
  | nil => cases fs <;> simp
  | cons e es ih =>
    cases fs with
    | nil => simp
    | cons f fs =>
      rw [List.forall₂_cons, ih, RelatesEntries]
      simp only [List.map_cons, List.cons.injEq, List.forall₂_cons]
      tauto

end OrderedMap

namespace Value

open OrderedMap

/-- Values without objects and floats, in which operations with normal keys made the maps. -/
inductive IsData : Value → Prop where
  | null : IsData .null
  | bool (b : Bool) : IsData (.bool b)
  | int (n : Int64) : IsData (.int n)
  | string (s : String) : IsData (.string s)
  | array (ops : List (Operation Value)) (hkeys : ∀ key v, .insert key v ∈ ops → key.IsNormal)
      (hvalues : ∀ e ∈ (OrderedMap.empty.after ops).entries, IsData e.2) :
      IsData (.array (.after .empty ops))

mutual

/-- The JSON tree of a value. Floats and objects have no tree of their own. -/
def tree : Value → Json.Tree
  | null => .null
  | bool b => .bool b
  | int n => .int n.toInt
  | string s => .string s.toList
  | array ⟨es, _⟩ => if countsFrom 0 es then .list (treeItems es) else .object (treeFields es)
  | float _ => .null
  | object _ _ => .null

def treeItems : List (Key × Value) → List Json.Tree
  | [] => []
  | (_, v) :: rest => v.tree :: treeItems rest

def treeFields : List (Key × Value) → List (List Char × Json.Tree)
  | [] => []
  | (key, v) :: rest => (key.toString.toList, v.tree) :: treeFields rest

end

theorem treeItems_eq_map (es : List (Key × Value)) : treeItems es = es.map fun e => e.2.tree := by
  induction es with
  | nil => simp [treeItems]
  | cons e es ih => simp [treeItems, ih]

theorem treeFields_eq_map (es : List (Key × Value)) :
    treeFields es = es.map fun e => (e.1.toString.toList, e.2.tree) := by
  induction es with
  | nil => simp [treeFields]
  | cons e es ih => simp [treeFields, ih]

theorem jsonItems_eq_map (es : List (Key × Value)) :
    jsonItems es = es.map fun e => e.2.jsonText := by
  induction es with
  | nil => simp [jsonItems]
  | cons e es ih => simp [jsonItems, ih]

theorem jsonFields_eq_map (es : List (Key × Value)) :
    jsonFields es = es.map fun e => Json.field e.1.toString e.2.jsonText := by
  induction es with
  | nil => simp [jsonFields]
  | cons e es ih => simp [jsonFields, ih]

theorem tree_array (m : OrderedMap Value) : (array m).tree =
    if countsFrom 0 m.entries then .list (m.entries.map fun e => e.2.tree)
    else .object (m.entries.map fun e => (e.1.toString.toList, e.2.tree)) := by
  rw [← treeItems_eq_map, ← treeFields_eq_map, tree]

theorem jsonText_array (m : OrderedMap Value) : (array m).jsonText =
    if countsFrom 0 m.entries then Json.list (m.entries.map fun e => e.2.jsonText)
    else Json.object (m.entries.map fun e => Json.field e.1.toString e.2.jsonText) := by
  rw [← jsonItems_eq_map, ← jsonFields_eq_map, jsonText]

/-! ## What the text of a value denotes -/

theorem IsData.isTextOf {v : Value} (h : v.IsData) : Json.IsTextOf v.jsonText v.tree := by
  induction h with
  | null => exact Json.isTextOf_null
  | bool b => exact Json.isTextOf_bool b
  | int n => exact Json.isTextOf_int n.toInt
  | string s => exact Json.isTextOf_text s
  | array ops hkeys hvalues ih =>
    rw [jsonText_array, tree_array]
    split
    · exact Json.isTextOf_list ih
    · exact Json.isTextOf_object ih

theorem IsData.reads_iff {v : Value} (h : v.IsData) (t : Json.Tree) :
    Json.Reads v.json.toList t [] ↔ t = v.tree := by
  have hends : Json.EndsNumber [] := fun c hc => by simp at hc
  have hreads := h.isTextOf [] hends
  rw [List.append_nil] at hreads
  rw [json, String.toList_ofList]
  constructor
  · intro ht
    exact (ht.unique hreads).1
  · rintro rfl
    exact hreads

/-! ## Values with the same tree -/

theorem IsData.jsonText_eq_of_beq {v w : Value} (hv : v.IsData) (h : (v == w) = true) :
    v.jsonText = w.jsonText := by
  change v.beq w = true at h
  induction hv generalizing w with
  | null =>
    cases w with
    | null => rfl
    | _ => cases h
  | bool b =>
    cases w with
    | bool c => rw [beq_iff_eq.1 h]
    | _ => cases h
  | int n =>
    cases w with
    | int m => rw [beq_iff_eq.1 h]
    | _ => cases h
  | string s =>
    cases w with
    | string t => rw [beq_iff_eq.1 h]
    | _ => cases h
  | array ops hkeys hvalues ih =>
    cases w with
    | array m =>
      have hentries : (OrderedMap.empty.after ops).entries.Forall₂
          (RelatesEntries fun v w => (v == w) = true) m.entries := beqEntries_iff.1 h
      have hitems := map_eq_of_forall₂ (f := fun e => e.2.jsonText) hentries fun e he e' hee' =>
        ih e he hee'.2
      have hfields := map_eq_of_forall₂ (f := fun e => Json.field e.1.toString e.2.jsonText)
        hentries fun e he e' hee' => by rw [hee'.1, ih e he hee'.2]
      rw [jsonText_array, jsonText_array, countsFrom_congr (map_fst_eq hentries), hitems, hfields]
    | _ => cases h

theorem tree_array_ne {t : Json.Tree} (hlist : ∀ items, t ≠ .list items)
    (hobject : ∀ fields, t ≠ .object fields) (m : OrderedMap Value) : (array m).tree ≠ t := by
  rw [tree_array]
  split
  · exact (hlist _).symm
  · exact (hobject _).symm

/-- Lists agree in their keys because these count up, and objects because normal keys have different
names. -/
theorem beqEntries_of_tree_eq {m n : OrderedMap Value} (hm : m.IsNormal) (hn : n.IsNormal)
    (hvalues : ∀ e ∈ m.entries, ∀ f ∈ n.entries, e.2.tree = f.2.tree → (e.2 == f.2) = true)
    (h : (array m).tree = (array n).tree) : beqEntries m.entries n.entries = true := by
  rw [tree_array, tree_array] at h
  rw [beqEntries_iff]
  split at h
  · rename_i hcounts
    split at h
    · rename_i hcountsOthers
      have htrees := Json.Tree.list.inj h
      have hlength : m.entries.length = n.entries.length := by
        simpa using congrArg List.length htrees
      rw [forall₂_relatesEntries_iff]
      refine ⟨keys_eq_of_countsFrom hcounts hcountsOthers hlength, ?_⟩
      rw [List.forall₂_map_left_iff, List.forall₂_map_right_iff]
      exact forall₂_of_map_eq htrees hvalues
    · cases h
  · split at h
    · cases h
    · apply forall₂_of_map_eq (Json.Tree.object.inj h)
      intro e he f hf hef
      obtain ⟨hname, htree⟩ := Prod.mk.inj hef
      have hkey := hm.eq_of_toString hn he hf hname
      exact ⟨hkey, hvalues e he f hf htree⟩

theorem IsData.beq_of_tree_eq {v w : Value} (hv : v.IsData) (hw : w.IsData)
    (h : v.tree = w.tree) : (v == w) = true := by
  induction hv generalizing w with
  | null =>
    cases hw with
    | null => rfl
    | array => exact absurd h.symm (tree_array_ne (by simp [tree]) (by simp [tree]) _)
    | _ => simp [tree] at h
  | bool b =>
    cases hw with
    | bool c =>
      obtain rfl : b = c := by simpa [tree] using h
      exact beq_self_eq_true b
    | array => exact absurd h.symm (tree_array_ne (by simp [tree]) (by simp [tree]) _)
    | _ => simp [tree] at h
  | int n =>
    cases hw with
    | int m =>
      obtain rfl : n = m := by simpa [tree, Int64.toInt_inj] using h
      exact beq_self_eq_true n
    | array => exact absurd h.symm (tree_array_ne (by simp [tree]) (by simp [tree]) _)
    | _ => simp [tree] at h
  | string s =>
    cases hw with
    | string t =>
      obtain rfl : s = t := by simpa [tree, String.toList_inj] using h
      exact beq_self_eq_true s
    | array => exact absurd h.symm (tree_array_ne (by simp [tree]) (by simp [tree]) _)
    | _ => simp [tree] at h
  | array ops hkeys hvalues ih =>
    cases hw with
    | array others hothers hothersData =>
      exact beqEntries_of_tree_eq (isNormal_empty.after hkeys) (isNormal_empty.after hothers)
        (fun e he f hf => ih e he (hothersData f hf)) h
    | _ => exact absurd h (tree_array_ne (by simp [tree]) (by simp [tree]) _)

theorem IsData.nodup_names {v : Value} (hv : v.IsData) {fields : List (List Char × Json.Tree)}
    (h : v.tree.HasObject fields) : (fields.map Prod.fst).Nodup := by
  induction hv with
  | null => cases h
  | bool b => cases h
  | int n => cases h
  | string s => cases h
  | array ops hkeys hvalues ih =>
    rw [tree_array] at h
    split at h
    · cases h with
      | item hmem hobject =>
        obtain ⟨e, he, rfl⟩ := List.mem_map.1 hmem
        exact ih e he hobject
    · cases h with
      | self =>
        rw [List.map_map]
        exact (isNormal_empty.after hkeys).nodup_toString
      | field hmem hobject =>
        obtain ⟨e, he, hfield⟩ := List.mem_map.1 hmem
        obtain ⟨-, rfl⟩ := Prod.mk.inj hfield
        exact ih e he hobject

/-- Values without objects and floats whose maps were made with normal keys have the same JSON text
exactly if they are equal. Their text denotes one tree, in whose objects no name is repeated. -/
theorem json_eq_iff_beq :
    (∀ v w : Value, v.IsData → w.IsData → (v.json = w.json ↔ (v == w) = true)) ∧
    ∀ v : Value, v.IsData → (∀ t, Json.Reads v.json.toList t [] ↔ t = v.tree) ∧
      ∀ fields, v.tree.HasObject fields → (fields.map Prod.fst).Nodup := by
  constructor
  · intro v w hv hw
    constructor
    · intro h
      apply hv.beq_of_tree_eq hw
      rw [← hw.reads_iff, ← h, hv.reads_iff]
    · intro h
      rw [json, json, hv.jsonText_eq_of_beq h]
  · intro v hv
    exact ⟨hv.reads_iff, fun fields => hv.nodup_names⟩

/-- The same entries in a list and in a map with a gap, with a control character in a text. -/
theorem json_eq_iff_beq_nested :
    let inner : Value := .array (.after .empty [.insert (.text "01") (.int (-5)), .push .null])
    let v : Value := .array (.after .empty [.push inner, .push (.string "a\n\x01")])
    let w : Value := .array (.after .empty [.push .null, .push (.string "a\n\x01"),
      .replace (.int 0) inner])
    let gapped : Value := .array (.after .empty [.push inner, .insert (.int 2) (.string "a\n\x01")])
    v.json = w.json ∧ v.json ≠ gapped.json ∧
      Json.Reads gapped.json.toList gapped.tree [] ∧
      ∀ fields, gapped.tree.HasObject fields → (fields.map Prod.fst).Nodup := by
  intro inner v w gapped
  have hinner : inner.IsData := by
    refine .array _ (fun key a h => ?_) (List.forall_mem_cons.2
      ⟨.int (-5), List.forall_mem_singleton.2 .null⟩)
    obtain rfl : key = .text "01" := by simp_all
    decide
  have hv : v.IsData := .array _ (by simp)
    (List.forall_mem_cons.2 ⟨hinner, List.forall_mem_singleton.2 (.string _)⟩)
  have hw : w.IsData := .array _ (by simp)
    (List.forall_mem_cons.2 ⟨hinner, List.forall_mem_singleton.2 (.string _)⟩)
  have hgapped : gapped.IsData := by
    refine .array _ (fun key a h => ?_) (List.forall_mem_cons.2
      ⟨hinner, List.forall_mem_singleton.2 (.string _)⟩)
    obtain rfl : key = .int 2 := by simp_all
    exact Key.isNormal_int 2
  have hequal : (v == w) = true := by decide
  have hother : (v == gapped) ≠ true := by decide
  exact ⟨(json_eq_iff_beq.1 v w hv hw).2 hequal,
    fun h => hother ((json_eq_iff_beq.1 v gapped hv hgapped).1 h),
    ((json_eq_iff_beq.2 gapped hgapped).1 _).2 rfl, (json_eq_iff_beq.2 gapped hgapped).2⟩

end Value

end Docblock
