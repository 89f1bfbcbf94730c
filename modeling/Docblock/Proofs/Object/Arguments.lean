import Docblock.Proofs.Decimal.MachineText
import Docblock.Reading.Argument

/-!
# Maps of arguments

Folding arguments gives a map with distinct keys, each of which is the key of its own text. In such
a map looking up by name is looking for the one entry of that name, and replacing the value of a
present name changes that entry alone.
-/

namespace Docblock

theorem List.mem_concat_unless {α : Type} [DecidableEq α] {all : List α} {a b : α} :
    b ∈ (if a ∈ all then all else all ++ [a]) ↔ b ∈ all ∨ b = a := by
  split
  · next hpresent =>
    constructor
    · exact .inl
    · rintro (hother | rfl)
      · exact hother
      · exact hpresent
  · rw [List.mem_append, List.mem_singleton]

namespace OrderedMap

variable {α β : Type}

structure IsNormal (m : OrderedMap α) : Prop where
  distinct : m.keys.Nodup
  normal : ∀ key ∈ m.keys, Key.ofString key.toString = key

theorem isNormal_empty : (empty : OrderedMap α).IsNormal where
  distinct := List.nodup_nil
  normal key h := by cases h

theorem keys_insert (m : OrderedMap α) (key : Key) (a : α) :
    (m.insert key a).keys = if key ∈ m.keys then m.keys else m.keys ++ [key] :=
  keys_assign key a m.entries

theorem nodup_keys_insert {m : OrderedMap α} (h : m.keys.Nodup) (key : Key) (a : α) :
    (m.insert key a).keys.Nodup := by
  rw [keys_insert]
  split
  · exact h
  · next habsent =>
    rw [List.nodup_append]
    refine ⟨h, by simp, ?_⟩
    intro other hother last hlast hsame
    rw [hsame, List.mem_singleton.1 hlast] at hother
    exact habsent hother

theorem mem_keys_insert {m : OrderedMap α} {key other : Key} {a : α} :
    other ∈ (m.insert key a).keys ↔ other ∈ m.keys ∨ other = key := by
  rw [keys_insert]
  exact List.mem_concat_unless

theorem IsNormal.insert {m : OrderedMap α} (h : m.IsNormal) (name : String) (a : α) :
    (m.insert (.ofString name) a).IsNormal where
  distinct := nodup_keys_insert h.distinct _ a
  normal key hkey := by
    obtain hold | rfl := mem_keys_insert.1 hkey
    · exact h.normal key hold
    · rw [Key.toString_ofString]

theorem keys_modify (m : OrderedMap α) (key : Key) (f : α → α) :
    (m.modify key f).keys = m.keys := by
  unfold keys modify
  rw [List.map_map]
  apply List.map_congr_left
  intro entry _
  by_cases hsame : entry.1 = key
  · simp [hsame]
  · simp [hsame]

theorem IsNormal.modify {m : OrderedMap α} (h : m.IsNormal) (key : Key) (f : α → α) :
    (m.modify key f).IsNormal := by
  constructor
  · rw [keys_modify]
    exact h.distinct
  · rw [keys_modify]
    exact h.normal

theorem isNormal_fold (given : List Argument) : (Argument.fold given).IsNormal := by
  have hall : ∀ m : OrderedMap Value, m.IsNormal → (given.foldl Argument.add m).IsNormal := by
    induction given with
    | nil => exact fun m hm => hm
    | cons a rest ih =>
      intro m hm
      apply ih
      cases a with
      | named name v => exact hm.insert name v
      | positional v =>
        unfold Argument.add
        dsimp only
        split
        · exact hm.insert "value" v
        · exact hm.modify _ _
  exact hall .empty isNormal_empty

theorem lookup_map (f : Key → α → β) (key : Key) (entries : List (Key × α)) :
    lookup key (entries.map fun e => (e.1, f e.1 e.2)) = (lookup key entries).map (f key) := by
  induction entries with
  | nil => rfl
  | cons entry rest ih =>
    by_cases hsame : entry.1 = key
    · simp [lookup, hsame]
    · simp [lookup, hsame, ih]

theorem get?_modify (m : OrderedMap α) (key other : Key) (f : α → α) :
    (m.modify key f).get? other = if other = key then (m.get? other).map f else m.get? other := by
  have hentries : (m.modify key f).entries =
      m.entries.map fun e => (e.1, if e.1 = key then f e.2 else e.2) := by
    apply List.map_congr_left
    intro e _
    by_cases hkey : e.1 = key
    · rw [if_pos hkey, if_pos hkey]
    · rw [if_neg hkey, if_neg hkey]
  unfold get?
  rw [hentries, lookup_map fun k a => if k = key then f a else a]
  by_cases hother : other = key
  · simp [hother]
  · simp [hother]

theorem lookup_eq_some_iff {key : Key} {a : α} {entries : List (Key × α)}
    (h : (entries.map Prod.fst).Nodup) : lookup key entries = some a ↔ (key, a) ∈ entries := by
  induction entries with
  | nil => simp [lookup]
  | cons entry rest ih =>
    rw [List.map_cons, List.nodup_cons] at h
    by_cases hsame : entry.1 = key
    · have habsent : (key, a) ∉ rest := by
        intro hmem
        apply h.1
        rw [hsame]
        exact List.mem_map_of_mem hmem
      simp only [lookup, hsame, if_true, Option.some.injEq, List.mem_cons, habsent, or_false]
      rw [← hsame]
      constructor
      · rintro rfl
        rfl
      · intro heq
        exact (congrArg Prod.snd heq).symm
    · have hother : (key, a) ≠ entry := by
        rintro rfl
        exact hsame rfl
      simp only [lookup, hsame, if_false, List.mem_cons, hother, false_or]
      exact ih h.2

theorem assign_of_present {key : Key} {a : α} {entries : List (Key × α)}
    (hdistinct : (entries.map Prod.fst).Nodup) (hpresent : key ∈ entries.map Prod.fst) :
    assign key a entries = entries.map fun e => (e.1, if e.1 = key then a else e.2) := by
  induction entries with
  | nil => cases hpresent
  | cons entry rest ih =>
    rw [List.map_cons, List.nodup_cons] at hdistinct
    by_cases hsame : entry.1 = key
    · have hrest : rest.map (fun e => (e.1, if e.1 = key then a else e.2)) = rest := by
        have hother : ∀ e ∈ rest, (e.1, if e.1 = key then a else e.2) = e := by
          intro e he
          have hne : e.1 ≠ key := by
            intro hkey
            apply hdistinct.1
            rw [hsame, ← hkey]
            exact List.mem_map_of_mem he
          rw [if_neg hne]
        rw [List.map_congr_left hother, List.map_id']
      simp [assign, hsame, hrest]
    · have hlater : key ∈ rest.map Prod.fst := by
        rw [List.map_cons, List.mem_cons] at hpresent
        exact hpresent.resolve_left (Ne.symm hsame)
      simp [assign, hsame, ih hdistinct.2 hlater]

theorem named?_insert (m : OrderedMap α) (name other : String) (a : α) :
    (m.insert (.ofString name) a).named? other =
      if name = other then some a else m.named? other := by
  unfold named?
  rw [get?_insert]
  by_cases hsame : name = other
  · rw [if_pos hsame, if_pos (congrArg Key.ofString hsame)]
  · rw [if_neg hsame, if_neg fun hkey => hsame (Key.ofString_injective hkey)]

theorem set?_eq_some_iff {m : OrderedMap Value} {name : String} {v : Value} :
    m.set? name = some v ↔ m.named? name = some v ∧ v.isNull = false := by
  unfold set?
  rw [Option.filter_eq_some_iff]
  simp

theorem mem_keys_of_get? {m : OrderedMap α} {key : Key} {a : α} (h : m.get? key = some a) :
    key ∈ m.keys := by
  apply Classical.byContradiction
  intro habsent
  have hnone : m.get? key = none := (lookup_eq_none_iff key m.entries).2 habsent
  rw [h] at hnone
  cases hnone

theorem mem_keys_of_set? {m : OrderedMap Value} {name : String} {v : Value}
    (h : m.set? name = some v) : Key.ofString name ∈ m.keys :=
  mem_keys_of_get? (set?_eq_some_iff.1 h).1

end OrderedMap

theorem Annotation.get?_set (a : Annotation) (name other : String) (v : Value) :
    (a.set name v).get? other = if name = other then some v else a.get? other :=
  OrderedMap.named?_insert a.properties name other v

end Docblock
