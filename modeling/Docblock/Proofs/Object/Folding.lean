import Docblock.Proofs.Object.Enumerations
import Docblock.Proofs.Object.Instances
import Mathlib.Data.List.Basic
import Mathlib.Data.List.TakeWhile

/-!
# Folded arguments

The map that arguments fold to has one entry for each name, where the name is first met. A named
argument keeps the value it was given last. The arguments without a name become one value: nulls in
front are dropped, a single value stays as it is, and several make a list or join the list that
comes first.
-/

namespace Docblock.Argument

def valueUnder? (name : String) : Argument → Option Value
  | named other v => if other = name then some v else none
  | positional _ => none

def value? : Argument → Option Value
  | named _ _ => none
  | positional v => some v

def unnamed (given : List Argument) : List Value := given.filterMap value?

/-- What values without a name become together. -/
def joined (values : List Value) : Option Value :=
  match values.dropWhile Value.isNull with
  | [] => if values.isEmpty then none else some .null
  | [v] => some v
  | .array items :: more => some (.array (more.foldl OrderedMap.push items))
  | v :: more => some (.array (.ofValues (v :: more)))

variable {given : List Argument} {values : List Value} {name : String}

theorem kept_concat (name : String) (given : List Argument) (g : Argument) :
    kept name (given ++ [g]) = keep name (kept name given) g := by
  simp [kept]

theorem keys_add (m : OrderedMap Value) (g : Argument) : (add m g).keys =
    if .ofString g.name ∈ m.keys then m.keys else m.keys ++ [.ofString g.name] := by
  cases g with
  | named name v => exact OrderedMap.keys_insert ..
  | positional v =>
    unfold add
    dsimp only
    cases hset : m.set? "value" with
    | none => exact OrderedMap.keys_insert ..
    | some first =>
      have hpresent := OrderedMap.mem_keys_of_set? hset
      exact (OrderedMap.keys_modify ..).trans (if_pos hpresent).symm

theorem keys_fold (given : List Argument) :
    (fold given).keys = ((given.map Argument.name).eraseDups).map Key.ofString := by
  induction given using List.reverseRecOn with
  | nil => rfl
  | append_singleton given g ih =>
    have hmem : Key.ofString g.name ∈ (given.map Argument.name).eraseDups.map Key.ofString ↔
        g.name ∈ given.map Argument.name := by
      rw [List.mem_map_of_injective fun _ _ h => Key.ofString_injective h, List.mem_eraseDups]
    rw [fold_concat, keys_add, ih, List.map_append, List.map_singleton, List.eraseDups_concat]
    simp only [hmem, List.contains_iff_mem]
    split
    · rfl
    · rw [List.map_append, List.map_singleton]

theorem kept_of_ne_value (hname : name ≠ "value") (given : List Argument) :
    kept name given = (given.filterMap (valueUnder? name)).getLast?.toList := by
  induction given using List.reverseRecOn with
  | nil => rfl
  | append_singleton given g ih =>
    rw [kept_concat, ih, List.filterMap_append]
    cases g with
    | named other v =>
      by_cases hsame : other = name
      · simp [keep, Argument.name, valueUnder?, hsame]
      · simp [keep, Argument.name, valueUnder?, hsame]
    | positional v => simp [keep, Argument.name, valueUnder?, hname.symm]

/-- The values without a name that no later one replaces. -/
def settled (values : List Value) : List Value :=
  match values.dropWhile Value.isNull with
  | [] => values.getLast?.toList
  | v :: more => v :: more

theorem collected_toList (o : Option Value) : collected o.toList = o := by
  cases o <;> rfl

/-- A value is replaced as long as all are null. -/
theorem settled_concat (values : List Value) (v : Value) : settled (values ++ [v]) =
    if (collected (settled values)).all Value.isNull then [v] else settled values ++ [v] := by
  unfold settled
  rw [List.dropWhile_append]
  cases hrest : values.dropWhile Value.isNull with
  | nil =>
    have hnulls : values.getLast?.all Value.isNull = true := by
      cases hlast : values.getLast? with
      | none => rfl
      | some last => exact List.dropWhile_eq_nil_iff.1 hrest last (List.mem_of_getLast? hlast)
    dsimp only
    rw [collected_toList, if_pos hnulls, List.getLast?_concat]
    cases v <;> rfl
  | cons w more =>
    have hset : w.isNull = false := by
      have hhead := List.head?_dropWhile_not Value.isNull values
      rw [hrest] at hhead
      simpa using hhead
    have hkept : (collected (w :: more)).all Value.isNull = false := by
      cases more with
      | nil => exact hset
      | cons u more => rfl
    dsimp only
    rw [hkept]
    rfl

theorem kept_value (h : ∀ v, named "value" v ∉ given) :
    kept "value" given = settled (unnamed given) := by
  induction given using List.reverseRecOn with
  | nil => rfl
  | append_singleton given g ih =>
    have hrest : ∀ v, named "value" v ∉ given := fun v hv => h v (List.mem_append_left _ hv)
    unfold unnamed at ih ⊢
    rw [kept_concat, ih hrest, List.filterMap_append]
    cases g with
    | named other v =>
      have hother : other ≠ "value" := by
        rintro rfl
        exact h v (by simp)
      simp only [keep, Argument.name, hother, if_false]
      exact congrArg settled (List.append_nil _).symm
    | positional v => exact (settled_concat _ v).symm

theorem collected_settled (values : List Value) : collected (settled values) = joined values := by
  unfold settled joined
  cases hrest : values.dropWhile Value.isNull with
  | nil =>
    dsimp only
    rw [collected_toList]
    cases hlast : values.getLast? with
    | none =>
      rw [List.getLast?_eq_none_iff.1 hlast]
      rfl
    | some last =>
      have hmem := List.mem_of_getLast? hlast
      have hnull : last = .null := by
        have hlast := List.dropWhile_eq_nil_iff.1 hrest last hmem
        cases last with
        | null => rfl
        | _ => cases hlast
      have hsome : values.isEmpty = false := by
        rw [List.isEmpty_eq_false_iff]
        exact List.ne_nil_of_mem hmem
      rw [hnull, hsome]
      rfl
  | cons v more =>
    cases more with
    | nil => rfl
    | cons w more => cases v <;> rfl

/-- If none of the named arguments is called `value`, the map has the names in the order in which
they are first met, each with the value it was given last, and `value` for what the others become.
-/
theorem fold_collects (h : ∀ v, named "value" v ∉ given) :
    (fold given).keys = ((given.map Argument.name).eraseDups).map Key.ofString ∧
      (∀ name, name ≠ "value" →
        (fold given).named? name = (given.filterMap (valueUnder? name)).getLast?) ∧
      (fold given).named? "value" = joined (unnamed given) := by
  refine ⟨keys_fold given, ?_, ?_⟩
  · intro name hname
    rw [named?_fold, kept_of_ne_value hname, collected_toList]
  · rw [named?_fold, kept_value h, collected_settled]

theorem fold_collects_list :
    ∃ m, fold [.positional .null, .named "sep" (.string ","), .positional (.string "a"),
        .named "sep" (.string ";"), .positional (.string "b")] = m ∧
      m.keys = [.text "value", .text "sep"] ∧ m.named? "sep" = some (.string ";") ∧
      m.named? "value" = some (.array (.ofValues [.string "a", .string "b"])) := by
  have hall := @fold_collects [.positional .null, .named "sep" (.string ","),
    .positional (.string "a"), .named "sep" (.string ";"), .positional (.string "b")] (by simp)
  exact ⟨_, rfl, hall.1, hall.2.1 "sep" (by decide), hall.2.2⟩

end Docblock.Argument
