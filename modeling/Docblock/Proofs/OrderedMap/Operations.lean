import Docblock.Proofs.Object.Deciding
import Mathlib.Data.List.Basic

/-!
# Operations on ordered maps

The reference for ordered maps is a list of keys, a value for each of them, and a record of the
integer keys that were ever assigned. Assigning to a key that is present overwrites in place, a new
key goes last, and removing a key keeps the order of the others. The next implicit index is read off
the record, which removing does not shorten. Maps and references that go through the same operations
have the same entries and the same next index, and give the same answers.

A value that is appended goes under a new key unless the largest machine integer is a key already.
There is no index behind that one, so that it is overwritten.
-/

namespace Docblock.OrderedMap

variable {α : Type}

inductive Operation (α : Type) where
  | push (a : α)
  | insert (key : Key) (a : α)
  /-- Another value for a key, if the key is present. -/
  | replace (key : Key) (a : α)
  | remove (key : Key)
  /-- A new map of values in place of the old one. -/
  | collect (values : List α)

namespace Operation

def apply (m : OrderedMap α) : Operation α → OrderedMap α
  | push a => m.push a
  | insert key a => m.insert key a
  | replace key a => m.modify key fun _ => a
  | remove key => m.erase key
  | collect values => ofValues values

def answer (get : Key → Option α) : Operation α → Option α
  | push _ => none
  | insert _ _ => none
  | replace key _ => get key
  | remove key => get key
  | collect _ => none

end Operation

def after (m : OrderedMap α) (ops : List (Operation α)) : OrderedMap α :=
  ops.foldl Operation.apply m

def answers (m : OrderedMap α) : List (Operation α) → List (Option α)
  | [] => []
  | op :: ops => op.answer m.get? :: answers (op.apply m) ops

structure Reference (α : Type) where
  order : List Key
  value : Key → Option α
  /-- The integer keys that were ever assigned. -/
  assigned : List Int64

namespace Reference

def empty : Reference α := ⟨[], fun _ => none, []⟩

/-- Zero or one past the largest of the assigned integers, whichever is larger, but not past the
largest machine integer. -/
def nextIndex (assigned : List Int64) : Int :=
  min Int64.maxValue.toInt ((assigned.map fun index => index.toInt + 1).foldr max 0)

theorem nextIndex_cons (index : Int64) (assigned : List Int64) :
    nextIndex (index :: assigned) =
      max (nextIndex assigned) (min Int64.maxValue.toInt (index.toInt + 1)) := by
  unfold nextIndex
  rw [List.map_cons, List.foldr_cons]
  omega

def entries (r : Reference α) : List (Key × α) :=
  r.order.filterMap fun key => (r.value key).map fun a => (key, a)

def assign (r : Reference α) (key : Key) (a : α) : Reference α where
  order := if key ∈ r.order then r.order else r.order ++ [key]
  value other := if key = other then some a else r.value other
  assigned := match key with
    | .int index => index :: r.assigned
    | .text _ => r.assigned

def push (r : Reference α) (a : α) : Reference α :=
  r.assign (.int (Int64.ofInt (nextIndex r.assigned))) a

def apply (r : Reference α) : Operation α → Reference α
  | .push a => r.push a
  | .insert key a => r.assign key a
  | .replace key a =>
    { r with value := fun other =>
        if other = key then (r.value other).map fun _ => a else r.value other }
  | .remove key =>
    { r with
      order := r.order.filter fun other => other != key
      value := fun other => if other = key then none else r.value other }
  | .collect values => values.foldl push empty

def after (r : Reference α) (ops : List (Operation α)) : Reference α := ops.foldl apply r

def answers (r : Reference α) : List (Operation α) → List (Option α)
  | [] => []
  | op :: ops => op.answer r.value :: answers (r.apply op) ops

end Reference

theorem keys_erase (m : OrderedMap α) (key : Key) : (m.erase key).keys = m.keys.erase key := by
  obtain ⟨entries, next⟩ := m
  unfold keys erase
  dsimp only
  induction entries with
  | nil => rfl
  | cons e rest ih =>
    by_cases hsame : e.1 = key
    · simp [hsame]
    · simp [hsame, ih]

theorem lookup_eraseP {entries : List (Key × α)} (h : (entries.map Prod.fst).Nodup)
    (key other : Key) : lookup other (entries.eraseP fun e => e.1 == key) =
      if other = key then none else lookup other entries := by
  induction entries with
  | nil => simp [lookup]
  | cons e rest ih =>
    rw [List.map_cons, List.nodup_cons] at h
    by_cases hsame : e.1 = key
    · rw [List.eraseP_cons_of_pos (by simpa using hsame)]
      by_cases hother : other = key
      · rw [if_pos hother, lookup_eq_none_iff, hother, ← hsame]
        exact h.1
      · rw [if_neg hother, lookup, if_neg fun heq => hother (heq.symm.trans hsame)]
    · rw [List.eraseP_cons_of_neg (by simpa using hsame), lookup, lookup, ih h.2]
      by_cases hother : other = key
      · rw [hother, if_neg hsame, if_pos rfl, if_pos rfl]
      · rw [if_neg hother, if_neg hother]

theorem get?_erase {m : OrderedMap α} (h : m.keys.Nodup) (key other : Key) :
    (m.erase key).get? other = if other = key then none else m.get? other :=
  lookup_eraseP h key other

theorem IsSound.erase {m : OrderedMap α} (h : m.IsSound) (key : Key) : (m.erase key).IsSound where
  distinct := by
    rw [keys_erase]
    exact h.distinct.erase key
  indexed index hindex := by
    rw [keys_erase] at hindex
    exact h.indexed index (List.mem_of_mem_erase hindex)

theorem entries_eq_filterMap {m : OrderedMap α} (h : m.keys.Nodup) :
    m.entries = m.keys.filterMap fun key => (m.get? key).map fun a => (key, a) := by
  unfold keys
  rw [List.filterMap_map]
  have hall : ∀ e ∈ m.entries, (m.get? e.1).map (fun a => (e.1, a)) = some e := by
    intro e he
    unfold get?
    rw [(lookup_eq_some_iff h).2 he]
    rfl
  calc
    m.entries = m.entries.filterMap some := List.filterMap_some.symm
    _ = m.entries.filterMap fun e => (m.get? e.1).map fun a => (e.1, a) :=
      (List.filterMap_congr hall).symm

/-- A map has the keys and the values of a reference, and its next index. -/
structure Represents (m : OrderedMap α) (r : Reference α) : Prop where
  sound : m.IsSound
  keys : m.keys = r.order
  get? : ∀ key, m.get? key = r.value key
  nextIndex : m.nextIndex.toInt = Reference.nextIndex r.assigned

theorem represents_empty : (empty : OrderedMap α).Represents .empty where
  sound := isSound_empty
  keys := rfl
  get? _ := rfl
  nextIndex := rfl

namespace Represents

variable {m : OrderedMap α} {r : Reference α}

theorem entries (h : m.Represents r) : m.entries = r.entries := by
  rw [entries_eq_filterMap h.sound.distinct, h.keys]
  simp only [h.get?]
  rfl

theorem insert (h : m.Represents r) (key : Key) (a : α) :
    (m.insert key a).Represents (r.assign key a) where
  sound := h.sound.insert key a
  keys := by
    rw [keys_insert, h.keys]
    rfl
  get? other := by
    rw [get?_insert, h.get?]
    rfl
  nextIndex := by
    rw [nextIndex_insert]
    cases key with
    | int index =>
      rw [toInt_indexAfter, h.nextIndex]
      exact (Reference.nextIndex_cons index r.assigned).symm
    | text name => exact h.nextIndex

theorem push (h : m.Represents r) (a : α) : (m.push a).Represents (r.push a) := by
  have hindex : Int64.ofInt (Reference.nextIndex r.assigned) = m.nextIndex := by
    rw [← h.nextIndex, Int64.ofInt_toInt]
  unfold Reference.push
  rw [hindex]
  exact h.insert _ a

theorem ofValues (values : List α) :
    (ofValues values).Represents (values.foldl Reference.push .empty) :=
  List.foldl_rel represents_empty fun a _ _ _ h => h.push a

theorem apply (h : m.Represents r) (op : Operation α) : (op.apply m).Represents (r.apply op) := by
  cases op with
  | push a => exact h.push a
  | insert key a => exact h.insert key a
  | replace key a =>
    refine ⟨h.sound.modify key fun _ => a, (keys_modify m key _).trans h.keys, fun other => ?_,
      h.nextIndex⟩
    change (m.modify key _).get? other = if other = key then _ else r.value other
    rw [get?_modify, h.get?]
  | remove key =>
    refine ⟨h.sound.erase key, ?_, fun other => ?_, h.nextIndex⟩
    · change (m.erase key).keys = r.order.filter _
      rw [keys_erase, h.sound.distinct.erase_eq_filter, h.keys]
    · change (m.erase key).get? other = if other = key then none else r.value other
      rw [get?_erase h.sound.distinct, h.get?]
  | collect values => exact ofValues values

theorem answer (h : m.Represents r) (op : Operation α) :
    op.answer m.get? = op.answer r.value := by
  have hget : m.get? = r.value := funext h.get?
  rw [hget]

/-- What operations one after another preserve, and what they answer. -/
theorem after (h : m.Represents r) (ops : List (Operation α)) :
    (m.after ops).Represents (r.after ops) ∧ m.answers ops = r.answers ops := by
  induction ops generalizing m r with
  | nil => exact ⟨h, rfl⟩
  | cons op ops ih =>
    obtain ⟨hafter, hanswers⟩ := ih (h.apply op)
    refine ⟨hafter, ?_⟩
    rw [answers, Reference.answers, h.answer, hanswers]

end Represents

/-- A map is another one with one more entry, which is last and has a new key. -/
def Appends (m : OrderedMap α) (a : α) (n : OrderedMap α) : Prop :=
  ∃ key, key ∉ m.keys ∧ n.entries = m.entries ++ [(key, a)]

namespace IsSound

variable {m : OrderedMap α}

theorem nextIndex_eq_maxValue (h : m.IsSound) (hlast : .int Int64.maxValue ∈ m.keys) :
    m.nextIndex = Int64.maxValue := by
  obtain hlt | heq := h.indexed _ hlast
  · exact absurd hlt m.nextIndex.not_maxValue_lt
  · exact heq

theorem nextIndex_not_mem (h : m.IsSound) (hlast : .int Int64.maxValue ∉ m.keys) :
    .int m.nextIndex ∉ m.keys := by
  intro hnext
  obtain hlt | heq := h.indexed _ hnext
  · exact Int64.lt_irrefl hlt
  · rw [heq] at hnext
    exact hlast hnext

theorem appends_push (h : m.IsSound) (hlast : .int Int64.maxValue ∉ m.keys) (a : α) :
    m.Appends a (m.push a) := by
  have hnew := h.nextIndex_not_mem hlast
  refine ⟨.int m.nextIndex, hnew, ?_⟩
  rw [push, entries_insert, assign_of_absent hnew]

theorem entries_push (h : m.IsSound) (hlast : .int Int64.maxValue ∈ m.keys) (a : α) :
    (m.push a).entries =
      m.entries.map fun e => (e.1, if e.1 = .int Int64.maxValue then a else e.2) := by
  rw [push, h.nextIndex_eq_maxValue hlast, entries_insert, assign_of_present h.distinct hlast]

end IsSound

/-- Pushing appends if and only if the last index is free, and overwrites its value otherwise. -/
theorem appends_push_iff (ops : List (Operation α)) (a : α) :
    ((empty.after ops).Appends a ((empty.after ops).push a) ↔
      .int Int64.maxValue ∉ (empty.after ops).keys) ∧
    (.int Int64.maxValue ∈ (empty.after ops).keys → ((empty.after ops).push a).entries =
      (empty.after ops).entries.map fun e =>
        (e.1, if e.1 = .int Int64.maxValue then a else e.2)) := by
  have hsound : ((empty : OrderedMap α).after ops).IsSound := (represents_empty.after ops).1.sound
  refine ⟨⟨?_, fun hlast => hsound.appends_push hlast a⟩,
    fun hlast => hsound.entries_push hlast a⟩
  rintro ⟨key, -, hentries⟩ hlast
  have hlength := congrArg List.length (hsound.entries_push hlast a)
  rw [hentries, List.length_append, List.length_map] at hlength
  exact absurd hlength (Nat.succ_ne_self _)

theorem appends_push_iff_overwritten :
    .int Int64.maxValue ∈ (empty.after [.insert (.int Int64.maxValue) 'a']).keys ∧
      ((empty.after [.insert (.int Int64.maxValue) 'a']).push 'b').entries =
        [(.int Int64.maxValue, 'b')] := by
  have hlast : .int Int64.maxValue ∈ (empty.after [.insert (.int Int64.maxValue) 'a']).keys := by
    decide
  exact ⟨hlast, (appends_push_iff [.insert (.int Int64.maxValue) 'a'] 'b').2 hlast⟩

theorem not_appends_push_behind_last : ¬ ∀ (ops : List (Operation Char)) (a : Char),
    (empty.after ops).Appends a ((empty.after ops).push a) := by
  intro h
  obtain ⟨key, -, hentries⟩ := h [.insert (.int Int64.maxValue) 'a'] 'b'
  have hlength : ([(.int Int64.maxValue, 'b')] : List (Key × Char)).length =
      ([(.int Int64.maxValue, 'a'), (key, 'b')] : List (Key × Char)).length :=
    congrArg List.length hentries
  simp at hlength

end Docblock.OrderedMap
