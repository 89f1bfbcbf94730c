import Docblock.Proofs.OrderedMap.Operations
import Mathlib

/-!
# Equal maps

Equality of maps looks at their entries only. The keys of a map from which nothing was removed
settle its next implicit index, so that equal maps of this kind go on alike: the same operations
give equal answers and leave equal maps. A value with NaN in it is not equal to itself; where the
operations store such a value, both maps have that same value in that place.
-/

namespace Docblock

namespace Value

mutual

def hasNaN : Value → Bool
  | float x => x.isNaN
  | array ⟨entries, _⟩ => entriesHaveNaN entries
  | object _ ⟨entries, _⟩ => entriesHaveNaN entries
  | null | bool _ | int _ | string _ => false

def entriesHaveNaN : List (Key × Value) → Bool
  | [] => false
  | (_, v) :: rest => v.hasNaN || entriesHaveNaN rest

end

mutual

/-- The values that are equal to themselves are those without NaN. -/
theorem beq_self : (v : Value) → v.beq v = !v.hasNaN
  | float x => by
    unfold beq hasNaN
    rw [Bool.eq_iff_iff, Float.beq_self_iff, Float.isNaN_eq_decide_eq_nan]
    simp
  | array ⟨entries, _⟩ => by
    unfold beq hasNaN
    exact beqEntries_self entries
  | object c ⟨entries, _⟩ => by
    unfold beq hasNaN
    rw [beqEntries_self entries]
    simp
  | null => rfl
  | bool b => by cases b <;> rfl
  | int n => by
    unfold beq hasNaN
    simp
  | string s => by
    unfold beq hasNaN
    simp

theorem beqEntries_self : (entries : List (Key × Value)) →
    beqEntries entries entries = !entriesHaveNaN entries
  | [] => by
    unfold beqEntries entriesHaveNaN
    rfl
  | (key, v) :: rest => by
    unfold beqEntries entriesHaveNaN
    rw [beq_self v, beqEntries_self rest]
    simp

end

/-- Values that are equal, or are the same value. -/
def Agrees (v w : Value) : Prop := v = w ∨ (v == w) = true

end Value

namespace OrderedMap

variable {α : Type} {R : α → α → Prop} {m n : OrderedMap α} {es fs : List (Key × α)}

def RelatesEntries (R : α → α → Prop) (e f : Key × α) : Prop := e.1 = f.1 ∧ R e.2 f.2

theorem forall₂_assign (h : es.Forall₂ (RelatesEntries R) fs) (key : Key) {a b : α} (hab : R a b) :
    (assign key a es).Forall₂ (RelatesEntries R) (assign key b fs) := by
  induction h with
  | nil => exact .cons ⟨rfl, hab⟩ .nil
  | @cons e f es fs hef hrest ih =>
    unfold assign
    rw [hef.1]
    split
    · exact .cons ⟨rfl, hab⟩ hrest
    · exact .cons hef ih

theorem rel_lookup (h : es.Forall₂ (RelatesEntries R) fs) (key : Key) :
    Option.Rel R (lookup key es) (lookup key fs) := by
  induction h with
  | nil => exact .none
  | @cons e f es fs hef _ ih =>
    unfold lookup
    rw [hef.1]
    split
    · exact .some hef.2
    · exact ih

theorem forall₂_replace (h : es.Forall₂ (RelatesEntries R) fs) (key : Key) {a : α} (ha : R a a) :
    (es.map fun e => if e.1 = key then (e.1, a) else e).Forall₂ (RelatesEntries R)
      (fs.map fun f => if f.1 = key then (f.1, a) else f) := by
  rw [List.forall₂_map_left_iff, List.forall₂_map_right_iff]
  refine h.imp fun e f hef => ?_
  rw [hef.1]
  split
  · exact ⟨rfl, ha⟩
  · exact hef

theorem forall₂_eraseP (h : es.Forall₂ (RelatesEntries R) fs) (key : Key) :
    (es.eraseP fun e => e.1 == key).Forall₂ (RelatesEntries R)
      (fs.eraseP fun f => f.1 == key) := by
  induction h with
  | nil => exact .nil
  | @cons e f es fs hef hrest ih =>
    rw [List.eraseP_cons, List.eraseP_cons, hef.1]
    cases f.1 == key with
    | true => exact hrest
    | false => exact .cons hef ih

structure Corresponds (R : α → α → Prop) (m n : OrderedMap α) : Prop where
  entries : m.entries.Forall₂ (RelatesEntries R) n.entries
  nextIndex : m.nextIndex = n.nextIndex

def Operation.values : Operation α → List α
  | push a => [a]
  | insert _ a => [a]
  | replace _ a => [a]
  | remove _ => []
  | collect values => values

namespace Corresponds

theorem insert (h : Corresponds R m n) (key : Key) {a : α} (ha : R a a) :
    Corresponds R (m.insert key a) (n.insert key a) where
  entries := forall₂_assign h.entries key ha
  nextIndex := congrArg (indexAfter · key) h.nextIndex

theorem push (h : Corresponds R m n) {a : α} (ha : R a a) :
    Corresponds R (m.push a) (n.push a) := by
  unfold OrderedMap.push
  rw [h.nextIndex]
  exact h.insert _ ha

theorem ofValues {values : List α} (hvalues : ∀ a ∈ values, R a a) :
    Corresponds R (ofValues values) (ofValues values) :=
  List.foldl_rel ⟨.nil, rfl⟩ fun a ha _ _ h => h.push (hvalues a ha)

theorem apply (h : Corresponds R m n) {op : Operation α} (hop : ∀ a ∈ op.values, R a a) :
    Corresponds R (op.apply m) (op.apply n) := by
  cases op with
  | push a => exact h.push (hop a List.mem_cons_self)
  | insert key a => exact h.insert key (hop a List.mem_cons_self)
  | replace key a => exact ⟨forall₂_replace h.entries key (hop a List.mem_cons_self), h.nextIndex⟩
  | remove key => exact ⟨forall₂_eraseP h.entries key, h.nextIndex⟩
  | collect values => exact ofValues hop

theorem answer (h : Corresponds R m n) (op : Operation α) :
    Option.Rel R (op.answer m.get?) (op.answer n.get?) := by
  cases op with
  | replace key a => exact rel_lookup h.entries key
  | remove key => exact rel_lookup h.entries key
  | push a => exact .none
  | insert key a => exact .none
  | collect values => exact .none

/-- Maps that correspond do so after the same operations, and their answers are related. -/
theorem after (h : Corresponds R m n) (ops : List (Operation α))
    (hops : ∀ op ∈ ops, ∀ a ∈ op.values, R a a) :
    (m.answers ops).Forall₂ (Option.Rel R) (n.answers ops) ∧
      Corresponds R (m.after ops) (n.after ops) := by
  induction ops generalizing m n with
  | nil => exact ⟨.nil, h⟩
  | cons op ops ih =>
    rw [List.forall_mem_cons] at hops
    obtain ⟨hanswers, hafter⟩ := ih (h.apply hops.1) hops.2
    exact ⟨.cons (h.answer op) hanswers, hafter⟩

end Corresponds

def IsBuilt (m : OrderedMap α) : Prop :=
  ∃ ops : List (Operation α), (∀ op ∈ ops, ∀ key, op ≠ .remove key) ∧ m = empty.after ops

namespace Reference

theorem nextIndex_nonneg (assigned : List Int64) : 0 ≤ nextIndex assigned := by
  induction assigned with
  | nil => exact le_rfl
  | cons index rest ih =>
    rw [nextIndex_cons]
    exact le_max_of_le_left ih

theorem le_nextIndex {index : Int64} {assigned : List Int64} (h : index ∈ assigned) :
    min Int64.maxValue.toInt (index.toInt + 1) ≤ nextIndex assigned := by
  induction assigned with
  | nil => cases h
  | cons other rest ih =>
    rw [nextIndex_cons]
    obtain rfl | h := List.mem_cons.1 h
    · exact le_max_right _ _
    · exact le_max_of_le_left (ih h)

theorem nextIndex_mono {all assigned : List Int64} (h : all ⊆ assigned) :
    nextIndex all ≤ nextIndex assigned := by
  induction all with
  | nil => exact nextIndex_nonneg assigned
  | cons index rest ih =>
    rw [List.cons_subset] at h
    rw [nextIndex_cons]
    exact max_le (ih h.2) (le_nextIndex h.1)

/-- The integer keys that were assigned are those that are there. -/
def IsComplete (r : Reference α) : Prop :=
  ∀ index, index ∈ r.assigned ↔ Key.int index ∈ r.order

theorem isComplete_empty : (empty : Reference α).IsComplete := fun index => by simp [empty]

namespace IsComplete

variable {r : Reference α}

theorem assign (h : r.IsComplete) (key : Key) (a : α) : (r.assign key a).IsComplete := by
  intro index
  have horder : Key.int index ∈ (r.assign key a).order ↔ .int index ∈ r.order ∨ .int index = key :=
    List.mem_concat_unless
  rw [horder, ← h index]
  cases key with
  | int last =>
    change index ∈ last :: r.assigned ↔ _
    rw [List.mem_cons, Key.int.injEq, or_comm]
  | text name =>
    change index ∈ r.assigned ↔ _
    rw [or_iff_left Key.noConfusion]

theorem apply (h : r.IsComplete) {op : Operation α} (hop : ∀ key, op ≠ .remove key) :
    (r.apply op).IsComplete := by
  cases op with
  | push a => exact h.assign _ a
  | insert key a => exact h.assign key a
  | replace key a => exact h
  | remove key => exact absurd rfl (hop key)
  | collect values =>
    exact List.foldlRecOn values Reference.push isComplete_empty fun _ h a _ => h.assign _ a

theorem after (h : r.IsComplete) {ops : List (Operation α)}
    (hops : ∀ op ∈ ops, ∀ key, op ≠ .remove key) : (r.after ops).IsComplete := by
  induction ops generalizing r with
  | nil => exact h
  | cons op ops ih =>
    rw [List.forall_mem_cons] at hops
    exact ih (h.apply hops.1) hops.2

end IsComplete

end Reference

theorem IsBuilt.exists_assigned (h : m.IsBuilt) : ∃ assigned : List Int64,
    (∀ index, index ∈ assigned ↔ .int index ∈ m.keys) ∧
      m.nextIndex.toInt = Reference.nextIndex assigned := by
  obtain ⟨ops, hops, rfl⟩ := h
  have hrepresents := (represents_empty.after ops).1
  have hcomplete := Reference.isComplete_empty.after hops
  refine ⟨_, fun index => ?_, hrepresents.nextIndex⟩
  rw [hrepresents.keys]
  exact hcomplete index

/-- The keys of a map from which nothing was removed settle its next implicit index. -/
theorem IsBuilt.nextIndex_eq (hm : m.IsBuilt) (hn : n.IsBuilt) (h : m.keys = n.keys) :
    m.nextIndex = n.nextIndex := by
  obtain ⟨ms, hms, hmnext⟩ := hm.exists_assigned
  obtain ⟨ns, hns, hnnext⟩ := hn.exists_assigned
  have hsame : ∀ index, index ∈ ms ↔ index ∈ ns := by
    intro index
    rw [hms, hns, h]
  rw [← Int64.toInt_inj, hmnext, hnnext]
  exact le_antisymm (Reference.nextIndex_mono fun index => (hsame index).1)
    (Reference.nextIndex_mono fun index => (hsame index).2)

theorem map_fst_eq (h : es.Forall₂ (RelatesEntries R) fs) : es.map Prod.fst = fs.map Prod.fst := by
  induction h with
  | nil => rfl
  | cons hef _ ih => rw [List.map_cons, List.map_cons, hef.1, ih]

end OrderedMap

theorem Value.beqEntries_iff {es fs : List (Key × Value)} : beqEntries es fs = true ↔
    es.Forall₂ (OrderedMap.RelatesEntries fun v w => (v == w) = true) fs := by
  induction es generalizing fs with
  | nil => cases fs <;> simp [beqEntries]
  | cons e es ih =>
    cases fs with
    | nil => simp [beqEntries]
    | cons f fs =>
      unfold beqEntries
      rw [List.forall₂_cons, Bool.and_eq_true, Bool.and_eq_true, beq_iff_eq, ih]
      rfl

namespace OrderedMap

variable {m n : OrderedMap Value}

theorem beq_iff : (m == n) = true ↔
    m.entries.Forall₂ (RelatesEntries fun v w => (v == w) = true) n.entries :=
  Value.beqEntries_iff

theorem corresponds_of_beq (hm : m.IsBuilt) (hn : n.IsBuilt) (h : (m == n) = true) :
    Corresponds (fun v w => (v == w) = true) m n where
  entries := beq_iff.1 h
  nextIndex := hm.nextIndex_eq hn (map_fst_eq (beq_iff.1 h))

theorem Corresponds.mono {α : Type} {R S : α → α → Prop} {m n : OrderedMap α}
    (h : Corresponds R m n) (hRS : ∀ a b, R a b → S a b) : Corresponds S m n where
  entries := h.entries.imp fun _ _ hef => ⟨hef.1, hRS _ _ hef.2⟩
  nextIndex := h.nextIndex

/-- What operations make of a map is what they make of the reference. Equal maps from which nothing
was removed stay equal, and give equal answers, but for what the operations store that is not equal
to itself. -/
theorem tracks_reference_and_equality :
    (∀ ops : List (Operation Value), (empty.after ops).keys.Nodup ∧
      (empty.after ops).entries = (Reference.empty.after ops).entries ∧
      (empty.after ops).nextIndex.toInt =
        Reference.nextIndex (Reference.empty.after ops).assigned ∧
      empty.answers ops = Reference.empty.answers ops) ∧
    ∀ m n : OrderedMap Value, m.IsBuilt → n.IsBuilt → (m == n) = true → ∀ ops,
      ((m.answers ops).Forall₂ (Option.Rel Value.Agrees) (n.answers ops) ∧
        Corresponds Value.Agrees (m.after ops) (n.after ops)) ∧
      ((∀ op ∈ ops, ∀ v ∈ op.values, v.hasNaN = false) →
        (m.answers ops).Forall₂ (Option.Rel fun v w => (v == w) = true) (n.answers ops) ∧
          (m.after ops == n.after ops) = true) := by
  constructor
  · intro ops
    obtain ⟨hafter, hanswers⟩ := represents_empty.after ops
    exact ⟨hafter.sound.distinct, hafter.entries, hafter.nextIndex, hanswers⟩
  · intro m n hm hn h ops
    have hequal := corresponds_of_beq hm hn h
    constructor
    · exact (hequal.mono fun _ _ => .inr).after ops fun _ _ _ _ => .inl rfl
    · intro hops
      have hself : ∀ op ∈ ops, ∀ v ∈ op.values, (v == v) = true := by
        intro op hop v hv
        change v.beq v = true
        rw [Value.beq_self, hops op hop v hv]
        rfl
      obtain ⟨hanswers, hafter⟩ := hequal.after ops hself
      exact ⟨hanswers, beq_iff.2 hafter.entries⟩

theorem tracks_reference_and_equality_rebuilt :
    let m : OrderedMap Value := empty.after [.push (.int 1), .push (.string "a")]
    let n : OrderedMap Value := empty.after
      [.collect [.null, .string "a"], .replace (.int 0) (.int 1)]
    let ops : List (Operation Value) := [.remove (.int 1), .push (.bool true)]
    (m == n) = true ∧ (m.after ops == n.after ops) = true := by
  intro m n ops
  have hequal : (m == n) = true := by decide
  have hm : m.IsBuilt := ⟨_, by simp, rfl⟩
  have hn : n.IsBuilt := ⟨_, by simp, rfl⟩
  exact ⟨hequal, ((tracks_reference_and_equality.2 m n hm hn hequal ops).2 (by decide)).2⟩

theorem not_equal_after_nan : ¬ ∀ m n : OrderedMap Value, m.IsBuilt → n.IsBuilt →
    (m == n) = true → ∀ ops, (m.after ops == n.after ops) = true := by
  intro h
  have hempty : (empty : OrderedMap Value).IsBuilt := ⟨[], by simp, rfl⟩
  have hnan := h empty empty hempty hempty (by decide) [.push (.float Float.nan)]
  revert hnan
  decide

end OrderedMap

end Docblock
