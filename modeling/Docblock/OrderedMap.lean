import Docblock.Key

/-!
# Ordered maps

Entries keep the order in which their keys were first assigned. Appending uses the next implicit
index: one past the largest integer key ever assigned, never below zero, and never past the largest
machine integer.
-/

namespace Docblock

structure OrderedMap (α : Type) where
  entries : List (Key × α)
  nextIndex : Int64

namespace OrderedMap

variable {α β : Type}

def empty : OrderedMap α := ⟨[], 0⟩

instance : EmptyCollection (OrderedMap α) := ⟨empty⟩

instance : Inhabited (OrderedMap α) := ⟨empty⟩

/-- The index after `index`, or `index` itself at the end of the machine integers. -/
def successor (index : Int64) : Int64 :=
  if index = Int64.maxValue then index else index + 1

def indexAfter (next : Int64) : Key → Int64
  | .int index => if next ≤ index then successor index else next
  | .text _ => next

/-- Entries with `key` assigned: in place if it is present, last otherwise. -/
def assign (key : Key) (a : α) : List (Key × α) → List (Key × α)
  | [] => [(key, a)]
  | entry :: rest => if entry.1 = key then (key, a) :: rest else entry :: assign key a rest

def insert (m : OrderedMap α) (key : Key) (a : α) : OrderedMap α :=
  ⟨assign key a m.entries, indexAfter m.nextIndex key⟩

def push (m : OrderedMap α) (a : α) : OrderedMap α := m.insert (.int m.nextIndex) a

def lookup (key : Key) : List (Key × α) → Option α
  | [] => none
  | entry :: rest => if entry.1 = key then some entry.2 else lookup key rest

def get? (m : OrderedMap α) (key : Key) : Option α := lookup key m.entries

/-- Look up by the key that a name denotes. -/
def named? (m : OrderedMap α) (name : String) : Option α := m.get? (.ofString name)

def contains (m : OrderedMap α) (key : Key) : Bool := (m.get? key).isSome

/-- Change the value of a present key; the next implicit index stays. -/
def modify (m : OrderedMap α) (key : Key) (f : α → α) : OrderedMap α :=
  ⟨m.entries.map fun entry => if entry.1 = key then (entry.1, f entry.2) else entry, m.nextIndex⟩

/-- Remove one entry; the next implicit index stays. -/
def erase (m : OrderedMap α) (key : Key) : OrderedMap α :=
  ⟨m.entries.eraseP fun entry => entry.1 == key, m.nextIndex⟩

def keys (m : OrderedMap α) : List Key := m.entries.map Prod.fst

def values (m : OrderedMap α) : List α := m.entries.map Prod.snd

def size (m : OrderedMap α) : Nat := m.entries.length

def isEmpty (m : OrderedMap α) : Bool := m.entries.isEmpty

def ofValues (values : List α) : OrderedMap α := values.foldl push empty

/-- Whether the keys count up from `n`. -/
def countsFrom (n : Nat) : List (Key × α) → Bool
  | [] => true
  | entry :: rest => entry.1 == .int (Int64.ofNat n) && countsFrom (n + 1) rest

/-- Whether the keys are the indices from zero on, in order. -/
def isList (m : OrderedMap α) : Bool := countsFrom 0 m.entries

@[simp] theorem entries_empty : (empty : OrderedMap α).entries = [] := rfl

@[simp] theorem entries_insert (m : OrderedMap α) (key : Key) (a : α) :
    (m.insert key a).entries = assign key a m.entries := rfl

@[simp] theorem nextIndex_insert (m : OrderedMap α) (key : Key) (a : α) :
    (m.insert key a).nextIndex = indexAfter m.nextIndex key := rfl

@[simp] theorem nextIndex_erase (m : OrderedMap α) (key : Key) :
    (m.erase key).nextIndex = m.nextIndex := rfl

@[simp] theorem get?_empty (key : Key) : (empty : OrderedMap α).get? key = none := rfl

theorem lookup_assign (key other : Key) (a : α) (entries : List (Key × α)) :
    lookup other (assign key a entries) = if key = other then some a else lookup other entries := by
  induction entries with
  | nil => simp [assign, lookup]
  | cons entry rest ih =>
    by_cases same : entry.1 = key
    · by_cases wanted : key = other <;> simp [assign, lookup, same, wanted]
    · by_cases wanted : key = other
      · subst wanted
        simp [assign, lookup, same, ih]
      · simp [assign, lookup, same, ih, wanted]

theorem get?_insert (m : OrderedMap α) (key other : Key) (a : α) :
    (m.insert key a).get? other = if key = other then some a else m.get? other :=
  lookup_assign key other a m.entries

theorem lookup_eq_none_iff (key : Key) (entries : List (Key × α)) :
    lookup key entries = none ↔ key ∉ entries.map Prod.fst := by
  induction entries with
  | nil => simp [lookup]
  | cons entry rest ih =>
    by_cases same : entry.1 = key
    · simp [lookup, same]
    · simp [lookup, same, ih, Ne.symm same]

/-- Assigning a present key keeps the keys, and a new key goes last. -/
theorem keys_assign (key : Key) (a : α) (entries : List (Key × α)) :
    (assign key a entries).map Prod.fst =
      if key ∈ entries.map Prod.fst then entries.map Prod.fst
      else entries.map Prod.fst ++ [key] := by
  induction entries with
  | nil => simp [assign]
  | cons entry rest ih =>
    by_cases same : entry.1 = key
    · simp [assign, same]
    · by_cases present : key ∈ rest.map Prod.fst
      · simp only [List.map_cons, assign, same, if_false, ih, present, if_true,
          List.mem_cons, or_true]
      · have absent : key ∉ entry.1 :: rest.map Prod.fst := by
          simp only [List.mem_cons, not_or]
          exact ⟨Ne.symm same, present⟩
        simp only [List.map_cons, assign, same, if_false, ih, present, absent, List.cons_append]

theorem assign_of_absent {key : Key} {entries : List (Key × α)} (h : key ∉ entries.map Prod.fst)
    (a : α) : assign key a entries = entries ++ [(key, a)] := by
  induction entries with
  | nil => rfl
  | cons entry rest ih =>
    rw [List.map_cons, List.mem_cons, not_or] at h
    rw [assign, if_neg (Ne.symm h.1), ih h.2, List.cons_append]

end OrderedMap

end Docblock
