/-!
# Sorted tables

Tables and sets of names that are kept sorted by code points, each name once.
-/

namespace Docblock.Sorted

variable {α : Type}

/-- Put `a` under a key, in place of what was there. -/
def put (key : String) (a : α) : List (String × α) → List (String × α)
  | [] => [(key, a)]
  | entry :: rest =>
    if key = entry.1 then (key, a) :: rest
    else if key < entry.1 then (key, a) :: entry :: rest
    else entry :: put key a rest

/-- The table of some entries; of two under one key the later counts. -/
def table (entries : List (String × α)) : List (String × α) :=
  entries.foldl (fun t entry => put entry.1 entry.2 t) []

def insert (name : String) : List String → List String
  | [] => [name]
  | other :: rest =>
    if name = other then other :: rest
    else if name < other then name :: other :: rest
    else other :: insert name rest

def set (names : List String) : List String := names.foldl (fun s name => insert name s) []

theorem lookup_cons_eq (key other : String) (a : α) (entries : List (String × α)) :
    ((key, a) :: entries).lookup other = if other = key then some a else entries.lookup other := by
  by_cases same : other = key
  · simp [same]
  · simp [List.lookup_cons, beq_false_of_ne same, same]

theorem lookup_put (key other : String) (a : α) (entries : List (String × α)) :
    (put key a entries).lookup other = if other = key then some a else entries.lookup other := by
  induction entries with
  | nil => exact lookup_cons_eq key other a []
  | cons entry rest ih =>
    obtain ⟨k, b⟩ := entry
    by_cases present : key = k
    · subst present
      by_cases same : other = key <;> simp [put, lookup_cons_eq, same]
    · by_cases before : key < k
      · simp [put, lookup_cons_eq, present, before]
      · by_cases here : other = k
        · subst here
          simp [put, present, before, Ne.symm present]
        · simp [put, lookup_cons_eq, present, before, here, ih]

theorem mem_insert (name other : String) (names : List String) :
    other ∈ insert name names ↔ other = name ∨ other ∈ names := by
  induction names with
  | nil => simp [insert]
  | cons n rest ih =>
    by_cases present : name = n
    · subst present
      simp [insert]
    · by_cases before : name < n
      · simp [insert, present, before]
      · simp [insert, present, before, ih, or_left_comm]

end Docblock.Sorted
