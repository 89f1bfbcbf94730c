import Docblock.Proofs.Object.Records

/-!
# Contents of standard objects

The constructors of the standard classes take a list or a single value, and store it in their own
form. The records read from the objects hold again what was given: the union of the named targets
with their names joined, and the enumerators and the names to ignore in order. Two things are not
seen to. Names to ignore that are no strings are stored and cannot be read, and labels may be fewer
or more than the enumerators they are for.
-/

namespace Docblock

open OrderedMap Value

/-- What is mapped with success is the image of the results, if every result tells what it is the
result of. -/
theorem Except.mapM_eq_ok_iff {ε α β : Type} {f : α → Except ε β} {g : β → α}
    (hf : ∀ a b, f a = .ok b ↔ a = g b) {all : List α} {found : List β} :
    all.mapM f = .ok found ↔ all = found.map g := by
  induction all generalizing found with
  | nil => cases found <;> simp [pure, Except.pure]
  | cons a rest ih =>
    rw [List.mapM_cons]
    constructor
    · intro h
      obtain ⟨b, hfirst, h⟩ := Except.exists_of_bind_eq_ok h
      obtain ⟨others, hrest, h⟩ := Except.exists_of_bind_eq_ok h
      obtain rfl := Except.ok.inj h
      rw [List.map_cons, ← (hf a b).1 hfirst, ← ih.1 hrest]
    · intro h
      cases found with
      | nil => cases h
      | cons b others =>
        obtain ⟨hfirst, hrest⟩ := List.cons.inj h
        rw [(hf a b).2 hfirst, ih.2 hrest]
        rfl

def Enumeration.IsLabelled (e : Enumeration) : Prop :=
  e.labels = [] ∨ e.labels.length = e.values.length

instance (e : Enumeration) : Decidable e.IsLabelled :=
  inferInstanceAs (Decidable (e.labels = [] ∨ e.labels.length = e.values.length))

namespace Standard

/-- The items given as `value`; a single value stands for a list of one. -/
def given (values : OrderedMap Value) : List Value :=
  match values.set? "value" with
  | none => []
  | some (.array items) => items.values
  | some single => [single]

def GivesLabels (values labels : OrderedMap Value) : Prop :=
  (values.set? "literal").getD (.array .empty) = .array labels

variable {values labels : OrderedMap Value} {a : Annotation}

theorem values_enumerators (values : OrderedMap Value) :
    (enumerators values).values = given values := by
  unfold enumerators given
  cases values.set? "value" with
  | none => rfl
  | some v => cases v <;> rfl

theorem eq_given_of_targetNames {names : List Value} (h : targetNames values = .ok names) :
    names = given values := by
  unfold targetNames at h
  unfold given
  split at h
  · next hset =>
    rw [hset]
    exact (Except.ok.inj h).symm
  · next hset =>
    rw [hset]
    exact (Except.ok.inj h).symm
  · cases h

theorem givesLabels_of_enumeratorLabels (h : enumeratorLabels values = .ok labels) :
    GivesLabels values labels := by
  unfold enumeratorLabels at h
  unfold GivesLabels
  split at h
  · next hset =>
    obtain rfl := Except.ok.inj h
    rw [hset]
    rfl
  · cases h
  · next hset =>
    obtain rfl := Except.ok.inj h
    rw [hset]
    rfl

theorem eq_string_of_namedTarget {v : Value} {t : Target} (h : namedTarget v = .ok t) :
    ∃ name, v = .string name ∧ Target.ofName? name = some t := by
  unfold namedTarget at h
  split at h
  · next hnamed =>
    obtain ⟨name, hname, htarget⟩ := Option.bind_eq_some_iff.1 hnamed
    obtain rfl := Except.ok.inj h
    cases v with
    | string s => exact ⟨s, rfl, by rw [← htarget, Option.some.inj hname]⟩
    | null | bool _ | int _ | float _ | array _ | object _ _ => cases hname
  · cases h

theorem exists_named_of_mapM {names : List Value} {targets : List Target}
    (h : names.mapM namedTarget = .ok targets) : ∃ named : List (String × Target),
      names = named.map (fun n => .string n.1) ∧ targets = named.map Prod.snd ∧
        ∀ n ∈ named, Target.ofName? n.1 = some n.2 := by
  induction names generalizing targets with
  | nil =>
    obtain rfl := Except.ok.inj h
    exact ⟨[], rfl, rfl, nofun⟩
  | cons v rest ih =>
    rw [List.mapM_cons] at h
    obtain ⟨t, hfirst, h⟩ := Except.exists_of_bind_eq_ok h
    obtain ⟨others, hrest, h⟩ := Except.exists_of_bind_eq_ok h
    obtain rfl := Except.ok.inj h
    obtain ⟨name, rfl, htarget⟩ := eq_string_of_namedTarget hfirst
    obtain ⟨named, rfl, rfl, hall⟩ := ih hrest
    exact ⟨(name, t) :: named, rfl, rfl, List.forall_mem_cons.2 ⟨htarget, hall⟩⟩

/-- The record of targets has the union of those that are named, and their names. -/
theorem read_targets (h : constructTarget StandardName.target values = .ok a) :
    ∃ named : List (String × Target), given values = named.map (fun n => .string n.1) ∧
      (∀ n ∈ named, Target.ofName? n.1 = some n.2) ∧
        Record.targets.read a = .ok ⟨(named.map Prod.snd).foldl Target.union .none,
          Text.joined ", " (named.map Prod.fst)⟩ := by
  obtain ⟨names, hnames, h⟩ := Except.exists_of_bind_eq_ok h
  obtain ⟨found, hfound, h⟩ := Except.exists_of_bind_eq_ok h
  obtain rfl := Except.ok.inj h
  obtain ⟨named, hstrings, rfl, hall⟩ := exists_named_of_mapM hfound
  refine ⟨named, (eq_given_of_targetNames hnames).symm.trans hstrings, hall, ?_⟩
  have htexts : names.map Value.toString = named.map Prod.fst := by
    rw [hstrings, List.map_map]
    rfl
  rw [Record.read_of_className rfl, targets_of_mask rfl (Record.targetMask?_bits _) rfl, htexts]

/-- The record of an enumeration has the enumerators and the labels that are given. -/
theorem read_enumeration (h : constructEnumeration StandardName.enumeration values = .ok a) :
    ∃ labels, GivesLabels values labels ∧
      Record.enumeration.read a = .ok ⟨given values, labels⟩ := by
  obtain ⟨-, -, h⟩ := Except.exists_of_bind_eq_ok h
  obtain ⟨labels, hlabels, h⟩ := Except.exists_of_bind_eq_ok h
  obtain ⟨-, -, h⟩ := Except.exists_of_bind_eq_ok h
  obtain rfl := Except.ok.inj h
  refine ⟨labels, givesLabels_of_enumeratorLabels hlabels, ?_⟩
  rw [← values_enumerators]
  rfl

theorem get?_names (h : constructIgnoreAnnotation StandardName.ignoreAnnotation values = .ok a) :
    a.className = StandardName.ignoreAnnotation ∧
      ∃ items, a.get? "names" = some (.array items) ∧ items.values = given values := by
  have hset {v : Value} (hnamed : values.named? "value" = some v) (hnull : v.isNull = false) :
      values.set? "value" = some v := set?_eq_some_iff.2 ⟨hnamed, hnull⟩
  unfold constructIgnoreAnnotation at h
  unfold given
  split at h
  · next hnamed =>
    obtain rfl := Except.ok.inj h
    rw [hset hnamed rfl]
    exact ⟨rfl, _, rfl, rfl⟩
  · next hnamed =>
    obtain rfl := Except.ok.inj h
    rw [hset hnamed rfl]
    exact ⟨rfl, _, rfl, rfl⟩
  · cases h

/-- Names to ignore can be read exactly if they are strings. -/
theorem read_ignoredNames_iff
    (h : constructIgnoreAnnotation StandardName.ignoreAnnotation values = .ok a)
    (names : List String) :
    Record.ignoredNames.read a = .ok names ↔ given values = names.map .string := by
  obtain ⟨hclass, items, hget, hitems⟩ := get?_names h
  rw [Record.read_of_className hclass, ← hitems]
  unfold Record.ignoredNames
  dsimp only
  rw [Record.map_of_get? hget]
  refine Except.mapM_eq_ok_iff fun item name => ?_
  cases item with
  | string s => exact ⟨fun h => by rw [Except.ok.inj h], fun h => by rw [string.inj h]⟩
  | null | bool _ | int _ | float _ | array _ | object _ _ => exact ⟨nofun, nofun⟩

def arguments (items : List Value) (labels : List (String × String)) : OrderedMap Value :=
  let values := empty.insert (.ofString "value") (.array (.ofValues items))
  if labels.isEmpty then values
  else values.insert (.ofString "literal") (.array
    (labels.foldl (fun m label => m.insert (.ofString label.1) (.string label.2)) empty))

/-- What the constructors of the standard classes accept can be read again, and the records hold
what was given. Names to ignore can be read only if they are strings, which is not checked. -/
theorem records_hold_given (values : OrderedMap Value) :
    (∀ a, constructTarget StandardName.target values = .ok a →
      ∃ named : List (String × Target), given values = named.map (fun n => .string n.1) ∧
        (∀ n ∈ named, Target.ofName? n.1 = some n.2) ∧
          Record.targets.read a = .ok ⟨(named.map Prod.snd).foldl Target.union .none,
            Text.joined ", " (named.map Prod.fst)⟩) ∧
      (∀ a, constructEnumeration StandardName.enumeration values = .ok a →
        ∃ labels, GivesLabels values labels ∧
          Record.enumeration.read a = .ok ⟨given values, labels⟩) ∧
      ∀ a, constructIgnoreAnnotation StandardName.ignoreAnnotation values = .ok a →
        ∀ names, Record.ignoredNames.read a = .ok names ↔ given values = names.map .string :=
  ⟨fun _ => read_targets, fun _ => read_enumeration, fun _ => read_ignoredNames_iff⟩

theorem records_hold_given_lists :
    (∃ a record, constructTarget StandardName.target
        (arguments [.string "CLASS", .string "METHOD"] []) = .ok a ∧
      Record.targets.read a = .ok record) ∧
    (∃ a labels, constructEnumeration StandardName.enumeration
        (arguments [.string "S", .string "M"] [("S", "small")]) = .ok a ∧
      Record.enumeration.read a = .ok ⟨[.string "S", .string "M"], labels⟩) ∧
    ∃ a, constructIgnoreAnnotation StandardName.ignoreAnnotation
        (arguments [.string "todo", .string "fixme"] []) = .ok a ∧
      Record.ignoredNames.read a = .ok ["todo", "fixme"] := by
  obtain ⟨named, -, -, htargets⟩ :=
    (records_hold_given (arguments [.string "CLASS", .string "METHOD"] [])).1 _ rfl
  obtain ⟨labels, -, henumeration⟩ :=
    (records_hold_given (arguments [.string "S", .string "M"] [("S", "small")])).2.1 _ rfl
  have hnames :=
    ((records_hold_given (arguments [.string "todo", .string "fixme"] [])).2.2 _ rfl
      ["todo", "fixme"]).2 rfl
  exact ⟨⟨_, _, rfl, htargets⟩, ⟨_, labels, rfl, henumeration⟩, ⟨_, rfl, hnames⟩⟩

/-- A number is stored as a name to ignore, and then no names can be read. -/
theorem not_readable_number :
    ∃ a, constructIgnoreAnnotation StandardName.ignoreAnnotation (arguments [.int 1] []) = .ok a ∧
      ∀ names, Record.ignoredNames.read a ≠ .ok names :=
  ⟨_, rfl, fun _ => nofun⟩

/-- The enumerators of a record are those given, in order. Its labels are those given, or the
enumerators themselves if none are, so that there are as many as enumerators exactly if no labels or
as many are given. -/
theorem isLabelled_iff (h : constructEnumeration StandardName.enumeration values = .ok a) :
    ∃ record labels, Record.enumeration.read a = .ok record ∧ GivesLabels values labels ∧
      record.toEnumeration.values = given values ∧
      record.toEnumeration.labels =
        (if labels.isEmpty then given values else labels.values).map Value.toString ∧
      (record.toEnumeration.IsLabelled ↔
        labels.isEmpty = true ∨ labels.size = (given values).length) := by
  obtain ⟨labels, hlabels, hread⟩ := read_enumeration h
  refine ⟨_, labels, hread, hlabels, rfl, rfl, ?_⟩
  unfold Enumeration.IsLabelled Record.EnumerationLabels.toEnumeration
  dsimp only
  by_cases hempty : labels.isEmpty = true
  · simp [hempty]
  · have hsome : labels.entries ≠ [] := by simpa [OrderedMap.isEmpty] using hempty
    simp [hempty, hsome, OrderedMap.size, OrderedMap.values]

theorem isLabelled_iff_sizes :
    ∃ a record, constructEnumeration StandardName.enumeration
        (arguments [.string "S", .string "M"] [("M", "medium"), ("S", "small")]) = .ok a ∧
      Record.enumeration.read a = .ok record ∧
      record.toEnumeration.values = [.string "S", .string "M"] ∧
      record.toEnumeration.IsLabelled := by
  have hmade : ∃ a, constructEnumeration StandardName.enumeration
      (arguments [.string "S", .string "M"] [("M", "medium"), ("S", "small")]) = .ok a := ⟨_, rfl⟩
  obtain ⟨a, ha⟩ := hmade
  obtain ⟨record, labels, hread, hlabels, hvalues, -, hiff⟩ := isLabelled_iff ha
  obtain rfl := array.inj hlabels
  exact ⟨a, record, ha, hread, hvalues, hiff.2 (.inr rfl)⟩

/-- One of two sizes without a label, and two labels that are both true for one value. -/
theorem not_isLabelled_fewer_or_more :
    (∃ a record, constructEnumeration StandardName.enumeration
        (arguments [.string "S", .string "M"] [("S", "small")]) = .ok a ∧
      Record.enumeration.read a = .ok record ∧ ¬ record.toEnumeration.IsLabelled) ∧
    ∃ a record, constructEnumeration StandardName.enumeration
        (arguments [.bool true] [("yes", "Yes"), ("on", "On")]) = .ok a ∧
      Record.enumeration.read a = .ok record ∧ ¬ record.toEnumeration.IsLabelled :=
  ⟨⟨_, _, rfl, rfl, by decide⟩, ⟨_, _, rfl, rfl, by decide⟩⟩

end Standard

end Docblock
