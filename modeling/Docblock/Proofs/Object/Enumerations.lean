import Docblock.Proofs.Object.Conformance

/-!
# Enumerated properties

The values of a property with an enumeration should be among those listed. The check looks at what
is given under the name of the property. It sees a single argument as it is written, several
arguments without a name as the list that is made of them, and an argument that is stored in the
default property under another name than `value` not at all.
-/

namespace Docblock

theorem OrderedMap.named?_modify (m : OrderedMap Value) (name other : String) (f : Value → Value) :
    (m.modify (.ofString name) f).named? other =
      if name = other then (m.named? other).map f else m.named? other := by
  unfold OrderedMap.named?
  rw [OrderedMap.get?_modify]
  by_cases hsame : name = other
  · rw [if_pos hsame, if_pos (congrArg Key.ofString hsame.symm)]
  · rw [if_neg hsame, if_neg fun hkey => hsame (Key.ofString_injective hkey).symm]

namespace Argument

def name : Argument → String
  | named name _ => name
  | positional _ => "value"

def collected : List Value → Option Value
  | [] => none
  | [v] => some v
  | v :: w :: more => some (.array ((w :: more).foldl OrderedMap.push (asList v)))

/-- One more argument. Under its name a named one replaces what was kept, and one without a name
joins what is set. -/
def keep (name : String) (kept : List Value) (g : Argument) : List Value :=
  if g.name = name then
    match g with
    | named _ v => [v]
    | positional v => if (collected kept).all Value.isNull then [v] else kept ++ [v]
  else kept

def kept (name : String) (given : List Argument) : List Value := given.foldl (keep name) []

theorem collected_concat {first : Value} {kept : List Value} (h : collected kept = some first)
    (v : Value) : collected (kept ++ [v]) = some (.array ((asList first).push v)) := by
  match kept with
  | [] => cases h
  | [w] =>
    obtain rfl := Option.some.inj h
    rfl
  | w :: u :: more =>
    obtain rfl := Option.some.inj h
    simp [collected, asList, List.foldl_append]

theorem named?_add {m : OrderedMap Value} {name : String} {kept : List Value}
    (h : m.named? name = collected kept) (g : Argument) :
    (add m g).named? name = collected (keep name kept g) := by
  by_cases hname : g.name = name
  · unfold keep
    rw [if_pos hname]
    cases g with
    | named other v =>
      obtain rfl : other = name := hname
      exact (OrderedMap.named?_insert m other other v).trans (if_pos rfl)
    | positional v =>
      obtain rfl : "value" = name := hname
      have hset : m.set? "value" = (collected kept).filter fun v => !v.isNull := by
        rw [← h]
        rfl
      dsimp only [add]
      rw [hset]
      cases hkept : collected kept with
      | none => exact (OrderedMap.named?_insert m "value" "value" v).trans (if_pos rfl)
      | some first =>
        cases hnull : first.isNull with
        | true =>
          simp only [Option.filter_some, Option.all_some, hnull, Bool.not_true, Bool.false_eq_true,
            if_false, if_true]
          exact (OrderedMap.named?_insert m "value" "value" v).trans (if_pos rfl)
        | false =>
          simp only [Option.filter_some, Option.all_some, hnull, Bool.not_false, if_true,
            Bool.false_eq_true, if_false]
          rw [collected_concat hkept]
          refine (OrderedMap.named?_modify m "value" "value" _).trans ?_
          rw [if_pos rfl, h, hkept]
          rfl
  · have hkeep : keep name kept g = kept := if_neg hname
    rw [hkeep, ← h]
    cases g with
    | named other v => exact (OrderedMap.named?_insert m other name v).trans (if_neg hname)
    | positional v =>
      dsimp only [add]
      cases m.set? "value" with
      | none => exact (OrderedMap.named?_insert m "value" name v).trans (if_neg hname)
      | some first => exact (OrderedMap.named?_modify m "value" name _).trans (if_neg hname)

/-- Folding collects under every name what is kept under it. -/
theorem named?_fold (given : List Argument) (name : String) :
    (fold given).named? name = collected (kept name given) := by
  have hall : ∀ (m : OrderedMap Value) (kept : List Value), m.named? name = collected kept →
      (given.foldl add m).named? name = collected (given.foldl (keep name) kept) := by
    induction given with
    | nil => exact fun m kept h => h
    | cons g rest ih => exact fun m kept h => ih _ _ (named?_add h g)
  exact hall .empty [] rfl

/-- Only arguments without a name are kept together. -/
theorem length_kept_of_ne_value {name : String} (hname : name ≠ "value") (given : List Argument) :
    (kept name given).length ≤ 1 := by
  have hall : ∀ before : List Value, before.length ≤ 1 →
      (given.foldl (keep name) before).length ≤ 1 := by
    induction given with
    | nil => exact fun before h => h
    | cons g rest ih =>
      intro before h
      apply ih
      unfold keep
      split
      · next hsame =>
        cases g with
        | named other v => exact Nat.le_refl 1
        | positional v => exact absurd hsame.symm hname
      · exact h
  exact hall [] (Nat.zero_le 1)

theorem collected_cases {kept : List Value} {v : Value} (hv : v ∈ kept) :
    kept = [v] ∨ (1 < kept.length ∧ ∃ items, collected kept = some (.array items)) := by
  match kept with
  | [] => cases hv
  | [w] => exact .inl (by rw [List.mem_singleton.1 hv])
  | w :: u :: more => exact .inr ⟨by simp, _, rfl⟩

end Argument

theorem List.forM_eq_ok_iff {α ε : Type} {f : α → Except ε Unit} {all : List α} :
    all.forM f = .ok () ↔ ∀ a ∈ all, f a = .ok () := by
  induction all with
  | nil => simp [pure, Except.pure]
  | cons a rest ih =>
    rw [List.forall_mem_cons, ← ih]
    change (f a >>= fun _ => rest.forM f) = .ok () ↔ _
    cases f a with
    | ok _ => exact ⟨fun h => ⟨rfl, h⟩, fun h => h.2⟩
    | error e => exact ⟨fun h => (nomatch h), fun h => (nomatch h.1)⟩

theorem PropertySchema.checkEnumeration_eq_ok_iff {place : Place} {values : OrderedMap Value}
    {q : PropertySchema} : q.checkEnumeration place values = .ok () ↔
      ∀ e v, q.enumeration? = some e → values.set? q.name = some v → e.allows v = true := by
  unfold PropertySchema.checkEnumeration
  cases q.enumeration? with
  | none => simp
  | some e =>
    cases values.set? q.name with
    | none => simp
    | some v =>
      by_cases hallows : e.allows v = true
      · simp [hallows]
      · simp [hallows]

namespace AnnotationSchema

open Argument

variable {s : AnnotationSchema} {registry : Registry} {place : Place} {values : OrderedMap Value}
  {given : List Argument} {q : PropertySchema} {a : Annotation}

theorem checkEnumeration_of_objectOf (h : s.objectOf registry place values = .ok a)
    (hq : q ∈ s.properties) : q.checkEnumeration place values = .ok () := by
  have hchecked : s.checkEnumerations place values = .ok () := by
    cases hall : s.checkEnumerations place values with
    | ok _ => rfl
    | error e =>
      unfold objectOf at h
      rw [hall] at h
      cases h
  exact List.forM_eq_ok_iff.1 hchecked q hq

/-- What is written for a property and stored in it is in its enumeration. -/
def KeepsEnumeration (s : AnnotationSchema) (given : List Argument) (q : PropertySchema) : Prop :=
  ∀ e name v, q.enumeration? = some e → s.receiver? (.ofString name) = some q.name →
    v ∈ kept name given → v.isNull = false → e.allows v = true

/-- How an argument that the enumeration does not list gets into the property. -/
inductive Evades (s : AnnotationSchema) (given : List Argument) (q : PropertySchema) : Prop where
  /-- It is stored in the default property, and the check looks for that one's name. -/
  | unread {e : Enumeration} {v : Value} : q.enumeration? = some e → q.name ≠ "value" →
      s.receiver? (.ofString "value") = some q.name → v ∈ kept "value" given →
      v.isNull = false → e.allows v = false → Evades s given q
  /-- It is one of several, and the enumeration allows the list of all. -/
  | joined {e : Enumeration} {v list : Value} : q.enumeration? = some e → q.name = "value" →
      1 < (kept "value" given).length → collected (kept "value" given) = some list →
      e.allows list = true → v ∈ kept "value" given → v.isNull = false → e.allows v = false →
      Evades s given q

theorem name_cases_of_receiver? {name : String} (h : s.receiver? (.ofString name) = some q.name) :
    name = q.name ∨ name = "value" := by
  unfold receiver? at h
  rw [Key.toString_ofString] at h
  split at h
  · exact .inl (Option.some.inj h)
  · split at h
    · next hvalue => exact .inr (Key.ofString_injective hvalue)
    · cases h

theorem receiver?_name (hq : q ∈ s.properties) : s.receiver? (.ofString q.name) = some q.name := by
  have hpresent : (s.property? q.name).isSome = true :=
    List.find?_isSome.2 ⟨q, hq, beq_self_eq_true q.name⟩
  unfold receiver?
  rw [Key.toString_ofString, if_pos hpresent]

/-- A single argument under the name of the property was checked as it is written. -/
theorem allows_of_kept (h : s.objectOf registry place (fold given) = .ok a) (hq : q ∈ s.properties)
    {e : Enumeration} (he : q.enumeration? = some e) {v : Value}
    (hkept : collected (kept q.name given) = some v) (hnull : v.isNull = false) :
    e.allows v = true := by
  have hset : (fold given).set? q.name = some v :=
    OrderedMap.set?_eq_some_iff.2 ⟨(named?_fold given q.name).trans hkept, hnull⟩
  exact PropertySchema.checkEnumeration_eq_ok_iff.1 (checkEnumeration_of_objectOf h hq) e v he hset

/-- An enumeration is kept unless an argument evades the check. -/
theorem keepsEnumeration_iff_not_evades (h : s.objectOf registry place (fold given) = .ok a)
    (hq : q ∈ s.properties) : s.KeepsEnumeration given q ↔ ¬ s.Evades given q := by
  constructor
  · intro hkeeps hevades
    cases hevades with
    | @unread e v he hname hreceiver hv hnull hrefused =>
      rw [hkeeps e "value" v he hreceiver hv hnull] at hrefused
      cases hrefused
    | @joined e v list he hname hmany hlist hallowed hv hnull hrefused =>
      have hreceiver : s.receiver? (.ofString "value") = some q.name := by
        rw [← hname]
        exact receiver?_name hq
      rw [hkeeps e "value" v he hreceiver hv hnull] at hrefused
      cases hrefused
  · intro hnone e name v he hreceiver hv hnull
    rw [← Bool.not_eq_false]
    intro hrefused
    by_cases hown : name = q.name
    · rw [hown] at hv
      obtain hkept | ⟨hmany, items, hkept⟩ := collected_cases hv
      · rw [allows_of_kept h hq he (congrArg collected hkept) hnull] at hrefused
        cases hrefused
      · have hallowed := allows_of_kept h hq he hkept rfl
        have hvalue : q.name = "value" := by
          by_cases hvalue : q.name = "value"
          · exact hvalue
          · have hfew := length_kept_of_ne_value hvalue given
            omega
        rw [hvalue] at hv hmany hkept
        exact hnone (.joined he hvalue hmany hkept hallowed hv hnull hrefused)
    · obtain rfl := (name_cases_of_receiver? hreceiver).resolve_left hown
      exact hnone (.unread he (Ne.symm hown) hreceiver hv hnull hrefused)

end AnnotationSchema

end Docblock
