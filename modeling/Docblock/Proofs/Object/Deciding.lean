import Docblock.Proofs.Object.Checking
import Docblock.Proofs.Schema.WellFormed

/-!
# What the check of the properties decides

In a schema in which only the default property may be called `value`, no two properties take the
same argument. The check of such a schema can therefore be read off the arguments as they are given:
it refuses the first property that misses its argument or whose type does not accept it, and it
leaves the arguments alone but for the single values that array properties take as lists.
-/

namespace Docblock

namespace OrderedMap

variable {α : Type} {m : OrderedMap α}

/-- What holds of every map of arguments: keys are distinct, and the next implicit index is behind
all integers among them, or at the end of the machine integers. -/
structure IsSound (m : OrderedMap α) : Prop where
  distinct : m.keys.Nodup
  indexed : ∀ index, .int index ∈ m.keys → index < m.nextIndex ∨ m.nextIndex = Int64.maxValue

theorem isSound_empty : (empty : OrderedMap α).IsSound where
  distinct := List.nodup_nil
  indexed index h := by cases h

theorem toInt_successor (index : Int64) :
    (successor index).toInt = min Int64.maxValue.toInt (index.toInt + 1) := by
  have hmax : Int64.maxValue.toInt = 2 ^ 63 - 1 := Int64.toInt_maxValue
  have hmin := index.le_toInt
  have hle := index.toInt_le
  unfold successor
  split
  · next hlast =>
    rw [hlast]
    omega
  · next hbefore =>
    have hne : index.toInt ≠ Int64.maxValue.toInt := fun heq => hbefore (Int64.toInt_inj.1 heq)
    have hone : (1 : Int64).toInt = 1 := by decide
    rw [Int64.toInt_add, hone, Int.bmod_eq_of_le (by omega) (by omega)]
    omega

theorem toInt_indexAfter (next last : Int64) : (indexAfter next (.int last)).toInt =
    max next.toInt (min Int64.maxValue.toInt (last.toInt + 1)) := by
  have hmax := last.toInt_le
  unfold indexAfter
  dsimp only
  split
  · next hle =>
    have hnext := Int64.le_iff_toInt_le.1 hle
    rw [toInt_successor]
    omega
  · next hbefore =>
    have hlast := Int64.lt_iff_toInt_lt.1 (Int64.not_le.1 hbefore)
    omega

theorem IsSound.insert (h : m.IsSound) (key : Key) (a : α) : (m.insert key a).IsSound where
  distinct := nodup_keys_insert h.distinct key a
  indexed index hindex := by
    have hcases := mem_keys_insert.1 hindex
    rw [nextIndex_insert]
    cases key with
    | text name =>
      obtain hold | hnew := hcases
      · exact h.indexed index hold
      · cases hnew
    | int last =>
      have hnextMax := m.nextIndex.toInt_le
      have hindexMax := index.toInt_le
      rw [Int64.lt_iff_toInt_lt, ← Int64.toInt_inj, toInt_indexAfter]
      obtain hold | hnew := hcases
      · obtain hlt | hend := h.indexed index hold
        · have hbefore := Int64.lt_iff_toInt_lt.1 hlt
          omega
        · rw [hend]
          omega
      · obtain rfl := Key.int.inj hnew
        omega

theorem IsSound.modify (h : m.IsSound) (key : Key) (f : α → α) : (m.modify key f).IsSound where
  distinct := by
    rw [keys_modify]
    exact h.distinct
  indexed := by
    rw [keys_modify]
    exact h.indexed

theorem IsSound.indexAfter_eq (h : m.IsSound) {key : Key} (hkey : key ∈ m.keys) :
    indexAfter m.nextIndex key = m.nextIndex := by
  cases key with
  | text name => rfl
  | int index =>
    rw [← Int64.toInt_inj, toInt_indexAfter]
    obtain hlt | hend := h.indexed index hkey
    · have hbefore := Int64.lt_iff_toInt_lt.1 hlt
      omega
    · rw [hend]
      omega

theorem IsSound.add {m : OrderedMap Value} (h : m.IsSound) (a : Argument) :
    (Argument.add m a).IsSound := by
  cases a with
  | named name v => exact h.insert (.ofString name) v
  | positional v =>
    unfold Argument.add
    dsimp only
    split
    · exact h.insert Argument.valueKey v
    · exact h.modify Argument.valueKey _

/-- The maps that are checked are sound. -/
theorem isSound_fold (given : List Argument) : (Argument.fold given).IsSound := by
  have hall : ∀ m : OrderedMap Value, m.IsSound → (given.foldl Argument.add m).IsSound := by
    induction given with
    | nil => exact fun m hm => hm
    | cons a rest ih => exact fun m hm => ih _ (hm.add a)
  exact hall .empty isSound_empty

end OrderedMap

namespace PropertyType

/-- A value as the type takes it: an array type takes a single value as a list of it. -/
def form (type : PropertyType) (v : Value) : Value :=
  if type.isArray && !v.isArray then .array (.ofValues [v]) else v

def expectation : PropertyType → String
  | array (some element) _ => "either a(n) " ++ element ++ ", or an array of " ++ element ++ "s"
  | array none declared | named _ declared => "a(n) " ++ declared

def culprit (classes : Hierarchy) : PropertyType → Value → Value
  | array (some element) _, v =>
    (PropertySchema.misfit? classes (.ofName element) (some v)).getD v
  | array none _, v | named .., v => v

end PropertyType

namespace PropertySchema

variable {classes : Hierarchy} {place : Place} {values m : OrderedMap Value}
  {done : List PropertySchema} {p q : PropertySchema} {v : Value}

/-- The argument that a property takes; null is no argument. -/
def source? (p : PropertySchema) (values : OrderedMap Value) : Option Value :=
  values.set? (p.sourceName values)

/-- The property misses its argument, or its type does not accept it. -/
inductive Refuses (classes : Hierarchy) (values : OrderedMap Value) (p : PropertySchema) :
    Prop where
  | missing : p.required = true → p.source? values = none → Refuses classes values p
  | mismatch {v : Value} {type : PropertyType} : p.source? values = some v →
      p.type? = some type → type.toValueType.accepts classes (type.form v) = false →
      Refuses classes values p

def refusal (classes : Hierarchy) (place : Place) (values : OrderedMap Value) (p : PropertySchema) :
    AnnotationError :=
  match p.source? values, p.type? with
  | some v, some type => p.mismatch place type.expectation (type.culprit classes (type.form v))
  | _, _ => .requiredMissing p.name place.name place.context p.expected

theorem misfit?_eq_none_iff {element : ValueType} {items : OrderedMap Value} :
    misfit? classes element (some (.array items)) = none ↔
      (ValueType.list element).accepts classes (.array items) = true := by
  have hfind : misfit? classes element (some (.array items)) =
      items.values.find? fun item => !element.accepts classes item := rfl
  rw [hfind, List.find?_eq_none, ValueType.accepts, List.all_eq_true]
  simp

theorem exists_items_form (element : Option String) (declared : String) (v : Value) :
    ∃ items, (PropertyType.array element declared).form v = .array items := by
  unfold PropertyType.form
  cases v with
  | array items => exact ⟨items, rfl⟩
  | null | bool _ | int _ | float _ | string _ | object _ _ => exact ⟨_, rfl⟩

theorem set?_listed {name : String} (hv : m.set? name = some v) (element : Option String)
    (declared : String) :
    (listed m name v).set? name = some ((PropertyType.array element declared).form v) := by
  unfold listed PropertyType.form
  by_cases harray : v.isArray = true
  · simp [harray, hv, PropertyType.isArray]
  · rw [if_neg harray, OrderedMap.set?, OrderedMap.named?_insert, if_pos rfl]
    simp [harray, PropertyType.isArray, Value.isNull]

theorem check_eq_of_typed {type : PropertyType} (hv : p.source? m = some v)
    (htype : p.type? = some type) : p.check classes place m =
      if type.toValueType.accepts classes (type.form v) then
        .ok (if type.isArray then listed m (p.sourceName m) v else m)
      else .error (p.mismatch place type.expectation (type.culprit classes (type.form v))) := by
  have hset : m.set? (p.sourceName m) = some v := hv
  unfold check
  dsimp only
  rw [hset, htype]
  cases type with
  | named name declared => rfl
  | array element declared =>
    obtain ⟨items, hitems⟩ := exists_items_form element declared v
    cases element with
    | none =>
      have haccepts : (ValueType.list .mixed).accepts classes (.array items) = true :=
        accepts_list fun item _ => by rw [ValueType.accepts]
      rw [hitems, PropertyType.toValueType, if_pos haccepts]
      rfl
    | some element =>
      dsimp only
      rw [set?_listed hset (some element) declared, hitems, PropertyType.toValueType]
      cases hmisfit : misfit? classes (.ofName element) (some (.array items)) with
      | none =>
        rw [if_pos (misfit?_eq_none_iff.1 hmisfit)]
        rfl
      | some item =>
        have hrefused :
            ¬ (ValueType.list (.ofName element)).accepts classes (.array items) = true := by
          rw [← misfit?_eq_none_iff, hmisfit]
          exact Option.some_ne_none item
        rw [if_neg hrefused, PropertyType.culprit, hmisfit]
        rfl

def takesList (values : OrderedMap Value) (properties : List PropertySchema) (key : Key) : Bool :=
  properties.any fun p => p.isArray && Key.ofString (p.sourceName values) == key

def inForm (values : OrderedMap Value) (properties : List PropertySchema) (key : Key) (v : Value) :
    Value :=
  if v.isNull || v.isArray || !takesList values properties key then v else .array (.ofValues [v])

def formed (properties : List PropertySchema) (values : OrderedMap Value) : OrderedMap Value :=
  ⟨values.entries.map fun e => (e.1, inForm values properties e.1 e.2), values.nextIndex⟩

theorem isNull_inForm (key : Key) (v : Value) :
    (inForm values done key v).isNull = v.isNull := by
  unfold inForm
  split
  · rfl
  · next hform =>
    have hnull : v.isNull = false := by
      rw [Bool.or_eq_true, Bool.or_eq_true, not_or, not_or] at hform
      simpa using hform.1.1
    rw [hnull]
    rfl

theorem set?_formed (name : String) : (formed done values).set? name =
    (values.set? name).map (inForm values done (.ofString name)) := by
  have hnamed : (formed done values).named? name =
      (values.named? name).map (inForm values done (.ofString name)) :=
    OrderedMap.lookup_map (inForm values done) (.ofString name) values.entries
  unfold OrderedMap.set?
  rw [hnamed]
  cases values.named? name with
  | none => rfl
  | some v =>
    rw [Option.map_some, Option.filter_some, Option.filter_some, isNull_inForm]
    cases v.isNull <;> rfl

/-- Taking arguments as lists does not change which one a property takes. -/
theorem sourceName_formed (p : PropertySchema) :
    p.sourceName (formed done values) = p.sourceName values := by
  unfold sourceName
  rw [set?_formed p.name, set?_formed "value", Option.isNone_map, Option.isSome_map]

theorem source?_formed (hfree : takesList values done (.ofString (p.sourceName values)) = false) :
    p.source? (formed done values) = p.source? values := by
  have hsame : inForm values done (.ofString (p.sourceName values)) = id := by
    funext v
    simp [inForm, hfree]
  unfold source?
  rw [sourceName_formed, set?_formed, hsame, Option.map_id, id]

theorem takesList_concat (key : Key) : takesList values (done ++ [p]) key =
    (takesList values done key || p.isArray && Key.ofString (p.sourceName values) == key) := by
  simp [takesList]

theorem formed_nil : formed [] values = values := by
  have hsame : (fun e : Key × Value => (e.1, inForm values [] e.1 e.2)) = id := by
    funext e
    simp [inForm, takesList]
  unfold formed
  rw [hsame, List.map_id]

/-- A further property changes nothing if it takes no single value as a list. -/
theorem formed_concat_of_same (hsame : p.isArray = true → ∀ e ∈ values.entries,
    e.1 = Key.ofString (p.sourceName values) → (e.2.isNull || e.2.isArray) = true) :
    formed (done ++ [p]) values = formed done values := by
  unfold formed
  congr 1
  apply List.map_congr_left
  intro e he
  unfold inForm
  rw [takesList_concat]
  by_cases htakes : (p.isArray && Key.ofString (p.sourceName values) == e.1) = true
  · rw [Bool.and_eq_true, beq_iff_eq] at htakes
    rw [hsame htakes.1 e he htakes.2.symm]
    rfl
  · rw [Bool.eq_false_iff.2 htakes, Bool.or_false]

/-- What a property that takes an argument as a list makes of it. -/
theorem listed_formed (hvalues : values.IsSound) (harray : p.isArray = true)
    (hv : p.source? values = some v) :
    listed (formed done values) (p.sourceName values) v = formed (done ++ [p]) values := by
  obtain ⟨hnamed, hnull⟩ := OrderedMap.set?_eq_some_iff.1 hv
  have hmem := (OrderedMap.lookup_eq_some_iff hvalues.distinct).1 hnamed
  have honly : ∀ e ∈ values.entries, e.1 = Key.ofString (p.sourceName values) → e.2 = v := by
    intro e he hkey
    have hfound := (OrderedMap.lookup_eq_some_iff hvalues.distinct).2 he
    rw [hkey] at hfound
    exact Option.some.inj (hfound.symm.trans hnamed)
  unfold listed
  by_cases hlist : v.isArray = true
  · rw [if_pos hlist, formed_concat_of_same]
    intro _ e he hkey
    rw [honly e he hkey, hlist, Bool.or_true]
  · have hkeys : (formed done values).entries.map Prod.fst = values.keys := by
      unfold formed OrderedMap.keys
      rw [List.map_map]
      rfl
    have hpresent : Key.ofString (p.sourceName values) ∈ values.keys := List.mem_map_of_mem hmem
    rw [if_neg hlist]
    unfold OrderedMap.insert
    rw [OrderedMap.assign_of_present (by rw [hkeys]; exact hvalues.distinct)
      (by rw [hkeys]; exact hpresent)]
    unfold formed
    dsimp only
    rw [List.map_map, hvalues.indexAfter_eq hpresent]
    congr 1
    apply List.map_congr_left
    intro e he
    rw [Function.comp_apply]
    by_cases hkey : e.1 = Key.ofString (p.sourceName values)
    · rw [if_pos hkey, honly e he hkey]
      simp [inForm, takesList_concat, harray, hkey, hnull, hlist]
    · rw [if_neg hkey]
      simp [inForm, takesList_concat, Ne.symm hkey]

/-- A property that refuses its argument fails the check, whatever properties were checked. -/
theorem check_formed_of_refuses
    (hfree : takesList values done (.ofString (p.sourceName values)) = false)
    (h : p.Refuses classes values) :
    p.check classes place (formed done values) = .error (p.refusal classes place values) := by
  cases h with
  | missing hrequired hnone =>
    have hset : (formed done values).set? (p.sourceName (formed done values)) = none :=
      (source?_formed hfree).trans hnone
    unfold check refusal
    dsimp only
    rw [hset, hnone]
    exact if_pos hrequired
  | mismatch hv htype hrefused =>
    unfold refusal
    rw [check_eq_of_typed ((source?_formed hfree).trans hv) htype, hrefused, hv, htype]
    rfl

/-- A property that does not refuse its argument passes the check and leaves it in its form. -/
theorem check_formed_of_not_refuses (hvalues : values.IsSound)
    (hfree : takesList values done (.ofString (p.sourceName values)) = false)
    (h : ¬ p.Refuses classes values) :
    p.check classes place (formed done values) = .ok (formed (done ++ [p]) values) := by
  have hsource := source?_formed hfree
  cases hv : p.source? values with
  | none =>
    have hset : (formed done values).set? (p.sourceName (formed done values)) = none :=
      hsource.trans hv
    have hoptional : ¬ p.required = true := fun hrequired => h (.missing hrequired hv)
    have hsame : formed (done ++ [p]) values = formed done values := by
      apply formed_concat_of_same
      intro _ e he hkey
      have hfound := (OrderedMap.lookup_eq_some_iff hvalues.distinct).2 he
      by_cases hnull : e.2.isNull = true
      · rw [hnull, Bool.true_or]
      · rw [hkey] at hfound
        have hset := OrderedMap.set?_eq_some_iff.2 ⟨hfound, Bool.eq_false_iff.2 hnull⟩
        rw [source?, hset] at hv
        cases hv
    unfold check
    dsimp only
    rw [hset, hsame]
    exact if_neg hoptional
  | some v =>
    cases htype : p.type? with
    | none =>
      have hset : (formed done values).set? (p.sourceName (formed done values)) = some v :=
        hsource.trans hv
      have hsame : formed (done ++ [p]) values = formed done values := by
        apply formed_concat_of_same
        intro harray
        rw [isArray, htype] at harray
        cases harray
      unfold check
      dsimp only
      rw [hset, htype, hsame]
    | some type =>
      have haccepts : type.toValueType.accepts classes (type.form v) = true := by
        rw [← Bool.not_eq_false]
        exact fun hrefused => h (.mismatch hv htype hrefused)
      have harray : p.isArray = type.isArray := by rw [isArray, htype, Option.any_some]
      rw [check_eq_of_typed (hsource.trans hv) htype, if_pos haccepts, sourceName_formed]
      by_cases hlist : type.isArray = true
      · rw [if_pos hlist, listed_formed hvalues (harray.trans hlist) hv]
      · rw [if_neg hlist, formed_concat_of_same]
        intro hp
        exact absurd (harray.symm.trans hp) hlist

end PropertySchema

theorem exists_first {α : Type} {P : α → Prop} {all : List α} {a : α} (ha : a ∈ all) (h : P a) :
    ∃ first before after, P first ∧ all = before ++ first :: after ∧ ∀ b ∈ before, ¬ P b := by
  classical
  have hsome : (all.find? fun b => decide (P b)).isSome = true :=
    List.find?_isSome.2 ⟨a, ha, decide_eq_true h⟩
  obtain ⟨first, hfound⟩ := Option.isSome_iff_exists.1 hsome
  obtain ⟨hfirst, before, after, hsplit, hbefore⟩ := List.find?_eq_some_iff_append.1 hfound
  exact ⟨first, before, after, of_decide_eq_true hfirst, hsplit, by simpa using hbefore⟩

namespace AnnotationSchema

open PropertySchema

variable {s : AnnotationSchema} {classes : Hierarchy} {place : Place} {values : OrderedMap Value}

/-- No two properties take the same argument. -/
theorem eq_of_sourceName (hs : s.WellFormed)
    (hvalue : ∀ p ∈ s.properties, p.name = "value" → p.isDefault = true) {p q : PropertySchema}
    (hp : p ∈ s.properties) (hq : q ∈ s.properties)
    (h : p.sourceName values = q.sourceName values) : p = q := by
  obtain hown | ⟨hsource, hdefault, -, -⟩ := sourceName_cases p values
  · obtain hother | ⟨hsource, hdefault, -, -⟩ := sourceName_cases q values
    · exact hs.eq_of_name hp hq (hown.symm.trans (h.trans hother))
    · exact hs.eq_of_default hp hq (hvalue p hp (hown.symm.trans (h.trans hsource))) hdefault
  · obtain hother | ⟨-, hboth, -, -⟩ := sourceName_cases q values
    · exact hs.eq_of_default hp hq hdefault (hvalue q hq (hother.symm.trans (h.symm.trans hsource)))
    · exact hs.eq_of_default hp hq hdefault hboth

theorem not_takesList (hs : s.WellFormed)
    (hvalue : ∀ p ∈ s.properties, p.name = "value" → p.isDefault = true)
    {before after : List PropertySchema} {p : PropertySchema}
    (hsplit : s.properties = before ++ p :: after) :
    takesList values before (.ofString (p.sourceName values)) = false := by
  have hp : p ∈ s.properties := by
    rw [hsplit]
    exact List.mem_append_right before List.mem_cons_self
  rw [Bool.eq_false_iff]
  intro htakes
  obtain ⟨q, hq, hsame⟩ := List.any_eq_true.1 htakes
  rw [Bool.and_eq_true, beq_iff_eq] at hsame
  have hmem : q ∈ s.properties := by
    rw [hsplit]
    exact List.mem_append_left (p :: after) hq
  obtain rfl := eq_of_sourceName hs hvalue hmem hp (Key.ofString_injective hsame.2)
  have hdistinct := hs.distinct
  rw [propertyNames, hsplit, List.map_append, List.nodup_append] at hdistinct
  exact hdistinct.2.2 q.name (List.mem_map_of_mem hq) q.name (by simp) rfl

/-- The check goes on as long as no property refuses its argument. -/
theorem foldlM_check_eq (hs : s.WellFormed)
    (hvalue : ∀ p ∈ s.properties, p.name = "value" → p.isDefault = true)
    (hvalues : values.IsSound) (done : List PropertySchema) {next after : List PropertySchema}
    (hsplit : s.properties = done ++ next ++ after) (h : ∀ p ∈ next, ¬ p.Refuses classes values) :
    next.foldlM (fun values p => p.check classes place values) (formed done values) =
      .ok (formed (done ++ next) values) := by
  induction next generalizing done with
  | nil =>
    rw [List.append_nil]
    rfl
  | cons p rest ih =>
    have hhere : s.properties = done ++ p :: (rest ++ after) := by
      rw [hsplit, List.append_assoc, List.cons_append]
    have hlater : s.properties = done ++ [p] ++ rest ++ after := by
      rw [hsplit, List.append_assoc done [p] rest, List.singleton_append]
    have hcheck : p.check classes place (formed done values) = .ok (formed (done ++ [p]) values) :=
      check_formed_of_not_refuses hvalues (not_takesList hs hvalue hhere) (h p List.mem_cons_self)
    have hrest := ih (done ++ [p]) hlater fun q hq => h q (List.mem_cons_of_mem p hq)
    rw [List.append_assoc, List.singleton_append] at hrest
    rw [List.foldlM_cons, hcheck]
    exact hrest

theorem checkProperties_of_refuses (hs : s.WellFormed)
    (hvalue : ∀ p ∈ s.properties, p.name = "value" → p.isDefault = true)
    (hvalues : values.IsSound) {before after : List PropertySchema} {p : PropertySchema}
    (hsplit : s.properties = before ++ p :: after)
    (hbefore : ∀ q ∈ before, ¬ q.Refuses classes values) (hp : p.Refuses classes values) :
    s.checkProperties classes place values = .error (p.refusal classes place values) := by
  have hcheck : before.foldlM (fun values p => p.check classes place values) (formed [] values) =
      .ok (formed before values) := foldlM_check_eq hs hvalue hvalues [] hsplit hbefore
  rw [formed_nil] at hcheck
  unfold checkProperties
  rw [hsplit, List.foldlM_append, hcheck]
  change (p :: after).foldlM (fun values p => p.check classes place values) _ = _
  rw [List.foldlM_cons, check_formed_of_refuses (not_takesList hs hvalue hsplit) hp]
  rfl

/-- The check of the properties fails if and only if one of them refuses its argument, with the
error of the first that does. Otherwise the arguments stay as they are, in their order, except that
array properties have their single values as lists. -/
theorem checkProperties_decides (hs : s.WellFormed)
    (hvalue : ∀ p ∈ s.properties, p.name = "value" → p.isDefault = true)
    (hvalues : values.IsSound) :
    ((∃ e, s.checkProperties classes place values = .error e) ↔
        ∃ p ∈ s.properties, p.Refuses classes values) ∧
      (∀ before p after, s.properties = before ++ p :: after →
        (∀ q ∈ before, ¬ q.Refuses classes values) → p.Refuses classes values →
        s.checkProperties classes place values = .error (p.refusal classes place values)) ∧
      ((∀ p ∈ s.properties, ¬ p.Refuses classes values) →
        s.checkProperties classes place values = .ok (formed s.properties values)) := by
  have hfirst : ∀ before p after, s.properties = before ++ p :: after →
      (∀ q ∈ before, ¬ q.Refuses classes values) → p.Refuses classes values →
      s.checkProperties classes place values = .error (p.refusal classes place values) :=
    fun _ _ _ => checkProperties_of_refuses hs hvalue hvalues
  have hnone : (∀ p ∈ s.properties, ¬ p.Refuses classes values) →
      s.checkProperties classes place values = .ok (formed s.properties values) := by
    intro h
    have hcheck : s.checkProperties classes place (formed [] values) =
        .ok (formed s.properties values) :=
      foldlM_check_eq hs hvalue hvalues [] (List.append_nil s.properties).symm h
    rwa [formed_nil] at hcheck
  refine ⟨⟨?_, ?_⟩, hfirst, hnone⟩
  · rintro ⟨e, herror⟩
    apply Classical.byContradiction
    intro hall
    rw [hnone fun p hp hrefuses => hall ⟨p, hp, hrefuses⟩] at herror
    cases herror
  · rintro ⟨p, hp, hrefuses⟩
    obtain ⟨q, before, after, hq, hsplit, hbefore⟩ := exists_first hp hrefuses
    exact ⟨_, hfirst before q after hsplit hbefore hq⟩

def labels : AnnotationSchema where
  name := "Labels"
  target := .all
  usesConstructor := false
  properties :=
    [{ name := "tags", type? := some (.array (some "string") "string[]"), isDefault := true },
     { name := "count", type? := some (.named "integer" "int"), required := true }]

theorem checkProperties_decides_labels :
    labels.checkProperties .exact ⟨"Labels", "class Page"⟩
        (Argument.fold [.positional (.string "news"), .named "count" (.string "two")]) =
      .error (.typeMismatch "count" "Labels" "class Page" "a(n) int" "string") := by
  have hs : labels.WellFormed := ⟨by decide, by decide⟩
  have hvalue : ∀ p ∈ labels.properties, p.name = "value" → p.isDefault = true := by decide
  have hvalues := OrderedMap.isSound_fold
    [.positional (.string "news"), .named "count" (.string "two")]
  refine (checkProperties_decides hs hvalue hvalues).2.1 [_] _ [] rfl ?_ (.mismatch rfl rfl rfl)
  intro q hq hrefuses
  obtain rfl := List.mem_singleton.1 hq
  cases hrefuses with
  | missing hrequired => cases hrequired
  | mismatch hv htype hrefused =>
    cases hv
    cases htype
    cases hrefused

end AnnotationSchema

end Docblock
