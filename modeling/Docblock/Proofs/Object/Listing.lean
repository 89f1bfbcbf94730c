import Docblock.Proofs.Object.Deciding
import Docblock.Proofs.Object.SingleArgument

/-!
# Single values and lists of one

For an array property a single value may be given instead of a list of it. The two maps of arguments
stay alike, equal but for that one value, until the property itself is checked, and are equal from
then on.
-/

namespace Docblock

namespace OrderedMap

variable {α : Type} {m : OrderedMap α} {key other : Key}

theorem map_of_absent (f : α → α) {entries : List (Key × α)} (h : key ∉ entries.map Prod.fst) :
    (entries.map fun e => if e.1 = key then (e.1, f e.2) else e) = entries := by
  induction entries with
  | nil => rfl
  | cons e rest ih =>
    rw [List.map_cons, List.mem_cons, not_or] at h
    rw [List.map_cons, if_neg (Ne.symm h.1), ih h.2]

/-- What is assigned to a key takes the place of what was done to it before. -/
theorem insert_modify (h : m.keys.Nodup) (f : α → α) (a : α) :
    (m.modify key f).insert key a = m.insert key a := by
  obtain ⟨entries, next⟩ := m
  unfold keys at h
  unfold insert modify
  dsimp only at h ⊢
  congr 1
  induction entries with
  | nil => rfl
  | cons e rest ih =>
    rw [List.map_cons, List.nodup_cons] at h
    rw [List.map_cons]
    by_cases hsame : e.1 = key
    · rw [if_pos hsame, assign, assign, if_pos hsame, if_pos hsame, map_of_absent]
      rw [← hsame]
      exact h.1
    · rw [if_neg hsame, assign, assign, if_neg hsame, if_neg hsame, ih h.2]

theorem modify_insert (h : m.keys.Nodup) (f : α → α) (a : α) :
    (m.insert key a).modify key f = m.insert key (f a) := by
  obtain ⟨entries, next⟩ := m
  unfold keys at h
  unfold insert modify
  dsimp only at h ⊢
  congr 1
  induction entries with
  | nil => simp [assign]
  | cons e rest ih =>
    rw [List.map_cons, List.nodup_cons] at h
    by_cases hsame : e.1 = key
    · rw [assign, assign, if_pos hsame, if_pos hsame, List.map_cons, if_pos rfl, map_of_absent]
      rw [← hsame]
      exact h.1
    · rw [assign, assign, if_neg hsame, if_neg hsame, List.map_cons, if_neg hsame, ih h.2]

/-- What is done under two keys may be done in any order. -/
theorem insert_modify_of_ne (hne : other ≠ key) (f : α → α) (a : α) :
    (m.modify key f).insert other a = (m.insert other a).modify key f := by
  unfold insert modify
  dsimp only
  congr 1
  induction m.entries with
  | nil => simp [assign, hne]
  | cons e rest ih =>
    rw [List.map_cons]
    by_cases hother : e.1 = other
    · have hkey : e.1 ≠ key := fun h => hne (hother.symm.trans h)
      rw [if_neg hkey, assign, assign, if_pos hother, if_pos hother, List.map_cons, if_neg hne]
    · rw [assign, assign, if_neg hother, List.map_cons]
      by_cases hkey : e.1 = key
      · rw [if_pos hkey, if_neg hother, ih]
      · rw [if_neg hkey, if_neg hother, ih]

theorem modify_comm (hne : other ≠ key) (f g : α → α) :
    (m.modify key f).modify other g = (m.modify other g).modify key f := by
  unfold modify
  dsimp only
  rw [List.map_map, List.map_map]
  congr 1
  apply List.map_congr_left
  intro e _
  by_cases hkey : e.1 = key
  · have hother : e.1 ≠ other := fun h => hne (h.symm.trans hkey)
    simp [hkey, Ne.symm hne]
  · by_cases hother : e.1 = other
    · simp [hother, hne]
    · simp [hkey, hother]

theorem modify_modify (f g : α → α) :
    (m.modify key f).modify key g = m.modify key (g ∘ f) := by
  unfold modify
  dsimp only
  rw [List.map_map]
  congr 1
  apply List.map_congr_left
  intro e _
  by_cases hkey : e.1 = key <;> simp [hkey]

theorem modify_congr (h : m.keys.Nodup) {a : α} (ha : m.get? key = some a) {f g : α → α}
    (hsame : f a = g a) : m.modify key f = m.modify key g := by
  unfold modify
  congr 1
  apply List.map_congr_left
  intro e he
  by_cases hkey : e.1 = key
  · have hvalue : m.get? key = some e.2 := by
      apply (lookup_eq_some_iff h).2
      rw [← hkey]
      exact he
    obtain rfl : a = e.2 := Option.some.inj (ha.symm.trans hvalue)
    rw [if_pos hkey, if_pos hkey, hsame]
  · rw [if_neg hkey, if_neg hkey]

/-- In a sound map a present key is assigned in place. -/
theorem IsSound.insert_eq_modify (h : m.IsSound) {a : α} (ha : m.get? key = some a) (b : α) :
    m.insert key b = m.modify key fun _ => b := by
  have hpresent := mem_keys_of_get? ha
  unfold OrderedMap.insert OrderedMap.modify
  rw [h.indexAfter_eq hpresent, assign_of_present h.distinct hpresent]
  congr 1
  apply List.map_congr_left
  intro e _
  by_cases hkey : e.1 = key
  · rw [if_pos hkey, if_pos hkey]
  · rw [if_neg hkey, if_neg hkey]

end OrderedMap

structure Value.IsSingle (v : Value) : Prop where
  set : v.isNull = false
  single : v.isArray = false

def Value.listOf (v : Value) : Value := .array (.ofValues [v])

/-- The second map is the first, or has a list of `v` where the first has `v`. -/
inductive Alike (name : String) (v : Value) : OrderedMap Value → OrderedMap Value → Prop where
  | same (m : OrderedMap Value) : Alike name v m m
  | listed {m : OrderedMap Value} : m.IsSound → m.named? name = some v →
      Alike name v m (m.modify (.ofString name) fun _ => v.listOf)

namespace Alike

open OrderedMap

variable {name other : String} {v : Value} {m n : OrderedMap Value}

theorem named?_modify_of_ne (hne : other ≠ name) (f : Value → Value) :
    (m.modify (.ofString name) f).named? other = m.named? other := by
  unfold named?
  rw [get?_modify, if_neg fun hkey => hne (Key.ofString_injective hkey)]

theorem set?_eq (h : Alike name v m n) (hne : other ≠ name) : n.set? other = m.set? other := by
  cases h with
  | same => rfl
  | listed =>
    unfold set?
    rw [named?_modify_of_ne hne]

theorem set?_of_named (hv : v.IsSingle) (hnamed : m.named? name = some v) :
    m.set? name = some v := set?_eq_some_iff.2 ⟨hnamed, hv.set⟩

theorem set?_listed (hnamed : m.named? name = some v) :
    (m.modify (.ofString name) fun _ => v.listOf).set? name = some v.listOf := by
  have hlist : (m.modify (.ofString name) fun _ => v.listOf).named? name = some v.listOf := by
    unfold named? at hnamed ⊢
    rw [get?_modify, if_pos rfl, hnamed]
    rfl
  exact set?_eq_some_iff.2 ⟨hlist, rfl⟩

theorem isSome_set? (h : Alike name v m n) (hv : v.IsSingle) (other : String) :
    (n.set? other).isSome = (m.set? other).isSome := by
  by_cases hother : other = name
  · cases h with
    | same => rfl
    | listed _ hnamed => rw [hother, set?_listed hnamed, set?_of_named hv hnamed]; rfl
  · rw [h.set?_eq hother]

theorem asList_listOf (hv : v.IsSingle) : Argument.asList v.listOf = Argument.asList v := by
  have hsingle := hv.single
  cases v with
  | array items => cases hsingle
  | null | bool _ | int _ | float _ | string _ | object _ _ => rfl

theorem insert_of_ne (h : Alike name v m n) (hne : other ≠ name) (w : Value) :
    Alike name v (m.insert (.ofString other) w) (n.insert (.ofString other) w) := by
  cases h with
  | same => exact .same _
  | listed hm hnamed =>
    rw [insert_modify_of_ne fun hkey => hne (Key.ofString_injective hkey)]
    refine .listed (hm.insert _ w) ?_
    rw [named?_insert, if_neg hne, hnamed]

theorem add (h : Alike name v m n) (hv : v.IsSingle) (a : Argument) :
    Alike name v (Argument.add m a) (Argument.add n a) := by
  have hkeeps {other : String} (hne : other ≠ name) (w : Value) := h.insert_of_ne hne w
  cases h with
  | same => exact .same _
  | listed hm hnamed =>
    cases a with
    | named other w =>
      by_cases hother : other = name
      · subst hother
        unfold Argument.add
        dsimp only
        rw [insert_modify hm.distinct]
        exact .same _
      · exact hkeeps hother w
    | positional w =>
      unfold Argument.add
      dsimp only
      by_cases hname : "value" = name
      · subst hname
        rw [set?_of_named hv hnamed, set?_listed hnamed]
        dsimp only
        unfold Argument.valueKey
        rw [modify_modify]
        have hpushed : (m.modify (.ofString "value") fun first =>
            .array ((Argument.asList first).push w)) = m.modify (.ofString "value")
              ((fun first => .array ((Argument.asList first).push w)) ∘ fun _ => v.listOf) := by
          refine modify_congr hm.distinct hnamed ?_
          rw [Function.comp_apply, asList_listOf hv]
        rw [hpushed]
        exact .same _
      · have hsame : (m.modify (.ofString name) fun _ => v.listOf).set? "value" =
            m.set? "value" := set?_eq (.listed hm hnamed) hname
        rw [hsame]
        cases m.set? "value" with
        | none => exact hkeeps hname w
        | some first =>
          dsimp only
          unfold Argument.valueKey
          rw [modify_comm fun hkey => hname (Key.ofString_injective hkey)]
          refine .listed (hm.modify _ _) ?_
          rw [named?_modify_of_ne (Ne.symm hname), hnamed]

theorem foldl_add (h : Alike name v m n) (hv : v.IsSingle) (given : List Argument) :
    Alike name v (given.foldl Argument.add m) (given.foldl Argument.add n) := by
  induction given generalizing m n with
  | nil => exact h
  | cons a rest ih => exact ih (h.add hv a)

/-- Arguments of which one is a single value are folded like those with a list of it. -/
theorem fold (hv : v.IsSingle) (before after : List Argument) :
    Alike name v (Argument.fold (before ++ .named name v :: after))
      (Argument.fold (before ++ .named name v.listOf :: after)) := by
  have hstart : Alike name v (Argument.add (Argument.fold before) (.named name v))
      (Argument.add (Argument.fold before) (.named name v.listOf)) := by
    have hsound := isSound_fold before
    have hlisted : Argument.add (Argument.fold before) (.named name v.listOf) =
        (Argument.add (Argument.fold before) (.named name v)).modify (.ofString name)
          fun _ => v.listOf := (modify_insert hsound.distinct (fun _ => v.listOf) v).symm
    rw [hlisted]
    refine .listed (hsound.add _) ?_
    exact (named?_insert (Argument.fold before) name name v).trans (if_pos rfl)
  unfold Argument.fold at hstart ⊢
  rw [List.foldl_append, List.foldl_append, List.foldl_cons, List.foldl_cons]
  exact hstart.foldl_add hv after

end Alike

namespace PropertySchema

variable {classes : Hierarchy} {place : Place} {v : Value} {m n : OrderedMap Value}
  {s : AnnotationSchema} {p q : PropertySchema}

def AllowsBoth (p : PropertySchema) (v : Value) : Prop :=
  ∀ e ∈ p.enumeration?, e.allows v = true ∧ e.allows v.listOf = true

theorem checkEnumeration_of_alike (h : Alike p.name v m n) (hv : v.IsSingle)
    (hallows : p.AllowsBoth v) (hq : q.name = p.name → q = p) :
    q.checkEnumeration place n = q.checkEnumeration place m := by
  by_cases hname : q.name = p.name
  · obtain rfl := hq hname
    cases h with
    | same => rfl
    | listed _ hnamed =>
      unfold checkEnumeration
      rw [Alike.set?_of_named hv hnamed, Alike.set?_listed hnamed]
      cases henum : q.enumeration? with
      | none => rfl
      | some e =>
        obtain ⟨hsingle, hlist⟩ := hallows e henum
        dsimp only
        rw [if_pos hsingle, if_pos hlist]
  · unfold checkEnumeration
    rw [h.set?_eq hname]

theorem sourceName_of_alike (h : Alike p.name v m n) (hv : v.IsSingle) (q : PropertySchema) :
    q.sourceName n = q.sourceName m := by
  have hsome := h.isSome_set? hv
  unfold sourceName
  rw [← Option.not_isSome, ← Option.not_isSome, hsome q.name, hsome "value"]

/-- Another property with a type does not look at the argument of a sole property. -/
theorem sourceName_ne (hs : s.WellFormed) (hp : p ∈ s.properties) (hsole : s.IsSole p)
    (hq : q ∈ s.properties) (hne : q ≠ p) (m : OrderedMap Value) :
    q.sourceName m ≠ p.name ∨ q.type? = none := by
  obtain hown | ⟨hdefault, hqdefault, hunset, hset⟩ := sourceName_cases q m
  · left
    rw [hown]
    exact fun hname => hne (hs.eq_of_name hq hp hname)
  · by_cases hvalue : p.name = "value"
    · right
      refine hsole hvalue q hq hqdefault fun hname => ?_
      rw [hname] at hunset
      rw [hunset] at hset
      cases hset
    · left
      rw [hdefault]
      exact Ne.symm hvalue

/-- The check of a property goes by the argument it looks at and by its type. -/
theorem check_eq (classes : Hierarchy) (place : Place) (m : OrderedMap Value)
    (p : PropertySchema) : p.check classes place m =
      match p.source? m, p.type? with
      | none, _ =>
        if p.required then .error (.requiredMissing p.name place.name place.context p.expected)
        else .ok m
      | some _, none => .ok m
      | some v, some type =>
        if type.toValueType.accepts classes (type.form v) then
          .ok (if type.isArray then listed m (p.sourceName m) v else m)
        else .error (p.mismatch place type.expectation (type.culprit classes (type.form v))) := by
  cases hsource : p.source? m with
  | none =>
    have hset : m.set? (p.sourceName m) = none := hsource
    unfold check
    dsimp only
    rw [hset]
  | some v =>
    cases htype : p.type? with
    | none =>
      have hset : m.set? (p.sourceName m) = some v := hsource
      unfold check
      dsimp only
      rw [hset, htype]
    | some type => exact check_eq_of_typed hsource htype

inductive AlikeOutcomes (name : String) (v : Value) :
    Except AnnotationError (OrderedMap Value) → Except AnnotationError (OrderedMap Value) →
      Prop where
  | error (e : AnnotationError) : AlikeOutcomes name v (.error e) (.error e)
  | ok {m n : OrderedMap Value} : Alike name v m n → AlikeOutcomes name v (.ok m) (.ok n)

section Bind

variable {α : Type} {name : String} {r r' : Except AnnotationError (OrderedMap Value)}

theorem AlikeOutcomes.bind (h : AlikeOutcomes name v r r')
    {f : OrderedMap Value → Except AnnotationError (OrderedMap Value)}
    (hf : ∀ m n, Alike name v m n → AlikeOutcomes name v (f m) (f n)) :
    AlikeOutcomes name v (r >>= f) (r' >>= f) := by
  cases h with
  | error e => exact .error e
  | ok halike => exact hf _ _ halike

theorem AlikeOutcomes.bind_eq (h : AlikeOutcomes name v r r')
    {f : OrderedMap Value → Except AnnotationError α}
    (hf : ∀ m n, Alike name v m n → f n = f m) : (r' >>= f) = (r >>= f) := by
  cases h with
  | error e => rfl
  | ok halike => exact hf _ _ halike

end Bind

theorem alike_listed {name : String} (h : Alike p.name v m n) (hne : name ≠ p.name) (w : Value) :
    Alike p.name v (listed m name w) (listed n name w) := by
  unfold listed
  split
  · exact h
  · exact h.insert_of_ne hne _

/-- A property that looks at another argument, or at none of its type, fails for both maps or leaves
them alike. -/
theorem check_of_alike (h : Alike p.name v m n) (hv : v.IsSingle)
    (hother : q.sourceName m ≠ p.name ∨ q.type? = none) :
    AlikeOutcomes p.name v (q.check classes place m) (q.check classes place n) := by
  have hname := sourceName_of_alike h hv q
  have hset : (q.source? n).isSome = (q.source? m).isSome := by
    unfold source?
    rw [hname]
    exact h.isSome_set? hv _
  rw [check_eq, check_eq, hname]
  cases hm : q.source? m with
  | none =>
    rw [hm, Option.isSome_none, Option.isSome_eq_false_iff, Option.isNone_iff_eq_none] at hset
    rw [hset]
    dsimp only
    split
    · exact .error _
    · exact .ok h
  | some w =>
    rw [hm, Option.isSome_some] at hset
    obtain ⟨u, hn⟩ := Option.isSome_iff_exists.1 hset
    rw [hn]
    cases htype : q.type? with
    | none => exact .ok h
    | some type =>
      have hne : q.sourceName m ≠ p.name := by
        refine hother.resolve_right fun hnone => ?_
        rw [htype] at hnone
        cases hnone
      have hsource : q.source? n = q.source? m := by
        unfold source?
        rw [hname, h.set?_eq hne]
      obtain rfl : u = w := Option.some.inj (hn.symm.trans (hsource.trans hm))
      dsimp only
      split
      · refine .ok ?_
        split
        · exact alike_listed h hne u
        · exact h
      · exact .error _

/-- The property itself makes them equal. -/
theorem check_self_of_alike (h : Alike p.name v m n) (hv : v.IsSingle)
    (harray : p.isArray = true) : p.check classes place n = p.check classes place m := by
  have hname := sourceName_of_alike h hv p
  cases h with
  | same => rfl
  | listed hm hnamed =>
    have hset := Alike.set?_of_named hv hnamed
    have hown : p.sourceName m = p.name := by
      obtain hown | ⟨-, -, hunset, -⟩ := sourceName_cases p m
      · exact hown
      · rw [hset] at hunset
        cases hunset
    have hsource : p.source? m = some v := by
      unfold source?
      rw [hown, hset]
    have hlist : p.source? (m.modify (.ofString p.name) fun _ => v.listOf) = some v.listOf := by
      unfold source?
      rw [hname, hown, Alike.set?_listed hnamed]
    cases htype : p.type? with
    | none => simp [isArray, htype] at harray
    | some type =>
      have hisArray : type.isArray = true := by simpa [isArray, htype] using harray
      have hform : type.form v = v.listOf := by
        unfold PropertyType.form
        rw [hisArray, hv.single]
        rfl
      have hkept : type.form v.listOf = v.listOf := by
        unfold PropertyType.form
        rw [hisArray]
        rfl
      have hmade : listed m (p.sourceName m) v = m.modify (.ofString p.name) fun _ => v.listOf := by
        unfold listed
        rw [hv.single, hown, if_neg Bool.false_ne_true]
        exact hm.insert_eq_modify hnamed _
      rw [check_eq_of_typed hsource htype, check_eq_of_typed hlist htype, hform, hkept, hmade,
        hisArray]
      rfl

end PropertySchema

namespace AnnotationSchema

open PropertySchema

variable {s : AnnotationSchema} {p : PropertySchema} {v : Value} {m n : OrderedMap Value}

theorem foldlM_check_of_alike (hs : s.WellFormed) (hp : p ∈ s.properties)
    (hsole : s.IsSole p) (hv : v.IsSingle) (classes : Hierarchy)
    (place : Place) {properties : List PropertySchema}
    (hall : ∀ q ∈ properties, q ∈ s.properties ∧ q ≠ p) (h : Alike p.name v m n) :
    AlikeOutcomes p.name v
      (properties.foldlM (fun values q => q.check classes place values) m)
      (properties.foldlM (fun values q => q.check classes place values) n) := by
  induction properties generalizing m n with
  | nil => exact .ok h
  | cons q rest ih =>
    obtain ⟨hq, hne⟩ := hall q List.mem_cons_self
    have hcheck : AlikeOutcomes p.name v (q.check classes place m) (q.check classes place n) :=
      check_of_alike h hv (sourceName_ne hs hp hsole hq hne m)
    rw [List.foldlM_cons, List.foldlM_cons]
    exact hcheck.bind fun _ _ => ih fun r hr => hall r (List.mem_cons_of_mem q hr)

/-- Checked as a whole, maps that are alike have one outcome. -/
theorem checkProperties_of_alike (hs : s.WellFormed) (hp : p ∈ s.properties)
    (harray : p.isArray = true) (hsole : s.IsSole p)
    (hv : v.IsSingle) (h : Alike p.name v m n) (classes : Hierarchy) (place : Place) :
    s.checkProperties classes place n = s.checkProperties classes place m := by
  obtain ⟨before, after, hsplit⟩ := List.append_of_mem hp
  have hbefore : ∀ q ∈ before, q ∈ s.properties ∧ q ≠ p := by
    intro q hq
    rw [hsplit]
    refine ⟨List.mem_append_left _ hq, ?_⟩
    rintro rfl
    have hdistinct := hs.distinct
    rw [propertyNames, hsplit, List.map_append, List.nodup_append] at hdistinct
    exact hdistinct.2.2 q.name (List.mem_map_of_mem hq) q.name (by simp) rfl
  have hrun := foldlM_check_of_alike hs hp hsole hv classes place hbefore h
  unfold checkProperties
  rw [hsplit, List.foldlM_append, List.foldlM_append]
  refine hrun.bind_eq fun m n hnext => ?_
  rw [List.foldlM_cons, List.foldlM_cons, check_self_of_alike hnext hv harray]

theorem checkEnumerations_of_alike (hs : s.WellFormed) (hp : p ∈ s.properties) (hv : v.IsSingle)
    (hallows : p.AllowsBoth v) (h : Alike p.name v m n) (place : Place) :
    s.checkEnumerations place n = s.checkEnumerations place m := by
  have hone (q : PropertySchema) (hq : q ∈ s.properties) :
      q.checkEnumeration place n = q.checkEnumeration place m :=
    checkEnumeration_of_alike h hv hallows (hs.eq_of_name hq hp)
  unfold checkEnumerations
  generalize s.properties = properties at hone
  induction properties with
  | nil => rfl
  | cons q rest ih =>
    have hrest := ih fun r hr => hone r (List.mem_cons_of_mem q hr)
    change (q.checkEnumeration place n >>= fun _ => rest.forM _) =
      (q.checkEnumeration place m >>= fun _ => rest.forM _)
    rw [hone q List.mem_cons_self, hrest]

/-- For an array property a list of one value makes the same object as the value alone, or fails
with the same error, whatever the other arguments are. -/
theorem objectOf_listed (hs : s.WellFormed) (hp : p ∈ s.properties) (harray : p.isArray = true)
    (hsole : s.IsSole p) (hv : v.IsSingle) (hallows : p.AllowsBoth v)
    (registry : Registry) (place : Place) (before after : List Argument) :
    s.objectOf registry place (Argument.fold (before ++ .named p.name v.listOf :: after)) =
      s.objectOf registry place (Argument.fold (before ++ .named p.name v :: after)) := by
  have halike : Alike p.name v (Argument.fold (before ++ .named p.name v :: after))
      (Argument.fold (before ++ .named p.name v.listOf :: after)) := .fold hv before after
  unfold objectOf
  rw [checkEnumerations_of_alike hs hp hv hallows halike,
    checkProperties_of_alike hs hp harray hsole hv halike]

end AnnotationSchema

end Docblock
