import Docblock.Proofs.Object.Conformance
import Docblock.Proofs.Object.Instances
import Docblock.Proofs.Object.Listing
import Mathlib.Data.List.Nodup

/-!
# The order of arguments

If every argument has a property of its own, their order does not matter: the checks look arguments
up by name, and the objects that are made hold the same values.
-/

namespace Docblock

namespace OrderedMap

structure Reordered {α : Type} (m n : OrderedMap α) : Prop where
  perm : m.entries.Perm n.entries
  distinct : m.keys.Nodup

namespace Reordered

variable {α : Type} {m n : OrderedMap α} {key : Key} {a : α}

theorem symm (h : Reordered m n) : Reordered n m :=
  ⟨h.perm.symm, (h.perm.map Prod.fst).nodup_iff.1 h.distinct⟩

theorem get?_eq (h : Reordered m n) (key : Key) : m.get? key = n.get? key := by
  apply Option.ext
  intro a
  unfold get?
  rw [lookup_eq_some_iff h.distinct, lookup_eq_some_iff h.symm.distinct, h.perm.mem_iff]

theorem insert (h : Reordered m n) (hkey : key ∈ m.keys) (a : α) :
    Reordered (m.insert key a) (n.insert key a) := by
  constructor
  · rw [entries_insert, entries_insert, assign_of_present h.distinct hkey,
      assign_of_present h.symm.distinct ((h.perm.map Prod.fst).mem_iff.1 hkey)]
    exact h.perm.map _
  · rw [keys_insert, if_pos hkey]
    exact h.distinct

theorem set?_eq {m n : OrderedMap Value} (h : Reordered m n) (name : String) :
    m.set? name = n.set? name := by
  unfold set? named?
  rw [h.get?_eq]

end Reordered

theorem IsNormal.reordered {m n : OrderedMap Value} (hm : m.IsNormal) (hn : n.IsNormal)
    (h : ∀ name, m.named? name = n.named? name) : Reordered m n := by
  have hmem {m n : OrderedMap Value} (hm : m.IsNormal) (hn : n.IsNormal)
      (h : ∀ name, m.named? name = n.named? name) (e : Key × Value) (he : e ∈ m.entries) :
      e ∈ n.entries := by
    obtain ⟨key, v⟩ := e
    have hkey := hm.normal key (List.mem_map_of_mem he)
    have hfound : m.named? key.toString = some v := by
      unfold named? get?
      rw [hkey]
      exact (lookup_eq_some_iff hm.distinct).2 he
    rw [h] at hfound
    unfold named? get? at hfound
    rw [hkey] at hfound
    exact (lookup_eq_some_iff hn.distinct).1 hfound
  refine ⟨?_, hm.distinct⟩
  rw [List.perm_ext_iff_of_nodup (List.Nodup.of_map _ hm.distinct)
    (List.Nodup.of_map _ hn.distinct)]
  exact fun e => ⟨hmem hm hn h e, hmem hn hm (fun name => (h name).symm) e⟩

end OrderedMap

open OrderedMap

namespace PropertySchema

variable {m n others : OrderedMap Value} {classes : Hierarchy} {place : Place} {p : PropertySchema}

theorem sourceName_of_reordered (h : Reordered m n) (p : PropertySchema) :
    p.sourceName n = p.sourceName m := by
  unfold sourceName
  rw [h.set?_eq, h.set?_eq]

theorem listed_of_reordered {name : String} {v : Value} (h : Reordered m n)
    (hv : m.set? name = some v) : (listed m name v).keys = m.keys ∧
      Reordered (listed m name v) (listed n name v) := by
  have hpresent := mem_keys_of_set? hv
  unfold listed
  split
  · exact ⟨rfl, h⟩
  · refine ⟨?_, h.insert hpresent _⟩
    rw [keys_insert, if_pos hpresent]

/-- A property that accepts its argument does so in any order, and changes no key. -/
theorem check_of_reordered (h : Reordered m n) (hm : p.check classes place m = .ok others) :
    others.keys = m.keys ∧
      ∃ others', p.check classes place n = .ok others' ∧ Reordered others others' := by
  have hname := sourceName_of_reordered h p
  have hsource : p.source? n = p.source? m := by
    unfold source?
    rw [hname, h.set?_eq]
  rw [check_eq] at hm ⊢
  rw [hsource, hname]
  cases hset : p.source? m with
  | none =>
    rw [hset] at hm
    dsimp only at hm ⊢
    split at hm
    · cases hm
    · next hoptional =>
      obtain rfl := Except.ok.inj hm
      exact ⟨rfl, n, if_neg hoptional, h⟩
  | some v =>
    rw [hset] at hm
    cases htype : p.type? with
    | none =>
      rw [htype] at hm
      obtain rfl := Except.ok.inj hm
      exact ⟨rfl, n, rfl, h⟩
    | some type =>
      rw [htype] at hm
      dsimp only at hm ⊢
      split at hm
      · next haccepts =>
        obtain rfl := Except.ok.inj hm
        rw [if_pos haccepts]
        cases type.isArray with
        | true =>
          have hlisted := listed_of_reordered h hset
          exact ⟨hlisted.1, _, rfl, hlisted.2⟩
        | false => exact ⟨rfl, n, rfl, h⟩
      · cases hm

end PropertySchema

namespace AnnotationSchema

variable {s : AnnotationSchema} {registry : Registry} {classes : Hierarchy} {place : Place}
  {m n others : OrderedMap Value} {a b : Annotation}

theorem foldlM_check_of_reordered {properties : List PropertySchema} (h : Reordered m n)
    (hm : properties.foldlM (fun values p => p.check classes place values) m = .ok others) :
    others.keys = m.keys ∧ ∃ others',
      properties.foldlM (fun values p => p.check classes place values) n = .ok others' ∧
        Reordered others others' := by
  induction properties generalizing m n with
  | nil =>
    obtain rfl := Except.ok.inj hm
    exact ⟨rfl, n, rfl, h⟩
  | cons p rest ih =>
    rw [List.foldlM_cons] at hm ⊢
    obtain ⟨next, hnext, hrest⟩ := Except.exists_of_bind_eq_ok hm
    obtain ⟨hkeys, next', hnext', hreordered⟩ := PropertySchema.check_of_reordered h hnext
    obtain ⟨hmore, others', hothers', hlast⟩ := ih hreordered hrest
    rw [hnext']
    exact ⟨hmore.trans hkeys, others', hothers', hlast⟩

theorem checkEnumerations_of_reordered (h : Reordered m n) :
    s.checkEnumerations place n = s.checkEnumerations place m := by
  unfold checkEnumerations PropertySchema.checkEnumeration
  simp only [h.set?_eq]

/-- No two keys are stored in one property. -/
def Separates (s : AnnotationSchema) (m : OrderedMap Value) : Prop :=
  ∀ key ∈ m.keys, ∀ other ∈ m.keys, ∀ name, s.receiver? key = some name →
    s.receiver? other = some name → key = other

theorem lastOf?_of_reordered (h : Reordered m n) (hs : s.Separates m) (name : String) :
    s.lastOf? m.entries name = s.lastOf? n.entries name := by
  cases hm : s.lastOf? m.entries name with
  | none =>
    rw [lastOf?_eq_none_iff] at hm
    exact (lastOf?_eq_none_iff.2 fun e he => hm e (h.perm.mem_iff.2 he)).symm
  | some e =>
    obtain ⟨he, hreceiver⟩ := mem_of_lastOf? hm
    cases hn : s.lastOf? n.entries name with
    | none => exact absurd hreceiver (lastOf?_eq_none_iff.1 hn e (h.perm.mem_iff.1 he))
    | some f =>
      obtain ⟨hf, hother⟩ := mem_of_lastOf? hn
      have hf := h.perm.mem_iff.2 hf
      have hkey : e.1 = f.1 :=
        hs e.1 (List.mem_map_of_mem he) f.1 (List.mem_map_of_mem hf) name hreceiver hother
      exact congrArg some (List.inj_on_of_nodup_map h.distinct he hf hkey)

theorem instantiate_of_reordered (hstyle : s.usesConstructor = false) (h : Reordered m n)
    (hs : s.Separates m) (ha : s.instantiate registry place m = .ok a) :
    ∃ b, s.instantiate registry place n = .ok b ∧ a.className = b.className ∧
      Reordered a.properties b.properties := by
  rw [instantiate_eq hstyle] at ha ⊢
  have hall : ∀ e ∈ n.entries, s.Receives e.1 := fun e he =>
    (exists_assignAll_iff _).1 ⟨a, ha⟩ e (h.perm.mem_iff.2 he)
  obtain ⟨b, hb⟩ : ∃ b, s.assignAll place n (s.blank registry) n.entries = .ok b :=
    (exists_assignAll_iff _).2 hall
  refine ⟨b, hb, (className_assignAll ha).trans (className_assignAll hb).symm, ?_⟩
  have hassigned := assigned_of_assignAll ha
  have hother := assigned_of_assignAll hb
  apply hassigned.isNormal.reordered hother.isNormal
  intro name
  have hsame : a.get? name = b.get? name := by
    rw [hassigned.holds, hother.holds, lastOf?_of_reordered h hs]
  exact hsame

theorem exists_objectOf_of_reordered (hstyle : s.usesConstructor = false) (h : Reordered m n)
    (hs : s.Separates m) (ha : s.objectOf registry place m = .ok a) :
    ∃ b, s.objectOf registry place n = .ok b ∧ a.className = b.className ∧
      Reordered a.properties b.properties := by
  unfold objectOf at ha ⊢
  rw [checkEnumerations_of_reordered h]
  obtain ⟨_, hlisted, ha⟩ := Except.exists_of_bind_eq_ok ha
  obtain ⟨others, hothers, ha⟩ := Except.exists_of_bind_eq_ok ha
  obtain ⟨hkeys, others', hothers', hreordered⟩ := foldlM_check_of_reordered h hothers
  have hseparates : s.Separates others := by
    unfold Separates
    rw [hkeys]
    exact hs
  have hchecked : s.checkProperties registry.isSubclass place n = .ok others' := hothers'
  rw [hlisted, hchecked]
  exact instantiate_of_reordered hstyle hreordered hseparates ha

/-- If every argument has a property of its own, an object is made of the arguments in any order or
in none, and it is the same up to the order of its properties. -/
theorem objectOf_reordered (hstyle : s.usesConstructor = false) (hdistinct : m.keys.Nodup)
    (hperm : m.entries.Perm n.entries) (hs : s.Separates m) :
    ((∃ a, s.objectOf registry place m = .ok a) ↔ ∃ b, s.objectOf registry place n = .ok b) ∧
      ∀ a b, s.objectOf registry place m = .ok a → s.objectOf registry place n = .ok b →
        a.className = b.className ∧ a.properties.entries.Perm b.properties.entries := by
  have h : Reordered m n := ⟨hperm, hdistinct⟩
  have hback : s.Separates n := by
    intro key hkey other hother
    have hmem (key : Key) : key ∈ n.keys ↔ key ∈ m.keys := (hperm.map Prod.fst).symm.mem_iff
    exact hs key ((hmem key).1 hkey) other ((hmem other).1 hother)
  refine ⟨⟨?_, ?_⟩, ?_⟩
  · rintro ⟨a, ha⟩
    obtain ⟨b, hb, -⟩ := exists_objectOf_of_reordered hstyle h hs ha
    exact ⟨b, hb⟩
  · rintro ⟨b, hb⟩
    obtain ⟨a, ha, -⟩ := exists_objectOf_of_reordered hstyle h.symm hback hb
    exact ⟨a, ha⟩
  · intro a b ha hb
    obtain ⟨b', hb', hclass, hsame⟩ := exists_objectOf_of_reordered hstyle h hs ha
    obtain rfl := Except.ok.inj (hb'.symm.trans hb)
    exact ⟨hclass, hsame.perm⟩

theorem objectOf_reordered_page :
    ∃ b, page.objectOf pages ⟨"Page", "class Start"⟩
        (Argument.fold [.positional (.string "/"), .named "title" (.string "Start")]) = .ok b ∧
      b.properties.entries.Perm
        [(.text "path", .string "/"), (.text "layout", .string "wide"),
          (.text "title", .string "Start")] := by
  have hown : ∀ key ∈ [Key.text "title", .text "value"],
      ∀ other ∈ [Key.text "title", .text "value"],
        page.receiver? key = page.receiver? other → key = other := by decide
  have hboth := @objectOf_reordered page pages ⟨"Page", "class Start"⟩
    (Argument.fold [.named "title" (.string "Start"), .positional (.string "/")])
    (Argument.fold [.positional (.string "/"), .named "title" (.string "Start")]) rfl (by decide)
    (.swap _ _ []) fun key hkey other hother _ hname hsame =>
      hown key hkey other hother (hname.trans hsame.symm)
  obtain ⟨b, hb⟩ := hboth.1.1 ⟨_, rfl⟩
  exact ⟨b, hb, (hboth.2 _ b rfl hb).2.symm⟩

end AnnotationSchema

end Docblock
