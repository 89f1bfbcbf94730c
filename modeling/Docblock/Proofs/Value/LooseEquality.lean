import Docblock.Proofs.Decimal.NotNaN
import Docblock.Proofs.OrderedMap.Equality
import Docblock.Schema.Property

/-!
# Loose equality is symmetric

The entries of one map are looked up in the other, so that loose equality of maps is not symmetric
by its form. Maps that operations lead to have distinct keys. If as many entries are found under
their keys, every entry of the other map is one of those found. Equality is contained in loose
equality because a text is never read as NaN, and an enumeration allows each of its values that is
equal to itself.
-/

namespace Docblock

namespace Value

/-- Every map in the value was made by operations. Objects are compared strictly, so that nothing
is asked of the maps in them. -/
inductive IsAssembled : Value → Prop where
  | single {v : Value} (h : v.isArray = false) : IsAssembled v
  | array (ops : List (OrderedMap.Operation Value))
      (h : ∀ e ∈ (OrderedMap.empty.after ops).entries, IsAssembled e.2) :
      IsAssembled (.array (.after .empty ops))

theorem float_beq_comm (x y : Float) : (x == y) = (y == x) := by
  rw [Bool.eq_iff_iff]
  exact ⟨PartialEquivBEq.symm, PartialEquivBEq.symm⟩

mutual

theorem beq_comm (v w : Value) : v.beq w = w.beq v := by
  cases v with
  | null => cases w <;> rfl
  | bool b =>
    cases w with
    | bool c => exact BEq.comm
    | _ => rfl
  | int n =>
    cases w with
    | int m => exact BEq.comm
    | _ => rfl
  | float x =>
    cases w with
    | float y => exact float_beq_comm x y
    | _ => rfl
  | string s =>
    cases w with
    | string t => exact BEq.comm
    | _ => rfl
  | array m =>
    obtain ⟨es, next⟩ := m
    cases w with
    | array n =>
      unfold beq
      exact beqEntries_comm es n.entries
    | _ => rfl
  | object c m =>
    obtain ⟨es, next⟩ := m
    cases w with
    | object d n =>
      unfold beq
      rw [beqEntries_comm es n.entries, BEq.comm]
    | _ => rfl

theorem beqEntries_comm (es fs : List (Key × Value)) : beqEntries es fs = beqEntries fs es := by
  cases es with
  | nil => cases fs <;> rfl
  | cons e es =>
    cases fs with
    | nil => rfl
    | cons f fs =>
      unfold beqEntries
      rw [beq_comm e.2 f.2, beqEntries_comm es fs, BEq.comm]

end

theorem textEqualsText_comm (s t : String) : textEqualsText s t = textEqualsText t s := by
  unfold textEqualsText
  cases numeric? s <;> cases numeric? t
  · exact BEq.comm
  · exact BEq.comm
  · exact BEq.comm
  · exact float_beq_comm _ _

theorem textEqualsText_self (s : String) : textEqualsText s s = true := by
  unfold textEqualsText
  cases hread : numeric? s with
  | none => exact beq_self_eq_true s
  | some x =>
    unfold numeric? at hread
    dsimp only at hread
    split at hread
    · cases hread
    · exact Decimal.beq_self_of_readFloat? hread

theorem looselyEquals_array (m n : OrderedMap Value) : (array m).looselyEquals (array n) =
    (m.entries.length == n.entries.length && looselyContained m.entries n.entries) := by
  rw [looselyEquals]

theorem looselyContained_iff {es fs : List (Key × Value)} : looselyContained es fs = true ↔
    ∀ e ∈ es, ∃ w, OrderedMap.lookup e.1 fs = some w ∧ e.2.looselyEquals w = true := by
  induction es with
  | nil => simp [looselyContained]
  | cons e es ih =>
    rw [looselyContained, Bool.and_eq_true, ih, List.forall_mem_cons]
    refine and_congr_left fun _ => ?_
    cases OrderedMap.lookup e.1 fs <;> simp

/-- A value that is no map compares alike from both sides. -/
theorem looselyEquals_comm_of_not_isArray {v : Value} (h : v.isArray = false) (w : Value) :
    v.looselyEquals w = w.looselyEquals v := by
  cases v with
  | null => cases w <;> simp [looselyEquals]
  | bool b =>
    cases w with
    | bool c => exact Bool.beq_comm
    | _ => simp [looselyEquals]
  | int n =>
    cases w with
    | int m =>
      rw [looselyEquals, looselyEquals]
      exact BEq.comm
    | _ => simp [looselyEquals]
  | float x =>
    cases w with
    | float y =>
      rw [looselyEquals, looselyEquals]
      exact float_beq_comm x y
    | _ => simp [looselyEquals]
  | string s =>
    cases w with
    | string t =>
      rw [looselyEquals, looselyEquals]
      exact textEqualsText_comm s t
    | _ => simp [looselyEquals]
  | array m => cases h
  | object c m =>
    cases w with
    | object d n =>
      rw [looselyEquals, looselyEquals, beqEntries_comm, BEq.comm]
    | _ => simp [looselyEquals]

section Entries

variable {es fs : List (Key × Value)}

/-- As many entries of the other map as there are were found under their keys, hence all. -/
theorem looselyContained_symm (hes : (es.map Prod.fst).Nodup) (hfs : (fs.map Prod.fst).Nodup)
    (hlength : es.length = fs.length)
    (hcomm : ∀ e ∈ es, ∀ f ∈ fs, e.2.looselyEquals f.2 = f.2.looselyEquals e.2)
    (h : looselyContained es fs = true) : looselyContained fs es = true := by
  rw [looselyContained_iff] at h ⊢
  have hfound : ∀ e ∈ es, ∃ f ∈ fs, f.1 = e.1 ∧ e.2.looselyEquals f.2 = true := by
    intro e he
    obtain ⟨w, hlookup, hloose⟩ := h e he
    exact ⟨(e.1, w), (OrderedMap.lookup_eq_some_iff hfs).mp hlookup, rfl, hloose⟩
  have hsubset : es.map Prod.fst ⊆ fs.map Prod.fst := by
    intro key hkey
    obtain ⟨e, he, rfl⟩ := List.mem_map.mp hkey
    obtain ⟨f, hf, hsame, -⟩ := hfound e he
    exact List.mem_map.mpr ⟨f, hf, hsame⟩
  have hperm : (es.map Prod.fst).Perm (fs.map Prod.fst) :=
    (List.subperm_of_subset hes hsubset).perm_of_length_le (by simp [hlength])
  intro f hf
  obtain ⟨e, he, hsame⟩ := List.mem_map.mp (hperm.mem_iff.mpr (List.mem_map_of_mem hf))
  obtain ⟨g, hg, hgkey, hloose⟩ := hfound e he
  -- The keys are distinct, so that the entry found for `e` is `f` itself.
  obtain rfl : g = f := List.inj_on_of_nodup_map hfs hg hf (hgkey.trans hsame)
  refine ⟨e.2, (OrderedMap.lookup_eq_some_iff hes).mpr ?_, ?_⟩
  · rw [← hsame]
    exact he
  · rw [← hcomm e he g hg]
    exact hloose

theorem exists_of_beqEntries {e : Key × Value} (he : e ∈ es) (h : beqEntries es fs = true) :
    ∃ f ∈ fs, e.1 = f.1 ∧ (e.2 == f.2) = true := by
  induction beqEntries_iff.mp h with
  | nil => cases he
  | @cons first f es fs hfirst hrest ih =>
    obtain rfl | he := List.mem_cons.mp he
    · exact ⟨f, List.mem_cons_self, hfirst⟩
    · obtain ⟨g, hg, hequal⟩ := ih he (beqEntries_iff.mpr hrest)
      exact ⟨g, List.mem_cons_of_mem _ hg, hequal⟩

theorem looselyContained_of_beqEntries (hfs : (fs.map Prod.fst).Nodup)
    (hloose : ∀ e ∈ es, ∀ f ∈ fs, (e.2 == f.2) = true → e.2.looselyEquals f.2 = true)
    (h : beqEntries es fs = true) : looselyContained es fs = true := by
  rw [looselyContained_iff]
  intro e he
  obtain ⟨f, hf, hkey, hequal⟩ := exists_of_beqEntries he h
  refine ⟨f.2, (OrderedMap.lookup_eq_some_iff hfs).mpr ?_, hloose e he f hf hequal⟩
  rw [hkey]
  exact hf

end Entries

theorem nodup_keys_after (ops : List (OrderedMap.Operation Value)) :
    ((OrderedMap.empty.after ops).entries.map Prod.fst).Nodup :=
  (OrderedMap.represents_empty.after ops).1.sound.distinct

theorem IsAssembled.looselyEquals_comm {v w : Value} (hv : v.IsAssembled) (hw : w.IsAssembled) :
    v.looselyEquals w = w.looselyEquals v := by
  induction hv generalizing w with
  | single h => exact looselyEquals_comm_of_not_isArray h w
  | array ops h ih =>
    cases hw with
    | single hsingle => exact (looselyEquals_comm_of_not_isArray hsingle _).symm
    | array others hothers =>
      have hcomm : ∀ e ∈ (OrderedMap.empty.after ops).entries,
          ∀ f ∈ (OrderedMap.empty.after others).entries,
            e.2.looselyEquals f.2 = f.2.looselyEquals e.2 :=
        fun e he f hf => ih e he (hothers f hf)
      rw [looselyEquals_array, looselyEquals_array, Bool.eq_iff_iff, Bool.and_eq_true,
        Bool.and_eq_true, beq_iff_eq, beq_iff_eq]
      constructor
      · rintro ⟨hlength, hcontained⟩
        exact ⟨hlength.symm, looselyContained_symm (nodup_keys_after ops)
          (nodup_keys_after others) hlength hcomm hcontained⟩
      · rintro ⟨hlength, hcontained⟩
        exact ⟨hlength.symm, looselyContained_symm (nodup_keys_after others)
          (nodup_keys_after ops) hlength (fun f hf e he => (hcomm e he f hf).symm) hcontained⟩

theorem looselyEquals_of_beq_of_not_isArray {v w : Value} (hv : v.isArray = false)
    (h : (v == w) = true) : v.looselyEquals w = true := by
  change v.beq w = true at h
  cases v with
  | array m => cases hv
  | string s =>
    cases w with
    | string t =>
      unfold beq at h
      obtain rfl := beq_iff_eq.mp h
      rw [looselyEquals]
      exact textEqualsText_self s
    | _ => cases h
  | null =>
    cases w with
    | null => rw [looselyEquals]
    | _ => cases h
  | bool b =>
    cases w with
    | bool c => exact h
    | _ => cases h
  | int n =>
    cases w with
    | int m =>
      unfold beq at h
      rwa [looselyEquals]
    | _ => cases h
  | float x =>
    cases w with
    | float y =>
      unfold beq at h
      rwa [looselyEquals]
    | _ => cases h
  | object c m =>
    cases w with
    | object d n =>
      unfold beq at h
      rwa [looselyEquals]
    | _ => cases h

theorem IsAssembled.looselyEquals_of_beq {v w : Value} (hv : v.IsAssembled) (hw : w.IsAssembled)
    (h : (v == w) = true) : v.looselyEquals w = true := by
  induction hv generalizing w with
  | single hsingle => exact looselyEquals_of_beq_of_not_isArray hsingle h
  | array ops hops ih =>
    cases hw with
    | single hsingle =>
      change beq _ w = true at h
      rw [beq_comm] at h
      rw [← looselyEquals_comm_of_not_isArray hsingle]
      exact looselyEquals_of_beq_of_not_isArray hsingle h
    | array others hothers =>
      have hentries : beqEntries (OrderedMap.empty.after ops).entries
          (OrderedMap.empty.after others).entries = true := h
      rw [looselyEquals_array, Bool.and_eq_true, beq_iff_eq]
      refine ⟨(beqEntries_iff.mp hentries).length_eq, ?_⟩
      refine looselyContained_of_beqEntries (nodup_keys_after others) ?_ hentries
      exact fun e he f hf hequal => ih e he (hothers f hf) hequal

/-- Loose equality is symmetric and contains equality, whatever operations made the maps, and an
enumeration allows each of its values that is equal to itself. -/
theorem looselyEquals_symmetric :
    (∀ v w : Value, v.IsAssembled → w.IsAssembled →
      v.looselyEquals w = w.looselyEquals v ∧ ((v == w) = true → v.looselyEquals w = true)) ∧
    ∀ (e : Enumeration) (v : Value), v ∈ e.values → v.IsAssembled → (v == v) = true →
      e.allows v = true := by
  refine ⟨fun v w hv hw => ⟨hv.looselyEquals_comm hw, hv.looselyEquals_of_beq hw⟩, ?_⟩
  intro e v hmem hv hself
  exact List.any_eq_true.mpr ⟨v, hmem, hv.looselyEquals_of_beq hv hself⟩

/-- Two maps with their keys in different orders, one of them holding numbers as texts. -/
theorem looselyEquals_symmetric_nested :
    let inner : Value := .array (.after .empty [.push (.string " 2.0 "), .remove (.int 7)])
    let v : Value := .array (.after .empty [.insert (.text "flag") (.bool true), .push inner])
    let w : Value := .array (.after .empty
      [.push (.array (.after .empty [.push (.int 2)])), .insert (.text "flag") (.string "yes")])
    v.looselyEquals w = w.looselyEquals v ∧ (v == v) = true ∧
      (⟨[.null, v], []⟩ : Enumeration).allows v = true := by
  intro inner v w
  have hinner : inner.IsAssembled :=
    .array _ (List.forall_mem_singleton.mpr (.single rfl))
  have hother : (array (.after .empty [.push (.int 2)])).IsAssembled :=
    .array _ (List.forall_mem_singleton.mpr (.single rfl))
  have hv : v.IsAssembled :=
    .array _ (List.forall_mem_cons.mpr ⟨.single rfl, List.forall_mem_singleton.mpr hinner⟩)
  have hw : w.IsAssembled :=
    .array _ (List.forall_mem_cons.mpr ⟨hother, List.forall_mem_singleton.mpr (.single rfl)⟩)
  have hself : (v == v) = true := by decide
  exact ⟨(looselyEquals_symmetric.1 v w hv hw).1, hself,
    looselyEquals_symmetric.2 ⟨[.null, v], []⟩ v (by simp) hv hself⟩

end Value

end Docblock
