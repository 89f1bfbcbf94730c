import Docblock.Proofs.Schema.Scratch
import Mathlib.Logic.Relation

/-!
# Ancestry is reachability

A class belongs to the classes that steps along declared ancestors lead to, and to no others. The
declarations may form cycles and name classes that nobody registered. The rounds of widening are
compared with a search that keeps a list of pending names and never follows a name twice. Both
decide the same relation.
-/

namespace Docblock

namespace Registry

variable {r : Registry}

def Declares (r : Registry) (name ancestor : String) : Prop :=
  ∃ c, r.lookup? name = some c ∧ ancestor ∈ c.ancestors

/-- The second name follows from the first by steps along declared ancestors. -/
def Reaches (r : Registry) : String → String → Prop := Relation.ReflTransGen r.Declares

theorem mem_ancestorsOf {name ancestor : String} :
    ancestor ∈ r.ancestorsOf name ↔ r.Declares name ancestor := by
  unfold ancestorsOf Declares
  cases r.lookup? name <;> simp

section Rounds

variable {names : List String}

theorem mem_widen {name : String} :
    name ∈ r.widen names ↔ name ∈ names ∨ ∃ n ∈ names, r.Declares n name := by
  simp only [widen, List.mem_eraseDups, List.mem_append, List.mem_flatMap, mem_ancestorsOf]

theorem reaches_of_mem_reached {steps : Nat} {name : String}
    (hname : name ∈ r.reached steps names) : ∃ n ∈ names, r.Reaches n name := by
  induction steps generalizing names with
  | zero => exact ⟨name, hname, .refl⟩
  | succ steps ih =>
    obtain ⟨middle, hmiddle, hreaches⟩ := ih hname
    obtain hold | ⟨n, hn, hstep⟩ := mem_widen.mp hmiddle
    · exact ⟨middle, hold, hreaches⟩
    · exact ⟨n, hn, hreaches.head hstep⟩

theorem subset_reached (r : Registry) (steps : Nat) (names : List String) :
    names ⊆ r.reached steps names := by
  induction steps generalizing names with
  | zero => exact List.Subset.refl names
  | succ steps ih =>
    intro name hname
    exact ih (r.widen names) (mem_widen.mpr (.inl hname))

/-- With every name come its declared ancestors. -/
def IsClosed (r : Registry) (names : List String) : Prop :=
  ∀ name ∈ names, ∀ ancestor, r.Declares name ancestor → ancestor ∈ names

theorem IsClosed.mem_of_reaches (h : r.IsClosed names) {name ancestor : String}
    (hname : name ∈ names) (hreaches : r.Reaches name ancestor) : ancestor ∈ names := by
  induction hreaches with
  | refl => exact hname
  | tail _ hstep ih => exact h _ ih _ hstep

theorem IsClosed.widen (h : r.IsClosed names) : r.IsClosed (r.widen names) := by
  have hsame {name : String} : name ∈ r.widen names ↔ name ∈ names := by
    refine mem_widen.trans (or_iff_left_of_imp ?_)
    rintro ⟨n, hn, hstep⟩
    exact h n hn _ hstep
  intro name hname ancestor hstep
  exact hsame.mpr (h name (hsame.mp hname) ancestor hstep)

theorem IsClosed.reached (h : r.IsClosed names) (steps : Nat) :
    r.IsClosed (r.reached steps names) := by
  induction steps generalizing names with
  | zero => exact h
  | succ steps ih => exact ih h.widen

theorem unopened_mono {opened : List String} (h : names ⊆ opened) :
    r.unopened opened ≤ r.unopened names := by
  apply List.countP_mono_left
  intro c _ hc
  rw [Bool.not_eq_true', ← Bool.not_eq_true, List.contains_iff_mem] at hc ⊢
  exact fun hmem => hc (h hmem)

/-- Names that a round adds are unregistered, so that the next round adds none, or fewer classes
are left to be met. -/
theorem isClosed_or_unopened_lt (names : List String) :
    r.IsClosed (r.widen names) ∨ r.unopened (r.widen names) < r.unopened names := by
  by_cases hnew : ∃ name ∈ r.widen names, name ∉ names ∧ ∃ c, r.lookup? name = some c
  · obtain ⟨name, hname, hfresh, c, hc⟩ := hnew
    right
    obtain rfl := name_of_lookup? hc
    have hless := unopened_cons_lt (List.mem_of_find?_eq_some hc) hfresh
    have hsubset : c.name :: names ⊆ r.widen names :=
      List.cons_subset.mpr ⟨hname, fun n hn => mem_widen.mpr (.inl hn)⟩
    exact Nat.lt_of_le_of_lt (unopened_mono hsubset) hless
  · left
    rintro name hname ancestor ⟨c, hc, hancestor⟩
    have hold : name ∈ names := by
      refine Classical.byContradiction fun hfresh => ?_
      exact hnew ⟨name, hname, hfresh, c, hc⟩
    exact mem_widen.mpr (.inr ⟨name, hold, c, hc, hancestor⟩)

theorem isClosed_reached {steps : Nat} (hsteps : r.unopened names < steps) :
    r.IsClosed (r.reached steps names) := by
  induction steps generalizing names with
  | zero => exact absurd hsteps (Nat.not_lt_zero _)
  | succ steps ih =>
    obtain hclosed | hless := isClosed_or_unopened_lt (r := r) names
    · exact hclosed.reached steps
    · exact ih (by omega)

end Rounds

/-- As many rounds as there are classes, and one more, reach what can be reached at all. -/
theorem isSubclass_iff {className ancestor : String} : r.isSubclass className ancestor = true ↔
    r.Reaches (ClassName.registered className) (ClassName.registered ancestor) := by
  unfold isSubclass
  rw [List.contains_iff_mem]
  constructor
  · intro hmem
    obtain ⟨name, hname, hreaches⟩ := reaches_of_mem_reached hmem
    rwa [List.mem_singleton.mp hname] at hreaches
  · have hclosed : r.IsClosed
        (r.reached (r.classes.length + 1) [ClassName.registered className]) :=
      isClosed_reached (Nat.lt_succ_of_le (r.unopened_le _))
    exact hclosed.mem_of_reaches (subset_reached r _ _ (List.mem_singleton_self _))

section Search

/-- Search for a name from a stack of pending names, without following a name that was seen. -/
def search (r : Registry) (ancestor : String) (pending seen : List String) : Bool :=
  match pending with
  | [] => false
  | current :: rest =>
    if current = ancestor then true
    else if _hseen : current ∈ seen then r.search ancestor rest seen
    else r.search ancestor ((r.ancestorsOf current).reverse ++ rest) (current :: seen)
termination_by (r.unopened seen, pending.length)
decreasing_by
  · exact Prod.Lex.right _ (Nat.lt_succ_self _)
  · cases hc : r.lookup? current with
    | none =>
      -- An unregistered name leaves the classes as they are and pushes nothing.
      have hnone : r.ancestorsOf current = [] := by rw [ancestorsOf, hc]
      rw [hnone, Prod.lex_def]
      have hle : r.unopened (current :: seen) ≤ r.unopened seen :=
        unopened_mono (List.subset_cons_self _ _)
      rcases Nat.lt_or_eq_of_le hle with hless | hsame
      · exact .inl hless
      · exact .inr ⟨hsame, Nat.lt_succ_self _⟩
    | some c =>
      obtain rfl := name_of_lookup? hc
      exact Prod.Lex.left _ _ (unopened_cons_lt (List.mem_of_find?_eq_some hc) _hseen)

/-- The names seen so far are not the one looked for, and where they lead to is seen or pending. -/
structure Searching (r : Registry) (ancestor : String) (pending seen : List String) : Prop where
  missed : ancestor ∉ seen
  covered : ∀ name ∈ seen, ∀ next, r.Declares name next → next ∈ seen ∨ next ∈ pending

variable {ancestor current : String} {pending rest seen : List String}

/-- A path from a seen name to the one looked for leaves the seen names at a pending one. -/
theorem Searching.exists_pending (h : r.Searching ancestor pending seen)
    (hseen : current ∈ seen) (hreaches : r.Reaches current ancestor) :
    ∃ name ∈ pending, name ∉ seen ∧ r.Reaches name ancestor := by
  induction hreaches using Relation.ReflTransGen.head_induction_on with
  | refl => exact absurd hseen h.missed
  | @head name next hstep hrest ih =>
    by_cases hnext : next ∈ seen
    · exact ih hnext
    · exact ⟨next, (h.covered name hseen next hstep).resolve_left hnext, hnext, hrest⟩

theorem Searching.skip (h : r.Searching ancestor (current :: rest) seen)
    (hseen : current ∈ seen) : r.Searching ancestor rest seen where
  missed := h.missed
  covered name hname next hstep := by
    obtain hold | hpending := h.covered name hname next hstep
    · exact .inl hold
    · obtain rfl | hrest := List.mem_cons.mp hpending
      · exact .inl hseen
      · exact .inr hrest

theorem Searching.follow (h : r.Searching ancestor (current :: rest) seen)
    (hother : current ≠ ancestor) :
    r.Searching ancestor ((r.ancestorsOf current).reverse ++ rest) (current :: seen) where
  missed := by
    rw [List.mem_cons, not_or]
    exact ⟨hother.symm, h.missed⟩
  covered name hname next hstep := by
    rw [List.mem_cons, List.mem_append, List.mem_reverse, mem_ancestorsOf]
    obtain rfl | hold := List.mem_cons.mp hname
    · exact .inr (.inl hstep)
    · obtain hseen | hpending := h.covered name hold next hstep
      · exact .inl (.inr hseen)
      · obtain rfl | hrest := List.mem_cons.mp hpending
        · exact .inl (.inl rfl)
        · exact .inr (.inr hrest)

theorem search_iff (h : r.Searching ancestor pending seen) :
    r.search ancestor pending seen = true ↔ ∃ name ∈ pending, r.Reaches name ancestor := by
  fun_induction search r ancestor pending seen with
  | case1 seen => simp
  | case2 seen rest =>
    exact iff_of_true rfl ⟨ancestor, List.mem_cons_self, .refl⟩
  | case3 seen current rest hother hseen ih =>
    rw [ih (h.skip hseen)]
    constructor
    · rintro ⟨name, hname, hreaches⟩
      exact ⟨name, List.mem_cons_of_mem _ hname, hreaches⟩
    · rintro ⟨name, hname, hreaches⟩
      obtain rfl | hrest := List.mem_cons.mp hname
      · obtain ⟨next, hnext, -, hpath⟩ := (h.skip hseen).exists_pending hseen hreaches
        exact ⟨next, hnext, hpath⟩
      · exact ⟨name, hrest, hreaches⟩
  | case4 seen current rest hother hfresh ih =>
    rw [ih (h.follow hother)]
    constructor
    · rintro ⟨name, hname, hreaches⟩
      rw [List.mem_append, List.mem_reverse, mem_ancestorsOf] at hname
      obtain hstep | hrest := hname
      · exact ⟨current, List.mem_cons_self, hreaches.head hstep⟩
      · exact ⟨name, List.mem_cons_of_mem _ hrest, hreaches⟩
    · rintro ⟨name, hname, hreaches⟩
      obtain rfl | hrest := List.mem_cons.mp hname
      · obtain rfl | ⟨next, hstep, hpath⟩ := Relation.ReflTransGen.cases_head hreaches
        · exact absurd rfl hother
        · refine ⟨next, ?_, hpath⟩
          rw [List.mem_append, List.mem_reverse, mem_ancestorsOf]
          exact .inl hstep
      · exact ⟨name, List.mem_append_right _ hrest, hreaches⟩

theorem searching_start (r : Registry) (ancestor : String) (pending : List String) :
    r.Searching ancestor pending [] where
  missed := List.not_mem_nil
  covered _ hname := absurd hname List.not_mem_nil

end Search

/-- The search ends on every graph of declarations and finds what steps along it lead to. -/
theorem isSubclass_eq_search (r : Registry) (className ancestor : String) :
    r.isSubclass className ancestor =
      r.search (ClassName.registered ancestor) [ClassName.registered className] [] := by
  rw [Bool.eq_iff_iff, isSubclass_iff, search_iff (r.searching_start _ _)]
  constructor
  · exact fun hreaches => ⟨_, List.mem_singleton_self _, hreaches⟩
  · rintro ⟨name, hname, hreaches⟩
    rwa [List.mem_singleton.mp hname] at hreaches

/-- Whether a class belongs to another is whether declared ancestors lead there, whatever cycles
and unregistered names the declarations have. -/
theorem isSubclass_is_reachability (r : Registry) :
    (∀ className ancestor, (r.isSubclass className ancestor = true ↔
        Relation.ReflTransGen r.Declares (ClassName.registered className)
          (ClassName.registered ancestor)) ∧
      r.isSubclass className ancestor =
        r.search (ClassName.registered ancestor) [ClassName.registered className] []) ∧
    (∀ className, r.isSubclass className className = true) ∧
    ∀ className middle ancestor, r.isSubclass className middle = true →
      r.isSubclass middle ancestor = true → r.isSubclass className ancestor = true := by
  refine ⟨fun className ancestor => ⟨isSubclass_iff, r.isSubclass_eq_search className ancestor⟩,
    fun className => isSubclass_iff.mpr .refl, fun className middle ancestor hfirst hsecond => ?_⟩
  exact isSubclass_iff.mpr ((isSubclass_iff.mp hfirst).trans (isSubclass_iff.mp hsecond))

/-- Two classes that name each other, one of them itself and a class that nobody registered. -/
def circle : Registry :=
  (empty.register (.make "App\\Left" "" [] ["App\\Right", "\\App\\Left"])).register
    (.make "App\\Right" "" [] ["\\App\\Left", "Other"])

theorem isSubclass_circle :
    circle.isSubclass "\\App\\Left" "Other" = true ∧
      circle.isSubclass "Other" "App\\Left" = false := by
  refine ⟨(isSubclass_is_reachability circle).2.2 _ "App\\Right" _ ?_ ?_, ?_⟩ <;> decide

end Registry

end Docblock
