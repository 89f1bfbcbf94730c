import Docblock.Proofs.Grammar.Blank
import Docblock.Proofs.Object.Listing

/-!
# Terms in a list of their own

In braces a term means the list of what it means, if there is a level of room for it. As the
argument for an array property it can therefore be written with braces or without.
-/

namespace Docblock

namespace Grammar

open Reading

variable {scope : Scope} {passed : String → Prop} {used : List Token} {room : Nat} {t : Term}

theorem mapM_congr {α β : Type} {f g : α → Except AnnotationError β} {all : List α}
    (h : ∀ a ∈ all, f a = g a) : all.mapM f = all.mapM g := by
  induction all with
  | nil => rfl
  | cons a rest ih =>
    rw [List.mapM_cons, List.mapM_cons, h a List.mem_cons_self,
      ih fun b hb => h b (List.mem_cons_of_mem a hb)]

section Congr

variable {value other : Term → Except AnnotationError (Option Docblock.Value)}

theorem entriesMeaning_congr {entries : List (Option KeyTerm × Term)}
    (h : ∀ a ∈ entries, value a.2 = other a.2) :
    entriesMeaning scope value entries = entriesMeaning scope other entries := by
  have hentry : ∀ a ∈ entries, entryMeaning scope value a = entryMeaning scope other a := by
    rintro ⟨key, t⟩ ha
    have hsame : value t = other t := h _ ha
    cases key <;> simp only [entryMeaning, hsame]
  unfold entriesMeaning
  rw [mapM_congr hentry]

theorem callMeaning_congr (target : Target) {name : String}
    {arguments : List (Option String × Term)} (h : ∀ a ∈ arguments, value a.2 = other a.2) :
    callMeaning scope value target (name, arguments) =
      callMeaning scope other target (name, arguments) := by
  have hargument : ∀ a ∈ arguments, argumentMeaning value a = argumentMeaning other a := by
    rintro ⟨field, t⟩ ha
    have hsame : value t = other t := h _ ha
    cases field <;> simp only [argumentMeaning, hsame]
  unfold callMeaning argumentsMeaning
  dsimp only
  rw [mapM_congr hargument]

end Congr

theorem meaning_leaf (h : Leaf used t) (room other : Nat) :
    meaning scope room t = meaning scope other t := by
  cases h with
  | literal => rw [meaning_literal, meaning_literal]
  | constant => rw [meaning_constant, meaning_constant]

/-- More room than a term needs does not change what it means. -/
theorem meaning_of_written (h : Written passed room used t) :
    meaning scope (room + 1) t = meaning scope room t := by
  induction room generalizing used t with
  | zero => exact meaning_leaf h 1 0
  | succ room ih =>
    have hsame {α : Type} {all : List (α × Term)}
        (hwritten : ∀ a ∈ all, ∃ part, Written passed room part a.2) :
        ∀ a ∈ all, meaning scope (room + 1) a.2 = meaning scope room a.2 := by
      intro a ha
      obtain ⟨part, hpart⟩ := hwritten a ha
      exact ih hpart
    have hlayer : Layer (Written passed room) passed used t := h
    cases t with
    | literal v => rw [meaning_literal, meaning_literal]
    | constant name => rw [meaning_constant, meaning_constant]
    | collection entries =>
      rw [meaning_collection, meaning_collection,
        entriesMeaning_congr (hsame hlayer.exists_used_entry)]
    | call name arguments =>
      rw [meaning_call, meaning_call,
        callMeaning_congr .nested (hsame hlayer.exists_used_argument)]

theorem meaning_single_of_error {e : AnnotationError} (h : meaning scope room t = .error e) :
    meaning scope (room + 1) (.collection [(none, t)]) = .error e := by
  rw [meaning_collection]
  unfold entriesMeaning
  rw [List.mapM_cons, entryMeaning, h]
  rfl

theorem meaning_single {v : Docblock.Value} (h : meaning scope room t = .ok (some v)) :
    meaning scope (room + 1) (.collection [(none, t)]) = .ok (some v.listOf) := by
  rw [meaning_collection]
  unfold entriesMeaning
  rw [List.mapM_cons, entryMeaning, h]
  rfl

theorem meaning_braced (h : Written passed (room + 1) used (.collection [(none, t)])) :
    (∀ e, meaning scope (room + 1) t = .error e →
        meaning scope (room + 1) (.collection [(none, t)]) = .error e) ∧
      ∀ v, meaning scope (room + 1) t = .ok (some v) →
        meaning scope (room + 1) (.collection [(none, t)]) = .ok (some v.listOf) := by
  have hlayer : Layer (Written passed room) passed used (.collection [(none, t)]) := h
  obtain ⟨part, hpart⟩ := hlayer.exists_used_entry (none, t) List.mem_cons_self
  rw [meaning_of_written hpart]
  exact ⟨fun e => meaning_single_of_error, fun v => meaning_single⟩

/-- An argument takes its place among the others, unless one of them fails. -/
theorem argumentsMeaning_append (value : Term → Except AnnotationError (Option Docblock.Value))
    (front back : List (Option String × Term)) :
    (∃ e, ∀ a given, argumentMeaning value a = .ok (some given) →
        argumentsMeaning value (front ++ a :: back) = .error e) ∨
      ∃ before after, ∀ a given, argumentMeaning value a = .ok (some given) →
        argumentsMeaning value (front ++ a :: back) =
          .ok (Argument.fold (before ++ given :: after)) := by
  have hall {a : Option String × Term} {given : Docblock.Argument}
      (ha : argumentMeaning value a = .ok (some given)) :
      (front ++ a :: back).mapM (argumentMeaning value) = (do
        let before ← front.mapM (argumentMeaning value)
        let after ← back.mapM (argumentMeaning value)
        return before ++ some given :: after) := by
    rw [List.mapM_append, List.mapM_cons, ha]
    cases front.mapM (argumentMeaning value) with
    | error e => rfl
    | ok before => cases back.mapM (argumentMeaning value) <;> rfl
  unfold argumentsMeaning
  cases hfront : front.mapM (argumentMeaning value) with
  | error e =>
    refine .inl ⟨e, fun a given ha => ?_⟩
    rw [hall ha, hfront]
    rfl
  | ok before =>
    cases hback : back.mapM (argumentMeaning value) with
    | error e =>
      refine .inl ⟨e, fun a given ha => ?_⟩
      rw [hall ha, hfront, hback]
      rfl
    | ok after =>
      refine .inr ⟨before.filterMap id, after.filterMap id, fun a given ha => ?_⟩
      rw [hall ha, hfront, hback]
      change Except.ok (Argument.fold ((before ++ some given :: after).filterMap id)) = _
      rw [List.filterMap_append]
      rfl

variable {s : AnnotationSchema} {q : PropertySchema} {name : String}

/-- An argument for an array property may be written in braces. -/
theorem callMeaning_listed (hschema : scope.schemaFor name = .ok (some s)) (hs : s.WellFormed)
    (hq : q ∈ s.properties) (harray : q.isArray = true) (hsole : s.IsSole q)
    (hsingle : ∀ found, meaning scope (room + 1) t = .ok found →
      ∃ v, found = some v ∧ v.IsSingle ∧ q.AllowsBoth v)
    (hwritten : Written passed (room + 1) used (.collection [(none, t)])) (target : Target)
    (front back : List (Option String × Term)) :
    callMeaning scope (meaning scope (room + 1)) target
        (name, front ++ (some q.name, .collection [(none, t)]) :: back) =
      callMeaning scope (meaning scope (room + 1)) target
        (name, front ++ (some q.name, t) :: back) := by
  obtain ⟨hfails, hmeans⟩ := @meaning_braced scope _ _ _ _ hwritten
  unfold callMeaning
  dsimp only
  rw [hschema]
  cases hmeaning : meaning scope (room + 1) t with
  | error e =>
    have hargument : argumentMeaning (meaning scope (room + 1))
        (some q.name, .collection [(none, t)]) =
          argumentMeaning (meaning scope (room + 1)) (some q.name, t) := by
      simp only [argumentMeaning, hmeaning, hfails e hmeaning]
    rw [argumentsMeaning_exchange hargument]
  | ok found =>
    obtain ⟨v, rfl, hv, hallows⟩ := hsingle found hmeaning
    have halone : argumentMeaning (meaning scope (room + 1)) (some q.name, t) =
        .ok (some (.named q.name v)) := by
      simp only [argumentMeaning, hmeaning]
      rfl
    have hbraced : argumentMeaning (meaning scope (room + 1))
        (some q.name, .collection [(none, t)]) = .ok (some (.named q.name v.listOf)) := by
      simp only [argumentMeaning, hmeans v hmeaning]
      rfl
    obtain ⟨e, harguments⟩ | ⟨before, after, harguments⟩ :=
      argumentsMeaning_append (meaning scope (room + 1)) front back
    · rw [harguments _ _ halone, harguments _ _ hbraced]
    · rw [harguments _ _ halone, harguments _ _ hbraced]
      dsimp only [bind, Except.bind]
      rw [AnnotationSchema.objectOf_listed hs hq harray hsole hv hallows]

end Grammar

end Docblock
