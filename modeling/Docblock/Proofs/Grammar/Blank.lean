import Docblock.Proofs.Grammar.Document

/-!
# Blank entries

An annotation that is passed over leaves its place empty. Wherever one is inserted in a term, in a
list of arguments or in a collection, with a name or a key in front of it or without, the term goes
on to mean the same.
-/

namespace Docblock

namespace Grammar

open Reading

variable {scope : Scope} {value : Term → Except AnnotationError (Option Docblock.Value)}

theorem mapM_exchange {α β : Type} {f : α → Except AnnotationError β} {a b : α} (h : f a = f b)
    (before after : List α) : (before ++ a :: after).mapM f = (before ++ b :: after).mapM f := by
  rw [List.mapM_append, List.mapM_append, List.mapM_cons, List.mapM_cons, h]

theorem entriesMeaning_exchange {a b : Option KeyTerm × Term}
    (h : entryMeaning scope value a = entryMeaning scope value b)
    (before after : List (Option KeyTerm × Term)) :
    entriesMeaning scope value (before ++ a :: after) =
      entriesMeaning scope value (before ++ b :: after) := by
  unfold entriesMeaning
  rw [mapM_exchange h]

theorem argumentsMeaning_exchange {a b : Option String × Term}
    (h : argumentMeaning value a = argumentMeaning value b)
    (before after : List (Option String × Term)) :
    argumentsMeaning value (before ++ a :: after) =
      argumentsMeaning value (before ++ b :: after) := by
  unfold argumentsMeaning
  rw [mapM_exchange h]

theorem entriesMeaning_insert {a : Option KeyTerm × Term} {key : Option Key}
    (h : entryMeaning scope value a = .ok (key, none))
    (before after : List (Option KeyTerm × Term)) :
    entriesMeaning scope value (before ++ a :: after) =
      entriesMeaning scope value (before ++ after) := by
  unfold entriesMeaning
  rw [List.mapM_append, List.mapM_append, List.mapM_cons, h]
  cases before.mapM (entryMeaning scope value) with
  | error e => rfl
  | ok front =>
    cases after.mapM (entryMeaning scope value) with
    | error e => rfl
    | ok back =>
      change Except.ok ((front ++ (key, none) :: back).foldl OrderedMap.addEntry .empty) =
        Except.ok ((front ++ back).foldl OrderedMap.addEntry .empty)
      rw [List.foldl_append, List.foldl_append, List.foldl_cons]
      rfl

theorem argumentsMeaning_insert {a : Option String × Term}
    (h : argumentMeaning value a = .ok none) (before after : List (Option String × Term)) :
    argumentsMeaning value (before ++ a :: after) = argumentsMeaning value (before ++ after) := by
  unfold argumentsMeaning
  rw [List.mapM_append, List.mapM_append, List.mapM_cons, h]
  cases before.mapM (argumentMeaning value) with
  | error e => rfl
  | ok front =>
    cases after.mapM (argumentMeaning value) with
    | error e => rfl
    | ok back =>
      change Except.ok (Argument.fold ((front ++ none :: back).filterMap id)) =
        Except.ok (Argument.fold ((front ++ back).filterMap id))
      rw [List.filterMap_append, List.filterMap_append]
      rfl

/-- The second term is the first one with an annotation inserted somewhere in it. -/
inductive Inserts (blank : String → Prop) (denotes : KeyTerm → Prop) : Term → Term → Prop where
  | entry {before after : List (Option KeyTerm × Term)} {key : Option KeyTerm} {name : String} :
      blank name → (∀ k ∈ key, denotes k) → Inserts blank denotes (.collection (before ++ after))
        (.collection (before ++ (key, .call name []) :: after))
  | argument {caller : String} {before after : List (Option String × Term)}
      {field : Option String} {name : String} : blank name →
      Inserts blank denotes (.call caller (before ++ after))
        (.call caller (before ++ (field, .call name []) :: after))
  | inEntry {before after : List (Option KeyTerm × Term)} {key : Option KeyTerm} {t u : Term} :
      Inserts blank denotes t u → Inserts blank denotes (.collection (before ++ (key, t) :: after))
        (.collection (before ++ (key, u) :: after))
  | inArgument {caller : String} {before after : List (Option String × Term)}
      {field : Option String} {t u : Term} : Inserts blank denotes t u →
      Inserts blank denotes (.call caller (before ++ (field, t) :: after))
        (.call caller (before ++ (field, u) :: after))

variable {passed : String → Prop} {blank : String → Prop} {denotes : KeyTerm → Prop}

/-- An annotation that is passed over has no value, if there is room for it. -/
theorem meaning_blank {room : Nat} {name : String} {used : List Token}
    (hnone : scope.schemaFor name = .ok none) (h : Written passed room used (.call name [])) :
    meaning scope room (.call name []) = .ok none := by
  cases room with
  | zero => exact (not_leaf_call h).elim
  | succ room =>
    have hcall : callMeaning scope (meaning scope room) .nested (name, []) = .ok none := by
      unfold callMeaning
      rw [hnone]
      rfl
    rw [meaning_call, hcall]
    rfl

theorem entryMeaning_blank {room : Nat} {key : Option KeyTerm} {name : String}
    {used : List Token} (hnone : scope.schemaFor name = .ok none)
    (hkey : ∀ k ∈ key, ∃ denoted, k.meaning scope = .ok denoted)
    (h : Written passed room used (.call name [])) :
    ∃ denoted, entryMeaning scope (meaning scope room) (key, .call name []) =
      .ok (denoted, none) := by
  have hblank := meaning_blank hnone h
  cases key with
  | none =>
    refine ⟨none, ?_⟩
    unfold entryMeaning
    dsimp only
    rw [hblank]
    rfl
  | some key =>
    obtain ⟨denoted, hdenoted⟩ := hkey key rfl
    refine ⟨some denoted, ?_⟩
    unfold entryMeaning
    dsimp only
    rw [hdenoted, hblank]
    rfl

theorem argumentMeaning_blank {room : Nat} {field : Option String} {name : String}
    {used : List Token} (hnone : scope.schemaFor name = .ok none)
    (h : Written passed room used (.call name [])) :
    argumentMeaning (meaning scope room) (field, .call name []) = .ok none := by
  have hblank := meaning_blank hnone h
  cases field with
  | none =>
    unfold argumentMeaning
    dsimp only
    rw [hblank]
    rfl
  | some field =>
    unfold argumentMeaning
    dsimp only
    rw [hblank]
    rfl

section Inserts

variable (hblank : ∀ name, blank name → scope.schemaFor name = .ok none)

include hblank

theorem argumentsMeaning_inserts {room : Nat} {name : String}
    {arguments more : List (Option String × Term)}
    (h : Inserts blank denotes (.call name arguments) (.call name more))
    (hwritten : ∀ a ∈ more, ∃ used, Written passed room used a.2)
    (ih : ∀ t u, Inserts blank denotes t u → (∃ used, Written passed room used u) →
      meaning scope room u = meaning scope room t) :
    argumentsMeaning (meaning scope room) more =
      argumentsMeaning (meaning scope room) arguments := by
  cases h with
  | @argument _ before after field name hname =>
    obtain ⟨used, hused⟩ := hwritten (field, .call name []) (by simp)
    exact argumentsMeaning_insert (argumentMeaning_blank (hblank name hname) hused) before after
  | @inArgument _ before after field t u hinner =>
    have hsame := ih t u hinner (hwritten (field, u) (by simp))
    refine argumentsMeaning_exchange ?_ before after
    cases field <;> simp only [argumentMeaning, hsame]

theorem callMeaning_inserts {room : Nat} (target : Target) {name : String}
    {arguments more : List (Option String × Term)}
    (h : Inserts blank denotes (.call name arguments) (.call name more))
    (hwritten : ∀ a ∈ more, ∃ used, Written passed room used a.2)
    (ih : ∀ t u, Inserts blank denotes t u → (∃ used, Written passed room used u) →
      meaning scope room u = meaning scope room t) :
    callMeaning scope (meaning scope room) target (name, more) =
      callMeaning scope (meaning scope room) target (name, arguments) := by
  unfold callMeaning
  dsimp only
  rw [argumentsMeaning_inserts hblank h hwritten ih]

variable (hdenotes : ∀ key, denotes key → ∃ denoted, key.meaning scope = .ok denoted)

include hdenotes

theorem entriesMeaning_inserts {room : Nat} {entries more : List (Option KeyTerm × Term)}
    (h : Inserts blank denotes (.collection entries) (.collection more))
    (hwritten : ∀ a ∈ more, ∃ used, Written passed room used a.2)
    (ih : ∀ t u, Inserts blank denotes t u → (∃ used, Written passed room used u) →
      meaning scope room u = meaning scope room t) :
    entriesMeaning scope (meaning scope room) more =
      entriesMeaning scope (meaning scope room) entries := by
  cases h with
  | @entry before after key name hname hkey =>
    obtain ⟨used, hused⟩ := hwritten (key, .call name []) (by simp)
    obtain ⟨denoted, hentry⟩ := entryMeaning_blank (hblank name hname)
      (fun k hk => hdenotes k (hkey k hk)) hused
    exact entriesMeaning_insert hentry before after
  | @inEntry before after key t u hinner =>
    have hsame := ih t u hinner (hwritten (key, u) (by simp))
    refine entriesMeaning_exchange ?_ before after
    cases key <;> simp only [entryMeaning, hsame]

theorem meaning_inserts {room : Nat} {t u : Term} (h : Inserts blank denotes t u)
    (hwritten : ∃ used, Written passed room used u) :
    meaning scope room u = meaning scope room t := by
  induction room generalizing t u with
  | zero =>
    obtain ⟨used, hleaf⟩ := hwritten
    cases h with
    | entry | inEntry => exact (not_leaf_collection hleaf).elim
    | argument | inArgument => exact (not_leaf_call hleaf).elim
  | succ room ih =>
    obtain ⟨used, hlayer⟩ := hwritten
    have hentries {entries more : List (Option KeyTerm × Term)}
        (h : Inserts blank denotes (.collection entries) (.collection more))
        (hlayer : Written passed (room + 1) used (.collection more)) :
        meaning scope (room + 1) (.collection more) =
          meaning scope (room + 1) (.collection entries) := by
      rw [meaning_collection, meaning_collection,
        entriesMeaning_inserts hblank hdenotes h hlayer.exists_used_entry fun _ _ => ih]
    have harguments {name : String} {arguments more : List (Option String × Term)}
        (h : Inserts blank denotes (.call name arguments) (.call name more))
        (hlayer : Written passed (room + 1) used (.call name more)) :
        meaning scope (room + 1) (.call name more) =
          meaning scope (room + 1) (.call name arguments) := by
      rw [meaning_call, meaning_call,
        callMeaning_inserts hblank .nested h hlayer.exists_used_argument fun _ _ => ih]
    cases h with
    | entry hname hkey => exact hentries (.entry hname hkey) hlayer
    | inEntry hinner => exact hentries (.inEntry hinner) hlayer
    | argument hname => exact harguments (.argument hname) hlayer
    | inArgument hinner => exact harguments (.inArgument hinner) hlayer

end Inserts

def DocumentInserts (blank : String → Prop) (denotes : KeyTerm → Prop) (calls more : List Call) :
    Prop :=
  ∃ before name arguments others after, calls = before ++ (name, arguments) :: after ∧
    more = before ++ (name, others) :: after ∧
    Inserts blank denotes (.call name arguments) (.call name others)

/-- What is inserted in a document does nothing to its meaning. -/
theorem documentMeaning_inserts
    (hblank : ∀ name, blank name → scope.schemaFor name = .ok none)
    (hdenotes : ∀ key, denotes key → ∃ denoted, key.meaning scope = .ok denoted) (target : Target)
    {calls more : List Call} (h : DocumentInserts blank denotes calls more)
    (hwritten : ∀ call ∈ more, ∀ a ∈ call.2, ∃ used, Written passed maxNesting used a.2) :
    documentMeaning scope target more = documentMeaning scope target calls := by
  obtain ⟨before, name, arguments, others, after, rfl, rfl, hinserts⟩ := h
  refine documentMeaning_exchange ?_ before after
  exact callMeaning_inserts hblank target hinserts
    (hwritten (name, others) (by simp)) fun _ _ => meaning_inserts hblank hdenotes

end Grammar

end Docblock
