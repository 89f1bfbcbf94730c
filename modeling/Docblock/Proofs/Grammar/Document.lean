import Docblock.Proofs.Grammar.Meaning
import Docblock.Proofs.Lookup.Annotations

/-!
# Documents

The tokens of a text show the calls in it, in their order, with anything that starts no annotation
between them. A text that shows calls is answered with their objects, or with the first error.
-/

namespace Docblock

namespace Grammar

open Reading

/-- The tokens show these calls behind a token. A call without parentheses ends where its name does,
and unless its name is passed over, no parenthesis opens behind it. -/
inductive Document (passed : String → Prop) : Option Token → List Token → List Call → Prop where
  | nil (behind : Option Token) : Document passed behind [] []
  | skip {behind : Option Token} {t : Token} {rest : List Token} {calls : List Call} :
      startsAnnotation ⟨behind, t :: rest⟩ = false → Document passed (some t) rest calls →
      Document passed behind (t :: rest) calls
  | bare {behind : Option Token} {used rest : List Token} {name : String} {calls : List Call} :
      startsAnnotation ⟨behind, used ++ rest⟩ = true → SignedName used name →
      separatorFollows ⟨lastPassed behind used, rest⟩ = false →
      (¬ passed name → ∀ t ∈ rest.head?, t.kind ≠ .openParen) →
      Document passed (lastPassed behind used) rest calls →
      Document passed behind (used ++ rest) ((name, []) :: calls)
  | applied {behind : Option Token} {used rest : List Token} {call : Call} {calls : List Call} :
      startsAnnotation ⟨behind, used ++ rest⟩ = true →
      Applied (Written passed maxNesting) passed used call →
      Document passed (lastPassed behind used) rest calls →
      Document passed behind (used ++ rest) (call :: calls)

def documentMeaning (scope : Scope) (target : Target) :
    List Call → Except AnnotationError (List Annotation)
  | [] => return []
  | call :: calls => do
    let found ← callMeaning scope (meaning scope maxNesting) target call
    return found.toList ++ (← documentMeaning scope target calls)

theorem documentMeaning_exchange {scope : Scope} {target : Target} {call other : Call}
    (h : callMeaning scope (meaning scope maxNesting) target call =
      callMeaning scope (meaning scope maxNesting) target other) (before after : List Call) :
    documentMeaning scope target (before ++ call :: after) =
      documentMeaning scope target (before ++ other :: after) := by
  induction before with
  | nil => rw [List.nil_append, List.nil_append, documentMeaning, documentMeaning, h]
  | cons first before ih =>
    rw [List.cons_append, List.cons_append, documentMeaning, documentMeaning, ih]

variable {scope : Scope} {target : Target} {passed : String → Prop} {behind : Option Token}
  {tokens : List Token} {calls : List Call}

/-- The objects of calls are those that the calls mean one by one. -/
theorem mem_documentMeaning {as : List Annotation}
    (h : documentMeaning scope target calls = .ok as) :
    (∀ a ∈ as, ∃ call ∈ calls,
      callMeaning scope (meaning scope maxNesting) target call = .ok (some a)) ∧
    ∀ call ∈ calls, ∃ found, callMeaning scope (meaning scope maxNesting) target call = .ok found ∧
      ∀ a ∈ found, a ∈ as := by
  induction calls generalizing as with
  | nil =>
    obtain rfl := Except.ok.inj h
    exact ⟨nofun, nofun⟩
  | cons first rest ih =>
    unfold documentMeaning at h
    cases hfirst : callMeaning scope (meaning scope maxNesting) target first with
    | error e =>
      rw [hfirst] at h
      cases h
    | ok found =>
      rw [hfirst] at h
      cases hrest : documentMeaning scope target rest with
      | error e =>
        rw [hrest] at h
        cases h
      | ok others =>
        rw [hrest] at h
        obtain rfl := Except.ok.inj h
        obtain ⟨hfrom, hall⟩ := ih hrest
        constructor
        · intro a ha
          obtain ha | ha := List.mem_append.1 ha
          · obtain rfl := Option.mem_toList.1 ha
            exact ⟨first, List.mem_cons_self, hfirst⟩
          · obtain ⟨call, hcall, hmeans⟩ := hfrom a ha
            exact ⟨call, List.mem_cons_of_mem first hcall, hmeans⟩
        · intro call hcall
          obtain rfl | hcall := List.mem_cons.1 hcall
          · exact ⟨found, hfirst, fun a ha => List.mem_append_left _ (Option.mem_toList.2 ha)⟩
          · obtain ⟨meant, hmeans, hin⟩ := hall call hcall
            exact ⟨meant, hmeans, fun a ha => List.mem_append_right _ (hin a ha)⟩

theorem answers_call {w v : Window} {call : Call} {steps : Nat}
    (hstarts : startsAnnotation w = true)
    (hcall : Answers scope (object scope target (Reading.value scope maxNesting)) w
      (callMeaning scope (meaning scope maxNesting) target call) v)
    {last : Window} (hmore : Answers scope (annotations scope target steps) v
      (documentMeaning scope target calls) last) :
    Answers scope (annotations scope target (steps + 1)) w
      (documentMeaning scope target (call :: calls)) last := by
  rw [annotations]
  refine answers_get_bind ?_
  have hahead : w.ahead.isEmpty = false := by
    cases hahead : w.ahead with
    | nil =>
      unfold startsAnnotation at hstarts
      rw [hahead] at hstarts
      cases hstarts
    | cons t rest => rfl
  rw [hahead, hstarts]
  refine answers_bind hcall fun found _ => ?_
  exact answers_bind hmore fun as _ => answers_of_takes (takes_pure _)

theorem exists_steps {t : Token} (used : List Token) {rest : List Token} {steps : Nat}
    (h : (t :: used ++ rest).length ≤ steps) : ∃ k, steps = k + 1 ∧ rest.length ≤ k := by
  rw [List.length_append, List.length_cons] at h
  exact ⟨steps - 1, by omega, by omega⟩

/-- A text is answered with the objects of its calls. -/
theorem answers_document (hs : scope.IsSettled)
    (hpassed : ∀ name, scope.schemaFor name = .ok none ↔ passed name)
    (h : Document passed behind tokens calls) {steps : Nat} (hsteps : tokens.length ≤ steps) :
    Answers scope (annotations scope target steps) ⟨behind, tokens⟩
      (documentMeaning scope target calls) ⟨lastPassed behind tokens, []⟩ := by
  induction h generalizing steps with
  | nil behind =>
    intro m hm
    exact ⟨m, hm, result_annotations_end rfl m⟩
  | skip hstarts _ ih =>
    obtain ⟨steps, rfl, hless⟩ := exists_steps [] hsteps
    intro m hm
    rw [result_annotations_skip rfl hstarts]
    exact ih hless m hm
  | @bare behind used rest name calls hstarts hname hends hparen _ ih =>
    have hmore (hsome : scope.schemaFor name ≠ .ok none) :
        ∀ t ∈ rest.head?, t.kind ≠ .openParen :=
      hparen fun hpass => hsome ((hpassed name).2 hpass)
    obtain ⟨sign, more, hused, -⟩ := hname.starts
    rw [hused] at hsteps
    obtain ⟨steps, rfl, hless⟩ := exists_steps more hsteps
    rw [lastPassed_append]
    exact answers_call hstarts (answers_bare hs hname hends hmore) (ih hless)
  | @applied behind used rest call calls hstarts hcall _ ih =>
    obtain ⟨sign, more, hused, -⟩ := hcall.starts
    rw [hused] at hsteps
    obtain ⟨steps, rfl, hless⟩ := exists_steps more hsteps
    rw [lastPassed_append]
    refine answers_call hstarts ?_ (ih hless)
    exact answers_applied hs (fun name => (hpassed name).1)
      (answers_written hs (fun name => (hpassed name).1) maxNesting) (starts_written maxNesting)
      (unassigned_written maxNesting) hcall target behind rest

theorem Document.exists_used (h : Document passed behind tokens calls) :
    ∀ call ∈ calls, ∀ a ∈ call.2, ∃ used, Written passed maxNesting used a.2 := by
  induction h with
  | nil => exact nofun
  | skip _ _ ih => exact ih
  | bare _ _ _ _ _ ih =>
    intro call hcall
    obtain rfl | hcall := List.mem_cons.1 hcall
    · exact nofun
    · exact ih call hcall
  | applied _ hused _ ih =>
    intro call hcall
    obtain rfl | hcall := List.mem_cons.1 hcall
    · exact hused.exists_used
    · exact ih call hcall

/-- A text of one call of a single name. -/
theorem document_single {sign name opener closer : Token} {used : List Token}
    {arguments : List (Option String × Term)}
    (hkinds : [sign, name, opener, closer].map Token.kind =
      [.atSign, .qualifiedName, .openParen, .closeParen])
    (hglued : sign.isAdjacent name = true) (hnot : ¬ passed name.text)
    (hall : Separated (ArgumentTerm (Written passed maxNesting)) used arguments) :
    Document passed none (sign :: name :: opener :: (used ++ [closer]))
      [(name.text, arguments)] := by
  simp only [List.map_cons, List.map_nil, List.cons.injEq, and_true] at hkinds
  obtain ⟨hsign, hname, hopener, hcloser⟩ := hkinds
  have hpart : name.kind.isClassPart = true := by rw [hname]; rfl
  have hcall := Applied.mk (signedName_single hsign hpart) hnot (.items hopener hall hcloser)
  have hstarts : startsAnnotation
      ⟨none, ([sign, name] ++ opener :: (used ++ [closer])) ++ []⟩ = true :=
    startsAnnotation_of_signed hsign hglued hpart _
  have hshown := Document.applied hstarts hcall (.nil _)
  simpa using hshown

end Grammar

end Docblock
