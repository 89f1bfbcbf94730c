import Docblock.Proofs.Grammar.Soundness
import Docblock.Proofs.Lookup.Annotations
import Docblock.Proofs.Lookup.Property

/-!
# Occurrences of annotations

Readers only move forward on the tokens of a text. So a text that is read without an error falls
into occurrences of annotations and tokens between them. An occurrence starts at every sign that
begins a name and is not part of the occurrence before it, and nowhere else.
-/

namespace Docblock

namespace Window

def atIndex (tokens : List Token) (i : Nat) : Window :=
  ⟨if i = 0 then none else tokens[i - 1]?, tokens.drop i⟩

variable {tokens : List Token} {i : Nat}

theorem ahead_atIndex (h : i < tokens.length) :
    (atIndex tokens i).ahead = tokens[i] :: tokens.drop (i + 1) :=
  List.drop_eq_getElem_cons h

theorem advance_atIndex (h : i < tokens.length) :
    (atIndex tokens i).advance = atIndex tokens (i + 1) := by
  unfold advance
  rw [ahead_atIndex h]
  unfold atIndex
  simp [h]

theorem advance_atIndex_length : (atIndex tokens tokens.length).advance =
    atIndex tokens tokens.length := by
  have hend : (atIndex tokens tokens.length).ahead = [] := List.drop_length
  unfold advance
  rw [hend]

theorem length_ahead_atIndex (tokens : List Token) (i : Nat) :
    (atIndex tokens i).ahead.length = tokens.length - i := List.length_drop

end Window

namespace Token

/-- A sign stands at the index, not adjacent to the token before it, and a name follows directly. -/
def BeginsName (tokens : List Token) (i : Nat) : Prop :=
  ∃ sign name, tokens[i]? = some sign ∧ sign.kind = .atSign ∧
    (∀ before, 0 < i → tokens[i - 1]? = some before → before.isAdjacent sign = false) ∧
    tokens[i + 1]? = some name ∧ sign.isAdjacent name = true ∧ name.kind.isClassPart = true

end Token

/-- An annotation of a text: the index of its sign and the one behind its last token, the name that
is written, and the object, unless the name is passed over. -/
structure Occurrence where
  start : Nat
  stop : Nat
  written : String
  found : Option Annotation

namespace Scope

/-- No schema is found for a name that is passed over, and that happens only by a rule. -/
theorem isIgnored_of_schemaNamed {scope : Scope} {written : String} {m n : Memory}
    (h : (scope.schemaNamed written).result m = (.ok none, n)) :
    scope.settings.isIgnored written = true := by
  unfold Scope.schemaNamed Scope.classNamed at h
  obtain ⟨found, o, hclass, hrest⟩ := Lookup.bind_eq_ok h
  cases found with
  | none =>
    split at hclass
    · cases hclass
    · obtain ⟨resolved, o, -, hlast⟩ := Lookup.bind_eq_ok hclass
      cases resolved with
      | some resolved => cases hlast
      | none =>
        dsimp only at hlast
        split at hlast
        · assumption
        · cases hlast
  | some className =>
    obtain ⟨asked, o, -, hlast⟩ := Lookup.bind_eq_ok hrest
    rcases asked with _ | _ | schema
    · cases hlast
    · dsimp only at hlast
      split at hlast
      next hpassed =>
        unfold Settings.isIgnored
        rw [hpassed]
        rfl
      · cases hlast
    · cases hlast

end Scope

namespace Reading

def MovesForward {α : Type} (x : Reading α) : Prop :=
  ∀ (tokens : List Token) (i : Nat) (m n : Memory) (a : α) (u : Window), i ≤ tokens.length →
    x.result (.atIndex tokens i) m = (.ok (a, u), n) →
      ∃ j, i ≤ j ∧ j ≤ tokens.length ∧ u = .atIndex tokens j

theorem movesForward_of_same {α : Type} {x : Reading α}
    (h : ∀ w m n a u, x.result w m = (.ok (a, u), n) → u = w) : MovesForward x :=
  fun _ i m n a u hi hrun => ⟨i, Nat.le_refl i, hi, h _ m n a u hrun⟩

theorem movesForward_of_stays {α : Type} {x : Reading α}
    (h : ∀ w m, ∃ a n, x.result w m = (.ok (a, w), n)) : MovesForward x := by
  refine movesForward_of_same fun w m n a u hrun => ?_
  obtain ⟨b, k, hresult⟩ := h w m
  rw [hresult] at hrun
  obtain ⟨⟨⟩, -⟩ := Prod.mk.inj hrun
  rfl

def movingForward (scope : Scope) : ReadingProperty scope where
  Holds := MovesForward
  holds_pure a := movesForward_of_stays fun w m => ⟨a, m, rfl⟩
  holds_bind := by
    intro α β x f hx hf tokens i m n b u hi hrun
    obtain ⟨a, v, o, hfirst, hrest⟩ := bind_eq_ok hrun
    obtain ⟨j, hij, hj, rfl⟩ := hx tokens i m o a v hi hfirst
    obtain ⟨k, hjk, hk, hu⟩ := hf a tokens j o n b u hj hrest
    exact ⟨k, Nat.le_trans hij hjk, hk, hu⟩
  holds_get := movesForward_of_stays fun w m => ⟨w, m, rfl⟩
  holds_skip := by
    intro tokens i m n a u hi hrun
    rw [result_skip] at hrun
    obtain ⟨⟨⟩, -⟩ := Prod.mk.inj hrun
    rcases Nat.lt_or_eq_of_le hi with hless | rfl
    · exact ⟨i + 1, Nat.le_succ i, hless, Window.advance_atIndex hless⟩
    · exact ⟨_, Nat.le_refl _, hi, Window.advance_atIndex_length⟩
  holds_throw := by
    rintro α e - tokens i m n a u - ⟨⟩
  holds_exists name := movesForward_of_stays fun w m => ⟨_, _, result_recall _ w m⟩
  holds_schema name := by
    refine movesForward_of_same fun w m n b u hrun => ?_
    rw [result_lookup] at hrun
    split at hrun
    · obtain ⟨⟨⟩, -⟩ := Prod.mk.inj hrun
      rfl
    · cases hrun

variable {scope : Scope} {target : Target} {tokens : List Token} {value : Reading (Option Value)}

theorem expectAny_eq_ok {kinds : List TokenKind} {t : Token} {w u : Window} {m n : Memory}
    (h : (expectAny scope kinds).result w m = (.ok (t, u), n)) :
    w.lookahead = some t ∧ kinds.contains t.kind = true ∧ u = w.advance ∧ n = m := by
  unfold expectAny at h
  rw [result_get_bind] at h
  cases hahead : w.lookahead with
  | none =>
    rw [hahead] at h
    cases h
  | some s =>
    rw [hahead] at h
    dsimp only at h
    split at h
    next hkind =>
      obtain ⟨hpair, rfl⟩ := Prod.mk.inj h
      obtain ⟨rfl, rfl⟩ := Prod.mk.inj (Except.ok.inj hpair)
      exact ⟨rfl, hkind, rfl, rfl⟩
    · cases h

theorem identifier_starts {written : String} {w u : Window} {m n : Memory}
    (h : (identifier scope).result w m = (.ok (written, u), n)) :
    w.isNextAny classParts = true := by
  unfold identifier at h
  rw [result_get_bind] at h
  cases hnext : w.isNextAny classParts with
  | true => rfl
  | false =>
    rw [hnext] at h
    cases h

theorem isSome_of_objectNamed {found : Option Annotation} {written : String}
    {schema : AnnotationSchema} {w u : Window} {m n : Memory}
    (h : (objectNamed scope target value written schema).result w m = (.ok (found, u), n)) :
    found.isSome = true := by
  unfold objectNamed at h
  dsimp only at h
  split at h
  · obtain ⟨_, v, o, hthrow, -⟩ := bind_eq_ok h
    cases hthrow
  · obtain ⟨values, v, o, -, hrest⟩ := bind_eq_ok h
    obtain ⟨a, v, o, -, hlast⟩ := bind_eq_ok hrest
    obtain ⟨⟨⟩, -⟩ := Prod.mk.inj hlast
    rfl

/-- An annotation is read from its sign on; it yields nothing only if its name is to be ignored. -/
theorem object_eq_ok {found : Option Annotation} {w u : Window} {m n : Memory}
    (h : (object scope target value).result w m = (.ok (found, u), n)) :
    ∃ written v k, (identifier scope).result w.advance m = (.ok (written, v), k) ∧
      (found = none → scope.settings.isIgnored written = true) := by
  rw [object_eq] at h
  obtain ⟨sign, v, m₁, hsign, hrest⟩ := bind_eq_ok h
  obtain ⟨-, -, rfl, rfl⟩ := expectAny_eq_ok hsign
  obtain ⟨written, v, k, hwritten, hrest⟩ := bind_eq_ok hrest
  refine ⟨written, v, k, hwritten, ?_⟩
  rintro rfl
  obtain ⟨schema, v, o, hschema, hlast⟩ := bind_eq_ok hrest
  cases schema with
  | none =>
    rw [result_lookup] at hschema
    split at hschema
    next hnamed =>
      obtain ⟨⟨⟩, -⟩ := Prod.mk.inj hschema
      exact Scope.isIgnored_of_schemaNamed hnamed
    · cases hschema
  | some schema => cases isSome_of_objectNamed hlast

theorem startsAnnotation_of_beginsName {i : Nat} (h : Token.BeginsName tokens i) :
    startsAnnotation (.atIndex tokens i) = true := by
  obtain ⟨sign, name, hsign, hkind, hbefore, hname, hadjacent, hclass⟩ := h
  obtain ⟨hi, rfl⟩ := List.getElem?_eq_some_iff.1 hsign
  obtain ⟨hnext, rfl⟩ := List.getElem?_eq_some_iff.1 hname
  have hahead : (Window.atIndex tokens i).ahead =
      tokens[i] :: tokens[i + 1] :: tokens.drop (i + 1 + 1) := by
    rw [Window.ahead_atIndex hi, List.drop_eq_getElem_cons hnext]
  have hfree : ((Window.atIndex tokens i).behind.any fun before =>
      before.isAdjacent tokens[i]) = false := by
    cases hbehind : (Window.atIndex tokens i).behind with
    | none => rfl
    | some before =>
      unfold Window.atIndex at hbehind
      dsimp only at hbehind
      split at hbehind
      · cases hbehind
      next hpositive => exact hbefore before (Nat.pos_of_ne_zero hpositive) hbehind
  unfold startsAnnotation
  rw [hahead]
  simp [hkind, hfree, hadjacent, hclass]

/-- Where an annotation starts and its name can be read, a name begins. -/
theorem beginsName_of_startsAnnotation {i : Nat}
    (hstarts : startsAnnotation (.atIndex tokens i) = true)
    (hnamed : (Window.atIndex tokens i).advance.isNextAny classParts = true) :
    Token.BeginsName tokens i := by
  unfold startsAnnotation at hstarts
  split at hstarts
  next sign name rest hahead =>
    have hsign : tokens[i]? = some sign := by
      have hfirst := congrArg (fun ts => ts[0]?) hahead
      simpa [Window.atIndex] using hfirst
    have hname : tokens[i + 1]? = some name := by
      have hsecond := congrArg (fun ts => ts[1]?) hahead
      simpa [Window.atIndex] using hsecond
    simp only [Bool.and_eq_true, beq_iff_eq, Bool.not_eq_true'] at hstarts
    obtain ⟨⟨⟨hkind, hfree⟩, hadjacent⟩, -⟩ := hstarts
    refine ⟨sign, name, hsign, hkind, fun before hpositive hbefore => ?_, hname, hadjacent, ?_⟩
    · have hbehind : (Window.atIndex tokens i).behind = some before := by
        unfold Window.atIndex
        rw [if_neg (Nat.ne_of_gt hpositive)]
        exact hbefore
      rw [hbehind] at hfree
      exact hfree
    · have hlook : (Window.atIndex tokens i).advance.lookahead = some name := by
        unfold Window.advance Window.lookahead
        rw [hahead]
        rfl
      unfold Window.isNextAny at hnamed
      rw [hlook] at hnamed
      exact Grammar.isClassPart_of_contains hnamed
  · cases hstarts

end Reading

/-- The occurrence is what a reader finds at its start: it reads the name and the object there, and
comes to the end of the occurrence. Without an object the name is to be ignored. -/
structure Occurrence.IsRead (scope : Scope) (target : Target) (tokens : List Token)
    (o : Occurrence) (m n : Memory) : Prop where
  forward : o.start < o.stop
  inside : o.stop ≤ tokens.length
  written : ∃ u k, (Reading.identifier scope).result (.atIndex tokens (o.start + 1)) m =
    (.ok (o.written, u), k)
  object : (Reading.object scope target (Reading.value scope Reading.maxNesting)).result
    (.atIndex tokens o.start) m = (.ok (o.found, .atIndex tokens o.stop), n)
  ignored : o.found = none → scope.settings.isIgnored o.written = true

inductive Occurrence.AreRead (scope : Scope) (target : Target) (tokens : List Token) :
    Memory → List Occurrence → Memory → Prop where
  | nil (m : Memory) : AreRead scope target tokens m [] m
  | cons {m k n : Memory} {o : Occurrence} {rest : List Occurrence} :
      o.IsRead scope target tokens m k → AreRead scope target tokens k rest n →
      AreRead scope target tokens m (o :: rest) n

/-- From an index on the occurrences do not overlap, and they start wherever a name begins outside
of those before. -/
structure Occurrence.Occupy (tokens : List Token) (first : Nat) (all : List Occurrence) : Prop where
  disjoint : all.Pairwise fun o next => o.stop ≤ next.start
  starts : ∀ i, (∃ o ∈ all, o.start = i) ↔
    first ≤ i ∧ Token.BeginsName tokens i ∧ ∀ o ∈ all, o.start < i → o.stop ≤ i

namespace Occurrence.Occupy

variable {tokens : List Token} {first : Nat} {all : List Occurrence}

theorem first_le (h : Occupy tokens first all) {o : Occurrence} (ho : o ∈ all) : first ≤ o.start :=
  ((h.starts o.start).1 ⟨o, ho, rfl⟩).1

theorem of_end (h : tokens.length ≤ first) : Occupy tokens first [] where
  disjoint := .nil
  starts i := by
    constructor
    · rintro ⟨o, ho, -⟩
      cases ho
    · rintro ⟨hi, ⟨sign, -, hsign, -⟩, -⟩
      obtain ⟨hless, -⟩ := List.getElem?_eq_some_iff.1 hsign
      omega

/-- A token at which no name begins lies between occurrences. -/
theorem of_skip (h : Occupy tokens (first + 1) all) (hnone : ¬ Token.BeginsName tokens first) :
    Occupy tokens first all where
  disjoint := h.disjoint
  starts i := by
    rw [h.starts i]
    refine ⟨fun ⟨hi, hrest⟩ => ⟨Nat.le_of_succ_le hi, hrest⟩, fun ⟨hi, hbegins, hrest⟩ => ?_⟩
    have hother : i ≠ first := by
      rintro rfl
      exact hnone hbegins
    exact ⟨by omega, hbegins, hrest⟩

theorem cons {o : Occurrence} (h : Occupy tokens o.stop all) (hforward : o.start < o.stop)
    (hbegins : Token.BeginsName tokens o.start) : Occupy tokens o.start (o :: all) where
  disjoint := .cons (fun next hnext => h.first_le hnext) h.disjoint
  starts i := by
    constructor
    · rintro ⟨next, hnext, rfl⟩
      rcases List.mem_cons.1 hnext with rfl | hnext
      · refine ⟨Nat.le_refl _, hbegins, fun other hother hless => ?_⟩
        rcases List.mem_cons.1 hother with rfl | hother
        · omega
        · have hbehind := h.first_le hother
          omega
      · obtain ⟨hbehind, hbegins, hrest⟩ := (h.starts next.start).1 ⟨next, hnext, rfl⟩
        refine ⟨by omega, hbegins, fun other hother hless => ?_⟩
        rcases List.mem_cons.1 hother with rfl | hother
        · exact hbehind
        · exact hrest other hother hless
    · rintro ⟨hi, hbegins, hrest⟩
      rcases Nat.eq_or_lt_of_le hi with rfl | hless
      · exact ⟨o, List.mem_cons_self, rfl⟩
      · have hbehind : o.stop ≤ i := hrest o List.mem_cons_self hless
        obtain ⟨next, hnext, hstart⟩ := (h.starts i).2
          ⟨hbehind, hbegins, fun other hother => hrest other (List.mem_cons_of_mem o hother)⟩
        exact ⟨next, List.mem_cons_of_mem o hnext, hstart⟩

end Occurrence.Occupy

namespace Reading

variable {scope : Scope} {target : Target} {tokens : List Token} {steps : Nat}

/-- What is read from a token on where an annotation starts is an occurrence. -/
theorem isRead_of_object {i : Nat} {found : Option Annotation} {u : Window} {m k : Memory}
    (hi : i < tokens.length) (hstarts : startsAnnotation (.atIndex tokens i) = true)
    (h : (object scope target (value scope maxNesting)).result (.atIndex tokens i) m =
      (.ok (found, u), k)) :
    ∃ o : Occurrence, o.start = i ∧ o.found = found ∧ u = .atIndex tokens o.stop ∧
      o.IsRead scope target tokens m k ∧ Token.BeginsName tokens i := by
  let forwards := movingForward scope
  have hmoves : MovesForward (object scope target (value scope maxNesting)) :=
    forwards.holds_object target (forwards.holds_value maxNesting)
  obtain ⟨j, hij, hj, rfl⟩ := hmoves tokens i m k found u (Nat.le_of_lt hi) h
  have hpassed := object_passes h
  rw [Window.length_ahead_atIndex, Window.length_ahead_atIndex] at hpassed
  obtain ⟨written, v, o, hwritten, hignored⟩ := object_eq_ok h
  have hnamed := identifier_starts hwritten
  rw [Window.advance_atIndex hi] at hwritten
  exact ⟨⟨i, j, written, found⟩, rfl, rfl, rfl, ⟨by dsimp only; omega, hj, ⟨v, o, hwritten⟩, h,
    hignored⟩, beginsName_of_startsAnnotation hstarts hnamed⟩

/-- The annotations of a text are the objects of its occurrences. -/
theorem occurrences_of_annotations {i : Nat} {as : List Annotation} {last : Window} {m n : Memory}
    (hsteps : tokens.length ≤ i + steps)
    (h : (annotations scope target steps).result (.atIndex tokens i) m = (.ok (as, last), n)) :
    ∃ all, Occurrence.AreRead scope target tokens m all n ∧
      Occurrence.Occupy tokens i all ∧ as = all.filterMap fun o => o.found := by
  induction steps generalizing i m as with
  | zero =>
    rw [annotations] at h
    obtain ⟨⟨⟩, rfl⟩ := Prod.mk.inj h
    exact ⟨[], .nil m, .of_end hsteps, rfl⟩
  | succ steps ih =>
    rcases Nat.lt_or_ge i tokens.length with hi | hend
    · have hahead := Window.ahead_atIndex hi
      cases hstarts : startsAnnotation (.atIndex tokens i) with
      | false =>
        rw [result_annotations_skip hahead hstarts, Window.advance_atIndex hi] at h
        obtain ⟨all, hread, hoccupy, hall⟩ := ih (by omega) h
        have hnone : ¬ Token.BeginsName tokens i := fun hbegins => by
          rw [startsAnnotation_of_beginsName hbegins] at hstarts
          cases hstarts
        exact ⟨all, hread, hoccupy.of_skip hnone, hall⟩
      | true =>
        rw [result_annotations_object hahead hstarts] at h
        cases hobject : (object scope target (value scope maxNesting)).result
            (.atIndex tokens i) m with
        | mk outcome k =>
          rw [hobject] at h
          cases outcome with
          | error e => cases h
          | ok found =>
            obtain ⟨found, u⟩ := found
            obtain ⟨bs, hrest, rfl⟩ := eq_of_prepend_eq_ok h
            obtain ⟨o, rfl, rfl, rfl, hread, hbegins⟩ := isRead_of_object hi hstarts hobject
            have hforward := hread.forward
            obtain ⟨all, hlater, hoccupy, rfl⟩ := ih (by omega) hrest
            refine ⟨o :: all, .cons hread hlater, hoccupy.cons hforward hbegins, ?_⟩
            cases hfound : o.found <;> simp [hfound]
    · have hahead : (Window.atIndex tokens i).ahead = [] := List.drop_eq_nil_of_le hend
      rw [result_annotations_end hahead] at h
      obtain ⟨⟨⟩, rfl⟩ := Prod.mk.inj h
      exact ⟨[], .nil m, .of_end hend, rfl⟩

end Reading

end Docblock
