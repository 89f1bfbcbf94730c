import Docblock.Proofs.Value.Spelling

/-!
# Reading written values

Tokens that spell a value are read as the value they are reread as, if there is room for its arrays
inside one another. If there is not, reading fails at the brace that goes too deep.
-/

namespace Docblock

namespace Grammar

theorem value_of_plain {scope : Scope} {used : List Token} {v : Docblock.Value}
    (h : Plain scope used v) (depth : Nat) : Value scope depth used v := by
  cases depth with
  | zero => exact h
  | succ depth => exact .inl h

end Grammar

namespace Value

open Grammar (Separated Entry EntryKey Collection)

variable {scope : Scope}

theorem entryKey_of_spells {t : Token} {key : Key} (h : SpellsKey t key) (hkey : key.IsWritable) :
    EntryKey scope t key := by
  cases h with
  | int hkind htext =>
    have hliteral : EntryKey scope t (.ofString t.text) := .literal (.inl hkind)
    rw [htext, Key.ofString_machineText] at hliteral
    exact hliteral
  | @text name hkind htext =>
    have hliteral : EntryKey scope t (.ofString t.text) := .literal (.inr hkind)
    have hname : Key.ofString name = .text name := hkey
    rw [htext, hname] at hliteral
    exact hliteral

theorem entry_of_spells {depth : Nat} {listing : Bool} {key : Key} {v : Value} {used : List Token}
    (h : SpellsEntry listing key v used) (hkey : key.IsWritable)
    (hvalue : ∀ inner, Spells v inner → Grammar.Value scope depth inner v.reread) :
    Entry scope (Grammar.Value scope depth) used
      (if listing then none else some key, v.reread) := by
  cases h with
  | listed hv => exact .plain (hvalue _ hv)
  | keyed ht hsep hv => exact .keyed (entryKey_of_spells ht hkey) (.inr hsep) (hvalue _ hv)

mutual

/-- What a written value is scanned into is a phrase for the value. -/
theorem value_of_spells : (v : Value) → v.IsWritable → (used : List Token) → Spells v used →
    (depth : Nat) → v.nesting ≤ depth → Grammar.Value scope depth used v.reread
  | null, _, used, h, depth, _ => by
    cases h with
    | null hkind => exact Grammar.value_of_plain (.nullWord hkind) depth
  | bool b, _, used, h, depth, _ => by
    cases h with
    | trueWord hkind => exact Grammar.value_of_plain (.trueWord hkind) depth
    | falseWord hkind => exact Grammar.value_of_plain (.falseWord hkind) depth
  | int n, _, used, h, depth, _ => by
    cases h with
    | @int t n hkind htext =>
      have hplain : Grammar.Plain scope [t] _ := .integer hkind
      rw [htext, String.toList_ofList, Decimal.readSaturating_machineText] at hplain
      exact Grammar.value_of_plain hplain depth
  | string s, _, used, h, depth, _ => by
    cases h with
    | @string t s hkind htext =>
      have hplain : Grammar.Plain scope [t] _ := .string hkind
      rw [htext] at hplain
      exact Grammar.value_of_plain hplain depth
  | array ⟨entries, next⟩, hv, used, h, depth, hdepth => by
    unfold nesting at hdepth
    unfold IsWritable at hv
    cases depth with
    | zero => omega
    | succ depth =>
      cases h with
      | array hopen hentries hclose =>
        cases entries with
        | nil =>
          cases hentries
          unfold reread rereadEntries
          exact .inr ⟨_, .empty hopen hclose, rfl⟩
        | cons entry rest =>
          have hall := separated_of_spells (isListing (entry :: rest)) (entry :: rest) hv.2
            (List.cons_ne_nil entry rest) _ hentries depth (by omega)
          unfold reread
          exact .inr ⟨_, .entries hopen hall hclose, rfl⟩
  | float _, hv, _, _, _, _ => by
    unfold IsWritable at hv
    exact hv.elim
  | object _ _, hv, _, _, _, _ => by
    unfold IsWritable at hv
    exact hv.elim

theorem separated_of_spells : (listing : Bool) → (entries : List (Key × Value)) →
    EntriesWritable entries → entries ≠ [] → (used : List Token) →
    SpellsEntries listing entries used → (depth : Nat) → entriesNesting entries ≤ depth →
    Separated (Entry scope (Grammar.Value scope depth)) used (rereadEntries listing entries)
  | _, [], _, hne, _, _, _, _ => absurd rfl hne
  | listing, (key, v) :: rest, hw, _, used, h, depth, hdepth => by
    unfold EntriesWritable at hw
    unfold entriesNesting at hdepth
    have hvalue (inner : List Token) (hinner : Spells v inner) :=
      value_of_spells v hw.2.1 inner hinner depth (by omega)
    unfold rereadEntries
    cases h with
    | last hentry =>
      unfold rereadEntries
      exact .last (entry_of_spells hentry hw.1 hvalue)
    | more hentry hcomma hne hrest =>
      exact .more (entry_of_spells hentry hw.1 hvalue) hcomma
        (separated_of_spells listing rest hw.2.2 hne _ hrest depth (by omega))

end

end Value

namespace Reading

variable {scope : Scope} {α β : Type} {w u : Window}

def Fails (scope : Scope) (x : Reading α) (w : Window) : Prop :=
  ∀ m, m.Knows scope.registry → ∃ e n, x.result w m = (.error e, n) ∧ e.IsUnexpected

theorem fails_unexpected (expected : Expectation) :
    Fails scope (unexpected scope expected : Reading α) w :=
  fun m _ => ⟨_, m, rfl, _, _, _, rfl⟩

theorem fails_bind {x : Reading α} {f : α → Reading β} (h : Fails scope x w) :
    Fails scope (x >>= f) w := by
  intro m hm
  obtain ⟨e, n, hrun, he⟩ := h m hm
  exact ⟨e, n, result_bind_error hrun, he⟩

theorem fails_takes_bind {x : Reading α} {f : α → Reading β} {a : α} (hx : Takes scope x w a u)
    (hf : Fails scope (f a) u) : Fails scope (x >>= f) w := by
  intro m hm
  obtain ⟨n, hn, hrun⟩ := hx m hm
  rw [result_bind_ok hrun]
  exact hf n hn

theorem fails_get_bind {f : Window → Reading β} (h : Fails scope (f w) w) :
    Fails scope (get >>= f) w := h

end Reading

namespace Value

open Reading Grammar

variable {scope : Scope} {behind : Option Token} {rest : List Token}

/-- Behind a comma further items fail if the first of them does, or the ones after it. -/
theorem fails_moreItems {α : Type} {x : Reading α} {closer : TokenKind} {comma first : Token}
    {used : List Token} {steps : Nat} (hcomma : comma.kind = .comma) (hfirst : first.kind ≠ closer)
    (h : Fails scope (do let a ← x; let others ← moreItems closer x steps; return a :: others)
      ⟨some comma, first :: used⟩) :
    Fails scope (moreItems closer x (steps + 1)) ⟨behind, comma :: first :: used⟩ := by
  refine fails_takes_bind (takes_isNext hcomma) ?_
  refine fails_takes_bind takes_skip ?_
  exact fails_takes_bind (takes_isNext_of_ne hfirst) h

theorem fails_entry {room : Nat} {listing : Bool} {key : Key} {v : Value} {used : List Token}
    (h : SpellsEntry listing key v used) (hkey : key.IsWritable) (hv : v.IsWritable)
    (hrest : Ends rest)
    (hfails : ∀ behind inner, Spells v inner →
      Fails scope (Reading.value scope room) ⟨behind, inner ++ rest⟩) :
    Fails scope (entry scope (Reading.value scope room)) ⟨behind, used ++ rest⟩ := by
  cases h with
  | listed hspells =>
    have hphrase : Grammar.Value scope v.nesting used v.reread :=
      value_of_spells v hv used hspells v.nesting (Nat.le_refl _)
    have hglimpse : (Window.glimpse ⟨behind, used ++ rest⟩).any
        (fun t => keySeparators.contains t.kind) = false := by
      change ((used ++ rest)[1]?).any _ = false
      cases hsecond : (used ++ rest)[1]? with
      | none => rfl
      | some t =>
        obtain ⟨hequals, hcolon⟩ := unassigned_value _ _ _ hphrase rest hrest t hsecond
        simp [keySeparators, hequals, hcolon]
    refine fails_get_bind ?_
    rw [hglimpse]
    exact fails_bind (hfails behind used hspells)
  | @keyed key v t sep used ht hsep hspells =>
    have hkinds : keySeparators.contains sep.kind = true := by
      rw [hsep]
      rfl
    have hname : EndsName (sep :: (used ++ rest)) := by
      intro other hother
      obtain rfl : sep = other := by simpa using hother
      rw [hsep]
      exact TokenKind.noConfusion
    have hglimpse : (Window.glimpse ⟨behind, t :: sep :: used ++ rest⟩).any
        (fun t => keySeparators.contains t.kind) = true := hkinds
    refine fails_get_bind ?_
    rw [hglimpse]
    refine fails_takes_bind (takes_entryKey (entryKey_of_spells ht hkey) hname) ?_
    refine fails_takes_bind (takes_expectAny hkinds) ?_
    exact fails_bind (hfails (some sep) used hspells)

theorem starts_entries (scope : Scope) {listing : Bool} {entries : List (Key × Value)}
    {used : List Token} (hw : EntriesWritable entries) (hne : entries ≠ [])
    (h : SpellsEntries listing entries used) :
    ∃ first tail, used = first :: tail ∧ first.kind ≠ .closeBrace := by
  have hcloser : endsValue .closeBrace = true := rfl
  have hstarts : Starts (Entry scope (Grammar.Value scope (entriesNesting entries))) startsValue :=
    starts_entry (starts_value scope _)
  exact (starts_separated hstarts).ne_closer hcloser
    (separated_of_spells listing entries hw hne used h _ (Nat.le_refl _))

/-- One item, and more behind commas, at most as many as the window after it allows. -/
def someItems {α : Type} (closer : TokenKind) (x : Reading α) (steps : Window → Nat) :
    Reading (List α) := do
  let a ← x
  let others ← moreItems closer x (steps (← get))
  return a :: others

mutual

/-- A value is not read if its arrays go deeper than there is room. -/
theorem fails_value : (v : Value) → v.IsWritable → (used rest : List Token) → Spells v used →
    Ends rest → (room : Nat) → room < v.nesting → (behind : Option Token) →
    Fails scope (Reading.value scope room) ⟨behind, used ++ rest⟩
  | array ⟨entries, next⟩, hv, used, rest, h, _, room, hroom, behind => by
    unfold nesting at hroom
    unfold IsWritable at hv
    cases h with
    | @array opener closer used _ _ hopen hentries hclose =>
      have hbrace {collection : Reading (OrderedMap Value)} {object : Reading (Option Annotation)}
          (hcollection : Fails scope collection ⟨behind, opener :: (used ++ [closer]) ++ rest⟩) :
          Fails scope (valueWith scope collection object)
            ⟨behind, opener :: (used ++ [closer]) ++ rest⟩ := by
        change Fails scope (valueAt scope collection object opener) _
        unfold valueAt
        rw [hopen]
        exact fails_bind hcollection
      cases room with
      | zero => exact hbrace (fails_unexpected _)
      | succ room =>
        refine hbrace ?_
        have hne : entries ≠ [] := by
          rintro rfl
          unfold entriesNesting at hroom
          omega
        have hshape : opener :: (used ++ [closer]) ++ rest =
            opener :: (used ++ closer :: rest) := by
          simp
        have hsome : Takes scope (isNext .closeBrace) ⟨some opener, used ++ closer :: rest⟩ false
            ⟨some opener, used ++ closer :: rest⟩ := by
          obtain ⟨first, tail, hused, hfirst⟩ := starts_entries scope hv.2 hne hentries
          rw [hused]
          exact takes_isNext_of_ne hfirst
        rw [hshape]
        refine fails_takes_bind (takes_expect hopen) ?_
        refine fails_takes_bind hsome ?_
        exact fails_bind (fails_entries (isListing entries) entries hv.2 used hentries closer rest
          hclose room (fun w => w.ahead.length) (by omega) (fun _ _ => Nat.le_refl _) (some opener))
  | null, _, _, _, _, _, _, hroom, _ => by
    unfold nesting at hroom
    omega
  | bool _, _, _, _, _, _, _, hroom, _ => by
    unfold nesting at hroom
    omega
  | int _, _, _, _, _, _, _, hroom, _ => by
    unfold nesting at hroom
    omega
  | string _, _, _, _, _, _, _, hroom, _ => by
    unfold nesting at hroom
    omega
  | float _, _, _, _, _, _, _, hroom, _ => by
    unfold nesting at hroom
    omega
  | object _ _, _, _, _, _, _, _, hroom, _ => by
    unfold nesting at hroom
    omega

theorem fails_entries : (listing : Bool) → (entries : List (Key × Value)) →
    EntriesWritable entries → (used : List Token) → SpellsEntries listing entries used →
    (closer : Token) → (rest : List Token) → closer.kind = .closeBrace → (room : Nat) →
    (steps : Window → Nat) → room < entriesNesting entries →
    (∀ w, w.ahead.length ≤ (used ++ closer :: rest).length → w.ahead.length ≤ steps w) →
    (behind : Option Token) →
    Fails scope (someItems .closeBrace (entry scope (Reading.value scope room)) steps)
      ⟨behind, used ++ closer :: rest⟩
  | _, [], _, _, _, _, _, _, _, _, hroom, _, _ => by
    unfold entriesNesting at hroom
    omega
  | listing, (key, v) :: more, hw, used, h, closer, rest, hcloser, room, steps, hroom, hsteps,
      behind => by
    unfold entriesNesting at hroom
    unfold EntriesWritable at hw
    have hends : Ends (closer :: rest) := ends_cons (by rw [hcloser]; rfl)
    by_cases hdeep : room < v.nesting
    · cases h with
      | last hentry =>
        exact fails_bind (fails_entry hentry hw.1 hw.2.1 hends fun behind inner hinner =>
          fails_value v hw.2.1 inner _ hinner hends room hdeep behind)
      | @more _ _ _ _ comma used others hentry hcomma hne hmore =>
        have hcommas : Ends (comma :: (others ++ closer :: rest)) :=
          ends_cons (by rw [hcomma]; rfl)
        rw [List.append_assoc]
        exact fails_bind (fails_entry hentry hw.1 hw.2.1 hcommas fun behind inner hinner =>
          fails_value v hw.2.1 inner _ hinner hcommas room hdeep behind)
    · cases h with
      | last hentry =>
        unfold entriesNesting at hroom
        omega
      | @more _ _ _ _ comma used others hentry hcomma hne hmore =>
        have hcommas : Ends (comma :: (others ++ closer :: rest)) :=
          ends_cons (by rw [hcomma]; rfl)
        have hphrase : Entry scope (Grammar.Value scope room) used
            (if listing then none else some key, v.reread) :=
          entry_of_spells hentry hw.1 fun inner hinner =>
            value_of_spells v hw.2.1 inner hinner room (by omega)
        have htaken := takes_entry (takes_value room) (unassigned_value room) behind used
          (comma :: (others ++ closer :: rest)) _ hphrase hcommas
        obtain ⟨first, tail, hothers, hfirst⟩ := starts_entries scope hw.2.2 hne hmore
        have hlength : (others ++ closer :: rest).length <
            steps ⟨lastPassed behind used, comma :: (others ++ closer :: rest)⟩ := by
          have henough := hsteps ⟨lastPassed behind used, comma :: (others ++ closer :: rest)⟩
            (by simp only [List.length_append, List.length_cons]; omega)
          simp only [List.length_cons] at henough
          omega
        rw [List.append_assoc]
        refine fails_takes_bind htaken (fails_get_bind (fails_bind ?_))
        cases hn : steps ⟨lastPassed behind used, comma :: (others ++ closer :: rest)⟩ with
        | zero => omega
        | succ fewer =>
          have hlater := fails_entries listing more hw.2.2 others hmore closer rest hcloser room
            (fun _ => fewer) (by omega) (fun w hw => by omega) (some comma)
          subst hothers
          exact fails_moreItems hcomma hfirst hlater

end

end Value

end Docblock
