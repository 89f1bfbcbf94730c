import Docblock.Proofs.Grammar.Blank

/-!
# Entries among tokens

An annotation without arguments enters a list by its tokens. It stands alone in empty brackets, has
a comma beside it if there are other items, and brings its parentheses along behind a name that has
none. Then the tokens show the calls with the annotation inserted, whatever list it enters and at
whatever place, if the list leaves room for an annotation.
-/

namespace Docblock

namespace Grammar

open Reading

inductive Surrounds (comma : Token) : List Token → List Token → Prop where
  | nothing : Surrounds comma [] []
  | commaBehind : Surrounds comma [] [comma]
  | commaInFront : Surrounds comma [comma] []
  | parentheses {opener closer : Token} : opener.kind = .openParen → closer.kind = .closeParen →
      Surrounds comma [opener] [closer]

/-- Among the first tokens there is a place where the entry and what surrounds it are put in. -/
def PutIn (comma : Token) (part used more : List Token) : Prop :=
  ∃ front lead trail back, Surrounds comma lead trail ∧ used = front ++ back ∧
    more = front ++ lead ++ part ++ trail ++ back

variable {comma : Token} {part used more : List Token}

theorem PutIn.within (h : PutIn comma part used more) (before after : List Token) :
    PutIn comma part (before ++ used ++ after) (before ++ more ++ after) := by
  obtain ⟨front, lead, trail, back, hsurrounds, rfl, rfl⟩ := h
  exact ⟨before ++ front, lead, trail, back ++ after, hsurrounds, by simp, by simp⟩

theorem PutIn.behind (h : PutIn comma part used more) (before : List Token) :
    PutIn comma part (before ++ used) (before ++ more) := by
  simpa using h.within before []

theorem PutIn.before (h : PutIn comma part used more) (after : List Token) :
    PutIn comma part (used ++ after) (more ++ after) := by
  simpa using h.within [] after

def PutInside (comma : Token) (part used more : List Token) : Prop :=
  ∃ opener closer inner changed, PutIn comma part inner changed ∧
    used = opener :: (inner ++ [closer]) ∧ more = opener :: (changed ++ [closer])

theorem PutInside.putIn (h : PutInside comma part used more) : PutIn comma part used more := by
  obtain ⟨opener, closer, inner, changed, hput, rfl, rfl⟩ := h
  exact hput.within [opener] [closer]

theorem PutInside.lastPassed_eq (h : PutInside comma part used more) (behind : Option Token) :
    lastPassed behind more = lastPassed behind used := by
  obtain ⟨opener, closer, inner, changed, -, rfl, rfl⟩ := h
  simp [lastPassed, lastPassed_append]

/-- Tokens for `a` are turned into tokens for `b`. -/
def Turns {α : Type} (put : List Token → List Token → Prop) (phrase : Phrase α) (a b : α) : Prop :=
  ∀ used, phrase used a → ∃ more, put used more ∧ phrase more b

section Lists

variable {α : Type} {item : Phrase α} {a b : α} {before after : List α}

/-- An item is put in a list at any place, with a comma. -/
theorem turns_separated (hcomma : comma.kind = .comma) (ha : item part a)
    (before after : List α) :
    Turns (PutIn comma part) (Separated item) (before ++ after) (before ++ a :: after) := by
  intro used h
  induction before generalizing used with
  | nil =>
    exact ⟨part ++ comma :: used, ⟨[], [], [comma], used, .commaBehind, by simp, by simp⟩,
      .more ha hcomma h⟩
  | cons b before ih =>
    rw [List.cons_append] at h
    generalize hrest : before ++ after = rest at h ih
    cases h with
    | @last used _ hb =>
      obtain ⟨rfl, rfl⟩ := List.append_eq_nil_iff.1 hrest
      exact ⟨used ++ comma :: part, ⟨used, [comma], [], [], .commaInFront, by simp, by simp⟩,
        .more hb hcomma (.last ha)⟩
    | @trailing used last _ hb hlast =>
      obtain ⟨rfl, rfl⟩ := List.append_eq_nil_iff.1 hrest
      exact ⟨used ++ last :: (part ++ [comma]),
        ⟨used ++ [last], [], [comma], [], .commaBehind, by simp, by simp⟩,
        .more hb hlast (.trailing ha hcomma)⟩
    | @more used others first _ _ hb hfirst hothers =>
      obtain ⟨changed, hput, hchanged⟩ := ih others hothers
      refine ⟨used ++ first :: changed, ?_, .more hb hfirst hchanged⟩
      simpa using hput.behind (used ++ [first])

theorem Turns.separated (h : Turns (PutIn comma part) item a b) (before after : List α) :
    Turns (PutIn comma part) (Separated item) (before ++ a :: after) (before ++ b :: after) := by
  intro used hall
  induction before generalizing used with
  | nil =>
    rw [List.nil_append] at hall
    cases hall with
    | last ha =>
      obtain ⟨changed, hput, hb⟩ := h _ ha
      exact ⟨changed, hput, .last hb⟩
    | @trailing used last _ ha hlast =>
      obtain ⟨changed, hput, hb⟩ := h _ ha
      exact ⟨changed ++ [last], hput.before [last], .trailing hb hlast⟩
    | @more used others first _ _ ha hfirst hothers =>
      obtain ⟨changed, hput, hb⟩ := h _ ha
      exact ⟨changed ++ first :: others, hput.before (first :: others), .more hb hfirst hothers⟩
  | cons c before ih =>
    rw [List.cons_append] at hall
    generalize hrest : before ++ a :: after = rest at hall ih
    cases hall with
    | last | trailing => simp at hrest
    | @more used others first _ _ hc hfirst hothers =>
      obtain ⟨changed, hput, hchanged⟩ := ih others hothers
      refine ⟨used ++ first :: changed, ?_, .more hc hfirst hchanged⟩
      simpa using hput.behind (used ++ [first])

variable {left right : TokenKind}

theorem turns_bracketed (hcomma : comma.kind = .comma) (ha : item part a)
    (before after : List α) :
    Turns (PutInside comma part) (Bracketed left right item) (before ++ after)
      (before ++ a :: after) := by
  intro used h
  generalize hall : before ++ after = all at h
  cases h with
  | @empty opener closer hopen hclose =>
    obtain ⟨rfl, rfl⟩ := List.append_eq_nil_iff.1 hall
    have hput : PutIn comma part [] part := ⟨[], [], [], [], .nothing, by simp, by simp⟩
    exact ⟨opener :: (part ++ [closer]), ⟨opener, closer, [], part, hput, rfl, rfl⟩,
      .items hopen (.last ha) hclose⟩
  | @items opener closer used _ hopen hitems hclose =>
    rw [← hall] at hitems
    obtain ⟨changed, hput, hchanged⟩ := turns_separated hcomma ha before after used hitems
    exact ⟨opener :: (changed ++ [closer]), ⟨opener, closer, used, changed, hput, rfl, rfl⟩,
      .items hopen hchanged hclose⟩

theorem Turns.bracketed (h : Turns (PutIn comma part) item a b) (before after : List α) :
    Turns (PutInside comma part) (Bracketed left right item) (before ++ a :: after)
      (before ++ b :: after) := by
  intro used hbracketed
  generalize hall : before ++ a :: after = all at hbracketed
  cases hbracketed with
  | empty => simp at hall
  | @items opener closer used _ hopen hitems hclose =>
    rw [← hall] at hitems
    obtain ⟨changed, hput, hchanged⟩ := h.separated before after used hitems
    exact ⟨opener :: (changed ++ [closer]), ⟨opener, closer, used, changed, hput, rfl, rfl⟩,
      .items hopen hchanged hclose⟩

end Lists

inductive Bare : Phrase Term where
  | mk {used : List Token} {name : String} : SignedName used name → Bare used (.call name [])

section Terms

variable {value : Phrase Term} {t u : Term}

theorem Turns.entryTerm (h : Turns (PutIn comma part) value t u) (key : Option KeyTerm) :
    Turns (PutIn comma part) (EntryTerm value) (key, t) (key, u) := by
  intro used hentry
  cases hentry with
  | plain ht =>
    obtain ⟨changed, hput, hu⟩ := h _ ht
    exact ⟨changed, hput, .plain hu⟩
  | @keyed first sep _ _ _ hkey hsep ht =>
    obtain ⟨changed, hput, hu⟩ := h _ ht
    exact ⟨first :: sep :: changed, hput.behind [first, sep], .keyed hkey hsep hu⟩

theorem Turns.argumentTerm (h : Turns (PutIn comma part) value t u) (field : Option String) :
    Turns (PutIn comma part) (ArgumentTerm value) (field, t) (field, u) := by
  intro used hargument
  cases hargument with
  | positional ht =>
    obtain ⟨changed, hput, hu⟩ := h _ ht
    exact ⟨changed, hput, .positional hu⟩
  | @named first sep _ _ hfirst hsep ht =>
    obtain ⟨changed, hput, hu⟩ := h _ ht
    exact ⟨first :: sep :: changed, hput.behind [first, sep], .named hfirst hsep hu⟩

end Terms

/-- The second term is the first one with an annotation put in a list, `part` being the tokens of
the entry. So many levels of brackets and signs leave room for the annotation. -/
inductive Enters (passed blank : String → Prop) (denotes : KeyTerm → Prop) (part : List Token) :
    Nat → Term → Term → Prop where
  | entry {room : Nat} {before after : List (Option KeyTerm × Term)} {key : Option KeyTerm}
      {name : String} : blank name → (∀ k ∈ key, denotes k) →
      EntryTerm Bare part (key, .call name []) →
      Enters passed blank denotes part (room + 2) (.collection (before ++ after))
        (.collection (before ++ (key, .call name []) :: after))
  | argument {room : Nat} {caller : String} {before after : List (Option String × Term)}
      {field : Option String} {name : String} : blank name → ¬ passed caller →
      ArgumentTerm Bare part (field, .call name []) →
      Enters passed blank denotes part (room + 2) (.call caller (before ++ after))
        (.call caller (before ++ (field, .call name []) :: after))
  | inEntry {room : Nat} {before after : List (Option KeyTerm × Term)} {key : Option KeyTerm}
      {t u : Term} : Enters passed blank denotes part room t u →
      Enters passed blank denotes part (room + 1) (.collection (before ++ (key, t) :: after))
        (.collection (before ++ (key, u) :: after))
  | inArgument {room : Nat} {caller : String} {before after : List (Option String × Term)}
      {field : Option String} {t u : Term} : Enters passed blank denotes part room t u →
      Enters passed blank denotes part (room + 1) (.call caller (before ++ (field, t) :: after))
        (.call caller (before ++ (field, u) :: after))

variable {passed blank : String → Prop} {denotes : KeyTerm → Prop} {room : Nat}

theorem Enters.inserts {t u : Term} (h : Enters passed blank denotes part room t u) :
    Inserts blank denotes t u := by
  induction h with
  | entry hname hkey => exact .entry hname hkey
  | argument hname => exact .argument hname
  | inEntry _ ih => exact .inEntry ih
  | inArgument _ ih => exact .inArgument ih

theorem written_of_bare (h : Bare used t) : Written passed (room + 1) used t := by
  obtain ⟨hname⟩ := h
  exact .bare hname

/-- Both start with the same two tokens, and what is behind them starts at the same place. -/
structure SameEnds (used more : List Token) : Prop where
  starts : ∀ rest others, (more ++ others).take 2 = (used ++ rest).take 2
  stops : ∀ behind,
    (lastPassed behind more).map Token.stop = (lastPassed behind used).map Token.stop

theorem SignedName.take_append {name : String} (h : SignedName used name)
    (rest others : List Token) : (used ++ others).take 2 = (used ++ rest).take 2 := by
  obtain ⟨-, hpath⟩ := h
  cases hpath
  rfl

theorem Applied.take_append {value : Phrase Term} {call : Call}
    (h : Applied value passed used call) (rest others : List Token) :
    (used ++ others).take 2 = (used ++ rest).take 2 := by
  obtain ⟨hname, -, -⟩ := h
  rw [List.append_assoc, List.append_assoc]
  exact hname.take_append _ _

theorem exists_lastPassed (t : Token) (rest : List Token) :
    ∃ last, lastPassed (some t) rest = some last := by
  induction rest generalizing t with
  | nil => exact ⟨t, rfl⟩
  | cons next rest ih => exact ih next

section Enters

variable (hcomma : comma.kind = .comma)

include hcomma

theorem Enters.collection {entries others : List (Option KeyTerm × Term)}
    (h : Enters passed blank denotes part (room + 1) (.collection entries) (.collection others))
    (ih : ∀ t u, Enters passed blank denotes part room t u →
      Turns (PutIn comma part) (Written passed room) t u) :
    Turns (PutInside comma part)
      (Bracketed .openBrace .closeBrace (EntryTerm (Written passed room))) entries others := by
  cases h with
  | entry _ _ hpart =>
    exact turns_bracketed hcomma (hpart.mono fun _ _ => written_of_bare) _ _
  | inEntry hinner => exact ((ih _ _ hinner).entryTerm _).bracketed _ _

theorem Enters.arguments {name : String} {arguments others : List (Option String × Term)}
    (h : Enters passed blank denotes part (room + 1) (.call name arguments) (.call name others))
    (ih : ∀ t u, Enters passed blank denotes part room t u →
      Turns (PutIn comma part) (Written passed room) t u) :
    Turns (PutInside comma part)
      (Bracketed .openParen .closeParen (ArgumentTerm (Written passed room))) arguments others := by
  cases h with
  | argument _ _ hpart =>
    exact turns_bracketed hcomma (hpart.mono fun _ _ => written_of_bare) _ _
  | inArgument hinner => exact ((ih _ _ hinner).argumentTerm _).bracketed _ _

omit hcomma in
theorem Enters.alone {name : String} {others : List (Option String × Term)}
    (h : Enters passed blank denotes part (room + 1) (.call name []) (.call name others)) :
    ¬ passed name ∧ ∃ a, others = [a] ∧ ArgumentTerm (Written passed room) part a := by
  generalize hnone : Term.call name [] = t at h
  cases h with
  | @argument _ _ before after _ _ _ hnot hpart =>
    injection hnone with hname hlist
    obtain ⟨rfl, rfl⟩ := List.append_eq_nil_iff.1 hlist.symm
    exact ⟨hnot, _, rfl, hpart.mono fun _ _ => written_of_bare⟩
  | inArgument => simp at hnone

theorem Enters.applied {name : String} {arguments others : List (Option String × Term)}
    (h : Enters passed blank denotes part (room + 1) (.call name arguments) (.call name others))
    (ih : ∀ t u, Enters passed blank denotes part room t u →
      Turns (PutIn comma part) (Written passed room) t u)
    (hused : SignedName used name ∧ arguments = [] ∨
      Applied (Written passed room) passed used (name, arguments)) :
    ∃ more, PutIn comma part used more ∧
      Applied (Written passed room) passed more (name, others) ∧ SameEnds used more := by
  obtain ⟨hname, rfl⟩ | hcall := hused
  · obtain ⟨hnot, a, rfl, ha⟩ := h.alone
    obtain ⟨last, hlast⟩ : ∃ last, ∀ behind, lastPassed behind used = some last := by
      obtain ⟨sign, rest, rfl, -⟩ := hname.starts
      obtain ⟨last, hlast⟩ := exists_lastPassed sign rest
      exact ⟨last, fun _ => hlast⟩
    -- The parenthesis that closes stops where the name does, as the token behind asks.
    let opener : Token := ⟨.openParen, "(", .start, last.stop⟩
    let closer : Token := ⟨.closeParen, ")", .start, last.stop⟩
    refine ⟨used ++ opener :: (part ++ [closer]),
      ⟨used, [opener], [closer], [], .parentheses rfl rfl, by simp, by simp⟩,
      .mk hname hnot (.items rfl (.last ha) rfl), ⟨fun rest others => ?_, fun behind => ?_⟩⟩
    · rw [List.append_assoc]
      exact hname.take_append _ _
    · rw [hlast, lastPassed_append, lastPassed, lastPassed_append]
      rfl
  · cases hcall with
    | @mk signed used _ _ hname hnot harguments =>
      obtain ⟨changed, hput, hchanged⟩ := h.arguments hcomma ih used harguments
      refine ⟨signed ++ changed, hput.putIn.behind signed, .mk hname hnot hchanged,
        ⟨fun rest others => ?_, fun behind => ?_⟩⟩
      · rw [List.append_assoc, List.append_assoc]
        exact hname.take_append _ _
      · rw [lastPassed_append, lastPassed_append, hput.lastPassed_eq]

/-- A term turns into the one with the annotation, whatever list of it the entry enters. -/
theorem Enters.turns {t u : Term} (h : Enters passed blank denotes part room t u) :
    Turns (PutIn comma part) (Written passed room) t u := by
  induction room generalizing t u with
  | zero => cases h
  | succ room ih =>
    have hcollection {entries others : List (Option KeyTerm × Term)}
        (h : Enters passed blank denotes part (room + 1) (.collection entries)
          (.collection others)) :
        Turns (PutIn comma part) (Written passed (room + 1)) (.collection entries)
          (.collection others) := by
      intro used hused
      cases hused with
      | leaf hleaf => exact (not_leaf_collection hleaf).elim
      | collection hentries =>
        obtain ⟨more, hput, hmore⟩ := h.collection hcomma (fun _ _ => ih) used hentries
        exact ⟨more, hput.putIn, .collection hmore⟩
    have hcall {name : String} {arguments others : List (Option String × Term)}
        (h : Enters passed blank denotes part (room + 1) (.call name arguments)
          (.call name others)) :
        Turns (PutIn comma part) (Written passed (room + 1)) (.call name arguments)
          (.call name others) := by
      intro used hused
      have happlied : SignedName used name ∧ arguments = [] ∨
          Applied (Written passed room) passed used (name, arguments) := by
        cases hused with
        | leaf hleaf => exact (not_leaf_call hleaf).elim
        | bare hname => exact .inl ⟨hname, rfl⟩
        | applied hcall => exact .inr hcall
      obtain ⟨more, hput, hmore, -⟩ := h.applied hcomma (fun _ _ => ih) happlied
      exact ⟨more, hput, .applied hmore⟩
    cases h with
    | entry hname hkey hpart => exact hcollection (.entry hname hkey hpart)
    | inEntry hinner => exact hcollection (.inEntry hinner)
    | argument hname hnot hpart => exact hcall (.argument hname hnot hpart)
    | inArgument hinner => exact hcall (.inArgument hinner)

end Enters

/-- The calls with an entry put in a list of one of them. -/
def DocumentEnters (passed blank : String → Prop) (denotes : KeyTerm → Prop) (part : List Token)
    (calls more : List Call) : Prop :=
  ∃ before name arguments others after, calls = before ++ (name, arguments) :: after ∧
    more = before ++ (name, others) :: after ∧
    Enters passed blank denotes part (maxNesting + 1) (.call name arguments) (.call name others)

theorem DocumentEnters.inserts {calls more : List Call}
    (h : DocumentEnters passed blank denotes part calls more) :
    DocumentInserts blank denotes calls more := by
  obtain ⟨before, name, arguments, others, after, hcalls, hmore, henters⟩ := h
  exact ⟨before, name, arguments, others, after, hcalls, hmore, henters.inserts⟩

theorem DocumentEnters.ne_nil {calls more : List Call}
    (h : DocumentEnters passed blank denotes part calls more) : calls ≠ [] := by
  obtain ⟨before, name, arguments, others, after, rfl, -, -⟩ := h
  simp

theorem head?_of_take {ts us : List Token} (h : ts.take 2 = us.take 2) : ts.head? = us.head? := by
  cases ts <;> cases us <;> simp_all

theorem startsAnnotation_of_take {behind : Option Token} {ts us : List Token}
    (h : ts.take 2 = us.take 2) :
    startsAnnotation ⟨behind, ts⟩ = startsAnnotation ⟨behind, us⟩ := by
  unfold startsAnnotation
  rcases ts with _ | ⟨t, _ | ⟨next, ts⟩⟩ <;> rcases us with _ | ⟨u, _ | ⟨other, us⟩⟩ <;> simp_all

theorem separatorFollows_of_head {behind : Option Token} {ts us : List Token}
    (h : ts.head? = us.head?) : separatorFollows ⟨behind, ts⟩ = separatorFollows ⟨behind, us⟩ := by
  simp [separatorFollows, Window.lookahead, h]

theorem startsAnnotation_of_stop {behind other : Option Token} (ts : List Token)
    (h : other.map Token.stop = behind.map Token.stop) :
    startsAnnotation ⟨other, ts⟩ = startsAnnotation ⟨behind, ts⟩ := by
  unfold startsAnnotation
  cases other <;> cases behind <;> simp_all [Token.isAdjacent]

/-- Of the token in front of a text no more matters than where it stops. -/
theorem Document.of_stop {behind other : Option Token} {tokens : List Token} {calls : List Call}
    (h : Document passed behind tokens calls)
    (hstop : other.map Token.stop = behind.map Token.stop) :
    Document passed other tokens calls := by
  cases h with
  | nil => exact .nil other
  | skip hstarts hrest =>
    exact .skip (by rw [startsAnnotation_of_stop _ hstop, hstarts]) hrest
  | bare hstarts hname hends hparen hrest =>
    rw [← startsAnnotation_of_stop _ hstop] at hstarts
    obtain ⟨sign, rest, rfl, -⟩ := hname.starts
    exact .bare hstarts hname hends hparen hrest
  | applied hstarts hcall hrest =>
    rw [← startsAnnotation_of_stop _ hstop] at hstarts
    obtain ⟨sign, rest, rfl, -⟩ := hcall.starts
    exact .applied hstarts hcall hrest

/-- The tokens of a text show the calls with the annotation once the entry is put in. -/
theorem Document.enters (hcomma : comma.kind = .comma) {behind : Option Token}
    {tokens : List Token} {calls more : List Call} (h : Document passed behind tokens calls)
    (henters : DocumentEnters passed blank denotes part calls more) :
    ∃ changed, PutIn comma part tokens changed ∧ Document passed behind changed more ∧
      changed.head? = tokens.head? := by
  obtain ⟨before, name, arguments, others, after, hcalls, rfl, henters⟩ := henters
  have hhere {behind : Option Token} {used rest : List Token}
      (hstarts : startsAnnotation ⟨behind, used ++ rest⟩ = true)
      (hused : SignedName used name ∧ arguments = [] ∨
        Applied (Written passed maxNesting) passed used (name, arguments))
      (hrest : Document passed (lastPassed behind used) rest after) :
      ∃ changed, PutIn comma part (used ++ rest) changed ∧
        Document passed behind changed ((name, others) :: after) ∧
        changed.head? = (used ++ rest).head? := by
    obtain ⟨more, hput, hmore, hends⟩ :=
      henters.applied hcomma (fun _ _ h => h.turns hcomma) hused
    have hshown := hrest.of_stop (hends.stops behind)
    refine ⟨more ++ rest, hput.before rest, .applied ?_ hmore hshown, ?_⟩
    · rw [startsAnnotation_of_take (hends.starts rest rest), hstarts]
    · exact head?_of_take (hends.starts rest rest)
  induction h generalizing before with
  | nil => simp at hcalls
  | @skip behind t rest calls hstarts _ ih =>
    obtain ⟨changed, hput, hdocument, hhead⟩ := ih before hcalls
    refine ⟨t :: changed, hput.behind [t], .skip ?_ hdocument, rfl⟩
    rw [← hstarts]
    refine startsAnnotation_of_take ?_
    cases changed <;> cases rest <;> simp_all
  | @bare behind used rest called calls hstarts hname hends hparen hrest ih =>
    cases before with
    | nil =>
      obtain ⟨hcall, rfl⟩ := List.cons.inj hcalls
      obtain ⟨rfl, rfl⟩ := Prod.mk.inj hcall
      exact hhere hstarts (.inl ⟨hname, rfl⟩) hrest
    | cons first before =>
      obtain ⟨rfl, hlater⟩ := List.cons.inj hcalls
      obtain ⟨changed, hput, hdocument, hhead⟩ := ih before hlater
      have htake := hname.take_append rest changed
      refine ⟨used ++ changed, hput.behind used, .bare ?_ hname ?_ ?_ hdocument,
        head?_of_take htake⟩
      · rw [startsAnnotation_of_take htake, hstarts]
      · rw [separatorFollows_of_head hhead, hends]
      · rwa [hhead]
  | @applied behind used rest call calls hstarts hcall hrest ih =>
    cases before with
    | nil =>
      obtain ⟨rfl, rfl⟩ := List.cons.inj hcalls
      exact hhere hstarts (.inr hcall) hrest
    | cons first before =>
      obtain ⟨rfl, hlater⟩ := List.cons.inj hcalls
      obtain ⟨changed, hput, hdocument, hhead⟩ := ih before hlater
      have htake := hcall.take_append rest changed
      refine ⟨used ++ changed, hput.behind used, .applied ?_ hcall hdocument, head?_of_take htake⟩
      rw [startsAnnotation_of_take htake, hstarts]

end Grammar

end Docblock
