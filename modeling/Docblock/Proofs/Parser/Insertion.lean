import Docblock.Proofs.Grammar.Entering
import Docblock.Proofs.Parser.Layout
import Docblock.Proofs.Parser.Occurrences
import Docblock.Proofs.Parser.Shown

/-!
# Annotations that leave no trace

Wherever an annotation whose name stands for nothing and is to be ignored is inserted in a list of
arguments or a collection, the text goes on to be read as the same annotations.
-/

namespace Docblock

open Grammar Reading

namespace Parser

variable {registry : Registry} {names : List String} {p : Parser} {context input : String}

/-- The name stands for nothing and is to be ignored. -/
def Ignores (p : Parser) (name : String) : Prop :=
  p.settings.annotationClass? p.registry name = none ∧ p.settings.isIgnored name = true

theorem passesOver_of_ignores {name : String} (h : p.Ignores name) (context : String) :
    p.PassesOver context name := by
  unfold PassesOver Settings.verdict
  rw [h.1, h.2]
  rfl

theorem documentMeaning_ignored (p : Parser) (names : List String) (context : String)
    {calls more : List Call} (hinserts : DocumentInserts p.Ignores KeyTerm.IsLiteral calls more)
    (hwritten : ∀ call ∈ more, ∀ a ∈ call.2,
      ∃ used, Written (p.PassesOver context) maxNesting used a.2) :
    documentMeaning (scratchScope p.registry names p.settings context) p.settings.target more =
      documentMeaning (scratchScope p.registry names p.settings context) p.settings.target
        calls := by
  have hblank (name : String) (hname : p.Ignores name) :
      (scratchScope p.registry names p.settings context).schemaFor name = .ok none := by
    rw [schemaFor_scratchScope]
    exact passesOver_of_ignores hname context
  have hdenotes (key : KeyTerm) (hkey : key.IsLiteral) :
      ∃ denoted, key.meaning (scratchScope p.registry names p.settings context) = .ok denoted := by
    cases key with
    | literal text => exact ⟨_, rfl⟩
    | constant name => exact hkey.elim
  exact documentMeaning_inserts hblank hdenotes p.settings.target hinserts hwritten

/-- What is inserted changes neither the annotations of a text nor the error that is met. -/
theorem Faithful.parse_of_inserts (h : p.Faithful registry names) {other : String}
    {calls more : List Call} (hcalls : p.Shows context input calls)
    (hinserts : DocumentInserts p.Ignores KeyTerm.IsLiteral calls more)
    (hmore : p.Shows context other more) :
    (p.parse other context).1 = (p.parse input context).1 := by
  rw [h.parse_of_shows hcalls, h.parse_of_shows hmore]
  obtain rfl := h.registry_eq
  exact documentMeaning_ignored p names context hinserts hmore.exists_used

/-- The text has these tokens, wherever they stand in it. -/
def HasTokens (input : String) (tokens : List Token) : Prop :=
  ∃ body, DocText.body? input = some body ∧ Glyph.ofText body.toList = Glyph.ofTokens none tokens

theorem Shows.exists_tokens {calls : List Call} (h : p.Shows context input calls)
    (hsome : calls ≠ []) :
    ∃ tokens, HasTokens input tokens ∧ Document (p.PassesOver context) none tokens calls := by
  unfold Shows at h
  cases hbody : DocText.body? input with
  | none =>
    rw [hbody] at h
    exact absurd h hsome
  | some body =>
    rw [hbody] at h
    exact ⟨Token.scan body, ⟨body, hbody, rfl⟩, h⟩

/-- A text with tokens that show calls is read as the annotations that they mean. -/
theorem Faithful.parse_of_tokens (h : p.Faithful registry names) {tokens : List Token}
    {calls : List Call} {as : List Annotation}
    (hdocument : Document (p.PassesOver context) none tokens calls)
    (hmeaning : documentMeaning (scratchScope registry names p.settings context)
      p.settings.target calls = .ok as) (htokens : HasTokens input tokens) :
    (p.parse input context).1 = .ok as := by
  obtain ⟨body, hbody, hglyphs⟩ := htokens
  obtain rfl := h.registry_eq
  have hpassed := schemaFor_scratchScope p.registry names p.settings context
  have hanswers : Answers (scratchScope p.registry names p.settings context)
      (annotations (scratchScope p.registry names p.settings context) p.settings.target
        tokens.length) (.ofTokens tokens) (.ok as) ⟨lastPassed none tokens, []⟩ := by
    rw [← hmeaning]
    exact answers_document (settled_scratchScope p.registry names p.settings context) hpassed
      hdocument (Nat.le_refl _)
  obtain ⟨n, -, hrun⟩ := hanswers .initial (Memory.knows_initial p.registry)
  have hsame : Glyph.ofTokens none tokens = Glyph.ofTokens none (Token.scan body) := hglyphs.symm
  obtain ⟨hanswer, -, -⟩ := matches_annotations
    (scratchScope p.registry names p.settings context) p.settings.target hsame .initial trivial
  unfold Reading.result at hrun
  rw [h.parse_eq, result_readDoc hbody]
  unfold Reading.result
  rw [hrun] at hanswer
  generalize Lookup.result ((annotations (scratchScope p.registry names p.settings context)
    p.settings.target (Token.scan body).length).run (.ofTokens (Token.scan body))) .initial =
      outcome at hanswer ⊢
  obtain ⟨answer, m⟩ := outcome
  cases answer with
  | ok found =>
    obtain rfl : as = found.1 := hanswer
    rfl
  | error e => exact hanswer.elim

/-- An entry can be put in wherever a list has room for it, and every text with the tokens that
result is read as before. -/
theorem Faithful.parse_of_enters (h : p.Faithful registry names) {as : List Annotation}
    (hparse : (p.parse input context).1 = .ok as) {calls more : List Call} {part : List Token}
    {comma : Token} (hcalls : p.Shows context input calls)
    (henters : DocumentEnters (p.PassesOver context) p.Ignores KeyTerm.IsLiteral part calls more)
    (hcomma : comma.kind = .comma) :
    ∃ tokens changed, HasTokens input tokens ∧ PutIn comma part tokens changed ∧
      Document (p.PassesOver context) none changed more ∧
      ∀ other, HasTokens other changed → (p.parse other context).1 = .ok as := by
  obtain rfl := h.registry_eq
  obtain ⟨tokens, htokens, hdocument⟩ := hcalls.exists_tokens henters.ne_nil
  obtain ⟨changed, hput, hchanged, -⟩ := hdocument.enters hcomma henters
  have hmeaning : documentMeaning (scratchScope p.registry names p.settings context)
      p.settings.target more = .ok as := by
    rw [documentMeaning_ignored p names context henters.inserts hchanged.exists_used,
      ← h.parse_of_shows hcalls, hparse]
  exact ⟨tokens, changed, htokens, hput, hchanged,
    fun other hother => h.parse_of_tokens hchanged hmeaning hother⟩

/-- A text that is read shows calls, and it is read as the same annotations with anything ignored
inserted in an argument list or a collection of a call, at any depth and in any position. The tokens
of an entry can be put in there, with a comma where there are other items. -/
theorem parse_inserts (hreachable : Reachable registry p) {as : List Annotation}
    (hparse : (p.parse input context).1 = .ok as) :
    (∃ calls, p.Shows context input calls) ∧
      (∀ calls more other, p.Shows context input calls →
        DocumentInserts p.Ignores KeyTerm.IsLiteral calls more → p.Shows context other more →
        (p.parse other context).1 = .ok as) ∧
      ∀ calls more part comma, p.Shows context input calls →
        DocumentEnters (p.PassesOver context) p.Ignores KeyTerm.IsLiteral part calls more →
        comma.kind = .comma →
        ∃ tokens changed, HasTokens input tokens ∧ PutIn comma part tokens changed ∧
          Document (p.PassesOver context) none changed more ∧
          ∀ other, HasTokens other changed → (p.parse other context).1 = .ok as := by
  obtain ⟨names, hfaithful⟩ := hreachable.faithful
  refine ⟨hfaithful.exists_shows hparse, fun calls more other hcalls hinserts hmore => ?_,
    fun calls more part comma hcalls henters hcomma =>
      hfaithful.parse_of_enters hparse hcalls henters hcomma⟩
  rw [hfaithful.parse_of_inserts hcalls hinserts hmore, hparse]

def listedSource : String := "@\\Name(\x7b1\x7d)"

def listedMoreSource : String := "@\\Name(\x7b1, \"k\" = @todo\x7d)"

def listedCalls (more : List (Option KeyTerm × Term)) : List Call :=
  [("\\Name", [(none, .collection ((none, .literal (.int 1)) :: more))])]

def todoEntry : Option KeyTerm × Term := (some (.literal "k"), .call "todo" [])

theorem not_passesOver_name : ¬ todoParser.PassesOver "" "\\Name" := by
  unfold PassesOver
  decide

theorem todoParser_ignores : todoParser.Ignores "todo" := by
  unfold Ignores
  decide

theorem shows_listed : todoParser.Shows "" listedSource (listedCalls []) := by
  have hbody : DocText.body? listedSource = some listedSource := by decide
  have hscan : Token.scan listedSource = [⟨.atSign, "@", ⟨0, 1, 1⟩, 1⟩,
      ⟨.qualifiedName, "\\Name", ⟨1, 1, 2⟩, 6⟩, ⟨.openParen, "(", ⟨6, 1, 7⟩, 7⟩,
      ⟨.openBrace, "\x7b", ⟨7, 1, 8⟩, 8⟩, ⟨.integer, "1", ⟨8, 1, 9⟩, 9⟩,
      ⟨.closeBrace, "\x7d", ⟨9, 1, 10⟩, 10⟩, ⟨.closeParen, ")", ⟨10, 1, 11⟩, 11⟩] := by
    cbv
  unfold Shows
  rw [hbody]
  dsimp only
  rw [hscan]
  have hcollection : Written (todoParser.PassesOver "") maxNesting
      (⟨.openBrace, "\x7b", ⟨7, 1, 8⟩, 8⟩ :: ([⟨.integer, "1", ⟨8, 1, 9⟩, 9⟩] ++
        [⟨.closeBrace, "\x7d", ⟨9, 1, 10⟩, 10⟩]))
      (.collection [(none, .literal (.int 1))]) :=
    .collection (.items rfl (.last (.plain (.leaf (.literal (.integer rfl))))) rfl)
  exact document_single rfl rfl not_passesOver_name (.last (.positional hcollection))

theorem shows_listedMore :
    todoParser.Shows "" listedMoreSource (listedCalls [todoEntry]) := by
  have hbody : DocText.body? listedMoreSource = some listedMoreSource := by decide
  have hscan : Token.scan listedMoreSource = [⟨.atSign, "@", ⟨0, 1, 1⟩, 1⟩,
      ⟨.qualifiedName, "\\Name", ⟨1, 1, 2⟩, 6⟩, ⟨.openParen, "(", ⟨6, 1, 7⟩, 7⟩,
      ⟨.openBrace, "\x7b", ⟨7, 1, 8⟩, 8⟩, ⟨.integer, "1", ⟨8, 1, 9⟩, 9⟩,
      ⟨.comma, ",", ⟨9, 1, 10⟩, 10⟩, ⟨.string, "k", ⟨11, 1, 12⟩, 14⟩,
      ⟨.equals, "=", ⟨15, 1, 16⟩, 16⟩, ⟨.atSign, "@", ⟨17, 1, 18⟩, 18⟩,
      ⟨.identifier, "todo", ⟨18, 1, 19⟩, 22⟩, ⟨.closeBrace, "\x7d", ⟨22, 1, 23⟩, 23⟩,
      ⟨.closeParen, ")", ⟨23, 1, 24⟩, 24⟩] := by
    cbv
  unfold Shows
  rw [hbody]
  dsimp only
  rw [hscan]
  have htodo : Written (todoParser.PassesOver "") 63
      [⟨.atSign, "@", ⟨17, 1, 18⟩, 18⟩, ⟨.identifier, "todo", ⟨18, 1, 19⟩, 22⟩]
      (.call "todo" []) :=
    .bare (signedName_single rfl rfl)
  have hcollection : Written (todoParser.PassesOver "") maxNesting
      (⟨.openBrace, "\x7b", ⟨7, 1, 8⟩, 8⟩ :: ([⟨.integer, "1", ⟨8, 1, 9⟩, 9⟩] ++
        ⟨.comma, ",", ⟨9, 1, 10⟩, 10⟩ :: [⟨.string, "k", ⟨11, 1, 12⟩, 14⟩,
          ⟨.equals, "=", ⟨15, 1, 16⟩, 16⟩, ⟨.atSign, "@", ⟨17, 1, 18⟩, 18⟩,
          ⟨.identifier, "todo", ⟨18, 1, 19⟩, 22⟩] ++ [⟨.closeBrace, "\x7d", ⟨22, 1, 23⟩, 23⟩]))
      (.collection [(none, .literal (.int 1)), todoEntry]) :=
    .collection (.items rfl (.more (.plain (.leaf (.literal (.integer rfl)))) rfl
      (.last (.keyed (.literal (.inr rfl)) (.inl rfl) htodo))) rfl)
  exact document_single rfl rfl not_passesOver_name (.last (.positional hcollection))

def todoTokens : List Token :=
  [⟨.string, "k", ⟨11, 1, 12⟩, 14⟩, ⟨.equals, "=", ⟨15, 1, 16⟩, 16⟩,
    ⟨.atSign, "@", ⟨17, 1, 18⟩, 18⟩, ⟨.identifier, "todo", ⟨18, 1, 19⟩, 22⟩]

theorem enters_listed : DocumentEnters (todoParser.PassesOver "") todoParser.Ignores
    KeyTerm.IsLiteral todoTokens (listedCalls []) (listedCalls [todoEntry]) := by
  have hkey : ∀ k ∈ some (KeyTerm.literal "k"), k.IsLiteral := by
    intro k hk
    obtain rfl := Option.mem_some.1 hk
    trivial
  have hpart : EntryTerm Bare todoTokens todoEntry :=
    .keyed (.literal (.inr rfl)) (.inl rfl) (.mk (signedName_single rfl rfl))
  have hentry : Enters (todoParser.PassesOver "") todoParser.Ignores KeyTerm.IsLiteral todoTokens
      maxNesting (.collection ([(none, .literal (.int 1))] ++ []))
      (.collection ([(none, .literal (.int 1))] ++ todoEntry :: [])) :=
    .entry todoParser_ignores hkey hpart
  have hargument : Enters (todoParser.PassesOver "") todoParser.Ignores KeyTerm.IsLiteral
      todoTokens (maxNesting + 1) (.call "\\Name" ([] ++ (none, _) :: []))
      (.call "\\Name" ([] ++ (none, _) :: [])) :=
    .inArgument hentry
  exact ⟨[], _, _, _, [], rfl, rfl, hargument⟩

theorem parse_inserts_listed :
    Reachable todoParser.registry todoParser ∧
    DocumentInserts todoParser.Ignores KeyTerm.IsLiteral (listedCalls [])
      (listedCalls [todoEntry]) ∧
    todoParser.Shows "" listedSource (listedCalls []) ∧
    todoParser.Shows "" listedMoreSource (listedCalls [todoEntry]) ∧
    ∃ as, as.length = 1 ∧ (todoParser.parse listedSource).1 = .ok as ∧
      (todoParser.parse listedMoreSource).1 = .ok as ∧
      ∃ tokens changed, HasTokens listedSource tokens ∧
        PutIn ⟨.comma, ",", ⟨9, 1, 10⟩, 10⟩ todoTokens tokens changed ∧
        ∀ other, HasTokens other changed → (todoParser.parse other).1 = .ok as := by
  have hreachable : Reachable todoParser.registry todoParser := .change _ .new
  have hlength : (todoParser.parse listedSource).1.toOption.map List.length = some 1 := by
    decide +kernel
  obtain ⟨as, hparse, hone⟩ := Except.exists_ok_of_map hlength
  obtain ⟨-, hshown, hentered⟩ := parse_inserts hreachable hparse
  have hmore : (todoParser.parse listedMoreSource).1 = .ok as :=
    hshown _ _ listedMoreSource shows_listed enters_listed.inserts shows_listedMore
  obtain ⟨tokens, changed, htokens, hput, -, hread⟩ :=
    hentered _ _ _ ⟨.comma, ",", ⟨9, 1, 10⟩, 10⟩ shows_listed enters_listed rfl
  exact ⟨hreachable, enters_listed.inserts, shows_listed, shows_listedMore, as, hone, hparse,
    hmore, tokens, changed, htokens, hput, hread⟩

/-- The first quote of a key that is inserted may close a string that a stray quote opens. -/
theorem parse_inserts_behind_quote : todoParser.Ignores "todo" ∧
    ∃ before after as, as.length = 2 ∧
      (todoParser.parse (before ++ "\x7b1\x7d" ++ after)).1 = .ok as ∧
      (todoParser.parse (before ++ "\x7b1, \"k\" = @todo\x7d" ++ after)).1 ≠ .ok as := by
  have hbefore : (todoParser.parse ("@\\Name(1) \" @\\Name(" ++ "\x7b1\x7d" ++ ")")).1.toOption.map
      List.length = some 2 := by
    decide +kernel
  have hafter : (todoParser.parse ("@\\Name(1) \" @\\Name(" ++ "\x7b1, \"k\" = @todo\x7d" ++
      ")")).1.toOption.map List.length = some 1 := by
    decide +kernel
  obtain ⟨as, hparse, htwo⟩ := Except.exists_ok_of_map hbefore
  obtain ⟨bs, hmore, hone⟩ := Except.exists_ok_of_map hafter
  refine ⟨todoParser_ignores, "@\\Name(1) \" @\\Name(", ")", as, htwo, hparse, fun hsame => ?_⟩
  rw [hsame] at hmore
  obtain rfl := Except.ok.inj hmore
  omega

end Parser

end Docblock
