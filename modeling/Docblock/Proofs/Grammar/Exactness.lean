import Docblock.Proofs.Grammar.Soundness
import Docblock.Sample

/-!
# Arguments are read exactly

Completeness and soundness together: where no annotation follows and every name is a defined
constant, the arguments in parentheses are read if and only if the tokens ahead begin with a phrase
of the grammar, and that phrase is what is read. Anything else is an unexpected token.
-/

namespace Docblock.Grammar

open Reading

variable {scope : Scope} {m : Memory} {behind : Option Token} {tokens : List Token}

def readArguments (scope : Scope) (behind : Option Token) (tokens : List Token) (m : Memory) :
    Except AnnotationError (OrderedMap Docblock.Value × Window) :=
  ((arguments scope (Reading.value scope maxNesting)).result ⟨behind, tokens⟩ m).1

/-- The tokens begin with arguments that denote `values`, and `rest` follows. -/
def BeginsWithArguments (scope : Scope) (tokens used rest : List Token)
    (values : OrderedMap Docblock.Value) : Prop :=
  tokens = used ++ rest ∧ Arguments (Value scope maxNesting) used values

theorem readArguments_of_begins (hm : m.Knows scope.registry) {used rest : List Token}
    {values : OrderedMap Docblock.Value} (h : BeginsWithArguments scope tokens used rest values) :
    readArguments scope behind tokens m = .ok (values, ⟨lastPassed behind used, rest⟩) := by
  obtain ⟨rfl, hused⟩ := h
  obtain ⟨n, -, hrun⟩ := takes_arguments (takes_value maxNesting) (starts_value scope maxNesting)
    (unassigned_value maxNesting) hused m hm
  unfold readArguments
  rw [hrun]

theorem begins_or_unexpected (hm : m.Knows scope.registry)
    (hopen : ∃ opener, tokens.head? = some opener ∧ opener.kind = .openParen)
    (hclear : ∀ t ∈ tokens, t.kind ≠ .atSign)
    (hnames : NamesDefined scope 0 behind tokens) :
    (∃ used rest values, BeginsWithArguments scope tokens used rest values) ∨
      ∃ expected found context, readArguments scope behind tokens m =
        .error (.unexpected expected found context) := by
  obtain ⟨opener, hhead, hkind⟩ := hopen
  obtain ⟨rest, rfl⟩ : ∃ rest, tokens = opener :: rest := by
    cases tokens with
    | nil => cases hhead
    | cons t rest =>
      obtain rfl := Option.some.inj hhead
      exact ⟨rest, rfl⟩
  have hclean : Clean scope 0 ⟨behind, opener :: rest⟩ := ⟨hclear, hnames⟩
  have hyields := yields_arguments (yields_value maxNesting) hkind hclean
  unfold readArguments
  obtain ⟨e, n, hrun, expected, found, context, rfl⟩ | ⟨values, v, n, hrun, -, hpassed⟩ :=
    hyields m hm
  · right
    rw [hrun]
    exact ⟨expected, found, context, rfl⟩
  · left
    obtain ⟨used, left, all, htokens, hall, -⟩ := hpassed
    exact ⟨used, left, all, htokens, hall⟩

/-- Behind an opening parenthesis, with no annotation ahead and every name a defined constant:
arguments are read if and only if the tokens begin with them, and then exactly these; in every other
case reading fails at an unexpected token. -/
theorem readArguments_exact (hm : m.Knows scope.registry)
    (hopen : ∃ opener, tokens.head? = some opener ∧ opener.kind = .openParen)
    (hclear : ∀ t ∈ tokens, t.kind ≠ .atSign)
    (hnames : NamesDefined scope 0 behind tokens) :
    (∀ values w, readArguments scope behind tokens m = .ok (values, w) ↔
      ∃ used rest, BeginsWithArguments scope tokens used rest values ∧
        w = ⟨lastPassed behind used, rest⟩) ∧
    ((∀ used rest values, ¬ BeginsWithArguments scope tokens used rest values) →
      ∃ expected found context, readArguments scope behind tokens m =
        .error (.unexpected expected found context)) := by
  have hcases := begins_or_unexpected hm hopen hclear hnames
  constructor
  · intro values w
    constructor
    · intro hread
      obtain ⟨used, rest, others, hbegins⟩ | ⟨expected, found, context, herror⟩ := hcases
      · rw [readArguments_of_begins hm hbegins] at hread
        obtain ⟨rfl, rfl⟩ := Prod.mk.inj (Except.ok.inj hread)
        exact ⟨used, rest, hbegins, rfl⟩
      · rw [herror] at hread
        cases hread
    · rintro ⟨used, rest, hbegins, rfl⟩
      exact readArguments_of_begins hm hbegins
  · intro hnone
    obtain ⟨used, rest, values, hbegins⟩ | herror := hcases
    · exact absurd hbegins (hnone used rest values)
    · exact herror

def sampleTokens : List Token :=
  [⟨.openParen, "(", ⟨0, 1, 1⟩, 1⟩, ⟨.openBrace, "\x7b", ⟨1, 1, 2⟩, 2⟩,
   ⟨.identifier, "APP_LIMIT", ⟨2, 1, 3⟩, 11⟩, ⟨.colon, ":", ⟨11, 1, 12⟩, 12⟩,
   ⟨.string, "x", ⟨13, 1, 14⟩, 16⟩, ⟨.closeBrace, "\x7d", ⟨16, 1, 17⟩, 17⟩,
   ⟨.comma, ",", ⟨17, 1, 18⟩, 18⟩, ⟨.identifier, "p", ⟨19, 1, 20⟩, 20⟩,
   ⟨.equals, "=", ⟨21, 1, 22⟩, 22⟩, ⟨.integer, "1", ⟨23, 1, 24⟩, 24⟩,
   ⟨.comma, ",", ⟨24, 1, 25⟩, 25⟩, ⟨.closeParen, ")", ⟨25, 1, 26⟩, 26⟩]

def sampleScope : Scope := Sample.plainParser.scope {} ""

theorem constant?_sample : sampleScope.constant? "APP_LIMIT" = some (.int 42) := by
  rfl

theorem namesDefined_sample : NamesDefined sampleScope 0 none sampleTokens := by
  refine ⟨fun h => absurd h (by decide), fun h => absurd h (by decide), fun _ _ _ => ?_,
    fun h => absurd h (by decide), fun h => absurd h (by decide), fun h => absurd h (by decide),
    fun h => absurd h (by decide), fun _ _ h => ?_, fun h => absurd h (by decide),
    fun h => absurd h (by decide), fun h => absurd h (by decide), fun h => absurd h (by decide),
    trivial⟩
  · exact ⟨.int 42, constant?_sample, .inl rfl⟩
  · exact absurd ⟨rfl, ⟨_, rfl, .inr rfl⟩, rfl, _, rfl, rfl⟩ h

theorem arguments_sample :
    ∃ values, Arguments (Value sampleScope maxNesting) sampleTokens values := by
  have hkey : EntryKey sampleScope ⟨.identifier, "APP_LIMIT", ⟨2, 1, 3⟩, 11⟩ (.int 42) :=
    .constant rfl constant?_sample rfl
  have hentry : Entry sampleScope (Value sampleScope 63) ((sampleTokens.drop 2).take 3)
      (some (.int 42), .string "x") := .keyed hkey (.inr rfl) (.inl (.string rfl))
  have hcollection : Collection sampleScope (Value sampleScope 63) ((sampleTokens.drop 1).take 5)
      (collect [(some (.int 42), .string "x")]) := .entries rfl (.last hentry) rfl
  have hnamed : Argument (Value sampleScope maxNesting) ((sampleTokens.drop 7).take 3)
      (.named "p" (.int 1)) := .named rfl rfl (.inl (.integer rfl))
  have hrest := @Separated.trailing _ _ _ ⟨.comma, ",", ⟨24, 1, 25⟩, 25⟩ _ hnamed rfl
  have hall := @Separated.more _ _ _ _ ⟨.comma, ",", ⟨17, 1, 18⟩, 18⟩ _ _
    (.positional (.inr ⟨_, hcollection, rfl⟩)) rfl hrest
  exact ⟨_, @Arguments.arguments _ ⟨.openParen, "(", ⟨0, 1, 1⟩, 1⟩
    ⟨.closeParen, ")", ⟨25, 1, 26⟩, 26⟩ _ _ rfl hall rfl⟩

theorem readArguments_sample :
    ∃ values w, readArguments sampleScope none sampleTokens .initial = .ok (values, w) := by
  obtain ⟨values, hvalues⟩ := arguments_sample
  have hexact := readArguments_exact (Memory.knows_initial sampleScope.registry)
    ⟨_, rfl, rfl⟩ (by decide) namesDefined_sample
  exact ⟨values, _, (hexact.1 values _).2
    ⟨sampleTokens, [], ⟨by rw [List.append_nil], hvalues⟩, rfl⟩⟩

end Docblock.Grammar
