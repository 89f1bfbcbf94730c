import Docblock.Class.Standard
import Docblock.Proofs.Lookup.Occurrences
import Docblock.Proofs.Parser.History
import Docblock.Proofs.Token.Signs

/-!
# Where annotations start

Parsing a text finds its annotations and nothing else. If no `@` of the text stands where an
annotation may start then there are none. Otherwise the text from the first such `@` on is read,
without its frame: every sign outside of earlier annotations that is free on its left and begins a
name starts an annotation, and each of these gives one object, or none if its name is to be ignored.
-/

namespace Docblock

namespace DocText

def Opens (before : List Char) : Prop := ∀ c ∈ before.getLast?, c = ' ' ∨ c = '*' ∨ c = '\t'

theorem opens_concat (before : List Char) (c : Char) :
    Opens (before ++ [c]) ↔ c = ' ' ∨ c = '*' ∨ c = '\t' := by
  simp [Opens]

/-- The search comes to the end if no sign is behind characters that allow it. -/
theorem fromFirstAt?_eq_none_iff {allowed : Bool} {front : List Char}
    (hallowed : allowed = true ↔ Opens front) (cs : List Char) :
    fromFirstAt? allowed cs = none ↔
      ∀ before after, cs = before ++ '@' :: after → ¬ Opens (front ++ before) := by
  induction cs generalizing allowed front with
  | nil => simp [fromFirstAt?]
  | cons c cs ih =>
    have hnext : (c == ' ' || c == '*' || c == '\t') = true ↔ Opens (front ++ [c]) := by
      simp [opens_concat, or_assoc]
    unfold fromFirstAt?
    by_cases hfirst : c = '@' ∧ allowed = true
    · obtain ⟨rfl, rfl⟩ := hfirst
      simp only [decide_true, Bool.and_self, if_true, reduceCtorEq, false_iff]
      intro hnever
      exact hnever [] cs rfl (by rw [List.append_nil]; exact hallowed.1 rfl)
    · rw [if_neg (by simpa using hfirst), ih hnext]
      constructor
      · rintro hlater (_ | ⟨d, before⟩) after hsplit
        · obtain ⟨rfl, -⟩ := List.cons.inj hsplit
          rw [List.append_nil, ← hallowed]
          exact fun hopen => hfirst ⟨rfl, hopen⟩
        · obtain ⟨rfl, hrest⟩ := List.cons.inj hsplit
          rw [List.append_cons]
          exact hlater before after hrest
      · intro hall before after hsplit
        rw [List.append_assoc]
        exact hall (c :: before) after (congrArg (List.cons c) hsplit)

theorem body?_eq_none_iff (input : String) : body? input = none ↔
    ∀ before after, input.toList = before ++ '@' :: after → ¬ Opens before := by
  unfold body?
  rw [Option.map_eq_none_iff]
  have hstart : true = true ↔ Opens [] := by simp [Opens]
  exact fromFirstAt?_eq_none_iff hstart input.toList

end DocText

/-- The token is an `@` at the start of the text or behind padding, and in no other token. -/
def Token.IsFreeSign (input : String) (sign : Token) : Prop :=
  ∃ before after, input.toList = before ++ '@' :: after ∧
    sign.start.offset = (String.ofList before).utf8ByteSize ∧
    (∀ c ∈ before.getLast?, Lexeme.isPadding c = true) ∧
    ∀ t ∈ Token.scan input, t.start.offset ≤ sign.start.offset → sign.start.offset < t.stop →
      t = sign

namespace Parser

variable {p q : Parser} {input context body : String} {as : List Annotation}

theorem parse_of_no_body (p : Parser) (context : String) (h : DocText.body? input = none) :
    p.parse input context = (.ok [], p) := by
  unfold Parser.parse readDoc
  rw [h]
  rfl

theorem occurrences_of_parse (hbody : DocText.body? input = some body)
    (h : p.parse input context = (.ok as, q)) :
    ∃ all, Occurrence.AreRead (p.scope p.settings context) p.settings.target (Token.scan body)
        p.memory all q.memory ∧
      Occurrence.Occupy (Token.scan body) 0 all ∧ as = all.filterMap fun o => o.found := by
  unfold Parser.parse at h
  rw [outcome_eq, result_readDoc hbody] at h
  split at h
  next found last n hrun =>
    obtain ⟨⟨⟩, rfl⟩ := Prod.mk.inj h
    exact Reading.occurrences_of_annotations (i := 0) (by omega) hrun
  · cases h

/-- Parsing finds exactly the annotations of a text, in their order. -/
theorem parse_finds_occurrences (p : Parser) (input context : String) :
    ((∀ before after, input.toList = before ++ '@' :: after → ¬ DocText.Opens before) →
      p.parse input context = (.ok [], p)) ∧
    ∀ before after, input.toList = before ++ '@' :: after → DocText.Opens before →
      ∃ body, DocText.body? input = some body ∧
        ∀ as q, p.parse input context = (.ok as, q) →
          ∃ all, Occurrence.AreRead (p.scope p.settings context) p.settings.target
              (Token.scan body) p.memory all q.memory ∧
            Occurrence.Occupy (Token.scan body) 0 all ∧ (as = all.filterMap fun o => o.found) ∧
            ∀ o ∈ all, ∃ sign, (Token.scan body)[o.start]? = some sign ∧
              Token.IsFreeSign body sign := by
  refine ⟨fun hnone => parse_of_no_body p context ((DocText.body?_eq_none_iff input).2 hnone), ?_⟩
  intro before after hsplit hopens
  cases hbody : DocText.body? input with
  | none => exact absurd hopens ((DocText.body?_eq_none_iff input).1 hbody before after hsplit)
  | some body =>
    refine ⟨body, rfl, fun as q hparse => ?_⟩
    obtain ⟨all, hread, hoccupy, hall⟩ := occurrences_of_parse hbody hparse
    refine ⟨all, hread, hoccupy, hall, fun o ho => ?_⟩
    obtain ⟨-, ⟨sign, name, hsign, hkind, hfree, -⟩, -⟩ := (hoccupy.starts o.start).1 ⟨o, ho, rfl⟩
    exact ⟨sign, hsign, Token.exists_free_sign hsign hkind hfree⟩

def todoParser : Parser :=
  Parser.new (Registry.standard.register (.make "Name" "/** @Annotation */" [Standard.plain "value"]))
    |>.change (.setIgnoredNames ["todo"])

def signsSource : String := "a@b @todo @\\Name(\"@x\")"

theorem parse_finds_occurrences_signs :
    todoParser.parse "a@b" = (.ok [], todoParser) ∧
    ∃ body as q, DocText.body? signsSource = some body ∧
      todoParser.parse signsSource = (.ok as, q) ∧ as.length = 1 ∧
      ∃ all, Occurrence.AreRead (todoParser.scope todoParser.settings "")
          todoParser.settings.target (Token.scan body) todoParser.memory all q.memory ∧
        Occurrence.Occupy (Token.scan body) 0 all ∧ (as = all.filterMap fun o => o.found) ∧
        ∀ o ∈ all, ∃ sign, (Token.scan body)[o.start]? = some sign ∧
          Token.IsFreeSign body sign := by
  have hnone : DocText.body? "a@b" = none := by decide
  have hfirst := (parse_finds_occurrences todoParser "a@b" "").1
    ((DocText.body?_eq_none_iff "a@b").1 hnone)
  have hsplit : signsSource.toList = "a@b ".toList ++
      '@' :: "todo @\\Name(\"@x\")".toList := by
    decide
  have hopens : DocText.Opens "a@b ".toList := by
    intro c hc
    exact .inl (Option.some.inj hc).symm
  obtain ⟨body, hbody, hfinds⟩ :=
    (parse_finds_occurrences todoParser signsSource "").2 _ _ hsplit hopens
  have hlength : (todoParser.parse signsSource).1.toOption.map List.length = some 1 := by
    decide +kernel
  obtain ⟨as, q, hparse, hone⟩ := Except.exists_run_of_map hlength
  exact ⟨hfirst, body, as, q, hbody, hparse, hone, hfinds as q hparse⟩

end Parser

end Docblock
