import Docblock.Proofs.Parser.History
import Docblock.Sample

/-!
# Sessions

A session is a list of requests and changes. As long as the ignored names stay, every request gets
the answer that a parser made for it alone would give: what was read before, in which order, and
which requests failed half-way, does not matter.
-/

namespace Docblock

namespace Parser

inductive Event where
  | request (request : Request)
  | change (c : Change)

def answers (p : Parser) : List Event → List Answer
  | [] => []
  | .request request :: rest => (p.respond request).1 :: answers (p.respond request).2 rest
  | .change c :: rest => answers (p.change c) rest

/-- The parser that has the same registry and settings and has not been used yet. -/
def afresh (p : Parser) : Parser := { p with memory := .initial }

/-- The answers to the requests of a session, each of them from a parser made afresh. -/
def freshAnswers (p : Parser) : List Event → List Answer
  | [] => []
  | .request request :: rest => (p.afresh.respond request).1 :: freshAnswers p rest
  | .change c :: rest => freshAnswers (p.change c) rest

def KeepsIgnoredNames (p : Parser) : List Event → Prop
  | [] => True
  | .request _ :: rest => KeepsIgnoredNames p rest
  | .change c :: rest =>
    (p.change c).settings.ignoredNames = p.settings.ignoredNames ∧
      KeepsIgnoredNames (p.change c) rest

variable {registry : Registry} {p : Parser}

theorem respond_eq_afresh (h : p.Faithful registry p.settings.ignoredNames) (request : Request) :
    (p.respond request).1 = (p.afresh.respond request).1 := by
  obtain rfl := h.registry_eq
  have hfresh := faithful_fresh p.registry p.settings
  rw [(h.respond request).1]
  exact ((hfresh.respond request).1).symm

theorem afresh_respond (p : Parser) (request : Request) :
    (p.respond request).2.afresh = p.afresh := by
  cases request <;> rfl

theorem afresh_change (p : Parser) (c : Change) : (p.change c).afresh = p.afresh.change c := by
  cases c with
  | addNamespace nameSpace =>
    unfold Parser.change addNamespace afresh
    dsimp only
    cases p.settings.addNamespace nameSpace <;> rfl
  | setImports imports =>
    unfold Parser.change setImports afresh
    dsimp only
    cases p.settings.setImports imports <;> rfl
  | setIgnoredNames names => rfl
  | setIgnoredNamespaces namespaces => rfl
  | setIgnoreNotImported ignore => rfl
  | setTarget target => rfl

theorem Faithful.answers (h : p.Faithful registry p.settings.ignoredNames) {events : List Event}
    (hkeeps : p.afresh.KeepsIgnoredNames events) :
    p.answers events = p.afresh.freshAnswers events := by
  induction events generalizing p with
  | nil => rfl
  | cons event rest ih =>
    cases event with
    | request request =>
      have hnext : (p.respond request).2.Faithful registry
          (p.respond request).2.settings.ignoredNames := by
        have hsettings : (p.respond request).2.settings = p.settings := by
          change (p.respond request).2.afresh.settings = p.afresh.settings
          rw [afresh_respond]
        rw [hsettings]
        exact (h.respond request).2
      have hrest := ih hnext (by rw [afresh_respond]; exact hkeeps)
      rw [afresh_respond] at hrest
      unfold Parser.answers freshAnswers
      rw [respond_eq_afresh h request, hrest]
      rfl
    | change c =>
      obtain ⟨hsame, hlater⟩ := hkeeps
      rw [← afresh_change] at hsame hlater
      obtain ⟨others, hchanged, hothers⟩ := h.change c
      have hignored : (p.change c).settings.ignoredNames = p.settings.ignoredNames := hsame
      rw [hothers hignored, ← hignored] at hchanged
      unfold Parser.answers freshAnswers
      rw [← afresh_change]
      exact ih hchanged hlater

/-- In a session that keeps the ignored names, an unused parser answers every request as a parser
made afresh for that request does. -/
theorem answers_eq_freshAnswers (hunused : p.memory = .initial) {events : List Event}
    (hkeeps : p.KeepsIgnoredNames events) : p.answers events = p.freshAnswers events := by
  have hafresh : p.afresh = p := by
    unfold afresh
    rw [← hunused]
  have hfaithful : p.Faithful p.registry p.settings.ignoredNames := by
    rw [← hafresh]
    exact faithful_fresh p.registry p.settings
  have hanswers := hfaithful.answers (by rw [hafresh]; exact hkeeps)
  rw [hafresh] at hanswers
  exact hanswers

/-- A class that needs itself fails, and the requests around it do not notice. -/
def interruptedSession : List Event :=
  [.request (.parse "@\\App\\Annotation\\Name(foo = 1)" "before"),
   .request (.parse "@\\App\\Annotation\\Loop" "cycle"),
   .change (.setTarget .onClass),
   .request (.parse "@\\App\\Annotation\\Route(\"/\")" "after"),
   .request (.collectIgnoredNames "@IgnoreAnnotation(\"todo\")" "names")]

theorem answers_interruptedSession :
    Sample.plainParser.KeepsIgnoredNames interruptedSession ∧
      Sample.plainParser.answers interruptedSession =
        Sample.plainParser.freshAnswers interruptedSession :=
  ⟨⟨rfl, trivial⟩, answers_eq_freshAnswers rfl ⟨rfl, trivial⟩⟩

end Parser

end Docblock
