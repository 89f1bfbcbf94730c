import Docblock.Proofs.Lookup.Annotations
import Docblock.Proofs.Parser.History
import Docblock.Sample
import Mathlib

/-!
# Texts one after the other

The annotations of two texts with a blank between them are those of the first and then those of the
second. What follows a text does not matter to the annotations in it: they end before, and from one
to the next nothing is left over, neither a name nor a depth nor a remembered schema. An error of
the second text is an error of both, at another place.
-/

namespace Docblock

namespace DocText

variable {cs ds : List Char}

theorem trimmed_ne_nil (hsigned : cs.head? = some '@') : Text.trimEndList isFrame cs ≠ [] := by
  obtain ⟨trimmed, hwhole, hframe⟩ := Text.exists_trimmed isFrame cs
  intro hnil
  rw [hnil, List.nil_append] at hwhole
  rw [hwhole] at hsigned
  exact absurd (hframe '@' (List.mem_of_mem_head? hsigned)) (by decide)

/-- The body of a text that starts with a sign is all of it but its frame at the end. -/
theorem body?_signed {s : String} (hsigned : s.toList.head? = some '@') :
    body? s = some (String.ofList (Text.trimEndList isFrame s.toList)) := by
  obtain ⟨cs, hcs⟩ := List.head?_eq_some_iff.1 hsigned
  unfold body? Text.trimList
  rw [hcs]
  rfl

end DocText

/-- What the second lookup has to do with the first, whatever true answers are remembered: it gives
a related value if the first gives one, and the same error if nothing more is ahead of it. -/
def Carries (registry : Registry) (rest : List Glyph) {α β : Type} (R : α → β → Prop)
    (x : Lookup α) (y : Lookup β) : Prop :=
  ∀ m n, m.Knows registry → n.Knows registry →
    match x.result m with
    | (.ok a, m') => m'.Knows registry ∧
        ∃ b n', y.result n = (.ok b, n') ∧ n'.Knows registry ∧ R a b
    | (.error e, _) => rest = [] → ∃ f, (y.result n).1 = .error f ∧ f.unplaced = e.unplaced

section Carries

variable {registry : Registry} {rest : List Glyph}

theorem carries_pure {α β : Type} {R : α → β → Prop} {a : α} {b : β} (hab : R a b) :
    Carries registry rest R (pure a) (pure b) :=
  fun _ n hm hn => ⟨hm, b, n, rfl, hn, hab⟩

theorem carries_bind {α β γ δ : Type} {R : α → β → Prop} {S : γ → δ → Prop} {x : Lookup α}
    {y : Lookup β} {f : α → Lookup γ} {g : β → Lookup δ} (hx : Carries registry rest R x y)
    (hf : ∀ a b, R a b → Carries registry rest S (f a) (g b)) :
    Carries registry rest S (x >>= f) (y >>= g) := by
  intro m n hm hn
  have hfirst := hx m n hm hn
  rw [Lookup.result_bind]
  cases hrun : x.result m with
  | mk outcome m' =>
    rw [hrun] at hfirst
    cases outcome with
    | ok a =>
      obtain ⟨hm', b, n', hother, hn', hab⟩ := hfirst
      rw [Lookup.result_bind_ok hother]
      exact hf a b hab m' n' hm' hn'
    | error e =>
      intro hrest
      obtain ⟨f, hother, hsame⟩ := hfirst hrest
      refine ⟨f, ?_, hsame⟩
      rw [Lookup.result_bind]
      cases hlast : y.result n with
      | mk outcome n' =>
        rw [hlast] at hother
        obtain rfl : outcome = .error f := hother
        rfl

theorem carries_ofExcept {α : Type} (answer : Except AnnotationError α) :
    Carries registry rest Eq (.ofExcept answer) (.ofExcept answer) := by
  intro m n hm hn
  cases answer with
  | ok a => exact ⟨hm, a, n, rfl, hn, rfl⟩
  | error e => exact fun _ => ⟨e, rfl, rfl⟩

theorem carries_exists (name : String) : Carries registry rest Eq
    (liftM (classExists registry name) : Lookup Bool) (liftM (classExists registry name)) := by
  intro m n hm hn
  obtain ⟨m', hrun, hm'⟩ := result_classExists hm name
  obtain ⟨n', hother, hn'⟩ := result_classExists hn name
  rw [hrun]
  exact ⟨hm', _, n', hother, hn', rfl⟩

end Carries

def composition (registry : Registry) (rest : List Glyph) (quiet : ∀ g ∈ rest.head?, g.IsQuiet) :
    Correspondence registry where
  exchange := .none
  rest := rest
  quiet := quiet
  Related := Carries registry rest
  related_pure := carries_pure
  related_bind := carries_bind
  related_throw _ hsame _ _ _ _ := fun _ => ⟨_, rfl, hsame.symm⟩
  related_swapped h := absurd h (Exchange.not_swaps_none _ _)
  related_stuck hrest _ _ _ _ _ _ := fun hnone => absurd hnone hrest
  related_exists := carries_exists

namespace Reading

variable {scope : Scope} {target : Target} {w v : Window} {steps : Nat} {t : Token}
  {ts : List Token}

section Before

variable {rest : List Glyph} {quiet : ∀ g ∈ rest.head?, g.IsQuiet}
  (hs : ∀ name, Carries scope.registry rest Eq (scope.schemaOf (ClassName.bare name))
    (scope.schemaOf (ClassName.bare name)))

include hs

theorem object_before (quiet : ∀ g ∈ rest.head?, g.IsQuiet) (hfollows : w.Follows rest v)
    {m n m' : Memory} (hm : m.Knows scope.registry) (hn : n.Knows scope.registry)
    {found : Option Annotation} {w' : Window}
    (h : (object scope target (value scope maxNesting)).result w m = (.ok (found, w'), m')) :
    ∃ v' n', (object scope target (value scope maxNesting)).result v n = (.ok (found, v'), n') ∧
      m'.Knows scope.registry ∧ n'.Knows scope.registry ∧ w'.Follows rest v' ∧
      w'.ahead.length + 1 ≤ w.ahead.length := by
  let r := composition scope.registry rest quiet
  have hu := Correspondence.understands_of_none scope scope.schemaOf r rfl hs
  have hvalues := Correspondence.values_value scope scope.schemaOf r hu maxNesting
  have hobject : Carries scope.registry rest _ _ _ :=
    Correspondence.reads_object scope scope.schemaOf r hu target hvalues none [] w v
      (.of_append hfollows none [])
  have hrun := hobject m n hm hn
  unfold result at h
  rw [h] at hrun
  obtain ⟨hm', ⟨_, v'⟩, n', hother, hn', ⟨rfl, _, hnext⟩, hpassed⟩ := hrun
  exact ⟨v', n', hother, hm', hn', hnext.append rfl, hpassed⟩

/-- Annotations are read in front of a rest as they are read alone, and then the rest is read. -/
theorem annotations_before (quiet : ∀ g ∈ rest.head?, g.IsQuiet) {others : Nat}
    (hfollows : w.Follows rest v) (hsteps : w.ahead.length ≤ steps)
    (hothers : v.ahead.length ≤ others) {m n m' : Memory} (hm : m.Knows scope.registry)
    (hn : n.Knows scope.registry) {as : List Annotation} {last : Window}
    (h : (annotations scope target steps).result w m = (.ok (as, last), m')) :
    ∃ v' n' more, v'.outline = rest ∧ v'.ahead.length ≤ more ∧ n'.Knows scope.registry ∧
      (annotations scope target others).result v n =
        prepend as ((annotations scope target more).result v' n') := by
  let r := composition scope.registry rest quiet
  have hshows {w v : Window} (hfollows : w.Follows rest v) : r.Follows none [] w v :=
    .of_append hfollows none []
  induction steps generalizing w v others m n as with
  | zero =>
    have hend := List.length_eq_zero_iff.1 (Nat.le_zero.1 hsteps)
    obtain rfl := eq_nil_of_end hend h
    exact ⟨v, n, others, (hshows hfollows).outline_eq hend, hothers, hn, (prepend_nil _).symm⟩
  | succ steps ih =>
    rcases (hshows hfollows).cases with hend | ⟨t, u, ts, us, hfacing⟩
    · obtain rfl := eq_nil_of_end hend h
      exact ⟨v, n, others, (hshows hfollows).outline_eq hend, hothers, hn, (prepend_nil _).symm⟩
    · obtain ⟨others, rfl⟩ : ∃ k, others = k + 1 := by
        rw [hfacing.second, List.length_cons] at hothers
        exact ⟨others - 1, by omega⟩
      have hlength := hfollows.length_eq
      have hsame : startsAnnotation w = startsAnnotation v :=
        Correspondence.startsAnnotation_eq scope r hfacing
      cases hstarts : startsAnnotation w with
      | false =>
        rw [hstarts] at hsame
        rw [result_annotations_skip hfacing.first hstarts] at h
        rw [result_annotations_skip hfacing.second hsame.symm]
        have hnext : w.advance.Follows rest v.advance := hfacing.follows.append rfl
        have hlater := hnext.length_eq
        have hpassed := length_advance hfacing.first
        have hless : v.advance.ahead.length ≤ others := by omega
        exact ih hnext (by omega) hless hm hn h
      | true =>
        rw [hstarts] at hsame
        rw [result_annotations_object hfacing.first hstarts] at h
        rw [result_annotations_object hfacing.second hsame.symm]
        cases hobject : (object scope target (value scope maxNesting)).result w m with
        | mk outcome m₂ =>
          rw [hobject] at h
          cases outcome with
          | error e => cases h
          | ok found =>
            obtain ⟨v₂, n₂, hother, hm₂, hn₂, hnext, hpassed⟩ :=
              object_before hs quiet hfollows hm hn hobject
            obtain ⟨bs, hrest, rfl⟩ := eq_of_prepend_eq_ok h
            have hlater := hnext.length_eq
            have hless : v₂.ahead.length ≤ others := by omega
            obtain ⟨v', n', more, hshown, hmore, hknows, hread⟩ :=
              ih hnext (by omega) hless hm₂ hn₂ hrest
            refine ⟨v', n', more, hshown, hmore, hknows, ?_⟩
            rw [hother]
            dsimp only
            rw [hread, prepend_prepend]

end Before

theorem annotations_behind_slashes (scope : Scope) (target : Target) {slashes rest : List Glyph}
    (hslashes : ∀ g ∈ slashes, g.kind = .other) (hshown : v.outline = slashes ++ rest)
    (hsteps : v.ahead.length ≤ steps) (n : Memory) :
    ∃ v' more, v'.outline = rest ∧ v'.ahead.length ≤ more ∧
      (annotations scope target steps).result v n =
        (annotations scope target more).result v' n := by
  induction slashes generalizing v steps with
  | nil => exact ⟨v, steps, hshown, hsteps, rfl⟩
  | cons g slashes ih =>
    cases hahead : v.ahead with
    | nil =>
      unfold Window.outline at hshown
      rw [hahead] at hshown
      cases hshown
    | cons t ts =>
      rw [Window.outline_cons hahead, List.cons_append] at hshown
      obtain ⟨hfirst, hrest⟩ := List.cons.inj hshown
      have hkind : t.kind = .other := by
        rw [← hslashes g List.mem_cons_self, ← hfirst]
      have hno : startsAnnotation v = false := by
        rw [Correspondence.startsAnnotation_eq_any hahead, hkind]
        rfl
      have hpassed := length_advance hahead
      obtain ⟨more, rfl⟩ : ∃ k, steps = k + 1 := ⟨steps - 1, by omega⟩
      rw [result_annotations_skip hahead hno]
      exact ih (fun g hg => hslashes g (List.mem_cons_of_mem _ hg)) hrest (by omega)

end Reading

open Reading

section Texts

variable {scope : Scope} (target : Target)
  (hs : ∀ rest name, Carries scope.registry rest Eq (scope.schemaOf (ClassName.bare name))
    (scope.schemaOf (ClassName.bare name)))

include hs

theorem annotations_alike {w v : Window} {steps others : Nat} (hsame : v.outline = w.outline)
    (hsteps : w.ahead.length ≤ steps) (hothers : v.ahead.length ≤ others) :
    Carries scope.registry [] (fun a b => a.1 = b.1) ((annotations scope target steps).run w)
      ((annotations scope target others).run v) := by
  let r := composition scope.registry [] Glyph.quiet_nil
  have hfollows : w.Follows [] v := by rw [Window.Follows, hsame, List.append_nil]
  have hu := Correspondence.understands_of_none scope scope.schemaOf r rfl (hs [])
  have hread := Correspondence.readsAt_annotations scope scope.schemaOf r hu rfl target
    (.of_append hfollows none []) hsteps hothers
  exact r.related_mono hread fun _ _ hab => hab.1

end Texts

theorem outline_scan (cs : List Char) :
    (Window.ofTokens (Token.scan (String.ofList cs))).outline = Glyph.ofText cs := by
  unfold Token.scan
  rw [String.toList_ofList]
  rfl

theorem DocText.head?_trimmed {cs : List Char} (hsigned : cs.head? = some '@') :
    (Text.trimEndList isFrame cs).head? = some '@' := by
  obtain ⟨frame, hwhole, -⟩ := Text.exists_trimmed isFrame cs
  cases hbody : Text.trimEndList isFrame cs with
  | nil => exact absurd hbody (trimmed_ne_nil hsigned)
  | cons c body =>
    rw [hwhole, hbody] at hsigned
    exact hsigned

theorem DocText.body?_append_signed {a b : String} (ha : a.toList.head? = some '@')
    (hb : b.toList.head? = some '@') : body? (a ++ " " ++ b) =
      some (String.ofList (a.toList ++ ' ' :: Text.trimEndList isFrame b.toList)) := by
  have hchars : (a ++ " " ++ b).toList = a.toList ++ [' '] ++ b.toList := by
    rw [String.toList_append, String.toList_append]
    rfl
  have hboth : (a ++ " " ++ b).toList.head? = some '@' := by
    rw [hchars, List.append_assoc, List.head?_append, ha]
    rfl
  rw [body?_signed hboth, hchars, Text.trimEndList_append _ (trimmed_ne_nil hb), List.append_assoc]
  rfl

theorem Glyph.exists_ofText_signed {cs : List Char} (hsigned : cs.head? = some '@') :
    ∃ g more, ofText cs = g :: more ∧ g.kind = .atSign := by
  obtain ⟨ds, rfl⟩ := List.head?_eq_some_iff.1 hsigned
  exact ⟨_, _, rfl, rfl⟩

/-- Behind the trimmed first of two texts there are slashes, and then the second. -/
theorem Glyph.ofText_append_signed {cs ds : List Char}
    (hclosed : ∀ t ∈ Token.scanFrom 0 .start cs, ¬ t.IsOpenQuote) (hsigned : ds.head? = some '@') :
    ∃ slashes, (∀ g ∈ slashes, g.kind = .other) ∧
      (∀ g ∈ (slashes ++ ofText ds).head?, g.IsQuiet) ∧
      ofText (cs ++ ' ' :: ds) =
        ofText (Text.trimEndList DocText.isFrame cs) ++ (slashes ++ ofText ds) := by
  obtain ⟨frame, hwhole, hframe⟩ := Text.exists_trimmed DocText.isFrame cs
  obtain ⟨slashes, hslashes, hothers⟩ := ofText_append_frame (Text.trimEndList DocText.isFrame cs)
    hframe
  refine ⟨slashes, hothers, ?_, ?_⟩
  · intro g hg
    cases slashes with
    | nil =>
      obtain ⟨sign, more, htext, hkind⟩ := exists_ofText_signed hsigned
      rw [htext] at hg
      obtain rfl := Option.some.inj hg
      exact .inl hkind
    | cons slash slashes =>
      obtain rfl := Option.some.inj hg
      exact .inr (hothers slash List.mem_cons_self)
  · rw [ofText_append_blank hclosed, ← List.append_assoc, ← hslashes, ← hwhole]

section Sequence

variable {scope : Scope} (target : Target)
  (hs : ∀ rest name, Carries scope.registry rest Eq (scope.schemaOf (ClassName.bare name))
    (scope.schemaOf (ClassName.bare name)))

include hs

theorem annotations_append {first second both : List Token} {slashes : List Glyph}
    (hslashes : ∀ g ∈ slashes, g.kind = .other)
    (hquiet : ∀ g ∈ (slashes ++ (Window.ofTokens second).outline).head?, g.IsQuiet)
    (hboth : (Window.ofTokens both).outline =
      (Window.ofTokens first).outline ++ (slashes ++ (Window.ofTokens second).outline))
    {m m' : Memory} (hm : m.Knows scope.registry) {as : List Annotation} {last : Window}
    (h : (annotations scope target first.length).result (.ofTokens first) m =
      (.ok (as, last), m')) :
    Carries scope.registry [] (fun bs all => all.1 = as ++ bs.1)
      ((annotations scope target second.length).run (.ofTokens second))
      ((annotations scope target both.length).run (.ofTokens both)) := by
  intro o n ho hn
  have hfirst : (Window.ofTokens first).ahead.length ≤ first.length := Nat.le_refl _
  have hlength : (Window.ofTokens both).ahead.length ≤ both.length := Nat.le_refl _
  obtain ⟨v₁, n₁, steps, hshown, hsteps, hn₁, hread⟩ :=
    annotations_before (hs _) hquiet hboth hfirst hlength hm hn h
  obtain ⟨v₂, more, hlast, hmore, hbehind⟩ :=
    annotations_behind_slashes scope target hslashes hshown hsteps n₁
  have hsecond : (Window.ofTokens second).ahead.length ≤ second.length := Nat.le_refl _
  have halike := annotations_alike target hs hlast hsecond hmore o n₁ ho hn₁
  rw [hbehind] at hread
  unfold Reading.result at hread
  rw [hread]
  cases hrun : Lookup.result
    ((annotations scope target second.length).run (.ofTokens second)) o with
  | mk outcome o' =>
    rw [hrun] at halike
    cases outcome with
    | ok bs =>
      obtain ⟨ho', found, n', hother, hn', hsame⟩ := halike
      rw [hother]
      exact ⟨ho', (as ++ found.1, found.2), n', rfl, hn', congrArg (as ++ ·) hsame.symm⟩
    | error e =>
      intro hnone
      obtain ⟨f, hother, hsame⟩ := halike hnone
      refine ⟨f, ?_, hsame⟩
      cases hlater : Lookup.result ((annotations scope target more).run v₂) n₁ with
      | mk outcome n' =>
        rw [hlater] at hother
        obtain rfl : outcome = .error f := hother
        rfl

/-- The annotations of two texts with a blank between them. -/
theorem readDoc_append {a b : String} (ha : a.toList.head? = some '@')
    (hb : b.toList.head? = some '@') (hclosed : ∀ t ∈ Token.scan a, ¬ t.IsOpenQuote)
    {m : Memory} (hm : m.Knows scope.registry) {as : List Annotation}
    (h : ((readDoc scope target a).result m).1 = .ok as) :
    Carries scope.registry [] (fun bs all => all = as ++ bs) (readDoc scope target b)
      (readDoc scope target (a ++ " " ++ b)) := by
  have hsigned := DocText.head?_trimmed hb
  obtain ⟨slashes, hslashes, hquiet, hglyphs⟩ := Glyph.ofText_append_signed hclosed hsigned
  rw [← outline_scan, ← outline_scan, ← outline_scan] at hglyphs
  rw [← outline_scan] at hquiet
  rw [result_readDoc (DocText.body?_signed ha)] at h
  unfold readDoc
  rw [DocText.body?_signed hb, DocText.body?_append_signed ha hb]
  dsimp only
  rw [map_eq_pure_bind, map_eq_pure_bind]
  -- From here on only the glyphs of the tokens count.
  generalize Token.scan _ = first at h hglyphs
  generalize Token.scan _ = both at hglyphs ⊢
  generalize Token.scan _ = second at hquiet hglyphs ⊢
  split at h
  · next found last m' hfirst =>
    obtain rfl := Except.ok.inj h
    have hwindows := annotations_append target hs hslashes hquiet hglyphs hm hfirst
    refine carries_bind hwindows fun bs all hall => ?_
    intro o n ho hn
    exact ⟨ho, all.1, n, rfl, hn, hall⟩
  · cases h

end Sequence

namespace Parser

variable {registry : Registry} {p : Parser}

/-- A text with a blank and another one behind it has its own annotations and then those of the
other, or the error of the other at another offset. The first text must close its strings. -/
theorem parse_append (hreachable : Reachable registry p) {a b context : String}
    (ha : a.toList.head? = some '@') (hb : b.toList.head? = some '@')
    (hclosed : ∀ t ∈ Token.scan a, ¬ t.IsOpenQuote) {as : List Annotation}
    (h : (p.parse a context).1 = .ok as) :
    (∀ bs, (p.parse b context).1 = .ok bs →
        (p.parse (a ++ " " ++ b) context).1 = .ok (as ++ bs)) ∧
      ∀ e, (p.parse b context).1 = .error e →
        ∃ f, (p.parse (a ++ " " ++ b) context).1 = .error f ∧ f.unplaced = e.unplaced := by
  obtain ⟨names, hfaithful⟩ := hreachable.faithful
  have hknows := Memory.knows_initial registry
  rw [hfaithful.parse_eq] at h
  have hboth := readDoc_append p.settings.target (fun _ _ => carries_ofExcept _) ha hb hclosed
    hknows h .initial .initial hknows hknows
  rw [hfaithful.parse_eq, hfaithful.parse_eq]
  cases hsecond : (readDoc (scratchScope registry names p.settings context) p.settings.target
    b).result .initial with
  | mk outcome m =>
    rw [hsecond] at hboth
    cases outcome with
    | ok found =>
      obtain ⟨-, all, n, hall, -, rfl⟩ := hboth
      rw [hall]
      refine ⟨?_, nofun⟩
      rintro bs ⟨⟩
      rfl
    | error e =>
      refine ⟨nofun, ?_⟩
      rintro _ ⟨⟩
      exact hboth rfl

def routeSource : String := "@\\App\\Annotation\\Route(\"/a*b\", name = \"c\")"

def nodeSource : String :=
  "@\\App\\Annotation\\Marker @ word @\\App\\Annotation\\Node(@\\App\\Annotation\\Leaf(1)) */"

def unfinishedSource : String := "@\\App\\Annotation\\Name(\"d\""

def routeTokens : List Token :=
  [⟨.atSign, "@", ⟨0, 1, 1⟩, 1⟩, ⟨.qualifiedName, "\\App\\Annotation\\Route", ⟨1, 1, 2⟩, 22⟩,
    ⟨.openParen, "(", ⟨22, 1, 23⟩, 23⟩, ⟨.string, "/a*b", ⟨23, 1, 24⟩, 29⟩,
    ⟨.comma, ",", ⟨29, 1, 30⟩, 30⟩, ⟨.identifier, "name", ⟨31, 1, 32⟩, 35⟩,
    ⟨.equals, "=", ⟨36, 1, 37⟩, 37⟩, ⟨.string, "c", ⟨38, 1, 39⟩, 41⟩,
    ⟨.closeParen, ")", ⟨41, 1, 42⟩, 42⟩]

theorem scan_route : Token.scan routeSource = routeTokens := by cbv

theorem lengths_parse :
    (Sample.plainParser.parse routeSource).1.toOption.map List.length = some 1 ∧
      (Sample.plainParser.parse nodeSource).1.toOption.map List.length = some 2 ∧
      (Sample.plainParser.parse unfinishedSource).1.toOption.map List.length = none :=
  ⟨by decide +kernel, by decide +kernel, by decide +kernel⟩

theorem parse_append_route :
    (∃ as bs, as.length = 1 ∧ bs.length = 2 ∧
      (Sample.plainParser.parse (routeSource ++ " " ++ nodeSource)).1 = .ok (as ++ bs)) ∧
    ∃ e f, (Sample.plainParser.parse unfinishedSource).1 = .error e ∧
      (Sample.plainParser.parse (routeSource ++ " " ++ unfinishedSource)).1 = .error f ∧
      f.unplaced = e.unplaced := by
  have hclosed : ∀ t ∈ Token.scan routeSource, ¬ t.IsOpenQuote := by
    rw [scan_route]
    decide
  obtain ⟨hroute, hnode, hunfinished⟩ := lengths_parse
  obtain ⟨as, has, hone⟩ := Except.exists_ok_of_map hroute
  obtain ⟨bs, hbs, htwo⟩ := Except.exists_ok_of_map hnode
  obtain ⟨e, he⟩ := Except.exists_error_of_map hunfinished
  have hboth := fun b hb => parse_append (b := b) .new (by decide) hb hclosed has
  obtain ⟨f, hf, hsame⟩ := (hboth unfinishedSource (by decide)).2 e he
  exact ⟨⟨as, bs, hone, htwo, (hboth nodeSource (by decide)).1 bs hbs⟩, e, f, he, hf, hsame⟩

end Parser

end Docblock
