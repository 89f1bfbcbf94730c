import Docblock.Proofs.Lookup.Relation
import Docblock.Proofs.Object.OwnErrors
import Docblock.Proofs.Token.Exchanged

/-!
# Correspondence of readers

Two readings correspond if the second sees the same glyphs as the first, some names exchanged for
others and perhaps more glyphs behind them. Those start with one that continues nothing, so they
matter to a reader only when it has come to its end and wants more: then the first reading fails,
and of the second nothing is claimed. As every step of a reader passes tokens or stays, the steps
allotted to a loop never run out on one side alone.
-/

namespace Docblock

namespace AnnotationError

/-- The error without the offset of the token that was met. -/
def unplaced : AnnotationError → AnnotationError
  | unexpected expected found context =>
    unexpected expected (found.map fun f => { f with offset := 0 }) context
  | e => e

end AnnotationError

namespace Token

structure Alike (t u : Token) : Prop where
  kind : t.kind = u.kind
  text : t.text = u.text

end Token

namespace Window

/-- The second window shows what the first does, and `rest` behind it. -/
def Follows (rest : List Glyph) (w v : Window) : Prop := v.outline = w.outline ++ rest

theorem Follows.length_eq {rest : List Glyph} {w v : Window} (h : Follows rest w v) :
    v.ahead.length = w.ahead.length + rest.length := by
  have hlength := congrArg List.length h
  unfold outline at hlength
  rw [List.length_append, Glyph.length_ofTokens, Glyph.length_ofTokens] at hlength
  exact hlength

theorem outline_nil {w : Window} (h : w.ahead = []) : w.outline = [] := by
  unfold outline
  rw [h]
  rfl

theorem outline_cons {w : Window} {t : Token} {ts : List Token} (h : w.ahead = t :: ts) :
    w.outline =
      ⟨t.kind, t.text, w.behind.any fun b => b.isAdjacent t⟩ :: w.advance.outline := by
  unfold outline advance
  rw [h]
  rfl

theorem head?_outline_advance {w : Window} {t : Token} {ts : List Token} (h : w.ahead = t :: ts) :
    w.advance.outline.head?.map (fun g => g.kind) = w.glimpse.map fun t => t.kind := by
  unfold outline advance glimpse
  rw [h]
  cases ts <;> rfl

end Window

/-- A relation between lookups that steps keep which differ in the places of tokens only, or in the
names that are exchanged. -/
structure Correspondence (registry : Registry) where
  exchange : Exchange
  /-- What the second reading sees behind the end of the first. -/
  rest : List Glyph
  quiet : ∀ g ∈ rest.head?, g.IsQuiet
  Related : {α β : Type} → (α → β → Prop) → Lookup α → Lookup β → Prop
  related_pure : ∀ {α β : Type} {R : α → β → Prop} {a : α} {b : β}, R a b →
    Related R (pure a) (pure b)
  related_bind : ∀ {α β γ δ : Type} {R : α → β → Prop} {S : γ → δ → Prop} {x : Lookup α}
    {y : Lookup β} {f : α → Lookup γ} {g : β → Lookup δ}, Related R x y →
    (∀ a b, R a b → Related S (f a) (g b)) → Related S (x >>= f) (y >>= g)
  related_throw : ∀ {α β : Type} {R : α → β → Prop} {e f : AnnotationError}, e.IsOwn →
    e.unplaced = f.unplaced → Related R (throw e) (throw f)
  related_swapped : ∀ {α β : Type} {R : α → β → Prop} {text other : String},
    exchange.Swaps text other → ∀ (expected : Expectation) (i j : Nat) (context : String),
    Related R (throw (.unexpected expected (some ⟨text, i⟩) context))
      (throw (.unexpected expected (some ⟨other, j⟩) context))
  related_stuck : ∀ {α β : Type} {R : α → β → Prop}, rest ≠ [] → ∀ (e : AnnotationError)
    (y : Lookup β), Related R (throw e : Lookup α) y
  related_exists : ∀ name, Related Eq (liftM (classExists registry name) : Lookup Bool)
    (liftM (classExists registry name))

namespace Correspondence

open Window

variable {registry : Registry} (r : Correspondence registry) {α β γ δ : Type}
  {before : Option TokenKind} {opened : List TokenKind} {w v : Window}

theorem related_mono {R T : α → β → Prop} {x : Lookup α} {y : Lookup β} (h : r.Related R x y)
    (hmono : ∀ a b, R a b → T a b) : r.Related T x y := by
  rw [← bind_pure x, ← bind_pure y]
  exact r.related_bind h fun a b hab => r.related_pure (hmono a b hab)

/-- The second window shows what the first does behind a token of kind `before` and inside of the
brackets `opened`, names exchanged and the rest added. -/
def Follows (before : Option TokenKind) (opened : List TokenKind) (w v : Window) : Prop :=
  Glyph.Recast r.exchange r.rest before opened w.outline v.outline

structure Swapped (before : Option TokenKind) (opened : List TokenKind) (w : Window)
    (t u : Token) : Prop where
  kind : u.kind = .qualifiedName
  takes : r.exchange.Takes before opened (w.glimpse.map fun t => t.kind) t.kind t.text u.text
  ends : Glyph.EndsName w.advance.outline

structure Facing (before : Option TokenKind) (opened : List TokenKind) (w v : Window)
    (t u : Token) (ts us : List Token) : Prop where
  first : w.ahead = t :: ts
  second : v.ahead = u :: us
  tokens : t.Alike u ∨ r.Swapped before opened w t u
  glued : (w.behind.any fun b => b.isAdjacent t) = v.behind.any fun b => b.isAdjacent u
  follows : r.Follows (some t.kind) (t.kind.enclose opened) w.advance v.advance

variable {r}

theorem Follows.of_append (h : Window.Follows r.rest w v) (before : Option TokenKind)
    (opened : List TokenKind) : r.Follows before opened w v := by
  unfold Follows
  rw [h]
  exact Glyph.recast_append _ _ _ _ _

theorem Follows.append (hnone : r.exchange = .none) (h : r.Follows before opened w v) :
    Window.Follows r.rest w v := by
  unfold Follows at h
  rw [hnone] at h
  exact h.eq_append

theorem Follows.length_eq (h : r.Follows before opened w v) :
    v.ahead.length = w.ahead.length + r.rest.length := by
  have hlength := Glyph.Recast.length_eq h
  unfold outline at hlength
  rw [Glyph.length_ofTokens, Glyph.length_ofTokens] at hlength
  exact hlength

theorem Follows.outline_eq (h : r.Follows before opened w v) (hend : w.ahead = []) :
    v.outline = r.rest := by
  unfold Follows at h
  rw [outline_nil hend] at h
  exact h.eq_rest

theorem Follows.cases (h : r.Follows before opened w v) :
    w.ahead = [] ∨ ∃ t u ts us, r.Facing before opened w v t u ts us := by
  cases hfirst : w.ahead with
  | nil => exact .inl rfl
  | cons t ts =>
    right
    have hlength := h.length_eq
    cases hsecond : v.ahead with
    | nil =>
      rw [hfirst, hsecond, List.length_cons, List.length_nil] at hlength
      omega
    | cons u us =>
      unfold Follows at h
      rw [outline_cons hfirst, outline_cons hsecond] at h
      generalize hhead : Glyph.mk u.kind u.text (v.behind.any fun b => b.isAdjacent u) = head at h
      cases h with
      | same hrest =>
        obtain ⟨hkind, htext, hglued⟩ := Glyph.mk.inj hhead
        exact ⟨t, u, ts, us, hfirst, hsecond, .inl ⟨hkind.symm, htext.symm⟩, hglued.symm, hrest⟩
      | exchanged htakes hends hrest =>
        obtain ⟨hkind, htext, hglued⟩ := Glyph.mk.inj hhead
        rw [head?_outline_advance hfirst, ← htext] at htakes
        exact ⟨t, u, ts, us, hfirst, hsecond, .inr ⟨hkind, htakes, hends⟩, hglued.symm, hrest⟩

/-- At the end of the first window the second one is at its end or shows the rest. -/
theorem Follows.of_end (h : r.Follows before opened w v) (hend : w.ahead = []) :
    (r.rest = [] ∧ v.ahead = []) ∨ ∃ u us g more, r.rest = g :: more ∧ v.ahead = u :: us ∧
      u.kind = g.kind := by
  have hshown := h.outline_eq hend
  cases hsecond : v.ahead with
  | nil =>
    rw [outline_nil hsecond] at hshown
    exact .inl ⟨hshown.symm, rfl⟩
  | cons u us =>
    rw [outline_cons hsecond] at hshown
    exact .inr ⟨u, us, _, _, hshown.symm, rfl, rfl⟩

/-- A test of kinds that neither notices an exchange nor holds of what the rest of the second window
starts with. -/
structure Telling (p : TokenKind → Bool) : Prop where
  sign : p .atSign = false
  other : p .other = false
  name : ∀ kind ∈ Reading.classParts, p kind = p .qualifiedName

theorem mem_classParts {kind : TokenKind} (h : kind.isClassPart = true) :
    kind ∈ Reading.classParts := by
  cases kind <;> first | decide | cases h

section Facing

variable {t u : Token} {ts us : List Token}

theorem Swapped.mem_classParts (h : r.Swapped before opened w t u) :
    t.kind ∈ Reading.classParts := Correspondence.mem_classParts h.takes.isClassPart

theorem Facing.kind_eq (h : r.Facing before opened w v t u ts us) {p : TokenKind → Bool}
    (hname : ∀ kind ∈ Reading.classParts, p kind = p .qualifiedName) : p t.kind = p u.kind := by
  rcases h.tokens with halike | hswapped
  · rw [halike.kind]
  · rw [hswapped.kind, hname _ hswapped.mem_classParts]

end Facing

variable (r)

/-- Two readers correspond at two windows; the first passes `n` tokens at least if it succeeds. -/
def ReadsAt (n : Nat) (R : α → β → Window → Window → Prop) (w v : Window) (x : Reading α)
    (y : Reading β) : Prop :=
  r.Related (fun a b => R a.1 b.1 a.2 b.2 ∧ a.2.ahead.length + n ≤ w.ahead.length) (x.run w)
    (y.run v)

def Ends (opened : List TokenKind) (R : α → β → Prop) (a : α) (b : β) (w v : Window) : Prop :=
  R a b ∧ ∃ before, r.Follows before opened w v

variable {R : α → β → Window → Window → Prop} {S : γ → δ → Window → Window → Prop}
  {T : α → β → Prop}

theorem readsAt_pure {a : α} {b : β} (hab : R a b w v) : r.ReadsAt 0 R w v (pure a) (pure b) :=
  r.related_pure ⟨hab, Nat.le_refl _⟩

theorem readsAt_ends {a : α} {b : β} (h : r.Follows before opened w v) (hab : T a b) :
    r.ReadsAt 0 (r.Ends opened T) w v (pure a) (pure b) :=
  r.readsAt_pure ⟨hab, before, h⟩

theorem readsAt_throw {n : Nat} {e f : AnnotationError} (he : e.IsOwn)
    (h : e.unplaced = f.unplaced) : r.ReadsAt n R w v (throw e) (throw f) :=
  r.related_throw he h

theorem readsAt_mono {m n : Nat} {x : Reading α} {y : Reading β} (h : r.ReadsAt n R w v x y)
    (hle : m ≤ n) : r.ReadsAt m R w v x y :=
  r.related_mono h fun _ _ hab => ⟨hab.1, by have := hab.2; omega⟩

theorem readsAt_bind_add {m n : Nat} {x : Reading α} {y : Reading β} {f : α → Reading γ}
    {g : β → Reading δ} (hx : r.ReadsAt m R w v x y)
    (hf : ∀ a b w' v', R a b w' v' → w'.ahead.length + m ≤ w.ahead.length →
      r.ReadsAt n S w' v' (f a) (g b)) : r.ReadsAt (m + n) S w v (x >>= f) (y >>= g) := by
  unfold ReadsAt
  rw [StateT.run_bind, StateT.run_bind]
  refine r.related_bind hx fun a b hab => ?_
  obtain ⟨hvalues, hpassed⟩ := hab
  refine r.related_mono (hf a.1 b.1 a.2 b.2 hvalues hpassed) fun c d hcd => ?_
  exact ⟨hcd.1, by have := hcd.2; omega⟩

theorem readsAt_bind {n : Nat} {x : Reading α} {y : Reading β} {f : α → Reading γ}
    {g : β → Reading δ} (hx : r.ReadsAt n R w v x y)
    (hf : ∀ a b w' v', R a b w' v' → w'.ahead.length + n ≤ w.ahead.length →
      r.ReadsAt 0 S w' v' (f a) (g b)) : r.ReadsAt n S w v (x >>= f) (y >>= g) :=
  r.readsAt_bind_add hx hf

theorem readsAt_seq {m n : Nat} {x : Reading α} {y : Reading β} {f : α → Reading γ}
    {g : β → Reading δ} (hx : r.ReadsAt m R w v x y)
    (hf : ∀ a b w' v', R a b w' v' → w'.ahead.length + m ≤ w.ahead.length →
      r.ReadsAt n S w' v' (f a) (g b)) : r.ReadsAt n S w v (x >>= f) (y >>= g) :=
  r.readsAt_mono (r.readsAt_bind_add hx hf) (by omega)

theorem readsAt_next {m n : Nat} {x y : Reading α} {f : α → Reading γ} {g : α → Reading δ}
    (hx : r.ReadsAt m (r.Ends opened Eq) w v x y)
    (hf : ∀ a before w' v', r.Follows before opened w' v' →
      w'.ahead.length + m ≤ w.ahead.length → r.ReadsAt n S w' v' (f a) (g a)) :
    r.ReadsAt n S w v (x >>= f) (y >>= g) := by
  refine r.readsAt_seq hx ?_
  rintro a _ w' v' ⟨rfl, before, hfollows⟩
  exact hf a before w' v' hfollows

theorem readsAt_get_bind {n : Nat} {f : Window → Reading α} {g : Window → Reading β}
    (h : r.ReadsAt n R w v (f w) (g v)) : r.ReadsAt n R w v (get >>= f) (get >>= g) := by
  unfold ReadsAt at h ⊢
  rw [StateT.run_bind, StateT.run_bind, StateT.run_get, StateT.run_get, pure_bind, pure_bind]
  exact h

theorem readsAt_lookup {x : Lookup α} {y : Lookup β} (hfollows : r.Follows before opened w v)
    (h : r.Related T x y) : r.ReadsAt 0 (r.Ends opened T) w v (liftM x) (liftM y) :=
  r.related_bind h fun _ _ hab => r.related_pure ⟨⟨hab, before, hfollows⟩, Nat.le_refl _⟩

section Readers

variable (scope : Scope) (source : String → Lookup (Option AnnotationSchema))
  (r : Correspondence scope.registry)

/-- Where the first reading cannot go on, any second one corresponds to it. -/
theorem readsAt_stuck {n : Nat} (hrest : r.rest ≠ []) {x : Reading α} {e : AnnotationError}
    (hx : x.run w = throw e) (y : Reading β) : r.ReadsAt n R w v x y := by
  unfold ReadsAt
  rw [hx]
  exact r.related_stuck hrest e _

theorem run_unexpected (expected : Expectation) (w : Window) :
    (Reading.unexpected scope expected : Reading α).run w =
      throw (.unexpected expected (w.lookahead.map Found.ofToken) scope.context) := by
  unfold Reading.unexpected
  rw [StateT.run_bind, StateT.run_get, pure_bind]
  rfl

theorem readsAt_unexpected {n : Nat} (h : r.Follows before opened w v) (expected : Expectation) :
    r.ReadsAt n R w v (Reading.unexpected scope expected : Reading α)
      (Reading.unexpected (scope.withSource source) expected : Reading β) := by
  have hfound (hsame : (w.lookahead.map Found.ofToken).map (fun f => { f with offset := 0 }) =
      (v.lookahead.map Found.ofToken).map (fun f => { f with offset := 0 })) :
      r.ReadsAt n R w v (Reading.unexpected scope expected : Reading α)
        (Reading.unexpected (scope.withSource source) expected : Reading β) := by
    unfold ReadsAt
    rw [run_unexpected, run_unexpected]
    refine r.related_throw trivial ?_
    exact congrArg (AnnotationError.unexpected expected · scope.context) hsame
  rcases h.cases with hend | ⟨t, u, ts, us, hfacing⟩
  · rcases h.of_end hend with ⟨-, hother⟩ | ⟨u, us, g, more, hrest, -⟩
    · apply hfound
      unfold lookahead
      rw [hend, hother]
    · exact readsAt_stuck scope r (by rw [hrest]; simp) (run_unexpected scope expected w) _
  · rcases hfacing.tokens with halike | hswapped
    · apply hfound
      unfold lookahead
      rw [hfacing.first, hfacing.second]
      simp [Found.ofToken, halike.text]
    · unfold ReadsAt
      rw [run_unexpected, run_unexpected]
      unfold lookahead
      rw [hfacing.first, hfacing.second]
      exact r.related_swapped hswapped.takes.swaps expected t.start.offset u.start.offset
        scope.context

/-- Two windows agree in a test of the token ahead if the tokens of both do. -/
theorem lookahead_any_of (h : r.Follows before opened w v) {p : TokenKind → Bool}
    (hsign : p .atSign = false) (hother : p .other = false)
    (hfacing : ∀ t u ts us, r.Facing before opened w v t u ts us → p t.kind = p u.kind) :
    (w.lookahead.any fun t => p t.kind) = v.lookahead.any fun t => p t.kind := by
  unfold lookahead
  rcases h.cases with hend | ⟨t, u, ts, us, htokens⟩
  · rcases h.of_end hend with ⟨-, hnone⟩ | ⟨u, us, g, more, hrest, hshown, hkind⟩
    · rw [hend, hnone]
    · have hquiet := r.quiet g (by rw [hrest]; rfl)
      rw [hend, hshown, List.head?_nil, List.head?_cons, Option.any_none, Option.any_some, hkind]
      rcases hquiet with hkind | hkind
      · rw [hkind, hsign]
      · rw [hkind, hother]
  · rw [htokens.first, htokens.second, List.head?_cons, List.head?_cons, Option.any_some,
      Option.any_some, hfacing t u ts us htokens]

theorem lookahead_any (h : r.Follows before opened w v) {p : TokenKind → Bool} (hp : Telling p) :
    (w.lookahead.any fun t => p t.kind) = v.lookahead.any fun t => p t.kind :=
  lookahead_any_of scope r h hp.sign hp.other fun _ _ _ _ hfacing => hfacing.kind_eq hp.name

theorem isNext_eq (h : r.Follows before opened w v) {kind : TokenKind}
    (hkind : Telling (· == kind)) : w.isNext kind = v.isNext kind :=
  lookahead_any scope r h hkind

/-- The tokens after the ones ahead, if there is one ahead of the first window. -/
theorem glimpse_any (h : r.Follows before opened w v) (hsome : w.ahead ≠ [] ∨ r.rest = [])
    {p : TokenKind → Bool} (hp : Telling p) :
    (w.glimpse.any fun t => p t.kind) = v.glimpse.any fun t => p t.kind := by
  rcases h.cases with hend | ⟨t, u, ts, us, hfacing⟩
  · have hrest := hsome.resolve_left (absurd hend)
    have hother : v.ahead = [] := by
      rw [← List.length_eq_zero_iff, h.length_eq, hend, hrest]
      rfl
    unfold glimpse
    rw [hend, hother]
  · have hnext := lookahead_any scope r hfacing.follows hp
    unfold glimpse
    unfold lookahead advance at hnext
    rw [hfacing.first, hfacing.second] at hnext ⊢
    simpa only [List.getElem?_cons_succ, ← List.head?_eq_getElem?] using hnext

theorem readsAt_isNext_bind {n : Nat} (h : r.Follows before opened w v) {kind : TokenKind}
    (hkind : Telling (· == kind)) {f : Bool → Reading α} {g : Bool → Reading β}
    (hf : r.ReadsAt n R w v (f (w.isNext kind)) (g (w.isNext kind))) :
    r.ReadsAt n R w v (Reading.isNext kind >>= f) (Reading.isNext kind >>= g) := by
  unfold Reading.isNext
  rw [bind_assoc, bind_assoc]
  refine r.readsAt_get_bind ?_
  rw [pure_bind, pure_bind, ← isNext_eq scope r h hkind]
  exact hf

theorem facing_of_isNext (h : r.Follows before opened w v) {kind : TokenKind}
    (hnext : w.isNext kind = true) :
    ∃ t u ts us, r.Facing before opened w v t u ts us ∧ t.kind = kind := by
  unfold isNext lookahead at hnext
  rcases h.cases with hend | ⟨t, u, ts, us, hfacing⟩
  · rw [hend] at hnext
    cases hnext
  · rw [hfacing.first] at hnext
    exact ⟨t, u, ts, us, hfacing, eq_of_beq hnext⟩

theorem readsAt_skip {t u : Token} {ts us : List Token}
    (h : r.Facing before opened w v t u ts us) :
    r.ReadsAt 1 (fun _ _ w' v' => w' = w.advance ∧ v' = v.advance) w v Reading.skip
      Reading.skip := by
  have hpassed : w.advance.ahead.length + 1 ≤ w.ahead.length := by
    unfold advance
    rw [h.first]
    exact Nat.le_refl _
  exact r.related_pure ⟨⟨rfl, rfl⟩, hpassed⟩

theorem readsAt_skip_bind {n : Nat} (h : r.Follows before opened w v) {kind : TokenKind}
    (hnext : w.isNext kind = true) {f : Unit → Reading α} {g : Unit → Reading β}
    (hf : ∀ w' v', r.Follows (some kind) (kind.enclose opened) w' v' →
      w'.ahead.length + 1 ≤ w.ahead.length → r.ReadsAt n R w' v' (f ()) (g ())) :
    r.ReadsAt n R w v (Reading.skip >>= f) (Reading.skip >>= g) := by
  obtain ⟨t, u, ts, us, hfacing, rfl⟩ := facing_of_isNext scope r h hnext
  refine r.readsAt_seq (readsAt_skip scope r hfacing) ?_
  rintro _ _ _ _ ⟨rfl, rfl⟩ hpassed
  exact hf _ _ hfacing.follows hpassed

def Taken (before : Option TokenKind) (opened : List TokenKind) (w v : Window)
    (kinds : List TokenKind) (t u : Token) (w' v' : Window) : Prop :=
  ∃ ts us, r.Facing before opened w v t u ts us ∧ kinds.contains t.kind = true ∧
    w' = w.advance ∧ v' = v.advance

theorem readsAt_expectAny_facing {kinds : List TokenKind} {t u : Token} {ts us : List Token}
    (h : r.Follows before opened w v) (hfacing : r.Facing before opened w v t u ts us)
    (hsame : kinds.contains t.kind = kinds.contains u.kind) :
    r.ReadsAt 1 (Taken scope r before opened w v kinds) w v (Reading.expectAny scope kinds)
      (Reading.expectAny (scope.withSource source) kinds) := by
  refine r.readsAt_get_bind ?_
  unfold lookahead
  rw [hfacing.first, hfacing.second]
  dsimp only [List.head?_cons]
  rw [← hsame]
  split
  · next hkind =>
    refine r.readsAt_bind (readsAt_skip scope r hfacing) ?_
    rintro _ _ _ _ ⟨rfl, rfl⟩ _
    exact r.readsAt_pure ⟨ts, us, hfacing, hkind, rfl, rfl⟩
  · exact readsAt_unexpected scope source r h _

/-- Take the tokens ahead if they are of kinds that do not notice an exchange. -/
theorem readsAt_expectAny (h : r.Follows before opened w v) {kinds : List TokenKind}
    (hkinds : ∀ kind ∈ Reading.classParts, kinds.contains kind = kinds.contains .qualifiedName) :
    r.ReadsAt 1 (Taken scope r before opened w v kinds) w v (Reading.expectAny scope kinds)
      (Reading.expectAny (scope.withSource source) kinds) := by
  rcases h.cases with hend | ⟨t, u, ts, us, hfacing⟩
  · refine r.readsAt_get_bind ?_
    unfold lookahead
    rw [hend]
    rcases h.of_end hend with ⟨-, hother⟩ | ⟨u, us, g, more, hrest, -⟩
    · rw [hother]
      exact readsAt_unexpected scope source r h _
    · exact readsAt_stuck scope r (by rw [hrest]; simp) (run_unexpected scope _ w) _
  · exact readsAt_expectAny_facing scope source r h hfacing (hfacing.kind_eq hkinds)

theorem readsAt_expect (h : r.Follows before opened w v) {kind : TokenKind}
    (hkind : ∀ part ∈ Reading.classParts, part ≠ kind) :
    r.ReadsAt 1 (fun _ _ => r.Follows (some kind) (kind.enclose opened)) w v
      (Reading.expect scope kind) (Reading.expect (scope.withSource source) kind) := by
  have hsingle (part : TokenKind) (hpart : part ∈ Reading.classParts) :
      [kind].contains part = [kind].contains .qualifiedName := by
    have hname := hkind .qualifiedName (by decide)
    simp [hkind part hpart, hname]
  refine r.related_mono (readsAt_expectAny scope source r h hsingle) ?_
  rintro ⟨t, _⟩ ⟨u, _⟩ ⟨⟨ts, us, hfacing, htaken, rfl, rfl⟩, hpassed⟩
  obtain rfl : t.kind = kind := by simpa using htaken
  exact ⟨hfacing.follows, hpassed⟩

theorem run_moreItems_last {closer : TokenKind} (item : Reading α) (steps : Nat)
    (h : w.isNext .comma = false) : (Reading.moreItems closer item steps).run w = pure ([], w) := by
  cases steps with
  | zero => rfl
  | succ steps =>
    unfold Reading.moreItems Reading.isNext
    rw [bind_assoc, StateT.run_bind, StateT.run_get, pure_bind, pure_bind, h]
    rfl

/-- After the last item the numbers of steps that are left do not matter. -/
theorem readsAt_moreItems_last {closer : TokenKind} (item other : Reading α) (steps others : Nat)
    (h : r.Follows before opened w v) (hlast : w.isNext .comma = false) :
    r.ReadsAt 0 (r.Ends opened Eq) w v (Reading.moreItems closer item steps)
      (Reading.moreItems closer other others) := by
  have hsame : w.isNext .comma = v.isNext .comma := isNext_eq scope r h ⟨rfl, rfl, by decide⟩
  unfold ReadsAt
  rw [run_moreItems_last item _ hlast, run_moreItems_last other _ (hsame ▸ hlast)]
  exact r.related_pure ⟨⟨rfl, before, h⟩, Nat.le_refl _⟩

theorem readsAt_moreItems {closer : TokenKind} (hcloser : Telling (· == closer))
    {item other : Reading α}
    (h : ∀ w v, r.Follows (some .comma) opened w v →
      r.ReadsAt 0 (r.Ends opened Eq) w v item other) {steps others : Nat}
    (hfollows : r.Follows before opened w v) (hsteps : w.ahead.length ≤ steps)
    (hothers : v.ahead.length ≤ others) :
    r.ReadsAt 0 (r.Ends opened Eq) w v (Reading.moreItems closer item steps)
      (Reading.moreItems closer other others) := by
  induction steps generalizing before others w v with
  | zero =>
    refine readsAt_moreItems_last scope r item other _ _ hfollows ?_
    unfold isNext lookahead
    rw [List.length_eq_zero_iff.1 (Nat.le_zero.1 hsteps)]
    rfl
  | succ steps ih =>
    cases hcomma : w.isNext .comma with
    | false => exact readsAt_moreItems_last scope r item other _ _ hfollows hcomma
    | true =>
      obtain ⟨t, u, ts, us, hfacing, -⟩ := facing_of_isNext scope r hfollows hcomma
      obtain ⟨others, rfl⟩ : ∃ k, others = k + 1 := by
        rw [hfacing.second, List.length_cons] at hothers
        exact ⟨others - 1, by omega⟩
      unfold Reading.moreItems
      refine readsAt_isNext_bind scope r hfollows ⟨rfl, rfl, by decide⟩ ?_
      rw [hcomma]
      refine readsAt_skip_bind scope r hfollows hcomma fun w₂ v₂ hnext _ => ?_
      refine readsAt_isNext_bind scope r hnext hcloser ?_
      split
      · exact r.readsAt_ends hnext rfl
      · refine r.readsAt_next (h w₂ v₂ hnext) fun a _ w₃ v₃ hitem _ => ?_
        have hall := hitem.length_eq
        have hother := hfollows.length_eq
        exact r.readsAt_next (ih hitem (by omega) (by omega)) fun all _ _ _ hend _ =>
          r.readsAt_ends hend rfl

theorem readsAt_items {closer : TokenKind} (hcloser : Telling (· == closer))
    {item other : Reading α} (hfirst : r.ReadsAt 0 (r.Ends opened Eq) w v item other)
    (h : ∀ w v, r.Follows (some .comma) opened w v →
      r.ReadsAt 0 (r.Ends opened Eq) w v item other) :
    r.ReadsAt 0 (r.Ends opened Eq) w v (Reading.items closer item)
      (Reading.items closer other) := by
  refine r.readsAt_next hfirst fun a _ w' v' hnext _ => r.readsAt_get_bind ?_
  have hmore := readsAt_moreItems scope r hcloser h hnext (Nat.le_refl _) (Nat.le_refl _)
  exact r.readsAt_next hmore fun all _ _ _ hend _ => r.readsAt_ends hend rfl

theorem adjacent_any (h : r.Follows before opened w v) {p : TokenKind → Bool} (hp : Telling p) :
    (w.lookahead.any fun t => p t.kind && w.behind.any fun b => b.isAdjacent t) =
      v.lookahead.any fun t => p t.kind && v.behind.any fun b => b.isAdjacent t := by
  unfold lookahead
  rcases h.cases with hend | ⟨t, u, ts, us, hfacing⟩
  · rcases h.of_end hend with ⟨-, hother⟩ | ⟨u, us, g, more, hrest, hshown, hkind⟩
    · rw [hend, hother]
      rfl
    · rw [hend, hshown]
      rcases r.quiet g (by rw [hrest]; rfl) with hquiet | hquiet
      · simp [hkind, hquiet, hp.sign]
      · simp [hkind, hquiet, hp.other]
  · rw [hfacing.first, hfacing.second]
    simp [hfacing.kind_eq hp.name, hfacing.glued]

theorem separatorFollows_eq_any (w : Window) : Reading.separatorFollows w =
    w.lookahead.any fun t => t.kind == .separator && w.behind.any fun b => b.isAdjacent t := by
  unfold Reading.separatorFollows
  cases w.behind <;> cases w.lookahead <;> simp

theorem separatorFollows_eq (h : r.Follows before opened w v) :
    Reading.separatorFollows w = Reading.separatorFollows v := by
  rw [separatorFollows_eq_any, separatorFollows_eq_any]
  exact adjacent_any scope r h (p := (· == .separator)) ⟨rfl, rfl, by decide⟩

/-- Behind a name that has been exchanged no separator follows. -/
theorem not_separatorFollows (h : Glyph.EndsName w.outline) :
    Reading.separatorFollows w = false := by
  rw [separatorFollows_eq_any]
  unfold lookahead
  cases hahead : w.ahead with
  | nil => rfl
  | cons t ts =>
    have hends := h _ (by rw [outline_cons hahead]; rfl)
    rw [List.head?_cons, Option.any_some]
    simpa using hends

theorem facing_of_separatorFollows (h : r.Follows before opened w v)
    (hnext : Reading.separatorFollows w = true) :
    ∃ t u ts us, r.Facing before opened w v t u ts us := by
  rw [separatorFollows_eq_any] at hnext
  obtain ⟨t, ht, htest⟩ := (Option.any_eq_true _ _).1 hnext
  have hkind : w.isNext .separator = true :=
    (Option.any_eq_true _ _).2 ⟨t, ht, (Bool.and_eq_true_iff.1 htest).1⟩
  obtain ⟨t, u, ts, us, hfacing, -⟩ := facing_of_isNext scope r h hkind
  exact ⟨t, u, ts, us, hfacing⟩

theorem run_nameParts_last (scope : Scope) (steps : Nat)
    (h : Reading.separatorFollows w = false) :
    (Reading.nameParts scope steps).run w = pure ("", w) := by
  cases steps with
  | zero => rfl
  | succ steps =>
    unfold Reading.nameParts
    rw [StateT.run_bind, StateT.run_get, pure_bind, h]
    rfl

theorem readsAt_nameParts_last (steps others : Nat) (h : r.Follows before opened w v)
    (hlast : Reading.separatorFollows w = false) :
    r.ReadsAt 0 (r.Ends opened Eq) w v (Reading.nameParts scope steps)
      (Reading.nameParts (scope.withSource source) others) := by
  have hsame := separatorFollows_eq scope r h
  unfold ReadsAt
  rw [run_nameParts_last scope _ hlast, run_nameParts_last _ _ (hsame ▸ hlast)]
  exact r.related_pure ⟨⟨rfl, before, h⟩, Nat.le_refl _⟩

theorem follows_classPart {t u : Token} {ts us : List Token}
    (h : r.Facing before opened w v t u ts us)
    (hkind : Reading.classParts.contains t.kind = true) :
    r.Follows (some t.kind) opened w.advance v.advance := by
  have hpart : t.kind.isClassPart = true := by
    have hmem : t.kind ∈ Reading.classParts := by simpa using hkind
    revert hmem
    generalize t.kind = kind
    cases kind <;> decide
  have hfollows := h.follows
  rwa [TokenKind.enclose_of_isClassPart hpart] at hfollows

theorem readsAt_nameParts {steps others : Nat} (hfollows : r.Follows before opened w v)
    (hsteps : w.ahead.length ≤ steps) (hothers : v.ahead.length ≤ others) :
    r.ReadsAt 0 (r.Ends opened Eq) w v (Reading.nameParts scope steps)
      (Reading.nameParts (scope.withSource source) others) := by
  induction steps generalizing before others w v with
  | zero =>
    refine readsAt_nameParts_last scope source r _ _ hfollows ?_
    rw [separatorFollows_eq_any]
    unfold lookahead
    rw [List.length_eq_zero_iff.1 (Nat.le_zero.1 hsteps)]
    rfl
  | succ steps ih =>
    cases hnext : Reading.separatorFollows w with
    | false => exact readsAt_nameParts_last scope source r _ _ hfollows hnext
    | true =>
      obtain ⟨t, u, ts, us, hfacing⟩ := facing_of_separatorFollows scope r hfollows hnext
      obtain ⟨others, rfl⟩ : ∃ k, others = k + 1 := by
        rw [hfacing.second, List.length_cons] at hothers
        exact ⟨others - 1, by omega⟩
      unfold Reading.nameParts
      refine r.readsAt_get_bind ?_
      rw [← separatorFollows_eq scope r hfollows, hnext]
      refine r.readsAt_seq (readsAt_expect scope source r hfollows (by decide))
        fun _ _ w₂ v₂ hname _ => ?_
      refine r.readsAt_seq (readsAt_expectAny scope source r hname (by decide)) ?_
      rintro t u _ _ ⟨ts, us, hpart, hkind, rfl, rfl⟩ _
      have halike : t.Alike u := by
        rcases hpart.tokens with halike | hswapped
        · exact halike
        -- Nothing is exchanged behind a separator.
        · rcases hswapped.takes with ⟨hsign, -, -⟩ | ⟨hvalue, -, -, -⟩
          · cases hsign
          · cases hvalue
      have hrest := follows_classPart scope r hpart hkind
      have hall := hrest.length_eq
      have hother := hfollows.length_eq
      rw [halike.text]
      exact r.readsAt_next (ih hrest (by omega) (by omega)) fun _ _ _ _ hend _ =>
        r.readsAt_ends hend rfl

def Written (before : Option TokenKind) (written other : String) : Prop :=
  written = other ∨ (before = some .atSign ∧ r.exchange.names written other) ∨
    (before ≠ some .atSign ∧ r.exchange.constants written other)

theorem Swapped.written {t u : Token} (h : r.Swapped before opened w t u) :
    Written scope r before t.text u.text := by
  rcases h.takes with ⟨hsign, -, hnames⟩ | ⟨hvalue, -, -, hconstants⟩
  · exact .inr (.inl ⟨hsign, hnames⟩)
  · refine .inr (.inr ⟨?_, hconstants⟩)
    rintro rfl
    cases hvalue

theorem readsAt_identifier (h : r.Follows before opened w v) :
    r.ReadsAt 1 (r.Ends opened (Written scope r before)) w v (Reading.identifier scope)
      (Reading.identifier (scope.withSource source)) := by
  have hclass : Telling Reading.classParts.contains := ⟨rfl, rfl, by decide⟩
  have hsame : w.isNextAny Reading.classParts = v.isNextAny Reading.classParts :=
    lookahead_any scope r h hclass
  have hname : r.ReadsAt 1 (r.Ends opened (Written scope r before)) w v
      (do let first ← Reading.expectAny scope Reading.classParts
          let rest ← Reading.nameParts scope (← get).ahead.length
          return first.text ++ rest)
      (do let first ← Reading.expectAny (scope.withSource source) Reading.classParts
          let rest ← Reading.nameParts (scope.withSource source) (← get).ahead.length
          return first.text ++ rest) := by
    refine r.readsAt_bind (readsAt_expectAny scope source r h (by decide)) ?_
    rintro t u _ _ ⟨ts, us, hfacing, hkind, rfl, rfl⟩ _
    have hrest := follows_classPart scope r hfacing hkind
    refine r.readsAt_get_bind ?_
    rcases hfacing.tokens with halike | hswapped
    · rw [halike.text]
      have hparts := readsAt_nameParts scope source r hrest (Nat.le_refl _) (Nat.le_refl _)
      exact r.readsAt_next hparts fun _ _ _ _ hend _ => r.readsAt_ends hend (.inl rfl)
    · have hlast := not_separatorFollows hswapped.ends
      have hother := (separatorFollows_eq scope r hrest).symm.trans hlast
      have hwritten := hswapped.written scope r
      unfold ReadsAt
      rw [StateT.run_bind, StateT.run_bind, run_nameParts_last scope _ hlast,
        run_nameParts_last _ _ hother, pure_bind, pure_bind, String.append_empty,
        String.append_empty]
      exact r.related_pure ⟨⟨hwritten, _, hrest⟩, Nat.le_refl _⟩
  refine r.readsAt_get_bind ?_
  rw [← hsame]
  dsimp only
  split
  · have hnone : r.ReadsAt 1 (fun _ _ _ _ => False) w v
        (Reading.unexpected scope .name : Reading Unit)
        (Reading.unexpected (scope.withSource source) .name : Reading Unit) :=
      readsAt_unexpected scope source r h _
    exact r.readsAt_seq hnone fun _ _ _ _ hfalse => hfalse.elim
  · exact hname

def recallProperty (r : Correspondence registry) : RecallProperty registry where
  Holds x := r.Related Eq (liftM x) (liftM x)
  holds_pure _ := r.related_pure rfl
  holds_bind {_ _ _ f} hx hf := r.related_bind hx fun a b hab => by subst hab; exact hf a
  holds_exists := r.related_exists

end Readers

end Correspondence

end Docblock
