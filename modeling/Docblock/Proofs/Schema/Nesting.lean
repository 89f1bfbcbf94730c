import Docblock.Proofs.Lookup.Annotations
import Docblock.Proofs.Schema.Orderly

/-!
# Nested readings of schemas

Reading schemas can be watched: whenever a class has been entered and whenever a schema may have
been added the memory is looked at, no more classes may be entered inside each other than there are
marked classes, and no text may be left over. Whatever alarm is to be raised otherwise, the watched
reading gives what the unwatched one gives, so that there is never any reason for an alarm.
-/

namespace Docblock

open Reflection

def Registry.marked (registry : Registry) : Registry :=
  { registry with classes := registry.classes.filter fun c => Text.occursIn marker c.doc }

section Watch

variable (alarm : AnnotationError) (fine : Memory → Prop)

open Classical in
/-- Raise the alarm unless the memory is fine. -/
noncomputable def watch : Lookup Unit := do
  if fine (← get) then return () else throw alarm

def watchedReadDoc (scope : Scope) (target : Target) (input : String) :
    Lookup (List Annotation) :=
  match DocText.body? input with
  | none => return []
  | some body => do
    let tokens := Token.scan body
    let (found, last) ← (Reading.annotations scope target tokens.length).run (.ofTokens tokens)
    if last.ahead.isEmpty then return found else throw alarm

noncomputable def watchedBuild (registry : Registry)
    (source : Settings → String → Lookup (Option AnnotationSchema)) (owner : Settings)
    (c : ClassDeclaration) : Lookup AnnotationSchema := do
  watch alarm fine
  let settings ← docSettings owner
  let read : DocReader := fun context target doc =>
    watchedReadDoc alarm ⟨registry, settings, context, source settings⟩ target doc
  schemaOfClass read c

noncomputable def watchedSchemaOf (registry : Registry) :
    Nat → Settings → String → Lookup (Option AnnotationSchema)
  | 0, _, name => recalled registry (fun _ => throw alarm) name
  | room + 1, owner, name => do
    let build := watchedBuild alarm fine registry (watchedSchemaOf registry room) owner
    let found ← recalled registry build name
    watch alarm fine
    return found

variable {alarm fine} {α : Type} {m : Memory}

theorem result_watch (h : fine m) : (watch alarm fine).result m = (.ok (), m) := by
  unfold watch
  rw [Lookup.result_get_bind, if_pos h]
  rfl

theorem result_watch_after {x : Lookup α} (h : fine (x.result m).2) :
    (do let a ← x
        watch alarm fine
        return a : Lookup α).result m = x.result m := by
  rw [Lookup.result_bind]
  cases hrun : x.result m with
  | mk outcome n =>
    rw [hrun] at h
    cases outcome with
    | error e => rfl
    | ok a =>
      have hfine : fine n := h
      exact Lookup.result_bind_ok (result_watch hfine)

end Watch

/-- From here on reading succeeds in keeping order: the memory is faithful and orderly, and there
are no more classes to enter than can be entered inside each other. -/
structure Memory.Ready (registry : Registry) (names ignored : List String) (depth room : Nat)
    (m : Memory) : Prop where
  faithful : m.Faithful registry names
  settles : m.docSettings? = none → ignored = names
  orderly : m.Orderly registry names
  depth_suffices : registry.unopened m.reflecting ≤ depth
  room_suffices : registry.marked.unopened m.reflecting ≤ room

namespace Memory.Ready

variable {registry : Registry} {names ignored : List String} {depth room : Nat} {m n : Memory}

theorem of_extends (h : m.Ready registry names ignored depth room) (hgrown : m.Extends n)
    (hfaithful : n.Faithful registry names) (horderly : n.Orderly registry names) :
    n.Ready registry names ignored depth room where
  faithful := hfaithful
  settles hopen := h.settles (hgrown.unsettled hopen)
  orderly := horderly
  depth_suffices := hgrown.reflecting ▸ h.depth_suffices
  room_suffices := hgrown.reflecting ▸ h.room_suffices

end Memory.Ready

section Undisturbed

variable {registry : Registry} {names ignored : List String} {depth room : Nat} {α β : Type}

def Undisturbed (registry : Registry) (names ignored : List String) (depth room : Nat)
    (x y : Lookup α) : Prop :=
  ∀ m, m.Ready registry names ignored depth room →
    x.result m = y.result m ∧ m.Extends (y.result m).2 ∧
      (y.result m).2.Ready registry names ignored depth room

def watching (registry : Registry) (names ignored : List String) (depth room : Nat) :
    LookupRelation registry where
  Related := Undisturbed registry names ignored depth room
  related_pure a m hm := ⟨rfl, Memory.Extends.refl m, hm⟩
  related_throw e m hm := ⟨rfl, Memory.Extends.refl m, hm⟩
  related_bind := by
    intro α β x y f g hx hf m hm
    obtain ⟨hsame, hgrown, hmid⟩ := hx m hm
    rw [Lookup.result_bind, Lookup.result_bind, hsame]
    cases hrun : y.result m with
    | mk outcome mid =>
      rw [hrun] at hsame hgrown hmid
      cases outcome with
      | error e => exact ⟨rfl, hgrown, hmid⟩
      | ok a =>
        obtain ⟨hrest, hlast, hend⟩ := hf a ⟨m, mid, hsame⟩ mid hmid
        exact ⟨hrest, hgrown.trans hlast, hend⟩
  related_exists name m hm := by
    have hexists : Transparent registry names ignored depth [] _ _ := .of_exists name
    obtain ⟨hend, hgrown, -⟩ := hexists m hm.faithful hm.settles hm.depth_suffices
    refine ⟨rfl, hgrown, hm.of_extends hgrown hend ?_⟩
    rw [Lookup.result_recall]
    rcases run_classExists hm.faithful.knows name with hrun | hrun
    · rw [hrun]
      exact hm.orderly
    · rw [hrun]
      exact hm.orderly.of_eq rfl rfl

theorem undisturbed_readDoc (alarm : AnnotationError) (scope : Scope)
    (source : String → Lookup (Option AnnotationSchema))
    (hs : ∀ name, Undisturbed scope.registry names ignored depth room
      (scope.schemaOf (ClassName.bare name)) (source (ClassName.bare name)))
    (target : Target) (input : String) :
    Undisturbed scope.registry names ignored depth room (watchedReadDoc alarm scope target input)
      (readDoc (scope.withSource source) target input) := by
  let r := watching scope.registry names ignored depth room
  unfold watchedReadDoc readDoc
  cases DocText.body? input with
  | none => exact r.related_pure _
  | some body =>
    have hask (name : String) := LookupRelation.related_askSchema scope source r.twin_self (hs name)
    have hread := LookupRelation.reads_annotations scope source r.twin_self hask target
      (Token.scan body).length (.ofTokens (Token.scan body))
    dsimp only
    rw [map_eq_pure_bind]
    refine r.related_bind hread fun found hfound => ?_
    obtain ⟨m, n, hrun⟩ := hfound
    have hlength : (Window.ofTokens (Token.scan body)).ahead.length ≤ (Token.scan body).length :=
      Nat.le_refl _
    have hend : found.2.ahead = [] := Reading.annotations_reach_end hlength hrun
    rw [hend]
    exact r.related_pure found.1

def builder (registry : Registry) : Nat → Settings → ClassDeclaration → Lookup AnnotationSchema
  | 0, _, c => throw (.circular c.name)
  | depth + 1, owner, c => do
    let settings ← docSettings owner
    schemaOfClass (readerTo registry depth settings) c

theorem schemaOf_eq_recalled (registry : Registry) (depth : Nat) (owner : Settings)
    (name : String) : schemaOf registry depth owner name =
      recalled registry (builder registry depth owner) name := by
  cases depth <;> rfl

/-- From a memory the two builders do the same, keep it orderly, and provide what the class refers
to. -/
structure BuildsOrderly (registry : Registry) (names : List String) (m : Memory)
    (x y : Lookup AnnotationSchema) : Prop where
  result_eq : x.result m = y.result m
  orderly : (y.result m).2.Orderly registry names
  provides : ∀ schema n, y.result m = (.ok schema, n) →
    ∀ other, References registry names schema.name other → n.Provides registry other

/-- Recalling a schema keeps order if building it does, for every class that can be entered. -/
theorem orderly_recalled {build other : ClassDeclaration → Lookup AnnotationSchema} {name : String}
    {m : Memory} (hm : m.Orderly registry names)
    (hbuild : ∀ c, registry.describe? name = some c → Text.occursIn marker c.doc = true →
      name ∉ m.reflecting → m.schemas.find? name = none →
      BuildsOrderly registry names (m.enter name) (build c) (other c)) :
    (recalled registry build name).result m = (recalled registry other name).result m ∧
      ((recalled registry other name).result m).2.Orderly registry names := by
  rcases recalled_cases registry name m with
    ⟨outcome, n, hschemas, hreflecting, hall⟩ | ⟨c, hc, hmarked, hopen, hfresh, hplain⟩
  · rw [hall build, hall other]
    exact ⟨rfl, hm.of_eq hschemas hreflecting⟩
  · have hclass := hbuild c hc hmarked hopen hfresh
    rw [recalled_missing hfresh hplain, recalled_missing hfresh hplain,
      reflect_entered hc hmarked hopen, reflect_entered hc hmarked hopen, hclass.result_eq]
    refine ⟨rfl, ?_⟩
    cases hrun : (other c).result (m.enter name) with
    | mk outcome mid =>
      have hmid := hclass.orderly
      rw [hrun] at hmid
      have hleft := hmid.leave name
      cases outcome with
      | error e => exact hleft
      | ok schema =>
        dsimp only
        cases hadd : mid.schemas.add schema with
        | error e => exact hleft
        | ok schemas => exact hleft.add hadd (hclass.provides schema mid hrun)

theorem orderly_docSettings {m : Memory} (hm : m.Orderly registry names) (owner : Settings) :
    ((docSettings owner).run m).2.Orderly registry names := by
  cases hsettled : m.docSettings? with
  | some settings => rwa [run_docSettings_some hsettled]
  | none =>
    rw [run_docSettings_none hsettled]
    exact hm.of_eq rfl rfl

/-- With the settings for doc comments settled, a lookup goes on undisturbed. -/
theorem undisturbed_settled (owner : Settings) (f g : Settings → Lookup α)
    (h : Undisturbed registry names names depth room (f (.forDocs names)) (g (.forDocs names))) :
    Undisturbed registry names owner.ignoredNames depth room
      (do let settings ← docSettings owner
          f settings)
      (do let settings ← docSettings owner
          g settings) := by
  intro m hm
  obtain ⟨start, hsettle, hfaithful, hgrown, -⟩ := settle hm.faithful hm.settles
  have horderly := orderly_docSettings hm.orderly owner
  rw [hsettle] at horderly
  have hstart : start.Ready registry names names depth room :=
    ⟨hfaithful, fun _ => rfl, horderly, hgrown.reflecting ▸ hm.depth_suffices,
      hgrown.reflecting ▸ hm.room_suffices⟩
  obtain ⟨hsame, hlast, hend⟩ := h start hstart
  rw [Lookup.result_bind, Lookup.result_bind, Lookup.result_recall, hsettle]
  exact ⟨hsame, hgrown.trans hlast,
    hm.of_extends (hgrown.trans hlast) hend.faithful hend.orderly⟩

section Nesting

variable {owner : Settings} {m : Memory} {c : ClassDeclaration} {name : String}
  {source : Settings → String → Lookup (Option AnnotationSchema)}

/-- Entering a class that is not being read takes one place of the depth and of the room. -/
theorem Memory.Ready.enter (hm : m.Ready registry names ignored depth room)
    (hname : ClassName.bare name = name) (hc : registry.describe? name = some c)
    (hmarked : Text.occursIn marker c.doc = true) (hopen : name ∉ m.reflecting)
    (hfresh : m.schemas.find? name = none) :
    ∃ d k, depth = d + 1 ∧ room = k + 1 ∧ (m.enter name).Ready registry names ignored d k := by
  have hcname := Registry.name_eq_of_describe? hname hc
  have hmem := Registry.mem_of_describe? hc
  rw [← hcname] at hopen
  have hdepth := Registry.unopened_cons_lt hmem hopen
  have hroom : registry.marked.unopened (c.name :: m.reflecting) <
      registry.marked.unopened m.reflecting :=
    Registry.unopened_cons_lt (List.mem_filter.2 ⟨hmem, hmarked⟩) hopen
  have hdepths := hm.depth_suffices
  have hrooms := hm.room_suffices
  rw [hcname] at hopen hdepth hroom
  obtain ⟨d, rfl⟩ : ∃ d, depth = d + 1 := ⟨depth - 1, by omega⟩
  obtain ⟨k, rfl⟩ : ∃ k, room = k + 1 := ⟨room - 1, by omega⟩
  exact ⟨d, k, rfl, rfl, hm.faithful.enter hfresh, hm.settles,
    hm.orderly.enter hopen hc hcname hmarked, Nat.le_of_lt_succ (Nat.lt_of_lt_of_le hdepth hdepths),
    Nat.le_of_lt_succ (Nat.lt_of_lt_of_le hroom hrooms)⟩

/-- Once a class has been entered, its schema is built undisturbed if schemas are found so. -/
theorem undisturbed_build (alarm : AnnotationError)
    (hsource : ∀ inner, ClassName.bare inner = inner → Undisturbed registry names names depth room
      (source (.forDocs names) inner) (schemaOf registry depth (.forDocs names) inner))
    (hm : m.Ready registry names owner.ignoredNames depth room)
    (hname : ClassName.bare name = name) (hc : registry.describe? name = some c) :
    BuildsOrderly registry names m
      (watchedBuild alarm (fun m => m.Orderly registry names) registry source owner c)
      (builder registry (depth + 1) owner c) := by
  have hread (context : String) (target : Target) (doc : String) :
      Undisturbed registry names names depth room
        (watchedReadDoc alarm ⟨registry, .forDocs names, context, source (.forDocs names)⟩ target
          doc) (readerTo registry depth (.forDocs names) context target doc) :=
    undisturbed_readDoc alarm ⟨registry, .forDocs names, context, source (.forDocs names)⟩
      (schemaOf registry depth (.forDocs names))
      (fun inner => hsource _ (ClassName.bare_bare inner)) target doc
  have hbuilt := undisturbed_settled owner
    (fun settings => schemaOfClass (fun context target doc => watchedReadDoc alarm
      ⟨registry, settings, context, source settings⟩ target doc) c)
    (fun settings => schemaOfClass (readerTo registry depth settings) c)
    ((watching registry names names depth room).related_schemaOfClass hread c)
  obtain ⟨hsame, -, hend⟩ := hbuilt m hm
  refine ⟨(Lookup.result_bind_ok (result_watch hm.orderly)).trans hsame, hend.orderly, ?_⟩
  intro schema n hrun other hrefers
  obtain ⟨start, hsettle, hstart, hgrown, -⟩ := settle hm.faithful hm.settles
  unfold builder at hrun
  rw [Lookup.result_bind, Lookup.result_recall, hsettle] at hrun
  have hschema : schema.name = name :=
    (name_of_schemaOfClass hrun).trans (Registry.name_eq_of_describe? hname hc)
  exact provides_of_schemaOfClass hstart (hgrown.reflecting ▸ hm.depth_suffices) hc hrun
    (hschema ▸ hrefers)

/-- Recalling a schema is undisturbed if building it is, for every class that can be entered. -/
theorem undisturbed_recalled (build : ClassDeclaration → Lookup AnnotationSchema)
    (hname : ClassName.bare name = name) (hm : m.Ready registry names owner.ignoredNames depth room)
    (hbuild : ∀ c d k, depth = d + 1 → room = k + 1 →
      (m.enter name).Ready registry names owner.ignoredNames d k →
      registry.describe? name = some c →
      BuildsOrderly registry names (m.enter name) (build c) (builder registry depth owner c)) :
    (recalled registry build name).result m = (schemaOf registry depth owner name).result m ∧
      m.Extends ((schemaOf registry depth owner name).result m).2 ∧
      ((schemaOf registry depth owner name).result m).2.Ready registry names owner.ignoredNames
        depth room := by
  obtain ⟨hend, hgrown, -⟩ :=
    transparent_schemaOf depth owner [] hname m hm.faithful hm.settles hm.depth_suffices
  have hentered (c : ClassDeclaration) (hc : registry.describe? name = some c)
      (hmarked : Text.occursIn marker c.doc = true) (hopen : name ∉ m.reflecting)
      (hfresh : m.schemas.find? name = none) :
      BuildsOrderly registry names (m.enter name) (build c) (builder registry depth owner c) := by
    obtain ⟨d, k, hd, hk, hready⟩ := hm.enter hname hc hmarked hopen hfresh
    exact hbuild c d k hd hk hready hc
  obtain ⟨hsame, horderly⟩ := orderly_recalled hm.orderly hentered
  rw [← schemaOf_eq_recalled] at hsame horderly
  exact ⟨hsame, hgrown, hm.of_extends hgrown hend horderly⟩

/-- Looking for schemas raises no alarm. -/
theorem undisturbed_schemaOf (alarm : AnnotationError) (room depth : Nat) (owner : Settings)
    (hname : ClassName.bare name = name) :
    Undisturbed registry names owner.ignoredNames depth room
      (watchedSchemaOf alarm (fun m => m.Orderly registry names) registry room owner name)
      (schemaOf registry depth owner name) := by
  induction room generalizing depth owner name with
  | zero => exact fun m hm => undisturbed_recalled _ hname hm nofun
  | succ room ih =>
    intro m hm
    let source := watchedSchemaOf alarm (fun m => m.Orderly registry names) registry room
    have hbuild (c : ClassDeclaration) (d k : Nat) (hd : depth = d + 1) (hk : room + 1 = k + 1)
        (hentered : (m.enter name).Ready registry names owner.ignoredNames d k)
        (hc : registry.describe? name = some c) :
        BuildsOrderly registry names (m.enter name)
          (watchedBuild alarm (fun m => m.Orderly registry names) registry source owner c)
          (builder registry depth owner c) := by
      obtain rfl := Nat.succ.inj hk
      subst hd
      exact undisturbed_build alarm (fun inner hinner => ih d (.forDocs names) hinner) hentered
        hname hc
    obtain ⟨hsame, hgrown, hready⟩ := undisturbed_recalled _ hname hm hbuild
    have horderly := hready.orderly
    rw [← hsame] at horderly
    exact ⟨(result_watch_after horderly).trans hsame, hgrown, hready⟩

end Nesting

end Undisturbed

end Docblock
