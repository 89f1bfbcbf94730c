import Docblock.Proofs.Lookup.Anonymous
import Docblock.Proofs.Schema.Tidy
import Docblock.Proofs.Token.Renaming

/-!
# Aliases

An import lets a class be named by an alias. Where no namespaces are set, a name below the alias and
the qualified name below the class that is imported stand for the same class, and so do their
constants, unless a constant is known by the name with the alias.
-/

namespace Docblock

open Reflection

namespace ClassName

variable {name other constant : String} {path : List String}

theorem not_mem_of_isIdentifier {c : Char} (hc : Lexeme.isNameChar c = false)
    (h : isIdentifier name = true) : c ∉ name.toList := by
  obtain ⟨d, ds, hs, -, hchars⟩ := exists_of_isIdentifier h
  rw [hs]
  intro hmem
  rw [hchars c hmem] at hc
  cases hc

theorem segments_cases (path : List String) :
    segments path = [] ∨ ∃ cs, segments path = '\\' :: cs := by
  cases path with
  | nil => exact .inl rfl
  | cons s rest => exact .inr ⟨_, rfl⟩

theorem segments_below (h : isIdentifier name = true) (path : List String) :
    firstSegment (below name path) = name ∧
      afterFirstSegment (below name path) = String.ofList (segments path) := by
  have hplain : ∀ c ∈ name.toList, (!isSeparator c) = true := by
    intro c hc
    have hnone := not_mem_of_isIdentifier (c := '\\') (by decide) h
    have hother : c ≠ '\\' := by
      rintro rfl
      exact hnone hc
    simp [isSeparator, hother]
  have hstop : (segments path).takeWhile (fun c => !isSeparator c) = [] ∧
      (segments path).dropWhile (fun c => !isSeparator c) = segments path := by
    rcases segments_cases path with hnil | ⟨cs, hcs⟩
    · rw [hnil]
      exact ⟨rfl, rfl⟩
    · rw [hcs]
      exact ⟨rfl, rfl⟩
  unfold firstSegment afterFirstSegment
  rw [toList_below, List.takeWhile_append_of_pos hplain, List.dropWhile_append_of_pos hplain,
    hstop.1, hstop.2, List.append_nil, String.ofList_toList]
  exact ⟨rfl, rfl⟩

theorem IsPath.not_mem_colon (h : IsPath name) : ':' ∉ name.toList := by
  obtain ⟨first, rest, hfirst, hrest, rfl⟩ := h
  rw [toList_below, List.mem_append]
  rintro (hmem | hmem)
  · exact not_mem_of_isIdentifier (by decide) hfirst hmem
  · obtain ⟨s, hs, hsegment⟩ := List.mem_flatMap.1 hmem
    rcases List.mem_cons.1 hsegment with hslash | hinside
    · cases hslash
    · exact not_mem_of_isIdentifier (by decide) (hrest s hs) hinside

theorem constantParts_of_not_mem {cs : List Char} (h : ':' ∉ cs) : constantParts cs = [cs] := by
  fun_induction constantParts cs with
  | case1 rest ih => exact absurd List.mem_cons_self h
  | case2 => rfl
  | case3 c rest hother hparts ih =>
    rw [ih fun hmem => h (List.mem_cons_of_mem c hmem)] at hparts
    cases hparts
  | case4 c rest part parts hother hparts ih =>
    rw [ih fun hmem => h (List.mem_cons_of_mem c hmem)] at hparts
    obtain ⟨rfl, rfl⟩ := List.cons.inj hparts
    rfl

theorem constantParts_append {cs : List Char} (h : ':' ∉ cs) (ds : List Char) :
    constantParts (cs ++ ':' :: ':' :: ds) = cs :: constantParts ds := by
  induction cs with
  | nil => rw [List.nil_append, constantParts]
  | cons c cs ih =>
    have hplain : c ≠ ':' := by
      rintro rfl
      exact h List.mem_cons_self
    rw [List.cons_append, constantParts.eq_3 c _ fun _ hcolon => absurd hcolon hplain,
      ih fun hmem => h (List.mem_cons_of_mem c hmem)]

theorem constantReference?_member (hname : ':' ∉ name.toList) (hconstant : ':' ∉ constant.toList) :
    constantReference? (member name constant) = some (name, constant) := by
  unfold constantReference?
  rw [toList_member, constantParts_append hname, constantParts_of_not_mem hconstant]
  dsimp only
  rw [String.ofList_toList, String.ofList_toList]

/-- Behind the last colon of a text there is one text only. -/
theorem eq_of_append_colon {as bs cs ds : List Char} (h : as ++ ':' :: bs = cs ++ ':' :: ds)
    (hbs : ':' ∉ bs) (hds : ':' ∉ ds) : bs = ds := by
  rcases List.append_eq_append_iff.1 h with ⟨extra, -, hextra⟩ | ⟨extra, -, hextra⟩
  · cases extra with
    | nil => exact (List.cons.inj hextra).2
    | cons c extra =>
      obtain ⟨-, rfl⟩ := List.cons.inj hextra
      simp at hbs
  · cases extra with
    | nil => exact (List.cons.inj hextra).2.symm
    | cons c extra =>
      obtain ⟨-, rfl⟩ := List.cons.inj hextra
      simp at hds

theorem toLower_eq_colon {c : Char} (h : c.toLower = ':') : c = ':' := by
  unfold Char.toLower at h
  split at h
  · next hupper =>
    have hlow : 65 ≤ c.val.toNat := UInt32.le_iff_toNat_le.1 hupper.1
    have hhigh : c.val.toNat ≤ 90 := UInt32.le_iff_toNat_le.1 hupper.2
    have hcode := congrArg (fun d => d.val.toNat) h
    dsimp only at hcode
    rw [UInt32.toNat_add] at hcode
    have hshift : ('a'.val - 'A'.val).toNat = 32 := by decide
    have hcolon : ':'.val.toNat = 58 := by decide
    omega
  · exact h

/-- A constant that is not called `class`, in any case, does not name its class. -/
theorem classLiteral?_member (hconstant : ':' ∉ constant.toList)
    (hclass : constant.toList.map Char.toLower ≠ "class".toList) :
    classLiteral? (member name constant) = none := by
  unfold classLiteral?
  dsimp only
  refine if_neg fun hliteral => ?_
  obtain ⟨-, hsuffix⟩ := Bool.and_eq_true_iff.1 hliteral
  rw [beq_iff_eq] at hsuffix
  have hwhole := List.take_append_drop ((member name constant).toList.length - 7)
    (member name constant).toList
  generalize (member name constant).toList.take _ = front at hwhole
  generalize (member name constant).toList.drop _ = suffix at hsuffix hwhole
  rw [toList_member] at hwhole
  have hcolons : "::class".toList = ':' :: ':' :: "class".toList := rfl
  rw [hcolons] at hsuffix
  obtain ⟨a, rest, rfl, -, hrest⟩ := List.map_eq_cons_iff.1 hsuffix
  obtain ⟨b, ending, rfl, hb, hending⟩ := List.map_eq_cons_iff.1 hrest
  obtain rfl := toLower_eq_colon hb
  have hnone : ':' ∉ ending := by
    intro hmem
    have hlower := List.mem_map_of_mem (f := Char.toLower) hmem
    rw [hending] at hlower
    exact absurd hlower (by decide)
  have hsame : constant.toList = ending := by
    have hends : (name.toList ++ [':']) ++ ':' :: constant.toList =
        (front ++ [a]) ++ ':' :: ending := by
      rw [List.append_assoc, List.append_assoc]
      exact hwhole.symm
    exact eq_of_append_colon hends hconstant hnone
  exact hclass (hsame ▸ hending)

end ClassName

namespace Settings

open ClassName

structure Imports (s : Settings) (short name : String) (path : List String) : Prop where
  found : s.import? short = some name
  short : isIdentifier short = true
  name : IsPath name
  path : ∀ segment ∈ path, isIdentifier segment = true

def Exclusive (s : Settings) : Prop := s.namespaces = [] ∨ s.imports = []

variable {s : Settings} {short name : String} {path : List String}

theorem Imports.isPath_alias (h : s.Imports short name path) : IsPath (below short path) :=
  isPath_below (isPath_of_isIdentifier h.short) h.path

theorem Imports.isPath (h : s.Imports short name path) : IsPath (below name path) :=
  isPath_below h.name h.path

theorem Imports.namespaces_eq (h : s.Imports short name path) (hs : s.Exclusive) :
    s.namespaces = [] := by
  refine hs.resolve_right fun hnone => ?_
  have hfound := h.found
  unfold import? at hfound
  rw [hnone] at hfound
  cases hfound

theorem Imports.imported? (h : s.Imports short name path) :
    s.imported? (below short path) = some (below name path) := by
  obtain ⟨hfirst, hrest⟩ := segments_below h.short path
  unfold Settings.imported?
  rw [hfirst, hrest, h.found, Option.map_some]
  refine congrArg some (String.toList_inj.1 ?_)
  rw [String.toList_append, String.toList_ofList, toList_below]

end Settings

namespace ClassName

theorem not_isQualified {name : String} {c : Char} {cs : List Char} (hs : name.toList = c :: cs)
    (hstart : Lexeme.isNameStart c = true) : isQualified name = false := by
  have hslash : c ≠ '\\' := by
    rintro rfl
    exact absurd hstart (by decide)
  unfold isQualified
  rw [hs]
  simpa using hslash

theorem IsPath.not_isQualified {name : String} (h : IsPath name) : isQualified name = false := by
  obtain ⟨c, cs, hs, hstart, -⟩ := h.isName
  exact ClassName.not_isQualified hs hstart

theorem IsPath.not_isQualified_member {name other : String} (h : IsPath name)
    (hother : isIdentifier other = true) : isQualified (member name other) = false := by
  obtain ⟨c, cs, hs, hstart, -⟩ := h.isName_member hother
  exact ClassName.not_isQualified hs hstart

theorem isQualified_separated (name : String) : isQualified ("\\" ++ name) = true := by
  unfold isQualified
  rw [String.toList_append]
  rfl

theorem bare_separated (name : String) : bare ("\\" ++ name) = bare name := by
  unfold bare Text.trimStart
  rw [String.toList_append]
  rfl

end ClassName

section Scope

open ClassName Lookup

variable (scope : Scope) {short name constant : String} {path : List String}

/-- A name below an alias stands for the class below the class that is imported. -/
theorem classNamed_alias (h : scope.settings.Imports short name path)
    (hs : scope.settings.Exclusive) :
    scope.classNamed (below short path) = pure (some (bare (below name path))) := by
  have hresolved : resolveAnnotation? scope.registry scope.settings (below short path) =
      pure (some (below name path)) := by
    unfold resolveAnnotation?
    rw [h.namespaces_eq hs, h.imported?]
    rfl
  unfold Scope.classNamed
  rw [h.isPath_alias.not_isQualified, hresolved]
  rfl

theorem classNamed_qualified (name : String) :
    scope.classNamed ("\\" ++ name) = pure (some (bare name)) := by
  unfold Scope.classNamed
  rw [isQualified_separated, if_pos rfl, bare_separated]

theorem constantNamed_eq {written reference : String}
    (h : resolveReference scope.registry scope.settings written = pure reference) :
    scope.constantNamed written = match referenceValue? scope.registry reference with
      | some v => pure v
      | none => throw (.undefinedConstant reference scope.context) := by
  unfold Scope.constantNamed
  rw [h]
  exact pure_bind reference _

theorem resolveReference_alias (h : scope.settings.Imports short name path)
    (hs : scope.settings.Exclusive) (hconstant : isIdentifier constant = true)
    (hunknown : scope.registry.constant? (member (below short path) constant) = none) :
    resolveReference scope.registry scope.settings (member (below short path) constant) =
      pure (member (below name path) constant) := by
  have hcolon := not_mem_of_isIdentifier (c := ':') (by decide) hconstant
  have hclass : resolveConstantClass? scope.registry scope.settings (below short path) =
      pure (some (below name path)) := by
    unfold resolveConstantClass? Settings.candidates
    rw [h.namespaces_eq hs, h.imported?]
    rfl
  unfold resolveReference
  rw [hunknown, h.isPath_alias.not_isQualified_member hconstant,
    constantReference?_member h.isPath_alias.not_mem_colon hcolon]
  dsimp only
  rw [hclass]
  rfl

theorem resolveReference_qualified (written : String) :
    resolveReference scope.registry scope.settings ("\\" ++ written) = pure ("\\" ++ written) := by
  unfold resolveReference
  rw [isQualified_separated, Bool.or_true, if_pos rfl]

theorem referenceValue?_qualified (hconstant : isIdentifier constant = true)
    (hclass : constant.toList.map Char.toLower ≠ "class".toList) :
    referenceValue? scope.registry ("\\" ++ member name constant) =
      referenceValue? scope.registry (member name constant) := by
  have hcolon := not_mem_of_isIdentifier (c := ':') (by decide) hconstant
  have hseparated : "\\" ++ member name constant = member ("\\" ++ name) constant := by
    unfold member
    rw [String.append_assoc, String.append_assoc, String.append_assoc]
  unfold referenceValue?
  rw [classLiteral?_member hcolon hclass, bare_separated, hseparated,
    classLiteral?_member hcolon hclass]

/-- Both spellings of a constant give its value, or tell that there is none. -/
theorem matches_constantNamed {P : Memory → Prop} (h : scope.settings.Imports short name path)
    (hs : scope.settings.Exclusive) (hconstant : isIdentifier constant = true)
    (hclass : constant.toList.map Char.toLower ≠ "class".toList)
    (hunknown : scope.registry.constant? (member (below short path) constant) = none) :
    Matches AnnotationError.anonymous P Eq
      (scope.constantNamed (member (below short path) constant))
      (scope.constantNamed ("\\" ++ member (below name path) constant)) := by
  rw [constantNamed_eq scope (resolveReference_alias scope h hs hconstant hunknown),
    constantNamed_eq scope (resolveReference_qualified scope _),
    referenceValue?_qualified scope hconstant hclass]
  cases referenceValue? scope.registry (member (below name path) constant) with
  | some v => exact matches_pure rfl
  | none => exact matches_throw rfl

end Scope

namespace Settings

open ClassName

/-- An annotation written with an alias, and with the name of its class. -/
inductive AliasName (registry : Registry) (s : Settings) : String → String → Prop where
  | below {short name : String} {path : List String} : s.Imports short name path →
      IsAnnotation registry (below name path) →
      AliasName registry s (below short path) ("\\" ++ below name path)

inductive AliasConstant (registry : Registry) (s : Settings) : String → String → Prop where
  | below {short name constant : String} {path : List String} : s.Imports short name path →
      isIdentifier constant = true → constant.toList.map Char.toLower ≠ "class".toList →
      registry.constant? (member (below short path) constant) = none →
      AliasConstant registry s (member (below short path) constant)
        ("\\" ++ member (below name path) constant)

def aliases (registry : Registry) (s : Settings) : Exchange :=
  ⟨AliasName registry s, AliasConstant registry s⟩

theorem qualifies_aliases (registry : Registry) (s : Settings) :
    (s.aliases registry).Qualifies := by
  have hname {short name : String}
      (hshort : ∃ c cs, short.toList = c :: cs ∧ Lexeme.isNameStart c = true ∧ Lexeme.IsNameTail cs)
      (hlong : ∃ c cs, name.toList = c :: cs ∧ Lexeme.isNameStart c = true ∧
        Lexeme.IsNameTail cs) :
      (∃ c cs, short.toList = c :: cs ∧ Lexeme.IsName c cs) ∧
        ∃ cs, ("\\" ++ name).toList = '\\' :: cs ∧ Lexeme.IsName '\\' cs := by
    obtain ⟨c, cs, hs, hstart, htail⟩ := hshort
    obtain ⟨d, ds, hd, hnext, hrest⟩ := hlong
    exact ⟨⟨c, cs, hs, .inl hstart, htail⟩, d :: ds, isName_qualified hd hnext hrest⟩
  rintro text other (⟨himports, -⟩ | ⟨himports, hconstant, -, -⟩)
  · exact hname himports.isPath_alias.isName himports.isPath.isName
  · exact hname (himports.isPath_alias.isName_member hconstant)
      (himports.isPath.isName_member hconstant)

end Settings

section Aliasing

open Lookup ClassName

variable (registry : Registry)

def aliasing (x : Exchange) : Correspondence registry where
  exchange := x
  rest := []
  quiet := Glyph.quiet_nil
  Related := Matches AnnotationError.anonymous fun m => m.Tidy registry
  related_pure := matches_pure
  related_bind := matches_bind
  related_throw _ h := matches_throw (AnnotationError.anonymous_eq_of_unplaced h)
  related_swapped _ _ _ _ _ := matches_throw rfl
  related_stuck hrest := absurd rfl hrest
  related_exists name := matches_refl fun m hm => (tidiness registry).related_exists name m hm

variable (settings : Settings) (context : String) (depth : Nat)

def textScope : Scope := ⟨registry, settings, context, schemaOf registry depth settings⟩

theorem matches_askSchema {name : String} (hname : bare name = name)
    (hclass : IsAnnotation registry name) :
    Matches AnnotationError.anonymous (fun m => m.Tidy registry)
      (fun found other => found = other ∧ found ≠ some none)
      ((textScope registry settings context depth).askSchema name)
      ((textScope registry settings context depth).askSchema name) := by
  intro m hm
  have hkeeps := keepsTidy_askSchema (textScope registry settings context depth)
    (fun _ hc => keepsTidy_schemaOf depth settings hname hc) m hm
  have hsome : ((textScope registry settings context depth).askSchema name |>.result m).1 ≠
      .ok (some none) := askSchema_ne_none hm hname hclass
  cases hrun : ((textScope registry settings context depth).askSchema name).result m with
  | mk outcome n =>
    rw [hrun] at hkeeps hsome
    cases outcome with
    | ok found => exact ⟨⟨rfl, fun hnone => hsome (by rw [hnone])⟩, rfl, hkeeps⟩
    | error e => exact ⟨rfl, rfl, hkeeps⟩

theorem matches_schemaNamed {written other : String}
    (hs : settings.Exclusive) (h : settings.AliasName registry written other) :
    Matches AnnotationError.anonymous (fun m => m.Tidy registry) Eq
      ((textScope registry settings context depth).schemaNamed written)
      ((textScope registry settings context depth).schemaNamed other) := by
  obtain ⟨himports, hclass⟩ := h
  rename_i short name path
  have hbare : bare (below name path) = below name path :=
    bare_eq_self (by simpa [isQualified] using himports.isPath.not_isQualified)
  unfold Scope.schemaNamed
  rw [classNamed_alias (textScope registry settings context depth) himports hs,
    classNamed_qualified, pure_bind, pure_bind, hbare]
  dsimp only
  refine matches_bind (matches_askSchema registry settings context depth hbare hclass) ?_
  rintro asked _ ⟨rfl, hsome⟩
  rcases asked with _ | _ | schema
  · exact matches_throw rfl
  · exact absurd rfl hsome
  · exact matches_pure rfl

theorem understands_aliases (hs : settings.Exclusive) :
    Correspondence.Understands (textScope registry settings context depth)
      (textScope registry settings context depth).schemaOf
      (aliasing registry (settings.aliases registry)) where
  asks name := matches_refl fun m hm =>
    keepsTidy_askSchema (textScope registry settings context depth)
      (fun _ hc => keepsTidy_schemaOf depth settings (bare_bare name) hc) m hm
  constant h := by
    obtain ⟨himports, hconstant, hclass, hunknown⟩ := h
    exact matches_constantNamed (textScope registry settings context depth) himports hs hconstant
      hclass hunknown
  schema h := matches_schemaNamed registry settings context depth hs h
  target h allowed := matches_throw rfl
  object h schema values := matches_liftM (schema.sameAnswer_objectOf _ _ context values registry)

/-- Texts are read alike if the names in their bodies are exchanged for those without aliases. -/
theorem matches_readDoc_aliases (hs : settings.Exclusive) (target : Target)
    {input other body others : String} (hinput : DocText.body? input = some body)
    (hother : DocText.body? other = some others)
    (h : Token.Renamed (settings.aliases registry) body others) :
    Matches AnnotationError.anonymous (fun m => m.Tidy registry) Eq
      (readDoc (textScope registry settings context depth) target input)
      (readDoc (textScope registry settings context depth) target other) :=
  Correspondence.related_bodies (textScope registry settings context depth)
    (textScope registry settings context depth).schemaOf
    (aliasing registry (settings.aliases registry))
    (understands_aliases registry settings context depth hs) rfl target hinput hother
    (Glyph.recast_of_renamed h (settings.qualifies_aliases registry))

end Aliasing

end Docblock
