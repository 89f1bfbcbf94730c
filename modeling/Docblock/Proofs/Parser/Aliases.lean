import Docblock.Proofs.Lookup.Aliases
import Docblock.Proofs.Parser.Layout
import Docblock.Proofs.Parser.Tidy

/-!
# Texts with aliases

Imports only shorten what is written. If an annotation or a constant is named below an alias then
the name may be exchanged for the qualified name below what is imported: the same annotations are
read, or the same error is met but for the names and the tokens that it cites from the text.
-/

namespace Docblock

namespace Token

variable {x : Exchange} {body other : String}

/-- A name that is exchanged stands behind the sign that a text starts with. -/
theorem Renamed.head?_eq (h : Renamed x body other) (hx : x.Qualifies)
    (hsigned : body.toList.head? = some '@') : other.toList.head? = some '@' := by
  obtain ⟨-, -, -, htakes, -⟩ := h
  rename_i before name other after ts us b t
  obtain ⟨⟨c, cs, hname, hisName⟩, -⟩ := hx _ _ htakes.swaps
  rw [String.toList_append, String.toList_append, List.append_assoc] at hsigned ⊢
  cases hbefore : before.toList with
  | nil =>
    rw [hbefore, hname] at hsigned
    obtain rfl : c = '@' := Option.some.inj hsigned
    rcases hisName.first with hstart | ⟨hslash, -⟩
    · exact absurd hstart (by decide)
    · cases hslash
  | cons d ds =>
    rw [hbefore] at hsigned
    exact hsigned

/-- If nothing of a frame is at the end of a text then it is not so with a name exchanged. -/
theorem Renamed.getLast?_not_isFrame (h : Renamed x body other) (hx : x.Qualifies)
    (hends : ∀ c ∈ body.toList.getLast?, DocText.isFrame c = false) :
    ∀ c ∈ other.toList.getLast?, DocText.isFrame c = false := by
  obtain ⟨-, -, -, htakes, -⟩ := h
  rename_i before name other after ts us b t
  obtain ⟨-, ds, hother, hisName⟩ := hx _ _ htakes.swaps
  rw [String.toList_append, List.getLast?_append] at hends ⊢
  cases hlast : after.toList.getLast? with
  | some c =>
    rw [hlast] at hends
    exact hends
  | none =>
    rw [Option.none_or, String.toList_append, hother, List.getLast?_append]
    cases ds with
    | nil =>
      rcases hisName.first with hstart | ⟨-, hnext⟩
      · exact absurd hstart (by decide)
      · cases hnext
    | cons d ds =>
      obtain ⟨last, hlast⟩ := Option.isSome_iff_exists.1
        (List.getLast?_isSome.2 (List.cons_ne_nil d ds))
      have hchar := hisName.tail.isNameChar_getLast last hlast
      rw [List.getLast?_cons_cons, hlast]
      rintro _ ⟨⟩
      rw [← Bool.not_eq_true]
      intro hframe
      simp only [DocText.isFrame, Bool.or_eq_true, beq_iff_eq] at hframe
      rcases hframe with (rfl | rfl) | rfl <;> exact absurd hchar (by decide)

end Token

namespace DocText

/-- One name in the part of a text that may hold annotations is exchanged. -/
inductive Renamed (x : Exchange) : String → String → Prop where
  | body {lead body other trail : String} :
      fromFirstAt? true (lead ++ body ++ trail).toList = some (body ++ trail).toList →
      body? (lead ++ body ++ trail) = some body → Token.Renamed x body other →
      Renamed x (lead ++ body ++ trail) (lead ++ other ++ trail)

theorem length_of_fromFirstAt? {allowed : Bool} {cs ds : List Char}
    (h : fromFirstAt? allowed cs = some ds) : ds.length ≤ cs.length ∧ ds.head? = some '@' := by
  induction cs generalizing allowed with
  | nil => cases h
  | cons c cs ih =>
    unfold fromFirstAt? at h
    split at h
    · next hfound =>
      obtain rfl := Option.some.inj h
      rw [Bool.and_eq_true, decide_eq_true_eq] at hfound
      exact ⟨Nat.le_refl _, by rw [hfound.1]; rfl⟩
    · obtain ⟨hlength, hhead⟩ := ih h
      exact ⟨Nat.le_succ_of_le hlength, hhead⟩

/-- What is in front of the first sign does not depend on what is behind it. -/
theorem fromFirstAt?_lead {allowed : Bool} {lead cs : List Char}
    (h : fromFirstAt? allowed (lead ++ '@' :: cs) = some ('@' :: cs)) (ds : List Char) :
    fromFirstAt? allowed (lead ++ '@' :: ds) = some ('@' :: ds) := by
  induction lead generalizing allowed with
  | nil =>
    rw [List.nil_append] at h ⊢
    unfold fromFirstAt? at h ⊢
    split at h
    · next hfound => rw [if_pos hfound]
    · have hlength := (length_of_fromFirstAt? h).1
      rw [List.length_cons] at hlength
      omega
  | cons c lead ih =>
    rw [List.cons_append] at h ⊢
    unfold fromFirstAt? at h ⊢
    split at h
    · have hlength := congrArg List.length (Option.some.inj h)
      rw [List.length_cons, List.length_append, List.length_cons] at hlength
      omega
    · next hother =>
      rw [if_neg hother]
      exact ih h

theorem trimList_signed {cs : List Char} (h : cs.head? = some '@') :
    Text.trimList isFrame cs = Text.trimEndList isFrame cs := by
  obtain ⟨ds, rfl⟩ := List.head?_eq_some_iff.1 h
  rfl

section Body

variable {lead body trail : String}
  (hfrom : fromFirstAt? true (lead ++ body ++ trail).toList = some (body ++ trail).toList)

include hfrom

/-- The body of a text starts with a sign, and a frame is behind it but not at its end. -/
theorem parts_of_body? (hbody : body? (lead ++ body ++ trail) = some body) :
    body.toList.head? = some '@' ∧ (∀ c ∈ trail.toList, isFrame c = true) ∧
      ∀ c ∈ body.toList.getLast?, isFrame c = false := by
  have hsigned := (length_of_fromFirstAt? hfrom).2
  have htrimmed : Text.trimEndList isFrame (body ++ trail).toList = body.toList := by
    unfold body? at hbody
    rw [hfrom, Option.map_some, trimList_signed hsigned] at hbody
    have hsame := congrArg String.toList (Option.some.inj hbody)
    rwa [String.toList_ofList] at hsame
  obtain ⟨trimmed, hwhole, htrail⟩ := Text.exists_trimmed isFrame (body ++ trail).toList
  rw [htrimmed, String.toList_append] at hwhole
  obtain rfl : trail.toList = trimmed := List.append_cancel_left hwhole
  rw [String.toList_append, Text.trimEndList_append_all _ htrail] at htrimmed
  refine ⟨?_, htrail, Text.trimEndList_eq_self_iff.1 htrimmed⟩
  rw [String.toList_append, List.head?_append] at hsigned
  cases hhead : body.toList.head? with
  | some c => rwa [hhead] at hsigned
  | none =>
    rw [hhead, Option.none_or] at hsigned
    exact absurd (htrail '@' (List.mem_of_mem_head? hsigned)) (by decide)

theorem body?_of_parts (hsigned : body.toList.head? = some '@')
    (htrail : ∀ c ∈ trail.toList, isFrame c = true)
    (hends : ∀ c ∈ body.toList.getLast?, isFrame c = false) :
    body? (lead ++ body ++ trail) = some body := by
  unfold body?
  rw [hfrom, Option.map_some, String.toList_append,
    trimList_signed (by rw [List.head?_append, hsigned]; rfl),
    Text.trimEndList_append_all _ htrail, Text.trimEndList_eq_self_iff.2 hends,
    String.ofList_toList]

end Body

theorem body?_renamed {x : Exchange} {lead body other trail : String} (hx : x.Qualifies)
    (hfrom : fromFirstAt? true (lead ++ body ++ trail).toList = some (body ++ trail).toList)
    (hbody : body? (lead ++ body ++ trail) = some body) (h : Token.Renamed x body other) :
    body? (lead ++ other ++ trail) = some other := by
  obtain ⟨hsigned, htrail, hends⟩ := parts_of_body? hfrom hbody
  have hother := h.head?_eq hx hsigned
  have hsame : fromFirstAt? true (lead ++ other ++ trail).toList =
      some (other ++ trail).toList := by
    obtain ⟨cs, hcs⟩ := List.head?_eq_some_iff.1 hsigned
    obtain ⟨ds, hds⟩ := List.head?_eq_some_iff.1 hother
    simp only [String.toList_append, hcs, hds, List.append_assoc, List.cons_append] at hfrom ⊢
    exact fromFirstAt?_lead hfrom _
  exact body?_of_parts hsame hother htrail (h.getLast?_not_isFrame hx hends)

end DocText

namespace Parser

variable {registry : Registry} {p : Parser}

theorem exclusive_of_check {settings : Settings} (h : settings.check = .ok ()) :
    settings.Exclusive := by
  unfold Settings.check at h
  split at h
  · cases h
  · next hboth =>
    by_cases hnone : settings.namespaces = []
    · exact .inl hnone
    · exact .inr (by simpa [hnone] using hboth)

/-- A parser never has both namespaces and imports. -/
theorem Reachable.exclusive (h : Reachable registry p) : p.settings.Exclusive := by
  induction h with
  | new => exact .inl rfl
  | withSettings hmade =>
    unfold Parser.withSettings at hmade
    split at hmade
    · next hcheck =>
      rw [← Except.ok.inj hmade]
      exact exclusive_of_check hcheck
    · cases hmade
  | @respond p request _ ih => cases request <;> exact ih
  | @change p c _ ih =>
    cases c with
    | addNamespace nameSpace =>
      unfold Parser.change Parser.addNamespace Settings.addNamespace
      dsimp only
      split
      · next hnone => exact .inr (List.isEmpty_iff.1 hnone)
      · exact ih
    | setImports imports =>
      unfold Parser.change Parser.setImports Settings.setImports
      dsimp only
      split
      · next hnone => exact .inl (List.isEmpty_iff.1 hnone)
      · exact ih
    | setIgnoredNames names => exact ih
    | setIgnoredNamespaces namespaces => exact ih
    | setIgnoreNotImported ignore => exact ih
    | setTarget target => exact ih

/-- The same answer but for the names and tokens in an error, and the same parser after it. -/
def SameMeaning {α : Type} (first second : Except AnnotationError α × Parser) : Prop :=
  first.1.mapError AnnotationError.anonymous = second.1.mapError AnnotationError.anonymous ∧
    first.2 = second.2

/-- A text means the same if an annotation or a constant that is named below an alias is named below
what is imported instead. -/
theorem parse_renamed (h : Reachable registry p) {input other context : String}
    (hrenamed : DocText.Renamed (p.settings.aliases registry) input other) :
    SameMeaning (p.parse input context) (p.parse other context) := by
  obtain ⟨names, hfaithful⟩ := h.faithful
  obtain rfl := hfaithful.registry_eq
  obtain ⟨hfrom, hbody, hbodies⟩ := hrenamed
  have hother := DocText.body?_renamed (p.settings.qualifies_aliases p.registry) hfrom hbody hbodies
  obtain ⟨hanswer, hmemory, -⟩ := matches_readDoc_aliases p.registry p.settings context
    p.registry.classes.length h.exclusive p.settings.target hbody hother hbodies p.memory h.tidy
  exact ⟨hanswer.mapError_eq, congrArg (Parser.mk p.registry p.settings) hmemory⟩

def importing : Parser := Sample.plainParser.change (.setImports Sample.imports)

def optionSource (column key : String) : String :=
  "/** See " ++ ("@" ++ column ++ "(options = \x7b" ++ key ++ " = 1\x7d)") ++ " */"

def optionTokens : List Token :=
  [⟨.atSign, "@", ⟨0, 1, 1⟩, 1⟩, ⟨.qualifiedName, "ORM\\Column", ⟨1, 1, 2⟩, 11⟩,
    ⟨.openParen, "(", ⟨11, 1, 12⟩, 12⟩, ⟨.identifier, "options", ⟨12, 1, 13⟩, 19⟩,
    ⟨.equals, "=", ⟨20, 1, 21⟩, 21⟩, ⟨.openBrace, "\x7b", ⟨22, 1, 23⟩, 23⟩,
    ⟨.identifier, "User::MAX_LOGINS", ⟨23, 1, 24⟩, 39⟩, ⟨.equals, "=", ⟨40, 1, 41⟩, 41⟩,
    ⟨.integer, "1", ⟨42, 1, 43⟩, 43⟩, ⟨.closeBrace, "\x7d", ⟨43, 1, 44⟩, 44⟩,
    ⟨.closeParen, ")", ⟨44, 1, 45⟩, 45⟩]

theorem scan_option :
    Token.scan "@ORM\\Column(options = \x7bUser::MAX_LOGINS = 1\x7d)" = optionTokens := by
  cbv

theorem renamed_column : DocText.Renamed (importing.settings.aliases Sample.registry)
    (optionSource "ORM\\Column" "User::MAX_LOGINS")
    (optionSource "\\App\\Mapping\\Column" "User::MAX_LOGINS") := by
  have himports : importing.settings.Imports "ORM" "App\\Mapping" ["Column"] :=
    ⟨by decide, by decide, ⟨"App", ["Mapping"], by decide, by decide, by decide⟩, by decide⟩
  have hmarked : ((Sample.registry.describe? "App\\Mapping\\Column").any fun c =>
      Text.occursIn Reflection.marker c.doc) = true := by
    decide
  obtain ⟨c, hc, hdoc⟩ := (Option.any_eq_true _ _).1 hmarked
  have hname : importing.settings.AliasName Sample.registry "ORM\\Column"
      "\\App\\Mapping\\Column" := .below himports (.inr ⟨c, hc, hdoc⟩)
  have htext : "@" ++ "ORM\\Column" ++ ("(options = \x7b" ++ "User::MAX_LOGINS" ++ " = 1\x7d)") =
      "@ORM\\Column(options = \x7bUser::MAX_LOGINS = 1\x7d)" := by decide
  have hscan : Token.scan ("@" ++ "ORM\\Column" ++
      ("(options = \x7b" ++ "User::MAX_LOGINS" ++ " = 1\x7d)")) =
        [] ++ ⟨.atSign, "@", ⟨0, 1, 1⟩, 1⟩ :: ⟨.qualifiedName, "ORM\\Column", ⟨1, 1, 2⟩, 11⟩ ::
          optionTokens.drop 2 := by
    rw [htext]
    exact scan_option
  have hbody := Token.Renamed.name hscan (by decide) rfl
    (.name rfl rfl hname : (importing.settings.aliases Sample.registry).Takes _ _ _ _ _ _)
    (by decide)
  rw [← String.append_assoc, ← String.append_assoc, ← String.append_assoc, ← String.append_assoc]
    at hbody
  exact .body (by decide) (by decide) hbody

theorem renamed_key : DocText.Renamed (importing.settings.aliases Sample.registry)
    (optionSource "ORM\\Column" "User::MAX_LOGINS")
    (optionSource "ORM\\Column" "\\App\\Entity\\User::MAX_LOGINS") := by
  have himports : importing.settings.Imports "User" "App\\Entity\\User" [] :=
    ⟨by decide, by decide, ⟨"App", ["Entity", "User"], by decide, by decide, by decide⟩, by decide⟩
  have hlogins : ClassName.isIdentifier "MAX_LOGINS" = true := by decide
  have hconstant : importing.settings.AliasConstant Sample.registry "User::MAX_LOGINS"
      "\\App\\Entity\\User::MAX_LOGINS" := .below himports hlogins (by decide) (by decide)
  have htext : "@" ++ "ORM\\Column" ++ "(options = \x7b" ++ "User::MAX_LOGINS" ++ " = 1\x7d)" =
      "@ORM\\Column(options = \x7bUser::MAX_LOGINS = 1\x7d)" := by decide
  have hscan : Token.scan ("@" ++ "ORM\\Column" ++ "(options = \x7b" ++ "User::MAX_LOGINS" ++
      " = 1\x7d)") =
        optionTokens.take 5 ++ ⟨.openBrace, "\x7b", ⟨22, 1, 23⟩, 23⟩ ::
          ⟨.identifier, "User::MAX_LOGINS", ⟨23, 1, 24⟩, 39⟩ :: optionTokens.drop 7 := by
    rw [htext]
    exact scan_option
  have hbody := Token.Renamed.name hscan (by decide) rfl
    (.constant rfl rfl (by decide) hconstant :
      (importing.settings.aliases Sample.registry).Takes _ _ _ _ _ _) (by decide)
  exact .body (by decide) (by decide) hbody

/-- Both names may be written in full. -/
theorem parse_renamed_column :
    (importing.parse (optionSource "ORM\\Column" "User::MAX_LOGINS")).1.toOption.map List.length =
        some 1 ∧
      SameMeaning (importing.parse (optionSource "ORM\\Column" "User::MAX_LOGINS"))
        (importing.parse (optionSource "\\App\\Mapping\\Column" "User::MAX_LOGINS")) ∧
      SameMeaning (importing.parse (optionSource "ORM\\Column" "User::MAX_LOGINS"))
        (importing.parse (optionSource "ORM\\Column" "\\App\\Entity\\User::MAX_LOGINS")) :=
  ⟨by decide +kernel, parse_renamed (.change _ .new) renamed_column,
    parse_renamed (.change _ .new) renamed_key⟩

end Parser

end Docblock
