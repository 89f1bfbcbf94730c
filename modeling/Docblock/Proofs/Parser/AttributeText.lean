import Docblock.Proofs.Grammar.AttributeTerms
import Docblock.Proofs.Object.Records
import Docblock.Proofs.Parser.Shown
import Docblock.Proofs.Parser.Writing

/-!
# Attributes as they are written

A class lists attributes in its doc comment behind the mark of an annotation class. What is written
there is scanned into tokens that show the mark and the list, whatever the names and the types in
it are, so that the class declares what its attributes say.
-/

namespace Docblock

open Reading
open Token (IsWhole)

namespace Grammar

def appliedChars (name : String) (arguments : List Char) : List Char :=
  ('@' :: name.toList) ++ (['('] ++ (arguments ++ [')']))

def assignedChars (name : String) (source : List Char) : List Char :=
  name.toList ++ ([' ', '=', ' '] ++ source)

section Scanning

variable {value : Phrase Term} {passed : String → Prop} {name : String}
  {chars more rest : List Char}

theorem scans_last {α : Type} {item : Phrase α} {a : α}
    (ha : Scans chars rest fun used => item used a) :
    Scans chars rest fun used => Separated item used [a] :=
  ha.mono fun _ => .last

theorem scans_more {α : Type} {item : Phrase α} {a : α} {others : List α}
    (ha : Scans chars ([',', ' '] ++ more ++ rest) fun used => item used a)
    (hmore : Scans more rest fun used => Separated item used others) :
    Scans (chars ++ ([',', ' '] ++ more)) rest fun used => Separated item used (a :: others) := by
  refine (ha.append ((Value.scans_comma _).append hmore)).mono ?_
  rintro used ⟨_, _, rfl, hfirst, _, _, rfl, ⟨comma, rfl, hcomma⟩, hothers⟩
  exact .more hfirst hcomma hothers

theorem scans_assigned (hname : IsWhole .identifier name) {t : Term}
    (ht : Scans chars rest fun used => value used t) :
    Scans (assignedChars name chars) rest fun used => ArgumentTerm value used (some name, t) := by
  refine ((scans_name hname rfl (stopsName_cons (.inr rfl) _)).append
    ((scans_sign _).append ht)).mono ?_
  rintro used ⟨_, _, rfl, ⟨first, rfl, hfirst, rfl⟩, _, _, rfl, ⟨sep, rfl, hsep⟩, hvalue⟩
  exact .named hfirst hsep hvalue

theorem scans_applied {kind : TokenKind} (hname : IsWhole kind name) (hkind : kind.isName = true)
    (hnot : ¬ passed name) {arguments : List (Option String × Term)}
    (hall : Scans chars (')' :: rest) fun used => Separated (ArgumentTerm value) used arguments) :
    Scans (appliedChars name chars) rest fun used =>
      Applied value passed used (name, arguments) ∧ startsAnnotation ⟨none, used⟩ = true := by
  have hopen : Scans ['('] (chars ++ [')'] ++ rest) _ := Value.scans_single (by decide) rfl
  have hclose : Scans [')'] rest _ := Value.scans_single (by decide) rfl
  refine ((scans_signedName hname hkind (stopsName_cons (.inl rfl) _)).append
    (hopen.append (hall.append hclose))).mono ?_
  rintro used ⟨_, _, rfl, ⟨sign, first, rfl, hsign, hglued, hfirst, rfl⟩, _, _, rfl,
    ⟨opener, rfl, hopener, -⟩, _, _, rfl, hused, closer, rfl, hcloser, -⟩
  have hpart : first.kind.isClassPart = true := by
    rw [hfirst]
    exact TokenKind.isClassPart_of_isName hkind
  constructor
  · exact .mk (signedName_single hsign hpart) hnot (.items hopener hused hcloser)
  · exact startsAnnotation_of_signed hsign hglued hpart _

end Scanning

namespace AttributeTerm

def argumentsChars (a : AttributeTerm) : List Char :=
  Lexeme.quoted a.name ++ ([',', ' '] ++
    match a.required? with
    | none => assignedChars "type" (Lexeme.quoted a.type)
    | some b => assignedChars "type" (Lexeme.quoted a.type) ++
        ([',', ' '] ++ assignedChars "required" (Docblock.Value.bool b).source))

def source (a : AttributeTerm) : List Char := appliedChars a.written a.argumentsChars

def sources : List AttributeTerm → List Char
  | [] => []
  | [a] => a.source
  | a :: b :: rest => a.source ++ ([',', ' '] ++ sources (b :: rest))

def listedChars (all : List AttributeTerm) : List Char := ['\x7b'] ++ (sources all ++ ['\x7d'])

variable (passed : String → Prop) (room : Nat) {all : List AttributeTerm}

theorem scans_text (s : String) (rest : List Char) :
    Scans (Lexeme.quoted s) rest fun used =>
      Written passed (room + 1) used (.literal (.string s)) := by
  refine (Value.scans_quoted s rest).mono ?_
  rintro used ⟨t, rfl, hkind, rfl⟩
  exact .leaf (.literal (.string hkind))

theorem scans_flag (b : Bool) {rest : List Char} (hrest : Value.Closes rest) :
    Scans (Docblock.Value.bool b).source rest fun used =>
      Written passed (room + 1) used (.literal (.bool b)) := by
  refine (Value.scans_source (.bool b) trivial rest hrest).mono ?_
  rintro used hspells
  cases hspells with
  | trueWord hkind => exact .leaf (.literal (.trueWord hkind))
  | falseWord hkind => exact .leaf (.literal (.falseWord hkind))

theorem scans_arguments (a : AttributeTerm) (rest : List Char) :
    Scans a.argumentsChars (')' :: rest) fun used =>
      Separated (ArgumentTerm (Written passed (room + 1))) used a.arguments := by
  have htype : IsWhole .identifier "type" := ⟨4, by decide⟩
  have hrequired : IsWhole .identifier "required" := ⟨8, by decide +kernel⟩
  have hname (rest : List Char) : Scans (Lexeme.quoted a.name) rest fun used =>
      ArgumentTerm (Written passed (room + 1)) used (none, .literal (.string a.name)) :=
    (scans_text passed room a.name rest).mono fun _ => .positional
  obtain ⟨written, name, type, _ | b⟩ := a
  · exact scans_more (hname _) (scans_last (scans_assigned htype (scans_text passed room type _)))
  · have hflag := scans_flag passed room b ⟨')', rest, rfl, .inr (.inr rfl)⟩
    exact scans_more (hname _) (scans_more (scans_assigned htype (scans_text passed room type _))
      (scans_last (scans_assigned hrequired hflag)))

def AreNamed (all : List AttributeTerm) : Prop :=
  ∀ a ∈ all, (∃ kind, IsWhole kind a.written ∧ kind.isName = true) ∧ ¬ passed a.written

variable {passed}

theorem scans_entry {a : AttributeTerm}
    (hname : ∃ kind, IsWhole kind a.written ∧ kind.isName = true)
    (hnot : ¬ passed a.written) (rest : List Char) :
    Scans a.source rest fun used => EntryTerm (Written passed (room + 2)) used a.entry := by
  obtain ⟨kind, hwhole, hkind⟩ := hname
  refine (scans_applied hwhole hkind hnot (a.scans_arguments passed room rest)).mono ?_
  rintro used ⟨hcall, -⟩
  exact .plain (.applied hcall)

theorem scans_sources (h : AreNamed passed all) (hall : all ≠ []) (rest : List Char) :
    Scans (sources all) rest fun used =>
      Separated (EntryTerm (Written passed (room + 2))) used (all.map entry) := by
  induction all with
  | nil => exact absurd rfl hall
  | cons a others ih =>
    obtain ⟨hname, hnot⟩ := h a List.mem_cons_self
    cases others with
    | nil => exact scans_last (scans_entry room hname hnot rest)
    | cons b others =>
      exact scans_more (scans_entry room hname hnot _)
        (ih (fun c hc => h c (List.mem_cons_of_mem a hc)) (List.cons_ne_nil b others))

theorem scans_listed (h : AreNamed passed all) (hall : all ≠ []) (rest : List Char) :
    Scans (listedChars all) rest fun used =>
      Separated (ArgumentTerm (Written passed (room + 3))) used (listed all) := by
  have hopen : Scans ['\x7b'] (sources all ++ ['\x7d'] ++ rest) _ :=
    Value.scans_single (by decide) rfl
  have hclose : Scans ['\x7d'] rest _ := Value.scans_single (by decide) rfl
  refine scans_last ((hopen.append ((scans_sources room h hall _).append hclose)).mono ?_)
  rintro used ⟨_, _, rfl, ⟨opener, rfl, hopener, -⟩, _, _, rfl, hused, closer, rfl, hcloser, -⟩
  exact .positional (.collection (.items hopener hused hcloser))

end AttributeTerm

theorem startsAnnotation_behind {before t : Token} {rest : List Token}
    (hgap : before.isAdjacent t = false) (h : startsAnnotation ⟨none, t :: rest⟩ = true) :
    startsAnnotation ⟨some before, t :: rest⟩ = true := by
  cases rest with
  | nil => cases h
  | cons name rest =>
    change (t.kind == .atSign && !before.isAdjacent t && t.isAdjacent name &&
      (name.kind == .separator || name.kind.isClassPart)) = true
    rw [hgap]
    exact h

/-- A mark and a call that is not adjacent to it. -/
theorem document_marked {passed : String → Prop} {sign mark first : Token} {others : List Token}
    {call : Call} (hsign : sign.kind = .atSign) (hmark : mark.kind.isClassPart = true)
    (hglued : sign.isAdjacent mark = true) (hgap : mark.isAdjacent first = false)
    (hcall : Applied (Written passed maxNesting) passed (first :: others) call)
    (hstarts : startsAnnotation ⟨none, first :: others⟩ = true) :
    Document passed none (sign :: mark :: first :: others) [(mark.text, []), call] := by
  obtain ⟨other, more, hsame, hfirst⟩ := hcall.starts
  obtain ⟨rfl, rfl⟩ := List.cons.inj hsame
  have hlist : Document passed (some mark) ((first :: others) ++ []) [call] := by
    refine .applied ?_ hcall (.nil _)
    rw [List.append_nil]
    exact startsAnnotation_behind hgap hstarts
  rw [List.append_nil] at hlist
  have hbegins : startsAnnotation ⟨none, [sign, mark] ++ first :: others⟩ = true :=
    startsAnnotation_of_signed hsign hglued hmark _
  have hends : separatorFollows ⟨some mark, first :: others⟩ = false := by
    change (first.kind == .separator && mark.isAdjacent first) = false
    rw [hgap, Bool.and_false]
  refine .bare hbegins (signedName_single hsign hmark) hends (fun _ t ht => ?_) hlist
  obtain rfl := Option.mem_some.1 ht
  rw [hfirst]
  exact nofun

end Grammar

namespace Parser

open Grammar

variable {p : Parser} {context written : String} {all : List AttributeTerm}

-- Unification is kept from reading this text.
@[irreducible] def attributesDoc (written : String) (all : List AttributeTerm) : String :=
  String.ofList ("/** ".toList ++ ('@' :: "Annotation".toList ++
    ' ' :: appliedChars written (AttributeTerm.listedChars all)) ++ " */".toList)

theorem body?_attributesDoc (written : String) (all : List AttributeTerm) :
    DocText.body? (attributesDoc written all) = some (String.ofList ('@' :: "Annotation".toList ++
      ' ' :: appliedChars written (AttributeTerm.listedChars all))) := by
  have hends : ∃ inner, '@' :: "Annotation".toList ++
      ' ' :: appliedChars written (AttributeTerm.listedChars all) = '@' :: inner ++ [')'] :=
    ⟨"Annotation ".toList ++ (('@' :: written.toList) ++
      (['('] ++ AttributeTerm.listedChars all)), by simp [appliedChars]⟩
  obtain ⟨inner, hinner⟩ := hends
  have hat : DocText.fromFirstAt? true ("/** ".toList ++ ('@' :: inner ++ [')']) ++ " */".toList) =
      some (('@' :: inner) ++ [')', ' ', '*', '/']) := by
    rw [List.append_assoc, List.append_assoc]
    rfl
  have htrim : Text.trimList DocText.isFrame (('@' :: inner) ++ [')', ' ', '*', '/']) =
      '@' :: inner ++ [')'] := by
    have hend : Text.trimEndList DocText.isFrame [')', ' ', '*', '/'] = [')'] := by decide
    have hfirst : (('@' :: inner) ++ [')', ' ', '*', '/']).dropWhile DocText.isFrame =
        ('@' :: inner) ++ [')', ' ', '*', '/'] := rfl
    rw [Text.trimList, hfirst, Text.trimEndList_append _ (by rw [hend]; exact List.cons_ne_nil _ _),
      hend]
  unfold DocText.body? attributesDoc
  rw [String.toList_ofList, hinner, hat, Option.map_some, htrim]

/-- The doc comment shows the mark and the list of attributes. -/
theorem shows_attributesDoc (p : Parser) (context : String) {kind : TokenKind}
    (hname : IsWhole kind written) (hkind : kind.isName = true)
    (hnot : ¬ p.PassesOver context written)
    (hnamed : AttributeTerm.AreNamed (p.PassesOver context) all) (hall : all ≠ []) :
    p.Shows context (attributesDoc written all)
      [("Annotation", []), (written, AttributeTerm.listed all)] := by
  have hmark : IsWhole .identifier "Annotation" := ⟨10, by decide +kernel⟩
  unfold Shows
  rw [body?_attributesDoc]
  dsimp only
  unfold Token.scan
  rw [String.toList_ofList]
  obtain ⟨sign, mark, q, hscan, hstop, hsign, hglued, hmarkKind, hmarkText⟩ :=
    scanFrom_signedName hmark rfl (stopsName_cons (.inr rfl)
      (appliedChars written (AttributeTerm.listedChars all))) .start
  have hscans : Scans (appliedChars written (AttributeTerm.listedChars all)) [] _ :=
    scans_applied hname hkind hnot (AttributeTerm.scans_listed (maxNesting - 3) hnamed hall [')'])
  obtain ⟨used, r, hused, hcall, hstarts⟩ := hscans (q.after ' ')
  rw [Token.scanFrom_nil, List.append_nil, List.append_nil] at hused
  rw [hscan, Token.scanFrom_padding (by decide), hused]
  obtain ⟨first, others, rfl, -⟩ := hcall.starts
  -- The blank keeps the sign of the list away from the mark.
  have hgap : mark.isAdjacent first = false := by
    have hmem : first ∈ Token.scanFrom 0 (q.after ' ')
        (appliedChars written (AttributeTerm.listedChars all)) := hused ▸ List.mem_cons_self
    have hstart := Token.start_of_mem_scanFrom hmem
    have hblank := Token.offset_le_after q ' '
    rw [Token.isAdjacent, beq_eq_false_iff_ne, hstop]
    omega
  rw [← hmarkText]
  exact document_marked hsign (by rw [hmarkKind]; rfl) hglued hgap hcall hstarts

/-- In the doc comment of a class, an imported standard name is read with its standard schema. -/
theorem verdict_imported {registry : Registry} (hkeeps : registry.KeepsStandard)
    {className : String} (names : List String) (context : String)
    (hqualified : ClassName.isQualified written = false)
    (himported : (Settings.forDocs []).imported? written = some className)
    (hbare : ClassName.bare className = className)
    (hregistered : Registry.standard.exists? className = true)
    (htable : (SchemaTable.standard.find? className).isSome = true) :
    (Settings.forDocs names).verdict registry context written = .read className := by
  have hfound : (Settings.forDocs names).annotationClass? registry written = some className := by
    have hsame : (Settings.forDocs names).imported? written = some className := himported
    unfold Settings.annotationClass?
    rw [hqualified, hsame]
    rfl
  obtain ⟨c, hc⟩ := Option.isSome_iff_exists.1 hregistered
  have hexists : registry.exists? className = true := by
    unfold Registry.exists?
    rw [hkeeps className c hc]
    rfl
  have hannotation : registry.isAnnotation className = true := by
    unfold Registry.isAnnotation
    rw [htable, Bool.true_or]
  unfold Settings.verdict
  rw [hfound]
  dsimp only
  rw [hbare, hexists, hannotation]
  rfl

theorem not_passesOver_of_verdict {className : String}
    (h : p.settings.verdict p.registry context written = .read className) :
    ¬ p.PassesOver context written := by
  intro hpassed
  unfold PassesOver at hpassed
  rw [h] at hpassed
  cases hpassed

theorem verdict_attributes {registry : Registry} (hkeeps : registry.KeepsStandard)
    (names : List String) (context : String) :
    (Settings.forDocs names).verdict registry context "Attributes" =
      .read StandardName.attributes :=
  verdict_imported hkeeps names context (by decide) rfl (by decide) rfl rfl

theorem verdict_attribute {registry : Registry} (hkeeps : registry.KeepsStandard)
    (names : List String) (context : String) :
    (Settings.forDocs names).verdict registry context "Attribute" =
      .read StandardName.singleAttribute :=
  verdict_imported hkeeps names context (by decide) rfl (by decide) rfl rfl

theorem verdict_mark_ne (registry : Registry) (names : List String) (context : String) :
    (Settings.forDocs names).verdict registry context "Annotation" ≠
      .read StandardName.attributes := by
  have himported : (Settings.forDocs names).imported? "Annotation" = none := rfl
  have hlocal : (Settings.forDocs names).localCandidate? "Annotation" = none := rfl
  have hqualified : ClassName.isQualified "Annotation" = false := by decide
  have hnamespaces : (Settings.forDocs names).namespaces.isEmpty = true := rfl
  intro hread
  obtain ⟨found, hfound, hbare, -⟩ := Settings.exists_of_verdict hread
  unfold Settings.annotationClass? at hfound
  rw [hqualified, hnamespaces, himported, hlocal, if_neg Bool.false_ne_true, Bool.not_true,
    if_neg Bool.false_ne_true] at hfound
  dsimp only at hfound
  split at hfound
  · cases hfound
  · obtain rfl := List.mem_singleton.1 (List.mem_of_find?_eq_some hfound)
    exact absurd hbare (by decide)

end Parser

end Docblock
