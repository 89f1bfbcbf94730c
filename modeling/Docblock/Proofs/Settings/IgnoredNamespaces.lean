import Docblock.Proofs.Text.LowerCase
import Docblock.Settings.Basic

/-!
# Ignored namespaces

Whether a name lies within a namespace is decided on texts: in lower case and with one separator
behind it, the namespace has to be a prefix of the name. This compares whole segments. The separator
behind the namespace ends its last segment, and lower case is taken segment by segment.
-/

namespace Docblock

theorem List.intercalate_append_cons {α : Type} {separator : α} {parts others : List (List α)}
    {part : List α} (h : parts ≠ []) :
    [separator].intercalate (parts ++ part :: others) =
      [separator].intercalate parts ++ separator :: [separator].intercalate (part :: others) := by
  induction parts with
  | nil => exact absurd rfl h
  | cons first rest ih =>
    by_cases hrest : rest = []
    · simp [hrest, List.intercalate_cons_cons]
    · rw [List.cons_append, List.intercalate_cons_of_ne_nil (by simp), ih hrest,
        List.intercalate_cons_of_ne_nil hrest]
      simp

/-- Lists that end with a separator are prefixes of each other as their segments are. -/
theorem List.concat_prefix_concat_iff {α : Type} [DecidableEq α] {separator : α} {xs ys : List α} :
    xs ++ [separator] <+: ys ++ [separator] ↔ xs.splitOn separator <+: ys.splitOn separator := by
  constructor
  · rintro ⟨rest, hrest⟩
    rcases List.eq_nil_or_concat rest with rfl | ⟨front, last, rfl⟩
    · rw [List.append_nil, List.append_left_inj] at hrest
      subst hrest
      exact List.prefix_rfl
    · rw [List.concat_eq_append, ← List.append_assoc] at hrest
      have hys := (List.append_inj' hrest rfl).1
      rw [List.append_assoc, List.singleton_append] at hys
      rw [← hys, List.splitOn_append_cons_self]
      exact List.prefix_append _ _
  · rintro ⟨rest, hrest⟩
    have hys : [separator].intercalate (ys.splitOn separator) = ys :=
      List.intercalate_splitOn separator
    rw [← hrest] at hys
    cases rest with
    | nil =>
      rw [List.append_nil, List.intercalate_splitOn] at hys
      subst hys
      exact List.prefix_rfl
    | cons part parts =>
      rw [List.intercalate_append_cons (List.splitOn_ne_nil separator xs),
        List.intercalate_splitOn] at hys
      rw [← hys]
      exact ⟨[separator].intercalate (part :: parts) ++ [separator], by simp⟩

/-- Plain items behind a list make its last segment longer, and no new segment. -/
theorem List.length_splitOn_append {α : Type} [DecidableEq α] {separator : α} {more : List α}
    (h : separator ∉ more) (xs : List α) :
    ((xs ++ more).splitOn separator).length = (xs.splitOn separator).length := by
  induction xs with
  | nil => simp [List.splitOn_eq_singleton h]
  | cons x xs ih =>
    simp only [List.cons_append, List.splitOn_cons_eq_if_modifyHead]
    split <;> simp [ih]

namespace ClassName

/-- The segments of a name. Separators at its end are dropped before it is cut, so that there is
one segment at least, possibly empty. -/
def parts (name : String) : List String :=
  ((stem name).toList.splitOn '\\').map String.ofList

/-- The segments of the namespace are the first ones of the name, regardless of case. -/
def IsWithin (name nameSpace : String) : Prop :=
  (parts nameSpace).map Text.lower <+: (parts name).map Text.lower

theorem map_lower_parts (name : String) : (parts name).map Text.lower =
    ((Text.lowerAfter [] (stem name).toList).splitOn '\\').map String.ofList := by
  rw [Text.splitOn_lowerAfter]
  simp [parts, Text.lower]

theorem isWithin_self (name : String) : IsWithin name name := List.prefix_rfl

theorem stem_append {name more : String} (hmore : more ≠ "") (hplain : '\\' ∉ more.toList) :
    stem (name ++ more) = name ++ more := by
  have hnonempty : more.toList ≠ [] := by simpa using hmore
  obtain ⟨front, last, hlast⟩ := (List.eq_nil_or_concat more.toList).resolve_left hnonempty
  rw [List.concat_eq_append] at hlast
  have hother : isSeparator last = false := by
    rw [hlast, List.mem_append, not_or, List.mem_singleton] at hplain
    simpa [isSeparator] using Ne.symm hplain.2
  unfold stem Text.trimEnd
  rw [String.toList_append, hlast, ← List.append_assoc, Text.trimEndList_concat, hother,
    if_neg Bool.false_ne_true, List.append_assoc, ← hlast, ← String.toList_append,
    String.ofList_toList]

/-- A longer last segment is another segment. -/
theorem not_isWithin_append {nameSpace more : String} (hstem : stem nameSpace = nameSpace)
    (hmore : more ≠ "") (hplain : '\\' ∉ more.toList) : ¬ IsWithin (nameSpace ++ more) nameSpace := by
  intro hwithin
  have hlength : ((parts nameSpace).map Text.lower).length =
      ((parts (nameSpace ++ more)).map Text.lower).length := by
    rw [List.length_map, List.length_map, parts, parts, List.length_map, List.length_map,
      hstem, stem_append hmore hplain, String.toList_append, List.length_splitOn_append hplain]
  have hsame := List.IsPrefix.eq_of_length hwithin hlength
  rw [map_lower_parts, map_lower_parts, hstem, stem_append hmore hplain,
    List.map_inj_right fun _ _ => String.ofList_inj.1] at hsame
  have hlower := congrArg ['\\'].intercalate hsame
  rw [List.intercalate_splitOn, List.intercalate_splitOn] at hlower
  have hsizes := congrArg List.length hlower
  rw [Text.length_lowerAfter, Text.length_lowerAfter, String.toList_append, List.flatMap_append,
    List.length_append] at hsizes
  -- Every further character makes the text in lower case longer.
  cases hchars : more.toList with
  | nil => exact hmore (by simpa using hchars)
  | cons c rest =>
    have hpositive := Text.length_lowerChar_pos c
    rw [hchars, List.flatMap_cons, List.length_append] at hsizes
    omega

end ClassName

namespace Settings

open ClassName

theorem toList_comparable (name : String) :
    (comparable name).toList = Text.lowerAfter [] (stem name).toList ++ ['\\'] := by
  have hseparator : "\\".toList = '\\' :: [] := rfl
  unfold comparable Text.lower
  rw [String.toList_ofList, String.toList_append, hseparator, Text.lowerAfter_append_backslash,
    Text.lowerAfter_nil]

/-- The comparison of texts is a comparison of segments. -/
theorem inNamespace_iff (name nameSpace : String) :
    inNamespace name nameSpace = true ↔ IsWithin name nameSpace := by
  unfold inNamespace IsWithin
  rw [List.isPrefixOf_iff_prefix, toList_comparable, toList_comparable,
    List.concat_prefix_concat_iff, map_lower_parts, map_lower_parts,
    List.prefix_map_iff_of_injective fun _ _ => String.ofList_injective]

/-- A name that is not passed over for another reason is passed over exactly if it lies within an
ignored namespace. Every namespace lies within itself, and a name with a longer last segment does
not lie within it. -/
theorem isIgnored_iff_isWithin {s : Settings} {name : String}
    (hstrict : s.ignoreNotImported = false) (hname : name ∉ s.ignoredNames) :
    (s.isIgnored name = true ↔ ∃ nameSpace ∈ s.ignoredNamespaces, IsWithin name nameSpace) ∧
      (∀ nameSpace, IsWithin nameSpace nameSpace) ∧
      ∀ nameSpace more, stem nameSpace = nameSpace → more ≠ "" → '\\' ∉ more.toList →
        ¬ IsWithin (nameSpace ++ more) nameSpace := by
  have hunlisted : s.ignoredNames.contains name = false := by simpa using hname
  refine ⟨?_, isWithin_self, fun _ _ => not_isWithin_append⟩
  unfold isIgnored
  rw [hstrict, hunlisted, Bool.false_or, Bool.false_or, List.any_eq_true]
  exact exists_congr fun nameSpace => and_congr_right fun _ => inNamespace_iff name nameSpace

/-- Names within a namespace that is written with a separator behind it, and one beside it. -/
theorem isIgnored_vendor :
    let s : Settings := { ignoredNamespaces := ["Vendor\\Ignored\\"] }
    s.isIgnored "vendor\\ignored\\Thing" = true ∧ s.isIgnored "Vendor\\Ignored" = true ∧
      s.isIgnored "Vendor\\IgnoredToo" = false := by
  intro s
  have hstrict : s.ignoreNotImported = false := rfl
  have hname (name : String) : name ∉ s.ignoredNames := List.not_mem_nil
  have hwithin {name : String} (h : inNamespace name "Vendor\\Ignored\\" = true) :
      s.isIgnored name = true :=
    (isIgnored_iff_isWithin hstrict (hname name)).1.2
      ⟨_, List.mem_singleton_self _, (inNamespace_iff _ _).1 h⟩
  refine ⟨hwithin (by decide), hwithin (by decide), ?_⟩
  obtain ⟨hiff, -, hbeside⟩ := isIgnored_iff_isWithin hstrict (hname "Vendor\\IgnoredToo")
  rw [Bool.eq_false_iff, Ne, hiff]
  rintro ⟨nameSpace, hmem, hin⟩
  obtain rfl := List.mem_singleton.1 hmem
  -- The separator behind the namespace is dropped.
  have hstem : IsWithin ("Vendor\\Ignored" ++ "Too") "Vendor\\Ignored" := hin
  exact hbeside "Vendor\\Ignored" "Too" (by decide) (by decide) (by decide) hstem

end Settings

end Docblock
