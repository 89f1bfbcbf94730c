/-!
# Trimming and searching text

Runs of unwanted characters are dropped from the ends of a text, and a text is searched for a
pattern, cut at it, or taken apart between its occurrences.
-/

namespace Docblock.Text

def trimEndList (p : Char → Bool) (cs : List Char) : List Char :=
  (cs.reverse.dropWhile p).reverse

def trimList (p : Char → Bool) (cs : List Char) : List Char := trimEndList p (cs.dropWhile p)

def trimStart (p : Char → Bool) (s : String) : String := String.ofList (s.toList.dropWhile p)

def trimEnd (p : Char → Bool) (s : String) : String := String.ofList (trimEndList p s.toList)

def trim (p : Char → Bool) (s : String) : String := String.ofList (trimList p s.toList)

@[simp] theorem trimEndList_nil (p : Char → Bool) : trimEndList p [] = [] := rfl

theorem trimEndList_concat (p : Char → Bool) (cs : List Char) (c : Char) :
    trimEndList p (cs ++ [c]) = if p c then trimEndList p cs else cs ++ [c] := by
  by_cases h : p c <;> simp [trimEndList, h]

theorem trimEndList_append {p : Char → Bool} (cs : List Char) {ds : List Char}
    (h : trimEndList p ds ≠ []) : trimEndList p (cs ++ ds) = cs ++ trimEndList p ds := by
  have hdropped : ds.reverse.dropWhile p ≠ [] := fun hnil => h (congrArg List.reverse hnil)
  unfold trimEndList
  rw [List.reverse_append, List.dropWhile_append, if_neg (by simpa using hdropped),
    List.reverse_append, List.reverse_reverse]

/-- What is trimmed off. -/
theorem exists_trimmed (p : Char → Bool) (cs : List Char) :
    ∃ trimmed, cs = trimEndList p cs ++ trimmed ∧ ∀ c ∈ trimmed, p c = true := by
  refine ⟨(cs.reverse.takeWhile p).reverse, ?_, ?_⟩
  · unfold trimEndList
    rw [← List.reverse_append, List.takeWhile_append_dropWhile, List.reverse_reverse]
  · intro c hc
    exact List.all_eq_true.1 (List.all_takeWhile) c (List.mem_reverse.1 hc)

/-- What follows `pattern` at the start of a text. -/
def dropLeading? : List Char → List Char → Option (List Char)
  | [], cs => some cs
  | _ :: _, [] => none
  | p :: pattern, c :: cs => if p = c then dropLeading? pattern cs else none

/-- The text before and after the first occurrence of `pattern`. -/
def cut? (pattern : List Char) : List Char → Option (List Char × List Char)
  | [] => (dropLeading? pattern []).map fun rest => ([], rest)
  | c :: cs =>
    match dropLeading? pattern (c :: cs) with
    | some rest => some ([], rest)
    | none => (cut? pattern cs).map fun (before, rest) => (c :: before, rest)

def occursIn (pattern : String) (s : String) : Bool := (cut? pattern.toList s.toList).isSome

@[simp] theorem dropLeading?_nil (cs : List Char) : dropLeading? [] cs = some cs := rfl

theorem dropLeading?_append (pattern cs : List Char) :
    dropLeading? pattern (pattern ++ cs) = some cs := by
  induction pattern with
  | nil => rfl
  | cons p pattern ih => simp [dropLeading?, ih]

theorem eq_append_of_dropLeading? {pattern cs rest : List Char}
    (h : dropLeading? pattern cs = some rest) : cs = pattern ++ rest := by
  induction pattern generalizing cs with
  | nil => simpa using h
  | cons p pattern ih =>
    cases cs with
    | nil => simp [dropLeading?] at h
    | cons c cs =>
      by_cases same : p = c
      · subst same
        simp only [dropLeading?, if_true] at h
        simp [ih h]
      · simp [dropLeading?, same] at h

/-- The two parts and the pattern make up the text. -/
theorem eq_append_of_cut? {pattern cs before rest : List Char}
    (h : cut? pattern cs = some (before, rest)) : cs = before ++ pattern ++ rest := by
  induction cs generalizing before with
  | nil =>
    cases hd : dropLeading? pattern [] with
    | none => simp [cut?, hd] at h
    | some r =>
      simp only [cut?, hd, Option.map_some, Option.some.injEq, Prod.mk.injEq] at h
      obtain ⟨rfl, rfl⟩ := h
      simpa using eq_append_of_dropLeading? hd
  | cons c cs ih =>
    cases hd : dropLeading? pattern (c :: cs) with
    | some r =>
      simp only [cut?, hd, Option.some.injEq, Prod.mk.injEq] at h
      obtain ⟨rfl, rfl⟩ := h
      simpa using eq_append_of_dropLeading? hd
    | none =>
      cases hc : cut? pattern cs with
      | none => simp [cut?, hd, hc] at h
      | some found =>
        obtain ⟨b, r⟩ := found
        simp only [cut?, hd, hc, Option.map_some, Option.some.injEq, Prod.mk.injEq] at h
        obtain ⟨rfl, rfl⟩ := h
        simp [ih hc]

def joined (separator : String) (parts : List String) : String := separator.intercalate parts

end Docblock.Text
