import Docblock.Schema.Property

/-!
# Texts of array types

Declared types are generated from simple names by `E[]`, `array<E>` and `array<K, E>`. Reading one
of these texts takes it apart at its first angle bracket, its last comma and its final brackets. A
single level is read as the list of its element type. In deeper texts the cuts meet the wrong
marks, and an array of arrays is never read as the list that it spells.
-/

namespace Docblock

/-- A name without blanks and without the marks of array types. -/
structure SimpleName where
  chars : List Char
  nonempty : chars ≠ []
  plain : ∀ c ∈ chars, Text.isBlank c = false ∧ c ∉ ['<', '>', ',', '[', ']']

inductive TypeText where
  | name (n : SimpleName)
  | brackets (element : TypeText)
  | angles (element : TypeText)
  /-- An array with a key type, with or without a blank behind the comma. -/
  | mapping (key : SimpleName) (spaced : Bool) (element : TypeText)

namespace SimpleName

theorem plain_of_all {cs : List Char}
    (h : (cs.all fun c => !Text.isBlank c && !List.contains ['<', '>', ',', '[', ']'] c) = true) :
    ∀ c ∈ cs, Text.isBlank c = false ∧ c ∉ ['<', '>', ',', '[', ']'] := by
  intro c hc
  have hboth := List.all_eq_true.1 h c hc
  rw [Bool.and_eq_true, Bool.not_eq_true', Bool.not_eq_true'] at hboth
  refine ⟨hboth.1, fun hmark => ?_⟩
  rw [List.contains_iff_mem.2 hmark] at hboth
  cases hboth.2

def int : SimpleName := ⟨"int".toList, by decide, plain_of_all (by decide)⟩

def text (n : SimpleName) : String := String.ofList n.chars

variable {n : SimpleName} {c : Char}

theorem ne_of_mem (hc : c ∈ n.chars) {mark : Char} (hmark : mark ∈ ['<', '>', ',', '[', ']']) :
    c ≠ mark := by
  rintro rfl
  exact (n.plain c hc).2 hmark

theorem notMem {mark : Char} (hmark : mark ∈ ['<', '>', ',', '[', ']']) : mark ∉ n.chars :=
  fun hc => ne_of_mem hc hmark rfl

end SimpleName

namespace TypeText

def gap (spaced : Bool) : List Char := if spaced then [' '] else []

def chars : TypeText → List Char
  | name n => n.chars
  | brackets element => element.chars ++ ['[', ']']
  | angles element => "array<".toList ++ (element.chars ++ ['>'])
  | mapping key spaced element =>
    "array<".toList ++ ((key.chars ++ ',' :: gap spaced) ++ (element.chars ++ ['>']))

theorem chars_name (n : SimpleName) : (name n).chars = n.chars := rfl

theorem chars_brackets (t : TypeText) : t.brackets.chars = t.chars ++ ['[', ']'] := rfl

theorem chars_angles (t : TypeText) :
    t.angles.chars = "array<".toList ++ (t.chars ++ ['>']) := rfl

theorem chars_mapping (key : SimpleName) (spaced : Bool) (t : TypeText) :
    (mapping key spaced t).chars =
      "array<".toList ++ ((key.chars ++ ',' :: gap spaced) ++ (t.chars ++ ['>'])) := rfl

def text (t : TypeText) : String := String.ofList t.chars

def IsName : TypeText → Prop
  | name _ => True
  | _ => False

theorem exists_mem_chars (t : TypeText) : ∃ c ∈ t.chars, c ≠ '>' := by
  cases t with
  | name n =>
    obtain ⟨c, hc⟩ := List.exists_mem_of_ne_nil _ n.nonempty
    exact ⟨c, hc, SimpleName.ne_of_mem hc (by decide)⟩
  | brackets element => exact ⟨']', List.mem_append_right _ (by decide), by decide⟩
  | angles element => exact ⟨'a', List.mem_append_left _ (by decide), by decide⟩
  | mapping key spaced element => exact ⟨'a', List.mem_append_left _ (by decide), by decide⟩

end TypeText

namespace Text

variable {p : Char → Bool} {cs : List Char} {c : Char}

theorem mem_trimEndList (hc : c ∈ cs) (hkept : p c = false) : c ∈ trimEndList p cs := by
  obtain ⟨trimmed, hsplit, htrimmed⟩ := exists_trimmed p cs
  rw [hsplit, List.mem_append] at hc
  refine hc.resolve_right fun hmem => ?_
  rw [htrimmed c hmem] at hkept
  cases hkept

theorem mem_trimList (hc : c ∈ cs) (hkept : p c = false) : c ∈ trimList p cs := by
  refine mem_trimEndList ?_ hkept
  rw [← List.takeWhile_append_dropWhile (p := p) (l := cs), List.mem_append] at hc
  refine hc.resolve_left fun hmem => ?_
  rw [List.all_eq_true.mp List.all_takeWhile c hmem] at hkept
  cases hkept

theorem trimEndList_of_all (h : ∀ c ∈ cs, p c = false) : trimEndList p cs = cs := by
  unfold trimEndList
  cases hcs : cs.reverse with
  | nil => rw [List.dropWhile_nil, List.reverse_nil, List.reverse_eq_nil_iff.mp hcs]
  | cons c rest =>
    have hc : p c = false := h c (List.mem_reverse.mp (hcs ▸ List.mem_cons_self))
    rw [List.dropWhile_cons_of_neg (by simp [hc]), ← hcs, List.reverse_reverse]

theorem trimList_of_all (h : ∀ c ∈ cs, p c = false) : trimList p cs = cs := by
  unfold trimList
  cases cs with
  | nil => rfl
  | cons c rest =>
    rw [List.dropWhile_cons_of_neg (by simp [h c List.mem_cons_self]), trimEndList_of_all h]

theorem trimList_cons_of_drop (h : p c = true) (cs : List Char) :
    trimList p (c :: cs) = trimList p cs := by
  unfold trimList
  rw [List.dropWhile_cons_of_pos h]

theorem cut?_of_notMem (h : c ∉ cs) : cut? [c] cs = none := by
  induction cs with
  | nil => rfl
  | cons d rest ih =>
    rw [List.mem_cons, not_or] at h
    have hhead : dropLeading? [c] (d :: rest) = none := if_neg h.1
    rw [cut?, hhead, ih h.2]
    rfl

theorem cut?_append {front : List Char} (h : c ∉ front) (rest : List Char) :
    cut? [c] (front ++ c :: rest) = some (front, rest) := by
  induction front with
  | nil =>
    have hhead : dropLeading? [c] (c :: rest) = some rest := if_pos rfl
    rw [List.nil_append, cut?, hhead]
  | cons d front ih =>
    rw [List.mem_cons, not_or] at h
    have hhead : dropLeading? [c] (d :: (front ++ c :: rest)) = none := if_neg h.1
    rw [List.cons_append, cut?, hhead, ih h.2]
    rfl

end Text

theorem ValueType.ne_list (t : ValueType) : t ≠ .list t := by
  intro h
  have hsize := congrArg sizeOf h
  rw [ValueType.list.sizeOf_spec] at hsize
  omega

namespace PropertyType

def structural (declared : String) : ValueType :=
  match ofDeclared? declared with
  | some t => t.toValueType
  | none => .mixed

def elementType (cs : List Char) : ValueType :=
  match elementName? cs with
  | some name => .ofName name
  | none => .mixed

theorem toValueType_array (cs : List Char) (declared : String) :
    (array (elementName? cs) declared).toValueType = .list (elementType cs) := by
  unfold elementType
  cases elementName? cs <;> rfl

/-- The type of the elements of a text in angle brackets, its last bracket not yet trimmed. -/
def insideType (body : List Char) : ValueType :=
  elementType (afterLastComma (Text.trimEndList (fun c => c == '>') body))

section Marks

variable {cs : List Char} {c : Char}

theorem ofList_ne_of_mem (hc : c ∈ cs) (hmark : c.isAlpha = false) {s : String}
    (hs : s.toList.all Char.isAlpha = true) : String.ofList cs ≠ s := by
  rintro rfl
  rw [String.toList_ofList, List.all_eq_true] at hs
  rw [hs c hc] at hmark
  cases hmark

theorem canonicalName_of_mem (hc : c ∈ cs) (hmark : c.isAlpha = false) :
    canonicalName (String.ofList cs) = String.ofList cs := by
  unfold canonicalName
  split
  all_goals first
    | rfl
    | next h => exact absurd h (ofList_ne_of_mem hc hmark (by decide))

theorem ofName_of_mem (hc : c ∈ cs) (hmark : c.isAlpha = false) :
    ValueType.ofName (String.ofList cs) =
      .object (some (ClassName.bare (String.ofList cs))) := by
  unfold ValueType.ofName
  split
  all_goals first
    | rfl
    | next h => exact absurd h (ofList_ne_of_mem hc hmark (by decide))

/-- A text of elements that is not blank is a type name, `mixed` included. -/
theorem elementType_eq (h : Text.trimList Text.isBlank cs ≠ []) : elementType cs =
    .ofName (canonicalName (String.ofList (Text.trimList Text.isBlank cs))) := by
  have hne : canonicalName (String.ofList (Text.trimList Text.isBlank cs)) ≠ "" := by
    unfold canonicalName
    split
    next => decide
    next => decide
    next => decide
    next => decide
    next => exact fun hempty => h (by simpa using congrArg String.toList hempty)
  unfold elementType elementName?
  generalize canonicalName (String.ofList (Text.trimList Text.isBlank cs)) = name at hne ⊢
  split
  next found hfound =>
    split at hfound
    next => cases hfound
    next => cases hfound
    next => rw [Option.some.inj hfound]
  next hnone =>
    split at hnone
    next => rfl
    next => exact absurd rfl hne
    next => cases hnone

/-- A text with a mark in it names a class. -/
theorem elementType_of_mem (hc : c ∈ cs) (hmark : c.isAlpha = false)
    (hblank : Text.isBlank c = false) :
    ∃ className, elementType cs = .object (some className) := by
  have htrimmed : c ∈ Text.trimList Text.isBlank cs := Text.mem_trimList hc hblank
  refine ⟨ClassName.bare (String.ofList (Text.trimList Text.isBlank cs)), ?_⟩
  rw [elementType_eq (List.ne_nil_of_mem htrimmed), canonicalName_of_mem htrimmed hmark,
    ofName_of_mem htrimmed hmark]

theorem elementType_cons_of_isBlank (h : Text.isBlank c = true) :
    elementType (c :: cs) = elementType cs := by
  unfold elementType elementName?
  rw [Text.trimList_cons_of_drop h]

end Marks

section Cuts

variable {xs ys : List Char}

theorem beforeBrackets?_append (cs : List Char) : beforeBrackets? (cs ++ ['[', ']']) = some cs := by
  simp [beforeBrackets?]

theorem beforeBrackets?_of_notMem {cs : List Char} (h : ']' ∉ cs) : beforeBrackets? cs = none := by
  unfold beforeBrackets?
  split
  next rest hreverse =>
    have hmem : ']' ∈ cs.reverse := hreverse ▸ List.mem_cons_self
    exact absurd (List.mem_reverse.mp hmem) h
  next => rfl

theorem afterLastComma_of_notMem (h : ',' ∉ ys) : afterLastComma ys = ys := by
  have hall : ∀ c ∈ ys.reverse, (c != ',') = true := by
    intro c hc
    rw [bne_iff_ne]
    rintro rfl
    exact h (List.mem_reverse.mp hc)
  have htake : ys.reverse.takeWhile (fun c => c != ',') = ys.reverse := by
    have happend := @List.takeWhile_append_of_pos _ _ _ [] hall
    rwa [List.takeWhile_nil, List.append_nil] at happend
  rw [afterLastComma, htake, List.reverse_reverse]

theorem afterLastComma_append_comma (xs ys : List Char) :
    afterLastComma (xs ++ ',' :: ys) = afterLastComma ys := by
  unfold afterLastComma
  rw [List.reverse_append, List.reverse_cons, List.append_assoc, List.takeWhile_append]
  split
  next hlength =>
    rw [List.singleton_append, List.takeWhile_cons_of_neg (by simp), List.append_nil,
      (List.takeWhile_prefix _).eq_of_length hlength]
  next => rfl

theorem afterLastComma_append_of_mem (xs : List Char) (h : ',' ∈ ys) :
    afterLastComma (xs ++ ys) = afterLastComma ys := by
  obtain ⟨before, after, rfl⟩ := List.append_of_mem h
  rw [← List.append_assoc, afterLastComma_append_comma, afterLastComma_append_comma]

theorem mem_afterLastComma {c : Char} (hc : c ≠ ',') (xs : List Char) :
    c ∈ afterLastComma (xs ++ [c]) := by
  unfold afterLastComma
  rw [List.reverse_concat, List.takeWhile_cons_of_pos (by simpa using hc), List.mem_reverse]
  exact List.mem_cons_self

/-- The last closing bracket is trimmed off, and with it those that end the element type. -/
theorem trimEndList_close (xs : List Char) (t : TypeText) :
    Text.trimEndList (fun c => c == '>') (xs ++ (t.chars ++ ['>'])) =
      xs ++ Text.trimEndList (fun c => c == '>') t.chars := by
  obtain ⟨c, hc, hne⟩ := t.exists_mem_chars
  have hkept : c ∈ Text.trimEndList (fun c => c == '>') t.chars :=
    Text.mem_trimEndList hc (by simpa using hne)
  rw [← List.append_assoc, Text.trimEndList_concat, if_pos (by rfl),
    Text.trimEndList_append xs (List.ne_nil_of_mem hkept)]

end Cuts

section Insides

theorem insideType_close (t : TypeText) : insideType (t.chars ++ ['>']) = insideType t.chars := by
  have htrim := trimEndList_close [] t
  rw [List.nil_append, List.nil_append] at htrim
  rw [insideType, htrim, insideType]

/-- In front of the last comma nothing matters, and behind it a blank does not. -/
theorem insideType_behind_comma (front : List Char) (spaced : Bool) (t : TypeText) :
    insideType ((front ++ ',' :: TypeText.gap spaced) ++ (t.chars ++ ['>'])) =
      insideType t.chars := by
  unfold insideType
  rw [trimEndList_close, List.append_assoc, List.cons_append, afterLastComma_append_comma]
  generalize Text.trimEndList (fun c => c == '>') t.chars = inner
  cases spaced with
  | false => rfl
  | true =>
    change elementType (afterLastComma (' ' :: inner)) = _
    by_cases hcomma : ',' ∈ inner
    · rw [← List.singleton_append, afterLastComma_append_of_mem _ hcomma]
    · rw [afterLastComma_of_notMem (by simpa using hcomma), afterLastComma_of_notMem hcomma,
        elementType_cons_of_isBlank (by decide)]

theorem elementType_name (n : SimpleName) :
    elementType n.chars = .ofName (canonicalName n.text) := by
  have htrim : Text.trimList Text.isBlank n.chars = n.chars :=
    Text.trimList_of_all fun c hc => (n.plain c hc).1
  rw [elementType_eq (by rw [htrim]; exact n.nonempty), htrim, SimpleName.text]

theorem insideType_name (n : SimpleName) : insideType n.chars = elementType n.chars := by
  have htrim : Text.trimEndList (fun c => c == '>') n.chars = n.chars :=
    Text.trimEndList_of_all fun c hc => by simpa using SimpleName.ne_of_mem hc (by decide)
  rw [insideType, htrim, afterLastComma_of_notMem (SimpleName.notMem (by decide))]

/-- A text that ends in square brackets names a class of that name. -/
theorem insideType_brackets (front : List Char) :
    ∃ className, insideType (front ++ ['[', ']']) = .object (some className) := by
  have hsplit : front ++ ['[', ']'] = (front ++ ['[']) ++ [']'] := by simp
  unfold insideType
  rw [hsplit, Text.trimEndList_concat, if_neg (by decide)]
  exact elementType_of_mem (mem_afterLastComma (by decide) _) (by decide) (by decide)

theorem insideType_angles (t : TypeText) : insideType t.angles.chars = insideType t.chars ∨
    ∃ className, insideType t.angles.chars = .object (some className) := by
  unfold insideType
  rw [TypeText.chars_angles, trimEndList_close]
  by_cases hcomma : ',' ∈ Text.trimEndList (fun c => c == '>') t.chars
  · rw [afterLastComma_append_of_mem _ hcomma]
    exact .inl rfl
  · have hnone : ',' ∉ "array<".toList ++ Text.trimEndList (fun c => c == '>') t.chars := by
      rw [List.mem_append, not_or]
      exact ⟨by decide, hcomma⟩
    rw [afterLastComma_of_notMem hnone]
    refine .inr (elementType_of_mem (c := '<') ?_ (by decide) (by decide))
    exact List.mem_append_left _ (by decide)

end Insides

section Readings

theorem structural_name (n : SimpleName) :
    structural n.text = .ofName (canonicalName n.text) := by
  have hunmarked (mark : Char) (hmark : mark ∈ ['<', '>', ',', '[', ']'])
      (hletter : mark.isAlpha = false) : mark ∉ (canonicalName n.text).toList := by
    have hword {s : String} (hs : s.toList.all Char.isAlpha = true) : mark ∉ s.toList := by
      intro hmem
      rw [List.all_eq_true.1 hs mark hmem] at hletter
      cases hletter
    unfold canonicalName
    split
    next => exact hword (by decide)
    next => exact hword (by decide)
    next => exact hword (by decide)
    next => exact hword (by decide)
    next => rw [SimpleName.text, String.toList_ofList]; exact SimpleName.notMem hmark
  have hcut := Text.cut?_of_notMem (hunmarked '<' (by decide) (by decide))
  have hbrackets := beforeBrackets?_of_notMem (hunmarked ']' (by decide) (by decide))
  unfold structural ofDeclared?
  generalize canonicalName n.text = name at hcut hbrackets ⊢
  dsimp only
  by_cases hmixed : name = "mixed"
  · rw [if_pos hmixed, hmixed]
    rfl
  · rw [if_neg hmixed, hcut, hbrackets]
    by_cases harray : name = "array"
    · rw [harray]
      rfl
    · simp only [if_neg harray]
      rfl

theorem ofDeclared?_of_mem {cs : List Char} {c : Char} (hc : c ∈ cs) (hmark : c.isAlpha = false) :
    ofDeclared? (String.ofList cs) =
      match Text.cut? ['<'] cs with
      | some (_, inner) => some (array (elementName? (afterLastComma
          (Text.trimEndList (fun c => c == '>') inner))) (String.ofList cs))
      | none =>
        match beforeBrackets? cs with
        | some element => some (array (elementName? element) (String.ofList cs))
        | none => some (named (String.ofList cs) (String.ofList cs)) := by
  unfold ofDeclared?
  rw [canonicalName_of_mem hc hmark]
  dsimp only
  have hmixed : String.ofList cs ≠ "mixed" := ofList_ne_of_mem hc hmark (by decide)
  have harray : String.ofList cs ≠ "array" := ofList_ne_of_mem hc hmark (by decide)
  rw [if_neg hmixed, String.toList_ofList]
  cases Text.cut? ['<'] cs with
  | some cut => rfl
  | none =>
    cases beforeBrackets? cs with
    | some element => rfl
    | none => exact congrArg some (if_neg harray)

theorem structural_brackets {cs : List Char} (h : '<' ∉ cs) :
    structural (String.ofList (cs ++ ['[', ']'])) = .list (elementType cs) := by
  have hcut : Text.cut? ['<'] (cs ++ ['[', ']']) = none := by
    refine Text.cut?_of_notMem ?_
    rw [List.mem_append, not_or]
    exact ⟨h, by decide⟩
  have hmem : ']' ∈ cs ++ ['[', ']'] := List.mem_append_right _ (by decide)
  rw [structural, ofDeclared?_of_mem hmem (by decide), hcut, beforeBrackets?_append]
  exact toValueType_array _ _

/-- Whatever follows the first angle bracket is the text of the elements. -/
theorem structural_angles {front : List Char} (hfront : '<' ∉ front) (body : List Char) :
    structural (String.ofList (front ++ '<' :: body)) = .list (insideType body) := by
  have hmem : '<' ∈ front ++ '<' :: body := List.mem_append_right _ List.mem_cons_self
  rw [structural, ofDeclared?_of_mem hmem (by decide), Text.cut?_append hfront]
  exact toValueType_array _ _

end Readings

end PropertyType

namespace TypeText

open PropertyType

variable {t : TypeText}

theorem structural_angles_text (t : TypeText) :
    structural t.angles.text = .list (insideType t.chars) := by
  have hsplit : t.angles.chars = "array".toList ++ '<' :: (t.chars ++ ['>']) := rfl
  rw [text, hsplit, structural_angles (by decide), insideType_close]

theorem structural_mapping_text (key : SimpleName) (spaced : Bool) (t : TypeText) :
    structural (mapping key spaced t).text = .list (insideType t.chars) := by
  have hsplit : (mapping key spaced t).chars = "array".toList ++
      '<' :: ((key.chars ++ ',' :: gap spaced) ++ (t.chars ++ ['>'])) := rfl
  rw [text, hsplit, structural_angles (by decide), insideType_behind_comma]

theorem structural_brackets_name (n : SimpleName) :
    structural (name n).brackets.text = .list (structural n.text) := by
  have hplain : '<' ∉ n.chars := SimpleName.notMem (by decide)
  rw [text, chars_brackets, chars_name, structural_brackets hplain, elementType_name,
    structural_name]

/-- In front of the last brackets an array type is taken for the name of a class. -/
theorem structural_brackets_array (h : ¬ t.IsName) :
    ∃ className, structural t.brackets.text = .list (.object (some className)) := by
  by_cases hangle : '<' ∈ t.chars
  · obtain ⟨front, rest, hsplit, hfront⟩ := List.eq_append_cons_of_mem hangle
    have hchars : t.brackets.chars = front ++ '<' :: (rest ++ ['[', ']']) := by
      rw [chars_brackets, hsplit, List.append_assoc, List.cons_append]
    obtain ⟨className, hobject⟩ := insideType_brackets rest
    exact ⟨className, by rw [text, hchars, structural_angles hfront, hobject]⟩
  · have hmark : ']' ∈ t.chars := by
      cases t with
      | name n => exact absurd trivial h
      | brackets element => exact List.mem_append_right _ (by decide)
      | angles element => exact absurd (List.mem_append_left _ (by decide)) hangle
      | mapping key spaced element => exact absurd (List.mem_append_left _ (by decide)) hangle
    obtain ⟨className, hobject⟩ := elementType_of_mem hmark (by decide) (by decide)
    exact ⟨className, by rw [text, chars_brackets, structural_brackets hangle, hobject]⟩

theorem structural_array (h : ¬ t.IsName) : ∃ element, structural t.text = .list element := by
  cases t with
  | name n => exact absurd trivial h
  | brackets element =>
    by_cases hname : element.IsName
    · cases element with
      | name n => exact ⟨_, structural_brackets_name n⟩
      | _ => exact hname.elim
    · obtain ⟨className, hobject⟩ := structural_brackets_array hname
      exact ⟨_, hobject⟩
  | angles element => exact ⟨_, structural_angles_text element⟩
  | mapping key spaced element => exact ⟨_, structural_mapping_text key spaced element⟩

/-- What angle brackets make of a text agrees with the type it declares for names alone. -/
theorem insideType_eq_iff (t : TypeText) : insideType t.chars = structural t.text ↔ t.IsName := by
  cases t with
  | name n =>
    have hsame : insideType n.chars = structural n.text :=
      (insideType_name n).trans ((elementType_name n).trans (structural_name n).symm)
    exact iff_of_true hsame trivial
  | brackets element =>
    obtain ⟨className, hobject⟩ := insideType_brackets element.chars
    obtain ⟨u, hlist⟩ := structural_array (t := element.brackets) id
    rw [chars_brackets, hobject, hlist]
    exact iff_of_false nofun id
  | angles element =>
    rw [structural_angles_text]
    refine iff_of_false (fun heq => ?_) id
    obtain hinside | ⟨className, hobject⟩ := insideType_angles element
    · exact ValueType.ne_list _ (hinside.symm.trans heq)
    · rw [hobject] at heq
      cases heq
  | mapping key spaced element =>
    have hinside : insideType (mapping key spaced element).chars = insideType element.chars :=
      insideType_behind_comma ("array<".toList ++ key.chars) spaced element
    rw [structural_mapping_text]
    exact iff_of_false (fun heq => ValueType.ne_list _ (hinside.symm.trans heq)) id

/-- An array type is read as the list of its element type exactly if the element type is a name,
whichever of the three forms it is written in. -/
theorem structural_eq_list_iff (element : TypeText) :
    (structural element.brackets.text = .list (structural element.text) ↔ element.IsName) ∧
    (structural element.angles.text = .list (structural element.text) ↔ element.IsName) ∧
    ∀ key spaced, structural (mapping key spaced element).text = structural element.angles.text ∧
      (structural (mapping key spaced element).text = .list (structural element.text) ↔
        element.IsName) := by
  have hinside : ValueType.list (insideType element.chars) = .list (structural element.text) ↔
      element.IsName := by
    rw [ValueType.list.injEq]
    exact element.insideType_eq_iff
  refine ⟨?_, ?_, fun key spaced => ⟨?_, ?_⟩⟩
  · by_cases hname : element.IsName
    · cases element with
      | name n => exact iff_of_true (structural_brackets_name n) trivial
      | _ => exact hname.elim
    · obtain ⟨className, hobject⟩ := structural_brackets_array hname
      obtain ⟨u, hlist⟩ := structural_array hname
      rw [hobject, hlist]
      exact iff_of_false nofun hname
  · rwa [structural_angles_text]
  · rw [structural_mapping_text, structural_angles_text]
  · rwa [structural_mapping_text]

/-- An array of lists of integers is read as a list of objects of a class `array<int`. -/
theorem not_structural_nested :
    (name .int).angles.angles.text = "array<array<int>>" ∧
      structural "array<array<int>>" = .list (.object (some "array<int")) ∧
      structural (name .int).angles.text = .list .integer ∧
      structural (name .int).angles.angles.text ≠
        .list (structural (name .int).angles.text) := by
  have hread : structural "array<array<int>>" = .list (.object (some "array<int")) := by rfl
  have hinner : structural (name .int).angles.text = .list .integer := by rfl
  have htext : (name .int).angles.angles.text = "array<array<int>>" := by rfl
  refine ⟨htext, hread, hinner, ?_⟩
  rw [htext, hread, hinner]
  nofun

end TypeText

end Docblock
