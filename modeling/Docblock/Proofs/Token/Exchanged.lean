import Docblock.Proofs.Token.Outline

/-!
# Glyphs with names exchanged

Some glyphs stand for names, and a name may have another name that means the same. The names that
are exchanged here are those of annotations, directly behind a sign, and those of constants, where a
value or a key may start. Whether a name in front of an equals sign is the name of an argument or a
key is told by the bracket around it, so the open brackets are kept with the glyphs.
-/

namespace Docblock

namespace TokenKind

def enclose (kind : TokenKind) (opened : List TokenKind) : List TokenKind :=
  match kind with
  | openParen | openBrace => kind :: opened
  | closeParen | closeBrace => opened.tail
  | _ => opened

def startsItem : TokenKind → Bool
  | openParen | openBrace | comma => true
  | _ => false

def startsValue (kind : TokenKind) : Bool := kind.startsItem || kind == equals || kind == colon

theorem enclose_of_isClassPart {kind : TokenKind} (h : kind.isClassPart = true)
    (opened : List TokenKind) : kind.enclose opened = opened := by
  cases kind <;> first | rfl | cases h

end TokenKind

/-- Names of annotations and of constants, each with another one that means the same. -/
structure Exchange where
  names : String → String → Prop
  constants : String → String → Prop

namespace Exchange

def none : Exchange := ⟨fun _ _ => False, fun _ _ => False⟩

def Swaps (x : Exchange) (text other : String) : Prop := x.names text other ∨ x.constants text other

theorem not_swaps_none (text other : String) : ¬ none.Swaps text other := nofun

/-- A token of a text may be exchanged where it stands, `before` and `next` being the kinds of its
neighbours. -/
inductive Takes (x : Exchange) (before : Option TokenKind) (opened : List TokenKind)
    (next : Option TokenKind) (kind : TokenKind) (text other : String) : Prop where
  | name : before = some .atSign → kind.isClassPart = true → x.names text other →
      Takes x before opened next kind text other
  | constant : before.any TokenKind.startsValue = true → kind.isName = true →
      (before.any TokenKind.startsItem = true → next = some .equals →
        opened.head? = some .openBrace) → x.constants text other →
      Takes x before opened next kind text other

variable {x : Exchange} {before next : Option TokenKind} {opened : List TokenKind}
  {kind : TokenKind} {text other : String}

theorem Takes.isClassPart (h : x.Takes before opened next kind text other) :
    kind.isClassPart = true := by
  cases h with
  | name _ hkind _ => exact hkind
  | constant _ hkind _ _ => exact TokenKind.isClassPart_of_isName hkind

theorem Takes.swaps (h : x.Takes before opened next kind text other) : x.Swaps text other := by
  cases h with
  | name _ _ hnames => exact .inl hnames
  | constant _ _ _ hconstants => exact .inr hconstants

end Exchange

namespace Glyph

def EndsName (gs : List Glyph) : Prop := ∀ g ∈ gs.head?, ¬ (g.kind = .separator ∧ g.glued = true)

/-- The second list is the first with names exchanged and `rest` behind it. -/
inductive Recast (x : Exchange) (rest : List Glyph) :
    Option TokenKind → List TokenKind → List Glyph → List Glyph → Prop where
  | rest {before : Option TokenKind} {opened : List TokenKind} : Recast x rest before opened [] rest
  | same {before : Option TokenKind} {opened : List TokenKind} {g : Glyph} {gs hs : List Glyph} :
      Recast x rest (some g.kind) (g.kind.enclose opened) gs hs →
      Recast x rest before opened (g :: gs) (g :: hs)
  | exchanged {before : Option TokenKind} {opened : List TokenKind} {g : Glyph}
      {gs hs : List Glyph} {text : String} :
      x.Takes before opened (gs.head?.map fun next => next.kind) g.kind g.text text →
      EndsName gs → Recast x rest (some g.kind) (g.kind.enclose opened) gs hs →
      Recast x rest before opened (g :: gs) (⟨.qualifiedName, text, g.glued⟩ :: hs)

variable {x : Exchange} {rest : List Glyph} {before : Option TokenKind} {opened : List TokenKind}
  {gs hs : List Glyph}

theorem recast_append (x : Exchange) (rest : List Glyph) (before : Option TokenKind)
    (opened : List TokenKind) (gs : List Glyph) : Recast x rest before opened gs (gs ++ rest) := by
  induction gs generalizing before opened with
  | nil => exact .rest
  | cons g gs ih => exact .same (ih _ _)

theorem recast_refl (x : Exchange) (before : Option TokenKind) (opened : List TokenKind)
    (gs : List Glyph) : Recast x [] before opened gs gs := by
  have hsame := recast_append x [] before opened gs
  rwa [List.append_nil] at hsame

theorem Recast.eq_rest (h : Recast x rest before opened [] hs) : hs = rest := by
  cases h
  rfl

/-- With nothing exchanged there is only the rest added. -/
theorem Recast.eq_append (h : Recast .none rest before opened gs hs) : hs = gs ++ rest := by
  induction h with
  | rest => rfl
  | same _ ih => rw [ih, List.cons_append]
  | exchanged htakes => exact absurd htakes.swaps (Exchange.not_swaps_none _ _)

theorem Recast.length_eq (h : Recast x rest before opened gs hs) :
    hs.length = gs.length + rest.length := by
  induction h with
  | rest => exact (Nat.zero_add _).symm
  | same _ ih =>
    rw [List.length_cons, List.length_cons]
    omega
  | exchanged _ _ _ ih =>
    rw [List.length_cons, List.length_cons]
    omega

end Glyph

end Docblock
