import Docblock.Proofs.Grammar.Completeness

/-!
# Names that are defined

A name counts where it may be read as one: not behind a separator, where it continues another name,
and not in front of an argument. The condition is kept by every step of a reader.
-/

namespace Docblock

namespace Grammar

/-- What the tokens ahead add to the name that ends with `before`. -/
def tailText : Token → List Token → String
  | before, sep :: part :: rest =>
    if sep.kind == .separator && before.isAdjacent sep && part.kind.isClassPart then
      "\\" ++ part.text ++ tailText part rest
    else ""
  | _, _ => ""

def braceDepth (depth : Nat) : TokenKind → Nat
  | .openBrace => depth + 1
  | .closeBrace => depth - 1
  | _ => depth

/-- Outside braces, an identifier behind `(` or `,` and in front of `=` names an argument. -/
def NamesArgument (depth : Nat) (before : Option Token) (t : Token) (rest : List Token) : Prop :=
  depth = 0 ∧ (∃ b, before = some b ∧ (b.kind = .openParen ∨ b.kind = .comma)) ∧
    t.kind = .identifier ∧ ∃ sep, rest.head? = some sep ∧ sep.kind = .equals

def Defined (scope : Scope) (t : Token) (rest : List Token) : Prop :=
  ∃ v, scope.constant? (t.text ++ tailText t rest) = some v ∧
    (v.isScalar = true ∨ v.isNull = true)

/-- Every name ahead is a defined constant. -/
def NamesDefined (scope : Scope) : Nat → Option Token → List Token → Prop
  | _, _, [] => True
  | depth, before, t :: rest =>
    (t.kind.isName = true → (∀ b, before = some b → b.kind ≠ .separator) →
      ¬ NamesArgument depth before t rest → Defined scope t rest) ∧
    NamesDefined scope (braceDepth depth t.kind) (some t) rest

structure Clean (scope : Scope) (depth : Nat) (w : Window) : Prop where
  clear : ∀ t ∈ w.ahead, t.kind ≠ .atSign
  names : NamesDefined scope depth w.behind w.ahead

def NameReady (scope : Scope) (w : Window) : Prop :=
  ∀ t rest, w.ahead = t :: rest → t.kind.isName = true → Defined scope t rest

theorem Clean.step {scope : Scope} {depth : Nat} {behind : Option Token} {t : Token}
    {rest : List Token} (h : Clean scope depth ⟨behind, t :: rest⟩) :
    Clean scope (braceDepth depth t.kind) ⟨some t, rest⟩ :=
  ⟨fun other hother => h.clear other (List.mem_cons_of_mem t hother), h.names.2⟩

theorem Clean.nameReady {scope : Scope} {depth : Nat} {b : Token} {ahead : List Token}
    (h : Clean scope depth ⟨some b, ahead⟩) (hb : b.kind ≠ .separator)
    (hargument : ∀ t rest, ahead = t :: rest → ¬ NamesArgument depth (some b) t rest) :
    NameReady scope ⟨some b, ahead⟩ := by
  rintro t rest hahead hname
  obtain rfl : ahead = t :: rest := hahead
  refine h.names.1 hname ?_ (hargument t rest rfl)
  intro other hother
  obtain rfl := Option.some.inj hother
  exact hb

theorem Clean.nameReady_assigned {scope : Scope} {depth : Nat} {b : Token} {ahead : List Token}
    (h : Clean scope depth ⟨some b, ahead⟩) (hb : b.kind = .equals ∨ b.kind = .colon) :
    NameReady scope ⟨some b, ahead⟩ := by
  refine h.nameReady ?_ ?_
  · cases hb with
    | inl hb => rw [hb]; exact TokenKind.noConfusion
    | inr hb => rw [hb]; exact TokenKind.noConfusion
  · rintro t rest - ⟨-, ⟨other, hother, hkind⟩, -, -⟩
    obtain rfl := Option.some.inj hother
    cases hb with
    | inl hb => rw [hb] at hkind; cases hkind <;> contradiction
    | inr hb => rw [hb] at hkind; cases hkind <;> contradiction

/-- Inside braces no argument is named. -/
theorem Clean.nameReady_inside {scope : Scope} {depth : Nat} {b : Token} {ahead : List Token}
    (h : Clean scope (depth + 1) ⟨some b, ahead⟩) (hb : b.kind = .openBrace ∨ b.kind = .comma) :
    NameReady scope ⟨some b, ahead⟩ := by
  refine h.nameReady ?_ ?_
  · cases hb with
    | inl hb => rw [hb]; exact TokenKind.noConfusion
    | inr hb => rw [hb]; exact TokenKind.noConfusion
  · rintro t rest - ⟨hdepth, -⟩
    cases hdepth

theorem tailText_of_ne_separator {before sep : Token} {rest : List Token}
    (h : sep.kind ≠ .separator) : tailText before (sep :: rest) = "" := by
  cases rest with
  | nil => rfl
  | cons part rest =>
    have hkind : (sep.kind == TokenKind.separator) = false := by simpa using h
    rw [tailText, hkind]
    rfl

end Grammar

end Docblock
