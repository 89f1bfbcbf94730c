import Docblock.Token.Lexeme

/-!
# Scanning

The tokens of an input in order, with their positions. Padding between tokens is dropped.
-/

namespace Docblock.Token

/-- The tokens of `cs`, which starts at `p`; the first `skip` characters belong to the token
before. -/
def scanFrom (skip : Nat) (p : Position) : List Char → List Token
  | [] => []
  | c :: cs =>
    match skip with
    | skip + 1 => scanFrom skip (p.after c) cs
    | 0 =>
      if Lexeme.isPadding c then scanFrom 0 (p.after c) cs
      else
        let lexeme := Lexeme.read c cs
        let stop := (p.afterAll lexeme.source).offset
        ⟨lexeme.kind, String.ofList lexeme.text, p, stop⟩
          :: scanFrom (lexeme.source.length - 1) (p.after c) cs

def scan (input : String) : List Token := scanFrom 0 .start input.toList

@[simp] theorem scanFrom_nil (skip : Nat) (p : Position) : scanFrom skip p [] = [] := rfl

theorem scanFrom_eq_drop (skip : Nat) (p : Position) (cs : List Char) :
    scanFrom skip p cs = scanFrom 0 (p.afterAll (cs.take skip)) (cs.drop skip) := by
  induction cs generalizing skip p with
  | nil => simp
  | cons c cs ih =>
    cases skip with
    | zero => rfl
    | succ skip =>
      rw [List.take_succ_cons, List.drop_succ_cons, Position.afterAll_cons, ← ih]
      rfl

end Docblock.Token
