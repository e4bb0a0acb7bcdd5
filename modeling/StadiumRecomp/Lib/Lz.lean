import Mathlib.Algebra.Group.Nat.Defs
import Mathlib.Algebra.GroupWithZero.Nat

/-!
Contract: the meaning of a list of literals and back-references.

Owns: tokens, the copy that may read what it has just produced, and the expansion of a
token list with its length.

Does not own: any encoding of tokens.
-/

set_option autoImplicit false

namespace StadiumRecomp.Lib.Lz

variable {α : Type}

inductive Token (α : Type) where
  | literal (symbol : α)
  | copy (distance length : Nat)
deriving DecidableEq, Repr

/-- `length` symbols, each the one that stands `distance` before it. -/
def copyBack [Inhabited α] (distance : Nat) : Nat → List α → List α
  | 0, out => out
  | length + 1, out =>
      copyBack distance length (out ++ [out.getD (out.length - distance) default])

/-- The output behind one more token. -/
def Token.append [Inhabited α] (out : List α) : Token α → List α
  | .literal symbol => out ++ [symbol]
  | .copy distance length => copyBack distance length out

/-- The expansion of the tokens. -/
def expand [Inhabited α] (tokens : List (Token α)) : List α := tokens.foldl Token.append []

/-- The symbols a token produces. -/
def Token.size : Token α → Nat
  | .literal _ => 1
  | .copy _ length => length

def totalSize (tokens : List (Token α)) : Nat := (tokens.map Token.size).sum

theorem totalSize_cons (token : Token α) (rest : List (Token α)) :
    totalSize (token :: rest) = token.size + totalSize rest := by
  unfold totalSize
  rw [List.map_cons, List.sum_cons]

section Length

variable [Inhabited α]

theorem length_copyBack (distance length : Nat) (out : List α) :
    (copyBack distance length out).length = out.length + length := by
  induction length generalizing out with
  | zero => rfl
  | succ length inductionHypothesis =>
      rw [copyBack, inductionHypothesis, List.length_append, List.length_singleton]
      omega

theorem Token.length_append (out : List α) (token : Token α) :
    (token.append out).length = out.length + token.size := by
  cases token with
  | literal symbol => exact List.length_append
  | copy distance length => exact length_copyBack distance length out

end Length

end StadiumRecomp.Lib.Lz
