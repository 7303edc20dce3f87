import Stencil.Text.Basic
import Stencil.Text.CaseTable

/-!
# Letter case

Full case mapping: a character may become several, and a capital sigma becomes
a final small sigma at the end of a word.
-/

namespace Stencil.Case

def Run.target? (r : Run) (n : Nat) : Option Nat :=
  if r.first ≤ n ∧ n ≤ r.last ∧ (n - r.first) % r.step = 0 then some (n + r.offset).toNat
  else none

def Block.contains (b : Block) (c : Char) : Bool := b.first ≤ c.toNat && c.toNat ≤ b.last

def mapped (sequences : List (Nat × List Nat)) (runs : List Run) (c : Char) : Text :=
  match sequences.lookup c.toNat with
  | some points => points.map Char.ofNat
  | none =>
    match runs.findSome? (·.target? c.toNat) with
    | some point => [Char.ofNat point]
    | none => [c]

def upperChar (c : Char) : Text := mapped upperSequences upperRuns c

def lowerChar (c : Char) : Text := mapped lowerSequences lowerRuns c

def isCased (c : Char) : Bool := casedBlocks.any (·.contains c)

def isIgnorable (c : Char) : Bool := ignorableBlocks.any (·.contains c)

def upper (t : Text) : Text := t.flatMap upperChar

def meetsCased (t : Text) : Bool :=
  match t.dropWhile isIgnorable with
  | [] => false
  | c :: _ => isCased c

/-- A sigma ends a word when a letter stands before it and none after it. -/
def smallSigma (before after : Text) : Char :=
  if meetsCased before && !meetsCased after then 'ς' else 'σ'

/-- Maps a text whose earlier characters are `before`, nearest first. -/
def lowerFrom (before : Text) : Text → Text
  | [] => []
  | c :: t =>
    (if c = 'Σ' then [smallSigma before t] else lowerChar c) ++ lowerFrom (c :: before) t

def lower (t : Text) : Text := lowerFrom [] t

def capitalize : Text → Text
  | [] => []
  | c :: t => upperChar c ++ t

end Stencil.Case
