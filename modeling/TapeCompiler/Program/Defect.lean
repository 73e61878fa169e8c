import TapeCompiler.Program.Basic

/-!
Operations that no stage of the compiler should produce, and the search for the first of them in
source order.
-/

namespace TapeCompiler

inductive Defect where
  | emptyMove
  | emptyUpdate
  | zeroFactor
  | selfMultiplication
deriving DecidableEq, Repr

def Defect.describe : Defect → String
  | emptyMove => "zero-length move"
  | emptyUpdate => "zero-amount cell update"
  | zeroFactor => "zero-factor multiplication"
  | selfMultiplication => "multiplication into its own source"

def Op.defect? : Op → Option Defect
  | right count => if count = 0 then some .emptyMove else none
  | left count => if count = 0 then some .emptyMove else none
  | add amount _ => if amount = 0 then some .emptyUpdate else none
  | sub amount _ => if amount = 0 then some .emptyUpdate else none
  | mul dest factor source =>
    if factor = 0 then some .zeroFactor
    else if dest = source then some .selfMultiplication
    else none
  | clear _ => none
  | output _ => none
  | input _ => none

/-- A defective operation; the path holds its index in each sequence from the top level down. -/
structure Finding where
  defect : Defect
  path : List Nat
  culprit : Op
deriving DecidableEq, Repr

def Finding.message (f : Finding) : String :=
  let path := ", ".intercalate (f.path.map toString)
  s!"{f.defect.describe} at instruction path [{path}]: {f.culprit.render}"

namespace Program

/-- The first defect, where the sequence starts at `index` of its block. -/
def firstDefectFrom? (index : Nat) : Program → Option Finding
  | nil => none
  | op o next =>
    match o.defect? with
    | some d => some ⟨d, [index], o⟩
    | none => firstDefectFrom? (index + 1) next
  | loop body next =>
    match firstDefectFrom? 0 body with
    | some f => some { f with path := index :: f.path }
    | none => firstDefectFrom? (index + 1) next

def firstDefect? (p : Program) : Option Finding :=
  p.firstDefectFrom? 0

end Program
end TapeCompiler
