import TapeCompiler.Source.Tree

/-!
Reading a source text. Every character that is neither a command nor a bracket is a comment.
Brackets are matched on an explicit stack of open loops, at most `nestingLimit` of them.
-/

namespace TapeCompiler

/-- What is wrong with the brackets of a source text. -/
inductive BracketError where
  | unclosed (place : Position)
  | unopened (place : Position)
  | tooDeep (place : Position) (limit : Nat)
deriving DecidableEq, Repr

namespace BracketError

def place : BracketError → Position
  | unclosed p => p
  | unopened p => p
  | tooDeep p _ => p

def message : BracketError → String
  | unclosed p => s!"unmatched '[' at {p.describe}"
  | unopened p => s!"unmatched ']' at {p.describe}"
  | tooDeep p limit => s!"loop at {p.describe} nests deeper than {limit} levels"

end BracketError

def nestingLimit : Nat := 512

/-- One finished node of the sequence being read. -/
inductive Node where
  | command (symbol : Command) (place : Position)
  | loop (opened : Position) (body : Tree)
deriving DecidableEq, Repr

namespace Node

def cons : Node → Tree → Tree
  | command c p, next => .command c p next
  | loop p body, next => .loop p body next

/-- The tree of a sequence of nodes, the last one first. -/
def assemble : List Node → Tree → Tree
  | [], next => next
  | n :: earlier, next => assemble earlier (n.cons next)

end Node

/-- A loop that is still open: its bracket, and the nodes before it, the last one first. -/
structure OpenLoop where
  place : Position
  before : List Node
deriving DecidableEq, Repr

namespace Tree

/-- Read on at `p` with the open loops, innermost first, and the nodes of the current sequence,
the last one first. -/
def parseFrom : List Char → Position → List OpenLoop → List Node → Except BracketError Tree
  | [], _, [], current => .ok (Node.assemble current .nil)
  | [], _, o :: _, _ => .error (.unclosed o.place)
  | c :: rest, p, frames, current =>
    let q := p.advance c
    if c = '[' then
      if frames.length = nestingLimit then .error (.tooDeep p nestingLimit)
      else parseFrom rest q (⟨p, current⟩ :: frames) []
    else if c = ']' then
      match frames with
      | [] => .error (.unopened p)
      | o :: outer =>
        parseFrom rest q outer (.loop o.place (Node.assemble current .nil) :: o.before)
    else
      match Command.ofChar? c with
      | some symbol => parseFrom rest q frames (.command symbol p :: current)
      | none => parseFrom rest q frames current

def parse (source : String) : Except BracketError Tree :=
  parseFrom source.toList .start [] []

end Tree
end TapeCompiler
