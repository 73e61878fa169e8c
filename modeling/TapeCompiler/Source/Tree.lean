import TapeCompiler.Source.Command
import TapeCompiler.Source.Position

/-!
Syntax trees. A tree is a sequence of commands and loops; each constructor carries the rest of
its sequence, so that one induction covers a sequence and all loop bodies inside it.
-/

namespace TapeCompiler

inductive Tree where
  | nil
  | command (symbol : Command) (place : Position) (next : Tree)
  | loop (opened : Position) (body next : Tree)
deriving DecidableEq, Repr

/-- A command or bracket of the source; an opening bracket keeps its place. -/
inductive Token where
  | command (symbol : Command) (place : Position)
  | opened (place : Position)
  | closed
deriving DecidableEq, Repr

def Token.toChar : Token → Char
  | command c _ => c.toChar
  | opened _ => '['
  | closed => ']'

namespace Tree

/-- Nodes at the top level. -/
def length : Tree → Nat
  | nil => 0
  | command _ _ next => next.length + 1
  | loop _ _ next => next.length + 1

def isEmpty : Tree → Bool
  | nil => true
  | _ => false

/-- Nodes at every depth; a loop counts itself. -/
def nodeCount : Tree → Nat
  | nil => 0
  | command _ _ next => 1 + next.nodeCount
  | loop _ body next => 1 + body.nodeCount + next.nodeCount

def depth : Tree → Nat
  | nil => 0
  | command _ _ next => next.depth
  | loop _ body next => max (body.depth + 1) next.depth

/-- The tree in source order. -/
def tokens : Tree → List Token
  | nil => []
  | command c p next => .command c p :: next.tokens
  | loop p body next => .opened p :: (body.tokens ++ .closed :: next.tokens)

/-- The canonical source: commands and brackets only. -/
def render (t : Tree) : String :=
  String.ofList (t.tokens.map Token.toChar)

end Tree
end TapeCompiler
