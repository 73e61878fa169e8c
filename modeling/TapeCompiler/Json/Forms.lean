import TapeCompiler.Json.Value
import TapeCompiler.Program.Basic
import TapeCompiler.Source.Tree

/-! Syntax trees and programs as JSON documents. -/

namespace TapeCompiler

def Position.toJson (p : Position) : Json :=
  .obj [("offset", .num p.offset), ("line", .num p.line), ("column", .num p.column)]

namespace Tree

def jsonNodes : Tree → List Json
  | nil => []
  | command c p next =>
    .obj [("Command", .obj [("command", .str c.name), ("position", p.toJson)])] :: next.jsonNodes
  | loop p body next =>
    .obj [("Loop", .obj [("open", p.toJson), ("body", .arr body.jsonNodes)])] :: next.jsonNodes

def toJson (t : Tree) : Json :=
  .obj [("nodes", .arr t.jsonNodes)]

end Tree

def Op.toJson : Op → Json
  | right count => .obj [("MoveRight", .num count.toNat)]
  | left count => .obj [("MoveLeft", .num count.toNat)]
  | add amount o => .obj [("Add", .obj [("amount", .num amount.toNat), ("offset", .num o.toInt)])]
  | sub amount o => .obj [("Sub", .obj [("amount", .num amount.toNat), ("offset", .num o.toInt)])]
  | mul dest factor source =>
    .obj [("Mul", .obj [("dest_offset", .num dest.toInt), ("factor", .num factor.toInt),
      ("src_offset", .num source.toInt)])]
  | clear o => .obj [("Clear", .obj [("offset", .num o.toInt)])]
  | output o => .obj [("Output", .obj [("offset", .num o.toInt)])]
  | input o => .obj [("Input", .obj [("offset", .num o.toInt)])]

namespace Program

def jsonItems : Program → List Json
  | nil => []
  | op o next => o.toJson :: next.jsonItems
  | loop body next => .obj [("Loop", .arr body.jsonItems)] :: next.jsonItems

def toJson (p : Program) : Json :=
  .obj [("instructions", .arr p.jsonItems)]

end Program
end TapeCompiler
