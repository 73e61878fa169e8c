/-! Machine words whose arithmetic says when it leaves the range. -/

namespace TapeCompiler.Word

/-- The signed word of value `i`, if there is one. -/
def narrow? (i : Int) : Option Int32 :=
  if -2147483648 ≤ i ∧ i ≤ 2147483647 then some (.ofInt i) else none

/-- The sum of two unsigned words, if it is one. -/
def sum? (a b : UInt32) : Option UInt32 :=
  if a.toNat + b.toNat < 4294967296 then some (a + b) else none

end TapeCompiler.Word
