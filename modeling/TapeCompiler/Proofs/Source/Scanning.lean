import TapeCompiler.Source.Parser

/-!
Where a reading stands and what one character does to it: the place is that behind the text read so
far, and each kind of character has one equation.
-/

namespace TapeCompiler

namespace Position

/-- The place behind a text: the bytes before it, the lines that ended, and the characters since the
last line ended. -/
def behind (before : List Char) : Position where
  offset := (String.ofList before).utf8ByteSize
  line := 1 + before.count '\n'
  column := 1 + (before.reverse.takeWhile (· ≠ '\n')).length

theorem behind_concat (before : List Char) (c : Char) :
    behind (before ++ [c]) = (behind before).advance c := by
  have bytes : (String.ofList (before ++ [c])).utf8ByteSize =
      (String.ofList before).utf8ByteSize + c.utf8Size := by simp
  unfold advance behind
  rw [bytes]
  by_cases newline : c = '\n'
  · simp [newline, Nat.add_assoc]
  · simp [newline, Nat.add_comm]

end Position

namespace Command

theorem ofChar?_eq_some_iff {c : Char} {symbol : Command} :
    ofChar? c = some symbol ↔ c = symbol.toChar := by
  constructor
  · intro h
    unfold ofChar? at h
    split at h <;> cases h <;> rfl
  · rintro rfl
    exact ofChar?_toChar symbol

theorem toChar_ne_open (symbol : Command) : symbol.toChar ≠ '[' := by
  cases symbol <;> decide

theorem toChar_ne_close (symbol : Command) : symbol.toChar ≠ ']' := by
  cases symbol <;> decide

end Command

namespace Tree

variable {cs : List Char} {p : Position} {frames : List OpenLoop} {current : List Node}

theorem parseFrom_open_full (full : frames.length = nestingLimit) :
    parseFrom ('[' :: cs) p frames current = .error (.tooDeep p nestingLimit) := by
  unfold parseFrom
  rw [if_pos rfl, if_pos full]

theorem parseFrom_open_room (room : frames.length ≠ nestingLimit) :
    parseFrom ('[' :: cs) p frames current =
      parseFrom cs (p.advance '[') (⟨p, current⟩ :: frames) [] := by
  conv => lhs; unfold parseFrom
  rw [if_pos rfl, if_neg room]

theorem parseFrom_close_stray :
    parseFrom (']' :: cs) p [] current = .error (.unopened p) := by
  simp [parseFrom]

theorem parseFrom_close (o : OpenLoop) :
    parseFrom (']' :: cs) p (o :: frames) current =
      parseFrom cs (p.advance ']') frames
        (.loop o.place (Node.assemble current .nil) :: o.before) := by
  simp [parseFrom]

theorem parseFrom_command (symbol : Command) :
    parseFrom (symbol.toChar :: cs) p frames current =
      parseFrom cs (p.advance symbol.toChar) frames (.command symbol p :: current) := by
  conv => lhs; unfold parseFrom
  rw [if_neg symbol.toChar_ne_open, if_neg symbol.toChar_ne_close, Command.ofChar?_toChar]

theorem parseFrom_comment {c : Char} (hopen : c ≠ '[') (hclose : c ≠ ']')
    (skipped : Command.ofChar? c = none) :
    parseFrom (c :: cs) p frames current = parseFrom cs (p.advance c) frames current := by
  conv => lhs; unfold parseFrom
  rw [if_neg hopen, if_neg hclose, skipped]

end Tree
end TapeCompiler
