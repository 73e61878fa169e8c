import TapeCompiler.Program.Basic
import TapeCompiler.Proofs.Source.Tokens

/-!
A printed tree reads back as the same tree, with the places of the printed text, unless it nests too
deep. A printed part is read in the middle of any open loops: with room for its depth it becomes
nodes of the current sequence, and without it the reading stops.
-/

namespace TapeCompiler

theorem Node.assemble_append (later earlier : List Node) (next : Tree) :
    assemble (later ++ earlier) next = assemble earlier (assemble later next) := by
  induction later generalizing next with
  | nil => rfl
  | cons n later ih => exact ih (n.cons next)

namespace Tree

/-- The tree with all places forgotten. -/
def unplaced : Tree → Tree
  | nil => nil
  | command c _ next => command c .start next.unplaced
  | loop _ body next => loop .start body.unplaced next.unplaced

theorem ofTree_unplaced (t : Tree) : Program.ofTree t.unplaced = Program.ofTree t := by
  induction t with
  | nil => rfl
  | command c _ next ih => rw [unplaced, Program.ofTree, Program.ofTree, ih]
  | loop _ body next ihBody ihNext =>
    rw [unplaced, Program.ofTree, Program.ofTree, ihBody, ihNext]

/-- With room for its depth, a printed part becomes the nodes of the same tree. -/
theorem parseFrom_text (t : Tree) (rest : List Char) (p : Position) (frames : List OpenLoop)
    (current : List Node) (room : frames.length + t.depth ≤ nestingLimit) :
    ∃ nodes q, (Node.assemble nodes .nil).unplaced = t.unplaced ∧
      parseFrom (t.text ++ rest) p frames current = parseFrom rest q frames (nodes ++ current) := by
  induction t generalizing rest p frames current with
  | nil => exact ⟨[], p, rfl, rfl⟩
  | command symbol _ next ih =>
    obtain ⟨nodes, q, same, reads⟩ := ih rest (p.advance symbol.toChar) frames
      (.command symbol p :: current) room
    refine ⟨nodes ++ [.command symbol p], q, ?_, ?_⟩
    · rw [Node.assemble_append]
      exact congrArg (command symbol .start) same
    · rw [text_command, List.cons_append, parseFrom_command, reads, List.append_assoc]
      rfl
  | loop _ body next ihBody ihNext =>
    simp only [depth] at room
    have free : frames.length ≠ nestingLimit := by omega
    -- The body is read as a sequence of its own, one loop deeper.
    obtain ⟨inner, q, sameBody, readsBody⟩ := ihBody (']' :: (next.text ++ rest)) (p.advance '[')
      (⟨p, current⟩ :: frames) [] (by rw [List.length_cons]; omega)
    obtain ⟨nodes, r, sameNext, readsNext⟩ := ihNext rest (q.advance ']') frames
      (.loop p (Node.assemble inner .nil) :: current) (by omega)
    refine ⟨nodes ++ [.loop p (Node.assemble inner .nil)], r, ?_, ?_⟩
    · rw [Node.assemble_append, unplaced, ← sameBody, ← sameNext]
      rfl
    · rw [text_loop, List.cons_append, List.append_assoc, List.cons_append,
        parseFrom_open_room free, readsBody, parseFrom_close, List.append_nil, readsNext,
        List.append_assoc]
      rfl

/-- Without room for its depth, a printed part is not read to its end. -/
theorem parseFrom_text_tooDeep (t : Tree) (rest : List Char) (p : Position)
    (frames : List OpenLoop) (current : List Node) (below : frames.length ≤ nestingLimit)
    (deep : nestingLimit < frames.length + t.depth) :
    ∃ q, parseFrom (t.text ++ rest) p frames current = .error (.tooDeep q nestingLimit) := by
  induction t generalizing rest p frames current with
  | nil =>
    simp only [depth] at deep
    omega
  | command symbol _ next ih =>
    rw [text_command, List.cons_append, parseFrom_command]
    exact ih rest _ frames _ below deep
  | loop _ body next ihBody ihNext =>
    rw [text_loop, List.cons_append, List.append_assoc, List.cons_append]
    by_cases full : frames.length = nestingLimit
    · exact ⟨p, parseFrom_open_full full⟩
    · rw [parseFrom_open_room full]
      simp only [depth] at deep
      by_cases inside : nestingLimit < frames.length + 1 + body.depth
      · exact ihBody _ _ _ _ (by rw [List.length_cons]; omega) inside
      · obtain ⟨inner, q, _, readsBody⟩ := parseFrom_text body (']' :: (next.text ++ rest))
          (p.advance '[') (⟨p, current⟩ :: frames) [] (by rw [List.length_cons]; omega)
        rw [readsBody, parseFrom_close]
        exact ihNext rest _ frames _ below (by omega)

/-- A printed tree whose loops nest at most 512 deep reads back as the same tree, places apart, and
gives the same program. One that nests deeper is refused for that. -/
theorem parse_render (t : Tree) :
    (t.depth ≤ 512 → ∃ t', parse t.render = .ok t' ∧ t'.unplaced = t.unplaced ∧
      Program.ofTree t' = Program.ofTree t) ∧
    (512 < t.depth → ∃ p, parse t.render = .error (.tooDeep p 512)) := by
  have printed : t.render.toList = t.text ++ [] := by
    rw [List.append_nil]
    exact String.toList_ofList
  constructor
  · intro shallow
    obtain ⟨nodes, q, same, reads⟩ := parseFrom_text t [] .start [] []
      (by rw [List.length_nil, Nat.zero_add]; exact shallow)
    refine ⟨Node.assemble nodes .nil, ?_, same, ?_⟩
    · rw [parse, printed, reads, List.append_nil]
      rfl
    · rw [← ofTree_unplaced, same, ofTree_unplaced]
  · intro deep
    obtain ⟨q, fails⟩ := parseFrom_text_tooDeep t [] .start [] [] (Nat.zero_le _)
      (by rw [List.length_nil, Nat.zero_add]; exact deep)
    refine ⟨q, ?_⟩
    rw [parse, printed, fails]
    rfl

/-- Loops around nothing, as deep as allowed and one deeper. -/
theorem parse_render_limits :
    let nested (n : Nat) : Tree := n.repeat (fun t => .loop ⟨7, 7, 7⟩ t .nil) .nil
    (nested 512).depth ≤ 512 ∧
      (∃ t, parse (nested 512).render = .ok t ∧ t.unplaced = (nested 512).unplaced ∧
        Program.ofTree t = Program.ofTree (nested 512)) ∧
      512 < (nested 513).depth ∧ ∃ p, parse (nested 513).render = .error (.tooDeep p 512) := by
  intro nested
  have shallow : (nested 512).depth ≤ 512 := by decide +kernel
  have deep : 512 < (nested 513).depth := by decide +kernel
  exact ⟨shallow, (parse_render (nested 512)).1 shallow, deep, (parse_render (nested 513)).2 deep⟩

end Tree
end TapeCompiler
