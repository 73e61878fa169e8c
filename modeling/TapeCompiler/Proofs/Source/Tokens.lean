import TapeCompiler.Proofs.Source.Scanning
import TapeCompiler.Proofs.Source.Spelling

/-!
A tree holds the commands and brackets of its text, all of them, once and in order, each at the
place where it stands. While a text is read, what was read is spread over the open loops and the
sequences in front of them: `readTokens` puts it together again.
-/

namespace TapeCompiler

namespace Token

/-- What the character at `p` stands for; nothing for a comment. -/
def read? (p : Position) (c : Char) : Option Token :=
  if c = '[' then some (.opened p)
  else if c = ']' then some .closed
  else (Command.ofChar? c).map (.command · p)

/-- What a numbered character of the text stands for. -/
def numbered? (cs : List Char) (x : Char × Nat) : Option Token :=
  read? (.behind (cs.take x.2)) x.1

/-- The commands and brackets of a text in order, each with its place. -/
def ofText (cs : List Char) : List Token :=
  cs.zipIdx.filterMap (numbered? cs)

variable {p : Position} {c : Char}

theorem read?_command (p : Position) (symbol : Command) :
    read? p symbol.toChar = some (.command symbol p) := by
  cases symbol <;> rfl

theorem read?_comment (hopen : c ≠ '[') (hclose : c ≠ ']') (skipped : Command.ofChar? c = none) :
    read? p c = none := by
  simp [read?, hopen, hclose, skipped]

theorem ofText_cons (before rest : List Char) :
    ((c :: rest).zipIdx before.length).filterMap (numbered? (before ++ c :: rest)) =
      (read? (.behind before) c).toList ++
        (rest.zipIdx (before ++ [c]).length).filterMap (numbered? ((before ++ [c]) ++ rest)) := by
  have regrouped : before ++ c :: rest = (before ++ [c]) ++ rest := by simp
  have first : numbered? (before ++ c :: rest) (c, before.length) = read? (.behind before) c := by
    rw [numbered?, List.take_left]
  rw [List.zipIdx_cons, List.filterMap_cons, first, List.length_append, List.length_singleton,
    ← regrouped]
  cases read? (.behind before) c <;> rfl

end Token

namespace Node

theorem tokens_cons (n : Node) (next : Tree) :
    (n.cons next).tokens = (n.cons .nil).tokens ++ next.tokens := by
  cases n with
  | command => rfl
  | loop p body => simp [cons, Tree.tokens]

theorem tokens_assemble (nodes : List Node) (next : Tree) :
    (assemble nodes next).tokens = (assemble nodes .nil).tokens ++ next.tokens := by
  induction nodes generalizing next with
  | nil => rfl
  | cons n earlier ih =>
    rw [assemble, assemble, ih, ih (n.cons .nil), tokens_cons, List.append_assoc]

end Node

namespace Tree

/-- The characters of the canonical source. -/
def text (t : Tree) : List Char := t.tokens.map Token.toChar

@[simp]
theorem text_command (symbol : Command) (p : Position) (next : Tree) :
    text (command symbol p next) = symbol.toChar :: next.text := rfl

@[simp]
theorem text_loop (p : Position) (body next : Tree) :
    text (loop p body next) = '[' :: (body.text ++ ']' :: next.text) := by
  simp [text, tokens, Token.toChar]

/-- The tokens of an unfinished text: the open loops, innermost first, and the current sequence. -/
def readTokens : List OpenLoop → List Node → List Token
  | [], current => (Node.assemble current .nil).tokens
  | o :: outer, current =>
    readTokens outer o.before ++ .opened o.place :: (Node.assemble current .nil).tokens

variable {before rest : List Char} {frames : List OpenLoop} {current : List Node} {t : Tree}

theorem readTokens_cons (frames : List OpenLoop) (n : Node) (current : List Node) :
    readTokens frames (n :: current) = readTokens frames current ++ (n.cons .nil).tokens := by
  have last : (Node.assemble (n :: current) .nil).tokens =
      (Node.assemble current .nil).tokens ++ (n.cons .nil).tokens :=
    Node.tokens_assemble current (n.cons .nil)
  cases frames with
  | nil => exact last
  | cons o outer => simp [readTokens, last]

theorem readTokens_enter (p : Position) :
    readTokens (⟨p, current⟩ :: frames) [] = readTokens frames current ++ [.opened p] := rfl

theorem readTokens_leave (o : OpenLoop) :
    readTokens frames (.loop o.place (Node.assemble current .nil) :: o.before) =
      readTokens (o :: frames) current ++ [.closed] := by
  rw [readTokens_cons]
  simp [readTokens, Node.cons, tokens]

/-- Nothing read is lost, doubled or moved, and the rest follows in order. -/
theorem tokens_parseFrom (h : parseFrom rest (.behind before) frames current = .ok t) :
    t.tokens = readTokens frames current ++
      (rest.zipIdx before.length).filterMap (Token.numbered? (before ++ rest)) := by
  induction rest generalizing before frames current with
  | nil =>
    cases frames with
    | nil =>
      obtain rfl := Except.ok.inj h
      simp [readTokens]
    | cons o outer => cases h
  | cons c rest ih =>
    rw [Token.ofText_cons]
    obtain ⟨rfl, on⟩ | ⟨rfl, o, outer, rfl, on⟩ | ⟨hopen, hclose, skipped, on⟩ |
      ⟨symbol, known, on⟩ := parseFrom_cons h
    · rw [← Position.behind_concat] at on
      rw [ih on, readTokens_enter, List.append_assoc]
      rfl
    · rw [← Position.behind_concat] at on
      rw [ih on, readTokens_leave, List.append_assoc]
      rfl
    · rw [← Position.behind_concat] at on
      rw [ih on, Token.read?_comment hopen hclose skipped]
      rfl
    · rw [← Position.behind_concat] at on
      obtain rfl := Command.ofChar?_eq_some_iff.mp known
      rw [ih on, readTokens_cons, List.append_assoc, Token.read?_command]
      rfl

end Tree

/-! ### The text without its comments -/

/-- The characters of the commands. -/
def Command.symbols : List Char := ['>', '<', '+', '-', '.', ',']

/-- The characters of the commands and the brackets. -/
def Token.symbols : List Char := Command.symbols ++ ['[', ']']

theorem Command.mem_symbols_iff {c : Char} : c ∈ symbols ↔ ∃ symbol : Command, c = symbol.toChar := by
  constructor
  · intro listed
    have known : c = '>' ∨ c = '<' ∨ c = '+' ∨ c = '-' ∨ c = '.' ∨ c = ',' := by
      simpa [symbols] using listed
    rcases known with rfl | rfl | rfl | rfl | rfl | rfl
    · exact ⟨.right, rfl⟩
    · exact ⟨.left, rfl⟩
    · exact ⟨.increment, rfl⟩
    · exact ⟨.decrement, rfl⟩
    · exact ⟨.output, rfl⟩
    · exact ⟨.input, rfl⟩
  · rintro ⟨symbol, rfl⟩
    cases symbol <;> decide

namespace Token

theorem mem_symbols_iff {c : Char} : c ∈ symbols ↔ c ∈ Command.symbols ∨ c = '[' ∨ c = ']' := by
  simp [symbols]

theorem countP_filter_symbols (cs : List Char) :
    (cs.filter (· ∈ symbols)).countP (· ∈ Command.symbols) = cs.countP (· ∈ Command.symbols) := by
  rw [List.countP_filter]
  congr 1
  funext c
  by_cases command : c ∈ Command.symbols
  · have listed : c ∈ symbols := mem_symbols_iff.mpr (.inl command)
    simp [command, listed]
  · simp [command]

theorem toChar_read? (p : Position) (c : Char) :
    (read? p c).map toChar = Option.guard (· ∈ symbols) c := by
  by_cases hopen : c = '['
  · subst hopen
    rfl
  · by_cases hclose : c = ']'
    · subst hclose
      rfl
    · by_cases command : c ∈ Command.symbols
      · have listed : c ∈ symbols := mem_symbols_iff.mpr (.inl command)
        obtain ⟨symbol, rfl⟩ := Command.mem_symbols_iff.mp command
        rw [read?_command]
        simp [Option.guard, listed, toChar]
      · have unlisted : c ∉ symbols := by simp [mem_symbols_iff, command, hopen, hclose]
        cases known : Command.ofChar? c with
        | none =>
          rw [read?_comment hopen hclose known]
          simp [Option.guard, unlisted]
        | some symbol =>
          have spelled := Command.ofChar?_eq_some_iff.mp known
          exact absurd (Command.mem_symbols_iff.mpr ⟨symbol, spelled⟩) command

theorem toChar_ofText (cs : List Char) : (ofText cs).map toChar = cs.filter (· ∈ symbols) := by
  have each : (fun x : Char × Nat => (numbered? cs x).map toChar) =
      Option.guard (· ∈ symbols) ∘ Prod.fst := by
    funext x
    exact toChar_read? _ x.1
  rw [ofText, List.map_filterMap, each, ← List.filterMap_map, List.zipIdx_map_fst,
    List.filterMap_eq_filter]

end Token

namespace Tree

theorem nodeCount_eq_count (t : Tree) :
    t.nodeCount = t.text.countP (· ∈ Command.symbols) + t.text.count '[' := by
  induction t with
  | nil => rfl
  | command symbol p next ih =>
    have listed : symbol.toChar ∈ Command.symbols := Command.mem_symbols_iff.mpr ⟨symbol, rfl⟩
    simp only [nodeCount, text_command, List.countP_cons, List.count_cons, ih, listed,
      symbol.toChar_ne_open, beq_iff_eq, decide_true, if_true, if_false]
    omega
  | loop p body next ihBody ihNext =>
    have opening : '[' ∉ Command.symbols := by decide
    have closing : ']' ∉ Command.symbols := by decide
    simp [nodeCount, ihBody, ihNext, opening, closing]
    omega

theorem tokens_parse {source : String} (h : parse source = .ok t) :
    t.tokens = Token.ofText source.toList :=
  @tokens_parseFrom [] source.toList [] [] t h

/-- Reading keeps every command and bracket of the text, in order and at its place: byte, line and
column. So printing the tree leaves out the comments and nothing else, and its nodes are the commands
and the opening brackets. -/
theorem parse_faithful (source : String) (t : Tree) (h : parse source = .ok t) :
    t.tokens = Token.ofText source.toList ∧
    t.render = String.ofList (source.toList.filter (· ∈ Token.symbols)) ∧
    t.nodeCount = source.toList.countP (· ∈ Command.symbols) + source.toList.count '[' := by
  have all := tokens_parse h
  have printed : t.text = source.toList.filter (· ∈ Token.symbols) := by
    rw [text, all, Token.toChar_ofText]
  refine ⟨all, ?_, ?_⟩
  · exact congrArg String.ofList printed
  · rw [nodeCount_eq_count, printed, Token.countP_filter_symbols, List.count_filter (by decide)]

example : Token.ofText "é+\n [é-]".toList =
    [.command .increment ⟨2, 1, 2⟩, .opened ⟨5, 2, 2⟩, .command .decrement ⟨8, 2, 4⟩, .closed] := by
  decide +kernel

/-- Two bytes to a letter, two lines, a comment inside the loop. -/
theorem parse_faithful_accents :
    let source := "é+\n [é-]"
    ∃ t, parse source = .ok t ∧ t.tokens = Token.ofText source.toList ∧
      t.render = String.ofList (source.toList.filter (· ∈ Token.symbols)) ∧
      t.nodeCount = source.toList.countP (· ∈ Command.symbols) + source.toList.count '[' :=
  ⟨_, rfl, parse_faithful _ _ rfl⟩

end Tree
end TapeCompiler
