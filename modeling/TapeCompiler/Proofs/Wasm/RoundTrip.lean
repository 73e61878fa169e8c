import TapeCompiler.Proofs.Wasm.Reading
import TapeCompiler.Wasm.Accept

/-!
A module is read back from its binary form, and nothing is left over, if it has less than
`2 ^ 32` bytes and its numbers fit into 32 bits. Sections are read one after another, so what stands
before the code (`Module.front`) is read whatever the code is; a code section that 32 bits cannot
count is not read at all (`decode?_encode_code`).
-/

namespace TapeCompiler.Wasm

namespace Decode

/-- Reading `bytes` as the section `id`, if there is one, takes `m` to `m'`. -/
def Fills (id : UInt8) (bytes : List UInt8) (m m' : Module) : Prop :=
  bytes = [] ∧ m' = m ∨ ∃ payload, bytes = Encode.framed id payload ∧ fill id payload m = some m'

/-- Sections after the one numbered `last` and up to the one numbered `top`, in ascending order,
take `m` to `m'`. -/
inductive FillsAll : UInt8 → List UInt8 → Module → UInt8 → Module → Prop where
  | nil {last : UInt8} {m : Module} : FillsAll last [] m last m
  | cons {last id top : UInt8} {bytes rest : List UInt8} {m m' m'' : Module} (order : last < id)
      (first : Fills id bytes m m') (others : FillsAll id rest m' top m'') :
      FillsAll last (bytes ++ rest) m top m''

theorem sections_framed {id last : UInt8} {payload rest : List UInt8} {m m' : Module}
    (filled : fill id payload m = some m') (order : last < id)
    (counted : payload.length < 4294967296) (fuel : Nat) :
    sections (fuel + 1) last m (Encode.framed id payload ++ rest) = sections fuel id m' rest := by
  have read := reads_sized counted rest
  have positive : id ≠ 0 := by
    rintro rfl
    exact absurd order (by simp)
  simp [Encode.framed, sections, read, filled, positive, order]

theorem sections_framed_none {id last : UInt8} {payload rest : List UInt8} {m : Module}
    (long : 4294967296 ≤ payload.length) (fuel : Nat) :
    sections (fuel + 1) last m (Encode.framed id payload ++ rest) = none := by
  simp [Encode.framed, sections, sized_none long rest]

theorem length_lt_framed (id : UInt8) (payload : List UInt8) :
    payload.length < (Encode.framed id payload).length :=
  Nat.lt_succ_of_le (length_le_sized payload)

/-- Reading goes through the sections and on to what follows them. -/
theorem FillsAll.sections_append {last last' top : UInt8} {bytes : List UInt8} {m m' : Module}
    {fuel : Nat} (h : FillsAll last bytes m top m') (behind : last' ≤ last)
    (small : bytes.length < 4294967296) (enough : bytes.length ≤ fuel) (rest : List UInt8) :
    ∃ fuel' last'', last'' ≤ top ∧ fuel ≤ fuel' + bytes.length ∧
      sections fuel last' m (bytes ++ rest) = sections fuel' last'' m' rest := by
  induction h generalizing last' fuel with
  | nil => exact ⟨fuel, last', behind, Nat.le_refl _, rfl⟩
  | @cons _ id _ _ _ _ _ _ order first _ ih =>
    rw [List.length_append] at small enough
    rw [List.append_assoc, List.length_append]
    have before := UInt8.lt_of_le_of_lt behind order
    obtain ⟨rfl, rfl⟩ | ⟨payload, rfl, filled⟩ := first
    · obtain ⟨fuel', last'', bound, left, read⟩ :=
        ih (UInt8.le_of_lt before) (by omega) (show _ ≤ fuel by omega)
      exact ⟨fuel', last'', bound, by omega, read⟩
    · have shorter := length_lt_framed id payload
      obtain ⟨fuel, rfl⟩ : ∃ k, fuel = k + 1 := ⟨fuel - 1, by omega⟩
      obtain ⟨fuel', last'', bound, left, read⟩ :=
        ih (UInt8.le_refl _) (by omega) (show _ ≤ fuel by omega)
      refine ⟨fuel', last'', bound, by omega, ?_⟩
      rw [sections_framed filled before (by omega), read]

variable {α : Type} {item : Reader α} {write : α → List UInt8} {xs : List α} {m m' : Module}

theorem fills_list {id : UInt8} (small : (Encode.listSection id write xs).length < 4294967296)
    (nonempty : ∀ x, write x ≠ [])
    (h : ∀ x ∈ xs, (write x).length < 4294967296 → Reads item (write x) x)
    (empty : xs = [] → m' = m)
    (filled : ∀ payload, whole (vector item) payload = some xs → fill id payload m = some m') :
    Fills id (Encode.listSection id write xs) m m' := by
  cases xs with
  | nil => exact .inl ⟨rfl, empty rfl⟩
  | cons x xs =>
    refine .inr ⟨_, rfl, filled _ (Reads.whole (reads_vector ?_ (fun x _ => nonempty x) h))⟩
    simp [Encode.listSection, Encode.framed, Encode.sized] at small
    omega

end Decode

namespace Module

open Decode Encode

theorem limits_ne_nil (l : Limits) : Encode.limits l ≠ [] := by
  unfold Encode.limits
  split <;> simp

theorem fills_start {start : Option Nat} {bytes : List UInt8} {m : Module}
    (written : bytes = match start with
      | none => []
      | some f => framed 8 (Leb128.encode f))
    (fits : ∀ f ∈ start, f < 4294967296) (unset : m.start = none) :
    Fills 8 bytes m { m with start } := by
  cases start with
  | none => exact .inl ⟨written, by rw [← unset]⟩
  | some f =>
    refine .inr ⟨_, written, ?_⟩
    simp [fill, Reads.whole (reads_leb128 (fits f rfl))]

/-- The sections before the code. -/
def front (m : Module) : List UInt8 :=
  listSection 1 Encode.funcType m.types ++
    (listSection 2 Encode.importEntry m.imports ++
    (listSection 3 Leb128.encode m.functions ++
    (listSection 5 Encode.limits m.memories ++
    (listSection 6 Encode.globalEntry m.globals ++
    (listSection 7 Encode.exportEntry m.exports ++
    (match m.start with
      | none => []
      | some f => framed 8 (Leb128.encode f)))))))

theorem encode_eq_front (m : Module) :
    m.encode = header ++ (m.front ++ listSection 10 Encode.body m.bodies) := by
  cases start : m.start with
  | none => simp only [encode, front, start, List.append_assoc]
  | some f => simp only [encode, front, start, List.append_assoc]

/-- Section by section, all of the module but its code is put together. -/
theorem fillsAll_front {m : Module} (fits : m.Fits) (small : m.front.length < 4294967296) :
    FillsAll 0 m.front {} 8 { m with bodies := [] } := by
  obtain ⟨types, imports, functions, memories, globals, exports, start, bodies⟩ := m
  obtain ⟨fitImports, fitFunctions, fitMemories, fitExports, fitStart, _⟩ := fits
  simp only [front, List.length_append] at small
  have hTypes : Fills 1 (listSection 1 Encode.funcType types) {} { types } :=
    fills_list (by omega) (fun _ => by simp [Encode.funcType]) (fun _ _ => reads_funcType)
      (by rintro rfl; rfl) (by intro payload read; simp [fill, read])
  have hImports : Fills 2 (listSection 2 Encode.importEntry imports) _ { types, imports } :=
    fills_list (by omega) (fun _ => by simp [Encode.importEntry])
      (fun i hi short => reads_importEntry short (fitImports i hi))
      (by rintro rfl; rfl) (by intro payload read; simp [fill, read])
  have hFunctions : Fills 3 (listSection 3 Leb128.encode functions) _
      { types, imports, functions } :=
    fills_list (by omega) Leb128.encode_ne_nil (fun f hf _ => reads_leb128 (fitFunctions f hf))
      (by rintro rfl; rfl) (by intro payload read; simp [fill, read])
  have hMemories : Fills 5 (listSection 5 Encode.limits memories) _
      { types, imports, functions, memories } :=
    fills_list (by omega) limits_ne_nil (fun l hl _ => reads_limits (fitMemories l hl))
      (by rintro rfl; rfl) (by intro payload read; simp [fill, read])
  have hGlobals : Fills 6 (listSection 6 Encode.globalEntry globals) _
      { types, imports, functions, memories, globals } :=
    fills_list (by omega) (fun _ => by simp [Encode.globalEntry])
      (fun g _ _ => reads_globalEntry g)
      (by rintro rfl; rfl) (by intro payload read; simp [fill, read])
  have hExports : Fills 7 (listSection 7 Encode.exportEntry exports) _
      { types, imports, functions, memories, globals, exports } :=
    fills_list (by omega) (fun _ => by simp [Encode.exportEntry])
      (fun e he short => reads_exportEntry short (fitExports e he))
      (by rintro rfl; rfl) (by intro payload read; simp [fill, read])
  have hStart : Fills 8 _ { types, imports, functions, memories, globals, exports }
      { types, imports, functions, memories, globals, exports, start } :=
    fills_start rfl fitStart rfl
  refine .cons (by decide) hTypes <| .cons (by decide) hImports <|
    .cons (by decide) hFunctions <| .cons (by decide) hMemories <| .cons (by decide) hGlobals <|
    .cons (by decide) hExports ?_
  rw [← List.append_nil (match start with
    | none => []
    | some f => framed 8 (Leb128.encode f))]
  exact .cons (by decide) hStart .nil

theorem fill_bodies {m : Module} (fits : m.Fits)
    (small : (Encode.vector Encode.body m.bodies).length < 4294967296) :
    fill 10 (Encode.vector Encode.body m.bodies) { m with bodies := [] } = some m := by
  have nonempty : ∀ b ∈ m.bodies, Encode.body b ≠ [] := by
    intro b _
    simp [Encode.body, Encode.sized, Leb128.encode_ne_nil]
  have read : whole (vector body) (Encode.vector Encode.body m.bodies) = some m.bodies :=
    (reads_vector small nonempty fun b hb short => reads_body (fits.bodies b hb) short).whole
  simp [fill, read]

/-- Reading comes to the code with all else read. -/
theorem decode?_encode_front {m : Module} (fits : m.Fits) (small : m.front.length < 4294967296) :
    ∃ fuel last, last ≤ 8 ∧ (listSection 10 Encode.body m.bodies).length ≤ fuel ∧
      decode? m.encode =
        sections fuel last { m with bodies := [] } (listSection 10 Encode.body m.bodies) := by
  let code := listSection 10 Encode.body m.bodies
  have start : take 8 (header ++ (m.front ++ code)) = some (header, m.front ++ code) :=
    reads_take header _
  have enough : m.front.length ≤ (m.front ++ code).length := by
    rw [List.length_append]
    exact Nat.le_add_right _ _
  obtain ⟨fuel, last, bound, left, read⟩ :=
    (fillsAll_front fits small).sections_append (UInt8.le_refl 0) small enough code
  refine ⟨fuel, last, bound, ?_, ?_⟩
  · rw [List.length_append] at left
    show code.length ≤ fuel
    omega
  · simp only [decode?, encode_eq_front]
    show (take 8 (header ++ (m.front ++ code))).bind _ = _
    rw [start]
    exact read

theorem sections_nil (fuel : Nat) (last : UInt8) (m : Module) :
    sections fuel last m [] = some m := by
  cases fuel <;> rfl

/-- A module with code is read back if 32 bits can count the code, and not read otherwise. -/
theorem decode?_encode_code {m : Module} (fits : m.Fits) (small : m.front.length < 4294967296)
    (coded : m.bodies ≠ []) :
    decode? m.encode =
      if (Encode.vector Encode.body m.bodies).length < 4294967296 then some m else none := by
  obtain ⟨fuel, last, bound, enough, read⟩ := decode?_encode_front fits small
  have order : last < 10 := UInt8.lt_of_le_of_lt bound (by decide)
  have code : listSection 10 Encode.body m.bodies =
      framed 10 (Encode.vector Encode.body m.bodies) ++ [] := by
    rw [List.append_nil, listSection, if_neg (by simpa using coded)]
  rw [code] at enough read
  obtain ⟨fuel, rfl⟩ : ∃ k, fuel = k + 1 := by
    simp only [framed, List.cons_append, List.length_cons] at enough
    exact ⟨fuel - 1, by omega⟩
  rw [read]
  split
  · rename_i counted
    rw [sections_framed (fill_bodies fits counted) order counted, sections_nil]
  · rename_i long
    exact sections_framed_none (Nat.not_lt.mp long) fuel

/-- A module is read back from its binary form. -/
theorem decode?_encode {m : Module} (fits : m.Fits) (small : m.encode.length < 4294967296) :
    decode? m.encode = some m := by
  rw [encode_eq_front, List.length_append, List.length_append] at small
  have front : m.front.length < 4294967296 := by omega
  by_cases coded : m.bodies = []
  · obtain ⟨fuel, last, _, _, read⟩ := decode?_encode_front fits front
    obtain ⟨types, imports, functions, memories, globals, exports, start, bodies⟩ := m
    obtain rfl : bodies = [] := coded
    exact read.trans (sections_nil fuel last _)
  · have shorter := length_lt_framed 10 (Encode.vector Encode.body m.bodies)
    rw [listSection, if_neg (by simpa using coded)] at small
    rw [decode?_encode_code fits front coded, if_pos (by omega)]

end Module
end TapeCompiler.Wasm
