import TapeCompiler.Proofs.Program.Binary

/-!
A binary form that was cut off is recognized as such. Bytes behind those that a reader has seen make
no difference to it, unless it came to their end (`Steady`): what it read stays read, and a kind that
it does not know stays unknown. So a reader that is content with a beginning of the bytes would take
the same from all of them, and no beginning holds the whole program.
-/

namespace TapeCompiler

namespace Binary

variable {α β : Type} {more : List UInt8}

/-- How a reader answers with `more` behind its bytes, compared with its answer without: it came to
the end of the bytes, or it answers the same and leaves `more` behind as well. -/
def Steady (more : List UInt8) (short long : Except DecodeError (α × List UInt8)) : Prop :=
  short = .error .endOfFile ∨ long = short.map fun x => (x.1, x.2 ++ more)

theorem Steady.bind {short long : Except DecodeError (α × List UInt8)}
    {next next' : α × List UInt8 → Except DecodeError (β × List UInt8)}
    (first : Steady more short long)
    (second : ∀ x rest, Steady more (next (x, rest)) (next' (x, rest ++ more))) :
    Steady more (short >>= next) (long >>= next') := by
  rcases first with rfl | rfl
  · exact .inl rfl
  · cases short with
    | error e => exact .inr rfl
    | ok x => exact second x.1 x.2

theorem steady_decodeNat (width : Nat) (bytes more : List UInt8) :
    Steady more (decodeNat width bytes) (decodeNat width (bytes ++ more)) := by
  induction width generalizing bytes with
  | zero => exact .inr rfl
  | succ width ih =>
    cases bytes with
    | nil => exact .inl rfl
    | cons b rest => exact (ih rest).bind fun _ _ => .inr rfl

theorem steady_decodeUnsigned (bytes more : List UInt8) :
    Steady more (decodeUnsigned bytes) (decodeUnsigned (bytes ++ more)) :=
  (steady_decodeNat 4 bytes more).bind fun _ _ => .inr rfl

theorem steady_decodeSigned (bytes more : List UInt8) :
    Steady more (decodeSigned bytes) (decodeSigned (bytes ++ more)) :=
  (steady_decodeUnsigned bytes more).bind fun _ _ => .inr rfl

end Binary

open Binary

theorem Op.steady_decodeFields (index : Nat) (bytes more : List UInt8) :
    Steady more (decodeFields index bytes) (decodeFields index (bytes ++ more)) := by
  unfold decodeFields
  split
  · exact (steady_decodeUnsigned _ _).bind fun _ _ => .inr rfl
  · exact (steady_decodeUnsigned _ _).bind fun _ _ => .inr rfl
  · exact (steady_decodeUnsigned _ _).bind fun _ _ =>
      (steady_decodeSigned _ _).bind fun _ _ => .inr rfl
  · exact (steady_decodeUnsigned _ _).bind fun _ _ =>
      (steady_decodeSigned _ _).bind fun _ _ => .inr rfl
  · exact (steady_decodeSigned _ _).bind fun _ _ =>
      (steady_decodeSigned _ _).bind fun _ _ => (steady_decodeSigned _ _).bind fun _ _ => .inr rfl
  · exact (steady_decodeSigned _ _).bind fun _ _ => .inr rfl
  · exact (steady_decodeSigned _ _).bind fun _ _ => .inr rfl
  · exact (steady_decodeSigned _ _).bind fun _ _ => .inr rfl
  · exact .inr rfl

namespace Program

variable {p : Program} {k : Nat}

/-- The fuel is as long as the bytes, so more bytes bring more of it. -/
theorem steady_decodeItems {fuel fuel' : Nat} (grows : fuel ≤ fuel') (n : Nat)
    (bytes more : List UInt8) :
    Steady more (decodeItems fuel n bytes) (decodeItems fuel' n (bytes ++ more)) := by
  induction fuel generalizing fuel' n bytes with
  | zero =>
    cases n with
    | zero =>
      rw [decodeItems_zero, decodeItems_zero]
      exact .inr rfl
    | succ n => exact .inl rfl
  | succ fuel ih =>
    obtain ⟨fuel', rfl⟩ : ∃ m, fuel' = m + 1 := ⟨fuel' - 1, by omega⟩
    have grows : fuel ≤ fuel' := by omega
    cases n with
    | zero => exact .inr rfl
    | succ n =>
      refine (steady_decodeNat 4 bytes more).bind fun index rest => ?_
      dsimp only
      split
      · refine (steady_decodeNat 8 rest more).bind fun inner rest => ?_
        refine (ih grows inner rest).bind fun body rest => ?_
        exact (ih grows n rest).bind fun next rest => .inr rfl
      · refine (Op.steady_decodeFields index rest more).bind fun o rest => ?_
        exact (ih grows n rest).bind fun next rest => .inr rfl

theorem decode_eq_map (bytes : List UInt8) :
    decode bytes =
      (decodeNat 8 bytes >>= fun x => decodeItems bytes.length x.1 x.2).map Prod.fst := by
  unfold decode
  cases decodeNat 8 bytes with
  | error e => rfl
  | ok x =>
    dsimp only [bind, Except.bind]
    cases decodeItems bytes.length x.1 x.2 <;> rfl

/-- What stands behind the bytes makes no difference, unless they end too early. -/
theorem decode_append (bytes more : List UInt8) :
    decode bytes = .error .endOfFile ∨ decode (bytes ++ more) = decode bytes := by
  have grows : bytes.length ≤ (bytes ++ more).length := by
    rw [List.length_append]
    omega
  have whole : Steady more
      (decodeNat 8 bytes >>= fun x => decodeItems bytes.length x.1 x.2)
      (decodeNat 8 (bytes ++ more) >>= fun x => decodeItems (bytes ++ more).length x.1 x.2) :=
    (steady_decodeNat 8 bytes more).bind fun n rest => steady_decodeItems grows n rest more
  rw [decode_eq_map, decode_eq_map]
  rcases whole with ended | same
  · rw [ended]
    exact .inl rfl
  · rw [same]
    cases decodeNat 8 bytes >>= fun x => decodeItems bytes.length x.1 x.2 with
    | error e => exact .inr rfl
    | ok x => exact .inr rfl

/-- A shorter beginning does not hold the whole program, so the reader comes to its end. -/
theorem decode_take (fits : p.LengthsFit) (short : k < p.encode.length) :
    decode (p.encode.take k) = .error .endOfFile := by
  rcases decode_append (p.encode.take k) (p.encode.drop k) with ended | same
  · exact ended
  · rw [List.take_append_drop, decode_eq_ok_iff.mpr ⟨fits, List.prefix_refl _⟩] at same
    have holds := (decode_eq_ok_iff.mp same.symm).2.length_le
    rw [List.length_take] at holds
    omega

/-- From the first `k` bytes of a binary form the program is read if these are all bytes. From any
fewer it is reported that they end too early, wherever the cut is. -/
theorem decoded_take (p : Program) (fits : p.LengthsFit) (k : Nat) :
    decoded (p.encode.take k) =
      if k < p.encode.length then .error (.encoding "io error: unexpected end of file")
      else .ok p := by
  by_cases short : k < p.encode.length
  · rw [if_pos short, decoded, decode_take fits short]
    rfl
  · have whole : decode p.encode = .ok p := decode_eq_ok_iff.mpr ⟨fits, List.prefix_refl _⟩
    rw [if_neg short, decoded, List.take_of_length_le (by omega), whole]

/-- Cuts within the length of the program, within the kind of the loop, within the length of its
body, behind that length, and within the last number. -/
theorem decoded_take_nested :
    let p := op (.add 1 0) (loop (op (.right 1) nil) nil)
    let ended : Except Error Program := .error (.encoding "io error: unexpected end of file")
    p.LengthsFit ∧ decoded (p.encode.take 3) = ended ∧ decoded (p.encode.take 22) = ended ∧
      decoded (p.encode.take 25) = ended ∧ decoded (p.encode.take 32) = ended ∧
      decoded (p.encode.take 39) = ended ∧ decoded (p.encode.take 40) = .ok p := by
  intro p ended
  have fits : p.LengthsFit := lengthsFit_of_count_lt (by decide)
  exact ⟨fits, decoded_take p fits 3, decoded_take p fits 22, decoded_take p fits 25,
    decoded_take p fits 32, decoded_take p fits 39, decoded_take p fits 40⟩

end Program
end TapeCompiler
