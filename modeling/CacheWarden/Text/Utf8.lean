/-!
UTF-8: the bytes of a text, and the texts that bytes stand for.  Decoding takes
one character at a time off the front and refuses overlong forms, surrogates and
values above the last code point, so each character has one spelling.
-/

namespace CacheWarden.Text

/-- The bytes of a text. -/
def utf8 (cs : List Char) : List UInt8 :=
  cs.flatMap String.utf8EncodeChar

/-- The six payload bits of a continuation byte. -/
def continuation? (b : UInt8) : Option Nat :=
  if 0x80 ≤ b.toNat ∧ b.toNat < 0xC0 then some (b.toNat - 0x80) else none

/-- The character with a code point, if it is one and not below the bound. -/
def charFrom? (bound n : Nat) : Option Char :=
  if h : n.isValidChar then if bound ≤ n then some (Char.ofNatAux n h) else none else none

/-- Takes one character off the front of some bytes. -/
def decodeChar? : List UInt8 → Option (Char × List UInt8)
  | [] => none
  | b :: rest =>
    let n := b.toNat
    if n < 0x80 then (charFrom? 0 n).map (·, rest)
    else if n < 0xC0 then none
    else if n < 0xE0 then
      match rest with
      | b₁ :: rest => do
        let x ← continuation? b₁
        let c ← charFrom? 0x80 ((n - 0xC0) * 64 + x)
        pure (c, rest)
      | _ => none
    else if n < 0xF0 then
      match rest with
      | b₁ :: b₂ :: rest => do
        let x ← continuation? b₁
        let y ← continuation? b₂
        let c ← charFrom? 0x800 ((n - 0xE0) * 4096 + x * 64 + y)
        pure (c, rest)
      | _ => none
    else if n < 0xF8 then
      match rest with
      | b₁ :: b₂ :: b₃ :: rest => do
        let x ← continuation? b₁
        let y ← continuation? b₂
        let z ← continuation? b₃
        let c ← charFrom? 0x10000 ((n - 0xF0) * 262144 + x * 4096 + y * 64 + z)
        pure (c, rest)
      | _ => none
    else none

/-- Taking a character off leaves fewer bytes. -/
theorem length_of_decodeChar? {bytes rest : List UInt8} {c : Char}
    (h : decodeChar? bytes = some (c, rest)) : rest.length < bytes.length := by
  unfold decodeChar? at h
  split at h
  · simp at h
  · rename_i b tail
    dsimp only at h
    split at h
    · simp only [Option.map_eq_some_iff, Prod.mk.injEq] at h
      obtain ⟨_, _, _, rfl⟩ := h
      simp
    · split at h
      · simp at h
      · split at h
        · split at h
          · simp only [Option.bind_eq_bind, Option.bind_eq_some_iff, Option.pure_def,
              Option.some.injEq, Prod.mk.injEq] at h
            obtain ⟨_, _, _, _, _, rfl⟩ := h
            simp only [List.length_cons]; omega
          · simp at h
        · split at h
          · split at h
            · simp only [Option.bind_eq_bind, Option.bind_eq_some_iff, Option.pure_def,
                Option.some.injEq, Prod.mk.injEq] at h
              obtain ⟨_, _, _, _, _, _, _, rfl⟩ := h
              simp only [List.length_cons]; omega
            · simp at h
          · split at h
            · split at h
              · simp only [Option.bind_eq_bind, Option.bind_eq_some_iff, Option.pure_def,
                  Option.some.injEq, Prod.mk.injEq] at h
                obtain ⟨_, _, _, _, _, _, _, _, _, rfl⟩ := h
                simp only [List.length_cons]; omega
              · simp at h
            · simp at h

/-- The characters that bytes stand for; `none` unless all of them are UTF-8. -/
def decode? : List UInt8 → Option (List Char)
  | [] => some []
  | b :: tail =>
    match _h : decodeChar? (b :: tail) with
    | none => none
    | some (c, rest) => (decode? rest).map (c :: ·)
termination_by bytes => bytes.length
decreasing_by exact length_of_decodeChar? ‹_›

end CacheWarden.Text
