import CacheWarden.Json.Reader
import CacheWarden.Proofs.Json.Grammar
import CacheWarden.Proofs.Text.Utf8
import CacheWarden.Stop
/-!
The readers of single bytes, and of what is a few bytes long, against the grammar:
white space, digits, code units and words.  Each takes exactly what the grammar has
there.
-/

namespace CacheWarden.Json

open Text

/-! ### White space -/

theorem isSpace_iff {b : UInt8} :
    isSpace b = true ↔ b = 0x20 ∨ b = 0x09 ∨ b = 0x0A ∨ b = 0x0D := by
  simp only [isSpace, Bool.or_eq_true, beq_iff_eq]
  tauto

theorem space_nil : Space [] := fun _ h => absurd h List.not_mem_nil

/-- White space is skipped. -/
theorem skipSpace_append {ws : List UInt8} (h : Space ws) (bytes : List UInt8) :
    skipSpace (ws ++ bytes) = skipSpace bytes := by
  unfold skipSpace
  rw [List.dropWhile_append_of_pos]
  intro b hb
  exact isSpace_iff.mpr (h b hb)

/-- Nothing else is skipped. -/
theorem skipSpace_cons {b : UInt8} (h : isSpace b = false) (rest : List UInt8) :
    skipSpace (b :: rest) = b :: rest := by
  unfold skipSpace
  rw [List.dropWhile_cons_of_neg (by simp [h])]

/-- What is skipped is white space. -/
theorem exists_space (bytes : List UInt8) : ∃ ws, Space ws ∧ bytes = ws ++ skipSpace bytes := by
  refine ⟨bytes.takeWhile isSpace, ?_, (List.takeWhile_append_dropWhile).symm⟩
  intro b hb
  exact isSpace_iff.mp (List.mem_takeWhile_imp hb)

/-! ### Digits -/

theorem digit?_eq_some_iff {b : UInt8} {d : Nat} :
    digit? b = some d ↔ d < 10 ∧ b = UInt8.ofNat (0x30 + d) := by
  unfold digit?
  constructor
  · intro h
    split at h
    · have hd := Option.some.inj h
      exact ⟨by omega, (ofNat_eq_of_toNat (by omega)).symm⟩
    · cases h
  · rintro ⟨hd, rfl⟩
    rw [toNat_ofNat_of_lt (by omega), if_pos (by omega), Nat.add_sub_cancel_left]

/-- The next byte is no decimal digit. -/
def NoDigit (bytes : List UInt8) : Prop := ∀ b ∈ bytes.head?, digit? b = none

@[simp] theorem digitsText_nil : digitsText [] = [] := rfl

@[simp] theorem digitsText_cons (d : Nat) (ds : List Nat) :
    digitsText (d :: ds) = UInt8.ofNat (0x30 + d) :: digitsText ds := rfl

/-- Some digits, and behind them no digit. -/
theorem exists_digits (bytes : List UInt8) :
    ∃ ds, (∀ d ∈ ds, d < 10) ∧ bytes = digitsText ds ++ skipDigits bytes := by
  induction bytes with
  | nil => exact ⟨[], by simp, rfl⟩
  | cons b rest ih =>
    rcases h : digit? b with - | d
    · exact ⟨[], by simp, by simp [skipDigits, h]⟩
    · obtain ⟨ds, hds, hrest⟩ := ih
      obtain ⟨hd, rfl⟩ := digit?_eq_some_iff.mp h
      refine ⟨d :: ds, ?_, ?_⟩
      · rintro e he
        rcases List.mem_cons.mp he with rfl | he
        · exact hd
        · exact hds e he
      · have hskip : skipDigits (UInt8.ofNat (0x30 + d) :: rest) = skipDigits rest :=
          List.dropWhile_cons_of_pos (by rw [h]; rfl)
        rw [hskip, digitsText_cons, List.cons_append, ← hrest]

theorem hexDigit?_eq_some_iff {b : UInt8} {n : Nat} : hexDigit? b = some n ↔ HexDigit b n := by
  unfold hexDigit?
  dsimp only
  constructor
  · intro h
    split at h
    · have hn := Option.some.inj h
      rw [← ofNat_eq_of_toNat (b := b) (n := 0x30 + n) (by omega)]
      exact .digit (by omega)
    · split at h
      · have hn := Option.some.inj h
        rw [← ofNat_eq_of_toNat (b := b) (n := 0x57 + n) (by omega)]
        exact .lower (by omega) (by omega)
      · split at h
        · have hn := Option.some.inj h
          rw [← ofNat_eq_of_toNat (b := b) (n := 0x37 + n) (by omega)]
          exact .upper (by omega) (by omega)
        · cases h
  · rintro (hn | ⟨hn, hn'⟩ | ⟨hn, hn'⟩)
    · rw [toNat_ofNat_of_lt (by omega), if_pos (by omega), Nat.add_sub_cancel_left]
    · rw [toNat_ofNat_of_lt (by omega), if_neg (by omega), if_pos (by omega),
        Nat.add_sub_cancel_left]
    · rw [toNat_ofNat_of_lt (by omega), if_neg (by omega), if_neg (by omega), if_pos (by omega),
        Nat.add_sub_cancel_left]

/-! ### Code units -/

theorem readUnit_append {u : List UInt8} {n : Nat} (h : CodeUnit u n) (rest : List UInt8) :
    readUnit (u ++ rest) = .ok (n, rest) := by
  obtain ⟨ha, hb, hc, hd⟩ := h
  show readUnit (_ :: _ :: _ :: _ :: rest) = _
  unfold readUnit
  simp only [hexDigit?_eq_some_iff.mpr ha, hexDigit?_eq_some_iff.mpr hb,
    hexDigit?_eq_some_iff.mpr hc, hexDigit?_eq_some_iff.mpr hd]

theorem codeUnit_of_readUnit {bytes rest : List UInt8} {n : Nat}
    (h : readUnit bytes = .ok (n, rest)) : ∃ u, CodeUnit u n ∧ bytes = u ++ rest := by
  unfold readUnit at h
  split at h
  · rename_i a b c d tail
    split at h
    · rename_i w x y z hw hx hy hz
      cases h
      exact ⟨[a, b, c, d], .mk (hexDigit?_eq_some_iff.mp hw) (hexDigit?_eq_some_iff.mp hx)
        (hexDigit?_eq_some_iff.mp hy) (hexDigit?_eq_some_iff.mp hz), rfl⟩
    · cases h
  · cases h

/-! ### Words -/

theorem readLiteral_append (v : Value) (word rest : List UInt8) :
    readLiteral v word (word ++ rest) = .ok (v, rest) := by
  induction word with
  | nil => rfl
  | cons w word ih =>
    show (if w = w then readLiteral v word (word ++ rest) else _) = _
    rw [if_pos rfl, ih]

theorem eq_of_readLiteral {v v' : Value} {word bytes rest : List UInt8}
    (h : readLiteral v word bytes = .ok (v', rest)) : v' = v ∧ bytes = word ++ rest := by
  induction word generalizing bytes with
  | nil =>
    cases h
    exact ⟨rfl, rfl⟩
  | cons w word ih =>
    cases bytes with
    | nil => cases h
    | cons b bytes =>
      unfold readLiteral at h
      split at h
      · rename_i hb
        obtain ⟨hv, hbytes⟩ := ih h
        exact ⟨hv, by rw [hb, hbytes]; rfl⟩
      · cases h

end CacheWarden.Json
