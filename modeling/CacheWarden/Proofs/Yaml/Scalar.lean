import CacheWarden.Proofs.Yaml.Compact
import CacheWarden.Yaml.Scalar
/-!
Scalars on one line.

A quoted text is read to its quote whatever printable characters it holds
(`readQuoted_escaped`): blanks are gaps that stand for themselves, and quotes and
backslashes come as escapes.  A word ends in front of a comma or a brace
(`readPlain_word`).
-/

namespace CacheWarden.Yaml

open Json

/-- The place so many characters further on the line. -/
def Mark.along (m : Mark) (n : Nat) : Mark := ⟨m.index + n, m.line, m.column + n⟩

/-! ### Characters -/

theorem IsPrintable.isBreak {c : Char} (h : IsPrintable c) : isBreak c = false := by
  have hne {d : Char} (hd : d.toNat < 0x20 ∨ 0x7E < d.toNat) : c ≠ d := by
    rintro rfl
    rcases hd with hd | hd
    · exact absurd h.1 (Nat.not_le_of_lt hd)
    · exact absurd h.2 (Nat.not_le_of_lt hd)
  unfold Yaml.isBreak
  simp only [Bool.or_eq_false_iff, beq_eq_false_iff_ne]
  exact ⟨⟨hne (by decide), hne (by decide)⟩, hne (by decide)⟩

/-- Of the printable characters only the space is blank. -/
theorem IsPrintable.isBlank_iff {c : Char} (h : IsPrintable c) : isBlank c = true ↔ c = ' ' := by
  have htab : c ≠ '\t' := by
    rintro rfl
    exact absurd h.1 (by decide)
  unfold isBlank
  simp [htab]

theorem step_eq_along {c : Char} (h : isBreak c = false) (m : Mark) : m.step c = m.along 1 := by
  unfold Mark.step
  rw [if_neg (by simp [h])]
  rfl

theorem along_along (m : Mark) (a b : Nat) : (m.along a).along b = m.along (a + b) := by
  unfold Mark.along
  simp only [Nat.add_assoc]

theorem atDocumentMark_of_column {m : Mark} (h : m.column ≠ 0) (cs : List Char) :
    atDocumentMark m cs = false := by
  unfold atDocumentMark
  simp [h]

/-! ### Quoted texts -/

/-- A gap on one line. -/
inductive OneLine : Gap → Prop
  | nothing : OneLine .nothing
  | blanks {cs : List Char} : OneLine (.blanks cs)

theorem OneLine.addBlank {gap : Gap} (h : OneLine gap) (c : Char) :
    OneLine (gap.addBlank c) ∧ (gap.addBlank c).foldedRev = c :: gap.foldedRev := by
  cases h <;> exact ⟨.blanks, rfl⟩

section quoted

variable {m : Mark} {text : List Char} {gap : Gap} {rest : List Char}

theorem readQuoted_blank :
    readQuoted false 0 (' ' :: rest) m text gap =
      readQuoted false 0 rest (m.along 1) text (gap.addBlank ' ') := by
  rw [readQuoted, if_pos (by decide), step_eq_along (by decide)]

theorem readQuoted_char (hm : m.column ≠ 0) {c : Char} (hc : IsPrintable c) (hspace : c ≠ ' ')
    (hquote : c ≠ '"') (hbackslash : c ≠ '\\') :
    readQuoted false 0 (c :: rest) m text gap =
      readQuoted false 0 rest (m.along 1) (c :: (gap.foldedRev ++ text)) .nothing := by
  have hblank : ¬isBlank c = true := mt hc.isBlank_iff.mp hspace
  have hbreak : ¬isBreak c = true := by simp [hc.isBreak]
  rw [readQuoted, if_neg hblank, if_neg hbreak, atDocumentMark_of_column hm,
    step_eq_along hc.isBreak]
  simp [hquote, hbackslash]

theorem readQuoted_escape (hm : m.column ≠ 0) {c : Char} (hc : c = '"' ∨ c = '\\') :
    readQuoted false 0 ('\\' :: c :: rest) m text gap =
      readQuoted false 0 rest (m.along 2) (c :: (gap.foldedRev ++ text)) .nothing := by
  have hbreak : isBreak c = false := by rcases hc with rfl | rfl <;> rfl
  have hescape : escape? (c :: rest) = some (c, 1) := by rcases hc with rfl | rfl <;> rfl
  rw [readQuoted, if_neg (by decide), if_neg (by decide), atDocumentMark_of_column hm]
  simp only [Bool.false_eq_true, if_false, List.head?_cons, Option.any_some, hbreak, hescape]
  rw [if_neg (by decide), if_pos trivial, readQuoted, step_eq_along hbreak,
    step_eq_along (by decide), along_along]

theorem readQuoted_end (hm : m.column ≠ 0) :
    readQuoted false 0 ('"' :: rest) m text gap =
      .ok (gap.foldedRev ++ text, ⟨rest, m.along 1⟩) := by
  rw [readQuoted, if_neg (by decide), if_neg (by decide), atDocumentMark_of_column hm,
    step_eq_along (by decide)]
  rfl

theorem column_along {m : Mark} (hm : m.column ≠ 0) (n : Nat) : (m.along n).column ≠ 0 := by
  unfold Mark.along
  dsimp only
  omega

/-- A quoted text is read up to its closing quote. -/
theorem readQuoted_escaped (hm : m.column ≠ 0) {cs : List Char} (hcs : Printable cs)
    (hgap : OneLine gap) :
    readQuoted false 0 (cs.flatMap escapeChar ++ '"' :: rest) m text gap =
      .ok (cs.reverse ++ (gap.foldedRev ++ text),
        ⟨rest, m.along ((cs.flatMap escapeChar).length + 1)⟩) := by
  induction cs generalizing m text gap with
  | nil => exact readQuoted_end hm
  | cons c cs ih =>
    obtain ⟨hc, hcs'⟩ := List.forall_mem_cons.mp hcs
    rw [List.flatMap_cons, List.append_assoc, List.length_append, List.reverse_cons,
      List.append_assoc]
    rcases escapeChar_of_printable hc with rfl | rfl | ⟨hquote, hbackslash, hescape⟩
    · show readQuoted false 0 ('\\' :: '"' :: (cs.flatMap escapeChar ++ '"' :: rest)) m text gap = _
      rw [readQuoted_escape hm (.inl rfl), ih (column_along hm 2) hcs' .nothing, along_along,
        ← Nat.add_assoc]
      rfl
    · show readQuoted false 0 ('\\' :: '\\' :: (cs.flatMap escapeChar ++ '"' :: rest)) m text gap
        = _
      rw [readQuoted_escape hm (.inr rfl), ih (column_along hm 2) hcs' .nothing, along_along,
        ← Nat.add_assoc]
      rfl
    · rw [hescape, List.singleton_append]
      by_cases hspace : c = ' '
      · -- a blank waits for what comes behind it
        obtain ⟨hgap', hfolded⟩ := hgap.addBlank ' '
        rw [hspace, readQuoted_blank, ih (column_along hm 1) hcs' hgap', hfolded, along_along,
          ← Nat.add_assoc]
        rfl
      · rw [readQuoted_char hm hc hspace hquote hbackslash, ih (column_along hm 1) hcs' .nothing,
          along_along, ← Nat.add_assoc]
        rfl

end quoted

/-! ### Words -/

/-- What stands behind a value in a mapping: a comma or the closing brace. -/
def EndsValue (rest : List Char) : Prop := ∃ cs, rest = ',' :: cs ∨ rest = '\x7d' :: cs

/-- A word is read up to the end of the value. -/
theorem readPlain_word {w : String} (hw : w ∈ Compact.words) {rest : List Char}
    (hrest : EndsValue rest) (indent : Nat) (m : Mark) :
    readPlain true indent (w.toList ++ rest) m [] .nothing =
      .ok (w.toList.reverse, .nothing, ⟨rest, m.along w.toList.length⟩) := by
  have hwords : w = "null" ∨ w = "true" ∨ w = "false" := by simpa [Compact.words] using hw
  obtain ⟨cs, rfl | rfl⟩ := hrest
  all_goals rcases hwords with rfl | rfl | rfl <;> rfl

end CacheWarden.Yaml
