import CacheWarden.Json.Writer
import CacheWarden.Yaml.Node
import Mathlib
/-!
Compact documents.

JSON text that a mapping is written in is a YAML document too, all of it on one line and
in flow style: mappings between braces, quoted names, and as values words, quoted texts
and further mappings.  `Compact` is such a document as a tree.  Its text, the tokens of the
text and the nodes that these stand for are said here; that the readers go from one to
the next is shown elsewhere.
-/

namespace CacheWarden.Yaml

open Json

/-! ### Printable texts -/

/-- A character that shows, or a space. -/
def IsPrintable (c : Char) : Prop := 0x20 ≤ c.toNat ∧ c.toNat ≤ 0x7E

/-- Characters that show, and spaces. -/
def Printable (cs : List Char) : Prop := ∀ c ∈ cs, IsPrintable c

instance (c : Char) : Decidable (IsPrintable c) := inferInstanceAs (Decidable (_ ∧ _))

instance (cs : List Char) : Decidable (Printable cs) :=
  decidable_of_iff (cs.all fun c => decide (IsPrintable c)) (by simp [Printable])

theorem printable_nil : Printable [] := fun _ h => absurd h List.not_mem_nil

theorem printable_append {xs ys : List Char} (hx : Printable xs) (hy : Printable ys) :
    Printable (xs ++ ys) :=
  List.forall_mem_append.mpr ⟨hx, hy⟩

theorem printable_cons {c : Char} {cs : List Char} (hc : IsPrintable c) (hcs : Printable cs) :
    Printable (c :: cs) :=
  List.forall_mem_cons.mpr ⟨hc, hcs⟩

/-- A printable character is written as it is, unless it is a quote or a backslash. -/
theorem escapeChar_of_printable {c : Char} (hc : IsPrintable c) :
    c = '"' ∨ c = '\\' ∨ c ≠ '"' ∧ c ≠ '\\' ∧ escapeChar c = [c] := by
  by_cases hquote : c = '"'
  · exact .inl hquote
  by_cases hbackslash : c = '\\'
  · exact .inr (.inl hbackslash)
  refine .inr (.inr ⟨hquote, hbackslash, ?_⟩)
  -- the other escapes are of control characters
  have hcontrol {d : Char} (hd : d.toNat < 0x20) : c ≠ d := by
    rintro rfl
    exact absurd hc.1 (Nat.not_le_of_lt hd)
  unfold escapeChar
  rw [if_neg hquote, if_neg hbackslash, if_neg (hcontrol (by decide)),
    if_neg (hcontrol (by decide)), if_neg (hcontrol (by decide)), if_neg (hcontrol (by decide)),
    if_neg (hcontrol (by decide)), if_neg (Nat.not_lt_of_le hc.1)]

theorem printable_escapeChar {c : Char} (hc : IsPrintable c) : Printable (escapeChar c) := by
  rcases escapeChar_of_printable hc with rfl | rfl | ⟨-, -, he⟩
  · decide
  · decide
  · rw [he]
    exact printable_cons hc printable_nil

theorem printable_stringText {t : String} (ht : Printable t.toList) : Printable (stringText t) := by
  have hquote : Printable ['"'] := by decide
  unfold stringText
  refine printable_append (printable_append hquote ?_) hquote
  intro c hc
  obtain ⟨d, hd, hcd⟩ := List.mem_flatMap.mp hc
  exact printable_escapeChar (ht d hd) c hcd

/-! ### Documents -/

/-- What a document of one line in flow style holds. -/
inductive Compact where
  | word (text : String)
  | quoted (text : String)
  | mapping (entries : List (String × Compact))

namespace Compact

mutual

/-- The text of a document. -/
def text : Compact → List Char
  | .word w => w.toList
  | .quoted t => stringText t
  | .mapping es => '\x7b' :: (entriesText es ++ ['\x7d'])

/-- The text of the entries of a mapping. -/
def entriesText : List (String × Compact) → List Char
  | [] => []
  | [(name, f)] => stringText name ++ ':' :: f.text
  | (name, f) :: e :: es => stringText name ++ ':' :: (f.text ++ ',' :: entriesText (e :: es))

end

mutual

/-- The tokens of a document, by their kinds. -/
def kinds : Compact → List TokenKind
  | .word w => [.scalar w .plain]
  | .quoted t => [.scalar t .double]
  | .mapping es => .flowMapping :: (entriesKinds es ++ [.flowMappingEnd])

/-- The tokens of the entries of a mapping. -/
def entriesKinds : List (String × Compact) → List TokenKind
  | [] => []
  | [(name, f)] => .key :: .scalar name .double :: .value :: f.kinds
  | (name, f) :: e :: es =>
    .key :: .scalar name .double :: .value :: (f.kinds ++ .flowEntry :: entriesKinds (e :: es))

end

mutual

/-- A node shows what a document holds, wherever it stands. -/
def Shows : Compact → Node → Prop
  | .word w, n => ∃ m, n = .scalar m none w .plain
  | .quoted t, n => ∃ m, n = .scalar m none t .double
  | .mapping es, n => ∃ m ns, n = .mapping m ns ∧ EntriesShow es ns

/-- The entries of a mapping show those of a document, in their order. -/
def EntriesShow : List (String × Compact) → List (Node × Node) → Prop
  | [], ns => ns = []
  | (name, f) :: es, ns =>
    ∃ m n ns', ns = (.scalar m none name .double, n) :: ns' ∧ f.Shows n ∧ EntriesShow es ns'

end

/-! ### What may stand in a document -/

/-- The words that JSON has. -/
def words : List String := ["null", "true", "false"]

/-- A printable name that a key has room for. -/
def IsKey (name : String) : Prop :=
  Printable name.toList ∧ (stringText name).length ≤ 1024

instance (name : String) : Decidable (IsKey name) := inferInstanceAs (Decidable (_ ∧ _))

/-- Words of JSON, printable texts, and mappings with keys. -/
inductive Fits : Compact → Prop
  | word {w : String} : w ∈ words → Fits (.word w)
  | quoted {t : String} : Printable t.toList → Fits (.quoted t)
  | mapping {es : List (String × Compact)} :
      (∀ e ∈ es, IsKey e.1) → (∀ e ∈ es, Fits e.2) → Fits (.mapping es)

end Compact

end CacheWarden.Yaml
