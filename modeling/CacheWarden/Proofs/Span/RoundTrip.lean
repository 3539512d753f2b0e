import CacheWarden.Proofs.Span.Reading
import CacheWarden.Span.Writer
/-!
Spans are read back as they are written.

A span is written as parts: largest unit first, of each as much as there is and none that there
is nothing of (`graded_parts`).  They amount to it (`sum_parts`), and with spaces between them
they are a text in units (`toList_spaced`), so the reader adds them up (`parse_spaced`).  As
none of a short unit reaches a second and no sum on the way is more than the span, all of them
have room (`parse_text`).
-/

namespace CacheWarden.Span

open Text

/-! ### Parts -/

/-- A name, in the plural above one. -/
def plural (name : String) (n : Nat) : String := if 1 < n then name ++ "s" else name

/-- The name that so many of a unit are written with. -/
def Measure.written : Measure → Nat → String
  | .nanosecond, _ => "ns"
  | .microsecond, _ => "us"
  | .millisecond, _ => "ms"
  | .second, _ => "s"
  | .minute, _ => "m"
  | .hour, _ => "h"
  | .day, n => plural "day" n
  | .week, n => plural "week" n
  | .month, n => plural "month" n
  | .year, n => plural "year" n

/-- Units are written with names of theirs. -/
theorem written_mem (u : Measure) (n : Nat) : u.written n ∈ u.names := by
  have hplural {name : String} (h : name ∈ u.names) (h' : name ++ "s" ∈ u.names) :
      plural name n ∈ u.names := by
    unfold plural
    split
    · exact h'
    · exact h
  cases u with
  | day | week | month | year => exact hplural (by decide) (by decide)
  | _ => simp [Measure.written, Measure.names]

/-- So many of a unit. -/
structure Part where
  count : Nat
  measure : Measure
deriving DecidableEq

namespace Part

/-- The part in nanoseconds. -/
def nanos (p : Part) : Nat := p.count * p.measure.nanos

/-- The part as it is written. -/
def text (p : Part) : List Char := decimal p.count ++ (p.measure.written p.count).toList

end Part

/-- The nanoseconds of some parts. -/
def sum (ps : List Part) : Nat := (ps.map Part.nanos).sum

@[simp] theorem sum_cons (p : Part) (ps : List Part) : sum (p :: ps) = p.nanos + sum ps := by
  simp [sum]

/-- The text of some parts, with spaces between them. -/
def spaced (ps : List Part) : String := " ".intercalate (ps.map fun p => String.ofList p.text)

/-- Parts as a span is written in: each in the largest unit, weeks apart, that there is any of,
and as much of it as there is. -/
inductive Graded : List Part → Prop
  | nil : Graded []
  | cons {p : Part} {ps : List Part} (some : 0 < p.count) (written : p.measure ≠ .week)
      (largest : ∀ u : Measure, u ≠ .week → u.nanos ≤ p.nanos + sum ps → u.nanos ≤ p.measure.nanos)
      (most : sum ps < p.measure.nanos) (rest : Graded ps) : Graded (p :: ps)

/-! ### The parts of a span -/

/-- A part, unless there is nothing of it. -/
def unitParts (u : Measure) (n : Nat) : List Part := if n = 0 then [] else [⟨n, u⟩]

/-- So many nanoseconds in the units of a list, each as often as it goes into what is left. -/
def split : List Measure → Nat → List Part
  | [], _ => []
  | u :: us, n => unitParts u (n / u.nanos) ++ split us (n % u.nanos)

/-- The units that spans are written in. -/
def writtenUnits : List Measure :=
  [.year, .month, .day, .hour, .minute, .second, .millisecond, .microsecond, .nanosecond]

/-- The parts that a span is written in. -/
def parts (s : Span) : List Part := split writtenUnits s.nanos

theorem sum_unitParts_append (u : Measure) (n : Nat) (ps : List Part) :
    sum (unitParts u n ++ ps) = n * u.nanos + sum ps := by
  unfold unitParts
  split
  · rename_i hn
    simp [hn]
  · simp [Part.nanos]

theorem sum_split_le (us : List Measure) (n : Nat) : sum (split us n) ≤ n := by
  induction us generalizing n with
  | nil => exact Nat.zero_le n
  | cons u us ih =>
    rw [split, sum_unitParts_append]
    calc n / u.nanos * u.nanos + sum (split us (n % u.nanos))
        ≤ n / u.nanos * u.nanos + n % u.nanos := Nat.add_le_add_left (ih _) _
      _ = n := Nat.div_add_mod' _ _

/-- Nothing is left over where nanoseconds come last. -/
theorem sum_split (us : List Measure) (n : Nat) : sum (split (us ++ [.nanosecond]) n) = n := by
  induction us generalizing n with
  | nil =>
    show sum (unitParts .nanosecond (n / 1) ++ []) = n
    rw [sum_unitParts_append, Nat.div_one]
    exact Nat.mul_one n
  | cons u us ih =>
    rw [List.cons_append, split, sum_unitParts_append, ih]
    exact Nat.div_add_mod' _ _

/-- The parts of a span amount to it. -/
theorem sum_parts (s : Span) : sum s.parts = s.nanos :=
  sum_split [.year, .month, .day, .hour, .minute, .second, .millisecond, .microsecond] s.nanos

theorem graded_split {us : List Measure} (hsorted : us.Pairwise fun u v => v.nanos < u.nanos)
    (hweek : .week ∉ us) {n : Nat} (habove : ∀ v : Measure, v ≠ .week → v ∉ us → n < v.nanos) :
    Graded (split us n) := by
  induction us generalizing n with
  | nil => exact .nil
  | cons u us ih =>
    obtain ⟨hlarger, hsorted⟩ := List.pairwise_cons.mp hsorted
    obtain ⟨hu, hweek⟩ := not_or.mp (mt List.mem_cons.mpr hweek)
    have hless : n % u.nanos < u.nanos := Nat.mod_lt _ (nanos_pos u)
    have hrest : Graded (split us (n % u.nanos)) := by
      refine ih hsorted hweek fun v hv hmem => ?_
      by_cases huv : v = u
      · rw [huv]
        exact hless
      · exact Nat.lt_of_le_of_lt (Nat.mod_le _ _) (habove v hv (by simp [huv, hmem]))
    unfold split unitParts
    split
    · exact hrest
    · rename_i hn
      have hsum := sum_split_le us (n % u.nanos)
      show Graded (⟨n / u.nanos, u⟩ :: split us (n % u.nanos))
      refine .cons (Nat.pos_of_ne_zero hn) (Ne.symm hu) ?_ (Nat.lt_of_le_of_lt hsum hless) hrest
      intro v hv hle
      -- a unit that there is any of is this one, or comes behind it
      have hvn : v.nanos ≤ n := by
        calc v.nanos ≤ n / u.nanos * u.nanos + sum (split us (n % u.nanos)) := hle
          _ ≤ n / u.nanos * u.nanos + n % u.nanos := Nat.add_le_add_left hsum _
          _ = n := Nat.div_add_mod' _ _
      rcases List.mem_cons.mp (by_contra fun hmem => Nat.not_le_of_lt (habove v hv hmem) hvn)
        with rfl | hmem
      · exact Nat.le_refl _
      · exact Nat.le_of_lt (hlarger v hmem)

theorem graded_parts (s : Span) : Graded s.parts := by
  refine graded_split (by decide) (by decide) fun v hv hmem => absurd hmem ?_
  revert hv
  cases v <;> decide

/-! ### Their text -/

theorem item_eq (u : Measure) (n : Nat) :
    item (u.written n) n = (unitParts u n).map fun p => String.ofList p.text := by
  unfold item unitParts
  split
  · rfl
  · simp [Part.text, ordinal]

section

variable {k r : Nat} (hr : r < nanosPerSecond) (q : Nat)

include hr

theorem div_nanosPerSecond : (q * nanosPerSecond + r) / nanosPerSecond = q := by
  rw [Nat.mul_comm, Nat.mul_add_div (by decide), Nat.div_eq_of_lt hr, Nat.add_zero]

/-- Whole seconds go into a unit of seconds whatever there is beyond them. -/
theorem div_seconds : (q * nanosPerSecond + r) / (k * nanosPerSecond) = q / k := by
  rw [Nat.mul_comm k, ← Nat.div_div_eq_div_mul, div_nanosPerSecond hr]

theorem mod_seconds :
    (q * nanosPerSecond + r) % (k * nanosPerSecond) = q % k * nanosPerSecond + r := by
  rw [Nat.mul_comm k, Nat.mod_mul, div_nanosPerSecond hr, Nat.mul_add_mod_self_right,
    Nat.mod_eq_of_lt hr]
  ring

end

theorem items_eq (s : Span) : s.items = s.parts.map fun p => String.ofList p.text := by
  have hsub := subsecond_lt s
  have hnanos : s.nanos = s.seconds * nanosPerSecond + s.subsecond := (Nat.div_add_mod' _ _).symm
  have hsecond (n : Nat) : n % 3600 % 60 = n % 60 := Nat.mod_mod_of_dvd n (by decide)
  have hmicro (n : Nat) : n % 1000000 / 1000 = n / 1000 % 1000 := by omega
  have hnano (n : Nat) : n % 1000000 % 1000 = n % 1000 := Nat.mod_mod_of_dvd n (by decide)
  unfold items parts writtenUnits
  rw [hnanos]
  simp only [split, List.map_append, ← item_eq, List.append_nil, Measure.nanos, Measure.seconds,
    div_seconds hsub, mod_seconds hsub, Nat.div_one, Nat.mod_one, Nat.zero_mul, Nat.zero_add,
    nanosPerMilli, hsecond, hmicro, hnano, List.append_assoc]
  rfl

/-- The text of a span is that of its parts. -/
theorem text_eq {s : Span} (h : s.isZero = false) : s.text = spaced s.parts := by
  unfold text spaced
  rw [h, items_eq]
  rfl

/-! ### Parts as a text in units -/

/-- A number that is written denotes itself. -/
theorem number_decimal (n : Nat) : number (decimal n) = n := by
  have hdigits : (bigDigits 10 n).map (digitValue ∘ digitChar) = (bigDigits 10 n).map id := by
    refine List.map_congr_left fun d hd => ?_
    have hlt := lt_of_mem_bigDigits (by decide) hd
    simp [digitValue, toNat_digitChar hlt]
  rw [decimal_eq, number, List.map_map, hdigits, List.map_id, place_bigDigits]

theorem isDigit_decimal (n : Nat) : ∀ c ∈ decimal n, isDigit c = true := by
  intro c hc
  rw [decimal_eq] at hc
  obtain ⟨d, hd, rfl⟩ := List.mem_map.mp hc
  have hlt := lt_of_mem_bigDigits (by decide) hd
  rw [isDigit_iff, toNat_digitChar hlt]
  omega

theorem decimal_ne_nil (n : Nat) : decimal n ≠ [] := by
  simp [decimal_eq, bigDigits_ne_nil]

/-- A part with blanks in front is a component. -/
def Part.component (p : Part) (margin : List Char) (h : ∀ c ∈ margin, isBlank c = true) :
    Component where
  margin := margin
  digits := decimal p.count
  gap := []
  name := p.measure.written p.count
  measure := p.measure
  blank_margin := h
  digits_ne_nil := decimal_ne_nil p.count
  isDigit_digits := isDigit_decimal p.count
  blank_gap := List.forall_mem_nil _
  named := written_mem p.measure p.count

theorem nanos_component (p : Part) (margin : List Char) (h : ∀ c ∈ margin, isBlank c = true) :
    (p.component margin h).nanos = p.nanos := by
  show number (decimal p.count) * p.measure.nanos = p.nanos
  rw [number_decimal, Part.nanos]

/-- Parts with spaces between them are a text in units. -/
def phrase (p : Part) (ps : List Part) : Phrase where
  first := p.component [] (List.forall_mem_nil _)
  rest := ps.map fun q => q.component [' '] (List.forall_mem_singleton.mpr (by decide))
  tail := []
  blank_tail := List.forall_mem_nil _

theorem intercalate_cons (sep t : List Char) (ts : List (List Char)) :
    sep.intercalate (t :: ts) = t ++ ts.flatMap (sep ++ ·) := by
  induction ts generalizing t with
  | nil => simp
  | cons u ts ih =>
    rw [List.intercalate_cons_cons, ih, List.flatMap_cons]
    simp only [List.append_assoc]

theorem toList_spaced (ps : List Part) :
    (spaced ps).toList = [' '].intercalate (ps.map Part.text) := by
  rw [spaced, String.toList_intercalate, List.map_map]
  congr 1
  simp

theorem text_phrase (p : Part) (ps : List Part) : (phrase p ps).text = spaced (p :: ps) := by
  apply String.toList_inj.mp
  rw [toList_spaced, List.map_cons, intercalate_cons, Phrase.text, String.toList_ofList]
  simp [phrase, Phrase.components, Component.text, Part.component, Part.text, List.flatMap_map]

theorem nanos_phrase (p : Part) (ps : List Part) : (phrase p ps).nanos = sum (p :: ps) := by
  simp [phrase, Phrase.nanos, Phrase.components, total, sum, nanos_component, Function.comp_def]

/-- Parts that fit a span are read as their sum if none of a short unit reaches a second. -/
theorem parse_spaced {p : Part} {ps : List Part}
    (hshort : ∀ q ∈ p :: ps, q.measure.isShort → q.nanos < nanosPerSecond)
    (h : sum (p :: ps) < wordBound * nanosPerSecond) :
    parse (spaced (p :: ps)) = .ok ⟨_, h⟩ := by
  have hroom : ∀ c ∈ (phrase p ps).components,
      c.measure.isShort → nanosPerSecond + c.nanos ≤ wordBound := by
    have hpart (q : Part) (margin : List Char) (hmargin : ∀ c ∈ margin, isBlank c = true)
        (hq : q ∈ p :: ps) (hu : q.measure.isShort) :
        nanosPerSecond + (q.component margin hmargin).nanos ≤ wordBound := by
      rw [nanos_component]
      exact nanosPerSecond_add_le (Nat.lt_trans (hshort q hq hu) (by decide))
    refine List.forall_mem_cons.mpr ⟨hpart p _ _ List.mem_cons_self, List.forall_mem_map.mpr ?_⟩
    intro q hq
    exact hpart q _ _ (List.mem_cons_of_mem p hq)
  rw [← text_phrase]
  exact Phrase.parse_eq_ok_iff.mpr ⟨roomy_of_forall hroom 0, (nanos_phrase p ps).symm⟩

/-- Of a short unit there is less than a second. -/
theorem Graded.nanos_lt {ps : List Part} (h : Graded ps) :
    ∀ p ∈ ps, p.measure.isShort → p.nanos < nanosPerSecond := by
  induction h with
  | nil => exact List.forall_mem_nil _
  | @cons p ps _ _ largest _ _ ih =>
    refine List.forall_mem_cons.mpr ⟨fun hshort => ?_, ih⟩
    by_contra hge
    have hsecond := largest .second (by decide)
      (Nat.le_trans (Nat.le_of_not_lt hge) (Nat.le_add_right _ _))
    revert hshort hsecond
    cases p.measure <;> decide

/-! ### The round trip -/

theorem isZero_iff {s : Span} : s.isZero = true ↔ s = zero := by
  obtain ⟨n, hn⟩ := s
  constructor
  · intro h
    have h0 : n = 0 := by simpa [isZero] using h
    subst h0
    rfl
  · intro h
    rw [h]
    rfl

/-- A span is read back as it is written. -/
theorem parse_text (s : Span) : parse s.text = .ok s := by
  rcases hzero : s.isZero with - | -
  · have hsum := sum_parts s
    have hshort := (graded_parts s).nanos_lt
    rw [text_eq hzero]
    rcases hps : s.parts with - | ⟨p, ps⟩
    · rw [hps] at hsum
      rw [isZero, ← hsum] at hzero
      cases hzero
    · rw [hps] at hsum hshort
      rw [parse_spaced hshort (hsum.trans_lt s.fits)]
      simp only [hsum]
  · -- zero has a text of its own
    rw [isZero_iff.mp hzero]
    rfl

end CacheWarden.Span
