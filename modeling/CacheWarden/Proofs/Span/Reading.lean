import CacheWarden.Proofs.Text.Numeral
import CacheWarden.Span.Reader
/-!
How the reader of spans goes over a text.

A text in units is a row of components: a number with the name of a unit behind it, and
blanks wherever one likes but inside the two (`Phrase`).  A component is added when
something else comes, or at the end, so what is complete is known as soon as the next one
opens (`run_component`).  The whole text is then read by adding the components one after
another (`parse_text_eq`).

Everything is counted in 64 bits on the way.  Each addition is exact, or it stops: it is
refused, or it crashes where nanoseconds of exactly one second meet the longest whole
seconds (`plus_eq_ok_iff`, `plus_eq_crash_iff`).  So is a row of them
(`addAll_eq_ok_iff`, `addAll_eq_crash_iff`).  Hence a text in units is read as its sum if
all its components have room and the sum fits (`Phrase.parse_eq_ok_iff`), it crashes if
some component completes the first second beyond all spans (`Phrase.parse_eq_crash_iff`),
and else it is refused.  A sum of less than 63 bits of nanoseconds is always read
(`Phrase.exists_parse`).
-/

namespace CacheWarden.Span

open Text

/-! ### Characters -/

/-- A character of a unit's name. -/
def isNameLetter (c : Char) : Bool := isUnitLetter c && !isDigit c && !isBlank c

theorem isNameLetter_iff {c : Char} :
    isNameLetter c = true ↔ isUnitLetter c = true ∧ isDigit c = false ∧ isBlank c = false := by
  simp [isNameLetter, and_assoc]

theorem isDigit_iff {c : Char} : isDigit c = true ↔ 48 ≤ c.toNat ∧ c.toNat ≤ 57 := by
  simp [isDigit]

theorem isBlank_iff {c : Char} :
    isBlank c = true ↔ ∃ r ∈ blankRanges, r.1 ≤ c.toNat ∧ c.toNat ≤ r.2 := by
  simp [isBlank, Ranges.mem]

/-- The letters of units lie between the digits and the blanks beyond ASCII, or above these. -/
theorem range_of_isUnitLetter {c : Char} (h : isUnitLetter c = true) :
    65 ≤ c.toNat ∧ c.toNat ≤ 122 ∨ c.toNat = 0xB5 := by
  simp only [isUnitLetter, Bool.or_eq_true, beq_iff_eq] at h
  rcases h with h | rfl
  · left
    simp only [Char.isAlpha, Char.isUpper, Char.isLower, Bool.or_eq_true, Bool.and_eq_true,
      decide_eq_true_eq, ge_iff_le, UInt32.le_iff_toNat_le] at h
    have hval : c.toNat = c.val.toNat := rfl
    have hbounds : 65 ≤ c.val.toNat ∧ c.val.toNat ≤ 90 ∨ 97 ≤ c.val.toNat ∧ c.val.toNat ≤ 122 := h
    omega
  · right
    rfl

theorem isDigit_eq_false_of_isBlank {c : Char} (h : isBlank c = true) : isDigit c = false := by
  rw [isBlank_iff] at h
  rw [Bool.eq_false_iff, Ne, isDigit_iff]
  simp only [blankRanges, List.mem_cons, List.not_mem_nil, or_false, exists_eq_or_imp,
    exists_eq_left] at h
  omega

theorem isUnitLetter_eq_false_of_isBlank {c : Char} (h : isBlank c = true) :
    isUnitLetter c = false := by
  rw [isBlank_iff] at h
  rw [Bool.eq_false_iff]
  intro hletter
  have hrange := range_of_isUnitLetter hletter
  simp only [blankRanges, List.mem_cons, List.not_mem_nil, or_false, exists_eq_or_imp,
    exists_eq_left] at h
  omega

theorem isUnitLetter_eq_false_of_isDigit {c : Char} (h : isDigit c = true) :
    isUnitLetter c = false := by
  rw [isDigit_iff] at h
  rw [Bool.eq_false_iff]
  intro hletter
  have hrange := range_of_isUnitLetter hletter
  omega

theorem isBlank_eq_false_of_isDigit {c : Char} (h : isDigit c = true) : isBlank c = false := by
  rw [Bool.eq_false_iff]
  intro hblank
  rw [isDigit_eq_false_of_isBlank hblank] at h
  cases h

/-- The names of units are words of letters. -/
theorem letters_of_names {u : Measure} {name : String} (h : name ∈ u.names) :
    name.toList ≠ [] ∧ ∀ c ∈ name.toList, isNameLetter c = true := by
  have hall : (u.names.all fun name => !name.toList.isEmpty && name.toList.all isNameLetter) =
      true := by
    cases u <;> decide
  have hname := List.all_eq_true.mp hall name h
  simpa using hname

/-- Each name is that of one unit. -/
theorem named?_of_names {u : Measure} {name : String} (h : name ∈ u.names) :
    Measure.named? name = some u := by
  have hall : ∀ name ∈ u.names, Measure.named? name = some u := by
    cases u <;> decide
  exact hall name h

/-! ### Components -/

/-- A component of a text: blanks, the digits of a number, blanks again, and a name of a unit. -/
structure Component where
  margin : List Char
  digits : List Char
  gap : List Char
  name : String
  measure : Measure
  blank_margin : ∀ c ∈ margin, isBlank c = true
  digits_ne_nil : digits ≠ []
  isDigit_digits : ∀ c ∈ digits, isDigit c = true
  blank_gap : ∀ c ∈ gap, isBlank c = true
  named : name ∈ measure.names

/-- The number that digits denote. -/
def number (digits : List Char) : Nat := place 10 0 (digits.map digitValue)

namespace Component

/-- How many of the unit there are. -/
def count (c : Component) : Nat := number c.digits

/-- The component in nanoseconds. -/
def nanos (c : Component) : Nat := c.count * c.measure.nanos

/-- The component as it is written. -/
def text (c : Component) : List Char := c.margin ++ (c.digits ++ (c.gap ++ c.name.toList))

/-- Adds a component, if its number has at most 64 bits. -/
def addTo (total : Span) (c : Component) : Result Span := do
  total.plusWhole (← word c.count) c.measure

end Component

/-- A text in units: components, and blanks at the end. -/
structure Phrase where
  first : Component
  rest : List Component
  tail : List Char
  blank_tail : ∀ c ∈ tail, isBlank c = true

/-- The nanoseconds of some components. -/
def total (cs : List Component) : Nat := (cs.map Component.nanos).sum

@[simp] theorem total_cons (c : Component) (cs : List Component) :
    total (c :: cs) = c.nanos + total cs := by
  simp [total]

theorem nanos_le_total {c : Component} {cs : List Component} (h : c ∈ cs) :
    c.nanos ≤ total cs :=
  List.le_sum_of_mem (List.mem_map_of_mem h)

namespace Phrase

variable (p : Phrase)

/-- All components. -/
def components : List Component := p.first :: p.rest

/-- The sum of the components. -/
def nanos : Nat := total p.components

/-- The text. -/
def text : String := String.ofList (p.components.flatMap Component.text ++ p.tail)

end Phrase

/-! ### Numbers and names -/

theorem word_of_lt {n : Nat} (h : n < wordBound) : word n = .ok n := if_pos h

theorem word_of_le {n : Nat} (h : wordBound ≤ n) : word n = .refuse () :=
  if_neg (Nat.not_lt_of_le h)

/-- Digits are read as their number, unless that needs more than 64 bits. -/
theorem run_digits {ds : List Char} (hds : ∀ c ∈ ds, isDigit c = true) {n : Nat}
    (hn : n < wordBound) (sum : Span) :
    ds.foldlM Reading.step (.whole sum n) =
      .whole sum <$> word (place 10 n (ds.map digitValue)) := by
  induction ds generalizing n with
  | nil =>
    rw [List.map_nil, place_nil, word_of_lt hn]
    rfl
  | cons d ds ih =>
    obtain ⟨hd, hds⟩ := List.forall_mem_cons.mp hds
    have hstep : Reading.step (.whole sum n) d = .whole sum <$> word (n * 10 + digitValue d) :=
      if_pos hd
    rw [List.foldlM_cons, hstep, List.map_cons, place_cons]
    rcases Nat.lt_or_ge (n * 10 + digitValue d) wordBound with hlt | hge
    · rw [word_of_lt hlt]
      exact ih hds hlt
    · -- more digits only make it larger
      have hplace := Nat.le_trans hge (le_place (by decide : 0 < 10) _ (ds.map digitValue))
      rw [word_of_le hge, word_of_le hplace]
      rfl

/-- Blanks behind digits are passed over. -/
theorem run_gap {gap : List Char} (h : ∀ c ∈ gap, isBlank c = true) (sum : Span) (n : Nat) :
    gap.foldlM Reading.step (.whole sum n) = .ok (.whole sum n) := by
  induction gap with
  | nil => rfl
  | cons c gap ih =>
    obtain ⟨hc, hgap⟩ := List.forall_mem_cons.mp h
    have hstep : Reading.step (.whole sum n) c = .ok (.whole sum n) := by
      simp [Reading.step, hc, isDigit_eq_false_of_isBlank hc]
    rw [List.foldlM_cons, hstep]
    exact ih hgap

theorem run_letters {cs : List Char} (h : ∀ c ∈ cs, isUnitLetter c = true) (sum : Span) (n : Nat)
    (f : Option Fraction) (letters : List Char) :
    cs.foldlM Reading.step (.unit sum n f letters) =
      .ok (.unit sum n f (cs.reverse ++ letters)) := by
  induction cs generalizing letters with
  | nil => rfl
  | cons c cs ih =>
    obtain ⟨hc, hcs⟩ := List.forall_mem_cons.mp h
    have hstep : Reading.step (.unit sum n f letters) c = .ok (.unit sum n f (c :: letters)) :=
      if_pos hc
    rw [List.foldlM_cons, hstep, List.reverse_cons, List.append_assoc]
    exact ih hcs (c :: letters)

/-- A name behind a number is read as the letters of its unit. -/
theorem run_name {u : Measure} {name : String} (h : name ∈ u.names) (sum : Span) (n : Nat) :
    name.toList.foldlM Reading.step (.whole sum n) =
      .ok (.unit sum n none name.toList.reverse) := by
  obtain ⟨hne, hletters⟩ := letters_of_names h
  rcases hname : name.toList with - | ⟨c, cs⟩
  · exact absurd hname hne
  · rw [hname] at hletters
    obtain ⟨hc, hcs⟩ := List.forall_mem_cons.mp hletters
    obtain ⟨hc, hdigit, hblank⟩ := isNameLetter_iff.mp hc
    have hstep : Reading.step (.whole sum n) c = .ok (.unit sum n none [c]) := by
      simp [Reading.step, hdigit, hblank, hc]
    rw [List.foldlM_cons, hstep, List.reverse_cons]
    exact run_letters (fun c hc => (isNameLetter_iff.mp (hcs c hc)).1) sum n none [c]

/-! ### From one component to the next -/

/-- A component may end here: it is complete, or its unit is only waiting for its end. -/
inductive Reading.Ends : Reading → Prop
  | between (sum : Span) : Ends (.between sum)
  | unit (sum : Span) (n : Nat) (f : Option Fraction) (letters : List Char) :
      Ends (.unit sum n f letters)

section

variable {r : Reading}

/-- A blank completes a component. -/
theorem step_blank (hr : r.Ends) {c : Char} (hc : isBlank c = true) :
    r.step c = .between <$> r.finish := by
  cases hr with
  | between sum =>
    simp only [Reading.step, hc, isDigit_eq_false_of_isBlank hc]
    rfl
  | unit sum n f letters =>
    simp [Reading.step, Reading.finish, hc, isUnitLetter_eq_false_of_isBlank hc]

/-- The first digit of the next component completes the one in front of it. -/
theorem step_digit (hr : r.Ends) {c : Char} (hc : isDigit c = true) :
    r.step c = (fun sum => .whole sum (digitValue c)) <$> r.finish := by
  cases hr with
  | between sum =>
    simp only [Reading.step, hc]
    rfl
  | unit sum n f letters =>
    simp [Reading.step, Reading.finish, hc, isUnitLetter_eq_false_of_isDigit hc,
      isBlank_eq_false_of_isDigit hc]

/-- Blanks and a digit open the next component. -/
theorem run_margin (hr : r.Ends) {margin : List Char} (hmargin : ∀ c ∈ margin, isBlank c = true)
    {d : Char} (hd : isDigit d = true) (rest : List Char) :
    (margin ++ d :: rest).foldlM Reading.step r =
      r.finish >>= fun sum => rest.foldlM Reading.step (.whole sum (digitValue d)) := by
  induction margin generalizing r with
  | nil =>
    rw [List.nil_append, List.foldlM_cons, step_digit hr hd]
    cases r.finish <;> rfl
  | cons c margin ih =>
    obtain ⟨hc, hmargin⟩ := List.forall_mem_cons.mp hmargin
    rw [List.cons_append, List.foldlM_cons, step_blank hr hc]
    rcases r.finish with stop | sum
    · rfl
    · exact ih (.between sum) hmargin

/-- At the start it is as if nothing were complete. -/
theorem run_margin_start {margin : List Char} (hmargin : ∀ c ∈ margin, isBlank c = true) {d : Char}
    (hd : isDigit d = true) (rest : List Char) :
    (margin ++ d :: rest).foldlM Reading.step .start =
      (margin ++ d :: rest).foldlM Reading.step (.between zero) := by
  induction margin with
  | nil => simp [Reading.step, hd]
  | cons c margin ih =>
    obtain ⟨hc, hmargin⟩ := List.forall_mem_cons.mp hmargin
    have hdigit := isDigit_eq_false_of_isBlank hc
    have hstart : Reading.start.step c = .ok .start := by simp [Reading.step, hc, hdigit]
    have hbetween : (Reading.between zero).step c = .ok (.between zero) := by
      simp [Reading.step, hc, hdigit]
    rw [List.cons_append, List.foldlM_cons, List.foldlM_cons, hstart, hbetween]
    exact ih hmargin

/-- Blanks at the end of a text change nothing. -/
theorem run_tail (hr : r.Ends) {tail : List Char} (htail : ∀ c ∈ tail, isBlank c = true) :
    tail.foldlM Reading.step r >>= Reading.finish = r.finish := by
  induction tail generalizing r with
  | nil => rfl
  | cons c tail ih =>
    obtain ⟨hc, htail⟩ := List.forall_mem_cons.mp htail
    rw [List.foldlM_cons, step_blank hr hc]
    rcases r.finish with stop | sum
    · rfl
    · exact ih (.between sum) htail

/-- A component is read up to the last letter of its unit, behind what is complete then. -/
theorem run_component (hr : r.Ends) (c : Component) :
    c.text.foldlM Reading.step r =
      r.finish >>= fun sum => (.unit sum · none c.name.toList.reverse) <$> word c.count := by
  have hdigits := c.isDigit_digits
  have hcount : c.count = place 10 0 (c.digits.map digitValue) := rfl
  rw [Component.text, hcount]
  rcases hds : c.digits with - | ⟨d, ds⟩
  · exact absurd hds c.digits_ne_nil
  · rw [hds] at hdigits
    obtain ⟨hd, hds⟩ := List.forall_mem_cons.mp hdigits
    have hfirst : digitValue d < wordBound := by
      have hrange := isDigit_iff.mp hd
      unfold digitValue wordBound
      omega
    rw [List.cons_append, run_margin hr c.blank_margin hd, List.map_cons, place_cons,
      Nat.zero_mul, Nat.zero_add]
    congr 1
    funext sum
    rw [List.foldlM_append, run_digits hds hfirst]
    rcases word (place 10 (digitValue d) (ds.map digitValue)) with stop | n
    · rfl
    · show (c.gap ++ c.name.toList).foldlM Reading.step (.whole sum n) = _
      rw [List.foldlM_append, run_gap c.blank_gap]
      exact run_name c.named sum n

/-- What the letters of a component wait for is its addition. -/
theorem finish_component (c : Component) (sum : Span) (n : Nat) :
    (Reading.unit sum n none c.name.toList.reverse).finish = sum.plusWhole n c.measure := by
  show sum.plusComponent n none c.name.toList.reverse = _
  unfold plusComponent
  rw [List.reverse_reverse, String.ofList_toList, named?_of_names c.named]
  exact bind_pure (sum.plusWhole n c.measure)

/-- Components are added one after another. -/
theorem run_components (hr : r.Ends) (cs : List Component) {tail : List Char}
    (htail : ∀ c ∈ tail, isBlank c = true) :
    (cs.flatMap Component.text ++ tail).foldlM Reading.step r >>= Reading.finish =
      r.finish >>= fun sum => cs.foldlM Component.addTo sum := by
  induction cs generalizing r with
  | nil =>
    rw [List.flatMap_nil, List.nil_append, run_tail hr htail]
    cases r.finish <;> rfl
  | cons c cs ih =>
    rw [List.flatMap_cons, List.append_assoc, List.foldlM_append, run_component hr]
    rcases r.finish with stop | sum
    · rfl
    · have hadd : c.addTo sum = word c.count >>= fun n => sum.plusWhole n c.measure := rfl
      show ((_ <$> word c.count) >>= _) >>= _ = (c :: cs).foldlM Component.addTo sum
      rw [List.foldlM_cons, hadd]
      rcases word c.count with stop | n
      · rfl
      · show (cs.flatMap Component.text ++ tail).foldlM Reading.step
          (.unit sum n none c.name.toList.reverse) >>= _ = sum.plusWhole n c.measure >>= _
        rw [ih (.unit _ _ _ _), finish_component]

end

/-- **Reading is adding**: a text in units is read as the sum of its components, added from the
first to the last. -/
theorem parse_text_eq (p : Phrase) : parse p.text = p.components.foldlM Component.addTo zero := by
  have hstart : readAll (p.components.flatMap Component.text ++ p.tail) =
      p.components.foldlM Component.addTo zero := by
    have hdigits := p.first.isDigit_digits
    refine Eq.trans ?_ (run_components (.between zero) p.components p.blank_tail)
    unfold readAll
    rw [Phrase.components, List.flatMap_cons, Component.text]
    rcases hds : p.first.digits with - | ⟨d, ds⟩
    · exact absurd hds p.first.digits_ne_nil
    · rw [hds] at hdigits
      simp only [List.append_assoc, List.cons_append]
      rw [run_margin_start p.first.blank_margin (hdigits d List.mem_cons_self)]
  have hne : p.text ≠ "0" := by
    intro h
    have hlist : p.components.flatMap Component.text ++ p.tail = ['0'] := by
      rw [← String.toList_ofList (l := _ ++ _)]
      exact congrArg String.toList h
    have hlength := congrArg List.length hlist
    have hdigits := List.length_pos_iff.mpr p.first.digits_ne_nil
    have hname := List.length_pos_iff.mpr (letters_of_names p.first.named).1
    simp only [Phrase.components, List.flatMap_cons, Component.text, List.length_append,
      List.length_singleton] at hlength
    omega
  unfold parse
  rw [if_neg hne, Phrase.text, String.toList_ofList, hstart]

/-! ### Additions -/

theorem subsecond_lt (s : Span) : s.subsecond < nanosPerSecond :=
  Nat.mod_lt _ (by decide)

theorem seconds_add_subsecond (s : Span) : s.seconds * nanosPerSecond + s.subsecond = s.nanos :=
  Nat.div_add_mod' _ _

/-- Above the short units a length is in whole seconds. -/
theorem nanos_of_not_isShort {u : Measure} (h : ¬u.isShort = true) :
    u.nanos = u.seconds * nanosPerSecond := by
  cases u <;> first | rfl | exact absurd rfl h

theorem nanosPerSecond_le_nanos {u : Measure} (h : ¬u.isShort = true) :
    nanosPerSecond ≤ u.nanos := by
  revert h
  cases u <;> decide

theorem nanos_pos (u : Measure) : 0 < u.nanos := by
  cases u <;> decide

theorem count_le_nanos (c : Component) : c.count ≤ c.nanos :=
  Nat.le_mul_of_pos_right _ (nanos_pos c.measure)

section

variable {sum s : Span} {seconds nanos : Nat}

/-- What is made of a number that was counted in 64 bits, other than a refusal. -/
theorem word_bind_eq_iff {α : Type} {n : Nat} {f : Nat → Result α} {x : Result α}
    (hx : x ≠ .refuse ()) : word n >>= f = x ↔ n < wordBound ∧ f n = x := by
  rcases Nat.lt_or_ge n wordBound with h | h
  · rw [word_of_lt h]
    exact (and_iff_right h).symm
  · rw [word_of_le h]
    exact iff_of_false hx.symm fun hn => absurd hn.1 (Nat.not_lt_of_le h)

theorem word_bind_eq_ok_iff {α : Type} {n : Nat} {f : Nat → Result α} {a : α} :
    word n >>= f = .ok a ↔ n < wordBound ∧ f n = .ok a :=
  word_bind_eq_iff nofun

theorem word_bind_eq_crash_iff {α : Type} {n : Nat} {f : Nat → Result α} :
    word n >>= f = .error .crash ↔ n < wordBound ∧ f n = .error .crash :=
  word_bind_eq_iff nofun

theorem exactly_eq_ok_iff {n : Nat} : exactly n = .ok s ↔ s.nanos = n := by
  unfold exactly
  constructor
  · intro h
    split at h
    · rename_i s' hs
      cases h
      exact nanos_of_ofNanos? hs
    · cases h
  · rintro rfl
    rw [ofNanos?_nanos]

theorem exactly_eq_crash_iff {n : Nat} :
    exactly n = .error .crash ↔ wordBound * nanosPerSecond ≤ n := by
  unfold exactly ofNanos?
  by_cases h : n < wordBound * nanosPerSecond
  · rw [dif_pos h]
    exact iff_of_false nofun (Nat.not_le_of_lt h)
  · rw [dif_neg h]
    exact iff_of_true rfl (Nat.le_of_not_lt h)

/-- Seconds and nanoseconds are added exactly, or not at all: where the sum does not fit, and where
the nanoseconds have no room in 64 bits. -/
theorem plus_eq_ok_iff : sum.plus seconds nanos = .ok s ↔ sum.subsecond + nanos < wordBound ∧
    s.nanos = sum.nanos + (seconds * nanosPerSecond + nanos) := by
  have hsum := sum.seconds_add_subsecond
  have hfits := s.fits
  unfold plus
  rw [word_bind_eq_ok_iff]
  refine and_congr_right fun _ => ?_
  dsimp only
  rw [word_bind_eq_ok_iff, exactly_eq_ok_iff]
  unfold nanosPerSecond wordBound at *
  split <;> omega

/-- They crash where the nanoseconds come to exactly one second, and this second is the first one
that no span has. -/
theorem plus_eq_crash_iff : sum.plus seconds nanos = .error .crash ↔
    sum.subsecond + nanos = nanosPerSecond ∧
      sum.nanos + (seconds * nanosPerSecond + nanos) = wordBound * nanosPerSecond := by
  have hsum := sum.seconds_add_subsecond
  unfold plus
  rw [word_bind_eq_crash_iff]
  dsimp only
  rw [word_bind_eq_crash_iff, exactly_eq_crash_iff]
  unfold nanosPerSecond wordBound at *
  split <;> omega

/-- So many of a unit are added exactly, or not at all: where the sum does not fit, and where those
of a short unit have no room in 64 bits of nanoseconds. -/
theorem plusWhole_eq_ok_iff {n : Nat} {u : Measure} :
    sum.plusWhole n u = .ok s ↔ (u.isShort → sum.subsecond + n * u.nanos < wordBound) ∧
      s.nanos = sum.nanos + n * u.nanos := by
  unfold plusWhole
  by_cases hu : u.isShort = true
  · rw [if_pos hu, word_bind_eq_ok_iff, plus_eq_ok_iff, Nat.zero_mul, Nat.zero_add]
    constructor
    · rintro ⟨-, hword, hsum⟩
      exact ⟨fun _ => hword, hsum⟩
    · rintro ⟨hword, hsum⟩
      exact ⟨Nat.lt_of_le_of_lt (Nat.le_add_left _ _) (hword hu), hword hu, hsum⟩
  · have hnanos : n * u.nanos = n * u.seconds * nanosPerSecond := by
      rw [nanos_of_not_isShort hu, Nat.mul_assoc]
    rw [if_neg hu, word_bind_eq_ok_iff, plus_eq_ok_iff, Nat.add_zero, Nat.add_zero, hnanos]
    constructor
    · rintro ⟨-, -, hsum⟩
      exact ⟨fun h => absurd h hu, hsum⟩
    · rintro ⟨-, hsum⟩
      refine ⟨?_, Nat.lt_trans (subsecond_lt sum) (by decide), hsum⟩
      -- the sum is a span, so there are no more seconds than fit one
      have hfits := s.fits
      apply Nat.lt_of_mul_lt_mul_right (a := nanosPerSecond)
      omega

/-- Only a short unit can crash: nothing else brings nanoseconds. -/
theorem plusWhole_eq_crash_iff {n : Nat} {u : Measure} :
    sum.plusWhole n u = .error .crash ↔ u.isShort ∧
      sum.subsecond + n * u.nanos = nanosPerSecond ∧
      sum.nanos + n * u.nanos = wordBound * nanosPerSecond := by
  unfold plusWhole
  by_cases hu : u.isShort = true
  · rw [if_pos hu, word_bind_eq_crash_iff, plus_eq_crash_iff, Nat.zero_mul, Nat.zero_add]
    refine ⟨fun h => ⟨hu, h.2⟩, fun h => ⟨?_, h.2⟩⟩
    have hle : n * u.nanos ≤ nanosPerSecond := h.2.1 ▸ Nat.le_add_left _ _
    exact Nat.lt_of_le_of_lt hle (by decide)
  · rw [if_neg hu, word_bind_eq_crash_iff, plus_eq_crash_iff]
    refine iff_of_false (fun h => ?_) fun h => hu h.1
    exact absurd h.2.1 (Nat.ne_of_lt (subsecond_lt sum))

/-- The number of a component needs no room of its own. -/
theorem addTo_eq_ok_iff {c : Component} :
    c.addTo sum = .ok s ↔ (c.measure.isShort → sum.subsecond + c.nanos < wordBound) ∧
      s.nanos = sum.nanos + c.nanos := by
  unfold Component.addTo
  rw [word_bind_eq_ok_iff, plusWhole_eq_ok_iff]
  refine ⟨And.right, fun h => ⟨?_, h⟩⟩
  obtain ⟨hword, hsum⟩ := h
  have hfits := s.fits
  by_cases hu : c.measure.isShort = true
  · have hle := count_le_nanos c
    have hroom := hword hu
    omega
  · have hle : c.count * nanosPerSecond ≤ c.nanos :=
      Nat.mul_le_mul_left _ (nanosPerSecond_le_nanos hu)
    apply Nat.lt_of_mul_lt_mul_right (a := nanosPerSecond)
    omega

theorem addTo_eq_crash_iff {c : Component} :
    c.addTo sum = .error .crash ↔ c.measure.isShort ∧ sum.subsecond + c.nanos = nanosPerSecond ∧
      sum.nanos + c.nanos = wordBound * nanosPerSecond := by
  unfold Component.addTo
  rw [word_bind_eq_crash_iff, plusWhole_eq_crash_iff]
  refine ⟨And.right, fun h => ⟨?_, h⟩⟩
  have hle : c.nanos ≤ nanosPerSecond := h.2.1 ▸ Nat.le_add_left _ _
  exact Nat.lt_of_le_of_lt ((count_le_nanos c).trans hle) (by decide)

end

/-! ### Rows of additions -/

/-- Components have room behind so many nanoseconds: those of a short unit, with what there is
below a second in front of them, have at most 64 bits. -/
def Roomy : Nat → List Component → Prop
  | _, [] => True
  | n, c :: cs =>
    (c.measure.isShort → n % nanosPerSecond + c.nanos < wordBound) ∧ Roomy (n + c.nanos) cs

/-- Components overrun behind so many nanoseconds: one of a short unit, of a second at most,
completes the first second that no span has.  Those in front of it have room. -/
def Overruns (n : Nat) (cs : List Component) : Prop :=
  ∃ front c back, cs = front ++ c :: back ∧ Roomy n front ∧ c.measure.isShort ∧ 0 < c.nanos ∧
    c.nanos ≤ nanosPerSecond ∧ n + total front + c.nanos = wordBound * nanosPerSecond

/-- Where all components of short units leave room for a second, all have room. -/
theorem roomy_of_forall {cs : List Component}
    (h : ∀ c ∈ cs, c.measure.isShort → nanosPerSecond + c.nanos ≤ wordBound) (n : Nat) :
    Roomy n cs := by
  induction cs generalizing n with
  | nil => trivial
  | cons c cs ih =>
    obtain ⟨hc, hcs⟩ := List.forall_mem_cons.mp h
    refine ⟨fun hu => ?_, ih hcs _⟩
    have hsub : n % nanosPerSecond < nanosPerSecond := Nat.mod_lt _ (by decide)
    have hroom := hc hu
    omega

/-- Beyond a second, 64 bits have room for 63 bits of nanoseconds. -/
theorem nanosPerSecond_add_le {n : Nat} (h : n < 2 ^ 63) : nanosPerSecond + n ≤ wordBound := by
  unfold nanosPerSecond wordBound
  omega

/-- A component completes a second beyond all spans if the nanoseconds around it say so. -/
theorem overrun_iff {n m : Nat} (hn : n < wordBound * nanosPerSecond) :
    n % nanosPerSecond + m = nanosPerSecond ∧ n + m = wordBound * nanosPerSecond ↔
      0 < m ∧ m ≤ nanosPerSecond ∧ n + m = wordBound * nanosPerSecond := by
  unfold nanosPerSecond wordBound at *
  omega

section

variable {sum s : Span}

/-- A row of additions is exact, or not made at all. -/
theorem addAll_eq_ok_iff {cs : List Component} :
    cs.foldlM Component.addTo sum = .ok s ↔
      Roomy sum.nanos cs ∧ s.nanos = sum.nanos + total cs := by
  induction cs generalizing sum with
  | nil =>
    show Except.ok sum = .ok s ↔ True ∧ s.nanos = sum.nanos + 0
    rw [true_and, Nat.add_zero, Except.ok.injEq, eq_comm, Span.mk.injEq]
  | cons c cs ih =>
    rw [List.foldlM_cons, total_cons, ← Nat.add_assoc]
    constructor
    · intro h
      obtain ⟨next, hnext, hrest⟩ := exists_of_bind_ok h
      obtain ⟨hroom, hnanos⟩ := addTo_eq_ok_iff.mp hnext
      rw [ih, hnanos] at hrest
      exact ⟨⟨hroom, hrest.1⟩, hrest.2⟩
    · rintro ⟨⟨hroom, hrest⟩, hsum⟩
      have hfits : sum.nanos + c.nanos < wordBound * nanosPerSecond :=
        Nat.lt_of_le_of_lt (hsum ▸ Nat.le_add_right _ _) s.fits
      have hnext : c.addTo sum = .ok ⟨_, hfits⟩ := addTo_eq_ok_iff.mpr ⟨hroom, rfl⟩
      rw [hnext]
      exact ih.mpr ⟨hrest, hsum⟩

/-- It crashes where the components overrun. -/
theorem addAll_eq_crash_iff {cs : List Component} :
    cs.foldlM Component.addTo sum = .error .crash ↔ Overruns sum.nanos cs := by
  induction cs generalizing sum with
  | nil =>
    refine iff_of_false nofun ?_
    rintro ⟨front, c, back, h, -⟩
    simp at h
  | cons c cs ih =>
    rw [List.foldlM_cons]
    constructor
    · intro h
      rcases hnext : c.addTo sum with stop | next
      · -- the first component crashes
        rw [hnext] at h
        cases h
        obtain ⟨hu, hboth⟩ := addTo_eq_crash_iff.mp hnext
        obtain ⟨hpos, hle, hsum⟩ := (overrun_iff sum.fits).mp hboth
        exact ⟨[], c, cs, rfl, trivial, hu, hpos, hle, hsum⟩
      · rw [hnext] at h
        obtain ⟨hroom, hnanos⟩ := addTo_eq_ok_iff.mp hnext
        obtain ⟨front, c', back, rfl, hfront, hrest⟩ := ih.mp h
        rw [hnanos] at hfront hrest
        refine ⟨c :: front, c', back, rfl, ⟨hroom, hfront⟩, ?_⟩
        rwa [total_cons, ← Nat.add_assoc]
    · rintro ⟨front, c', back, hcs, hfront, hrest⟩
      obtain ⟨hu, hpos, hle, hsum⟩ := hrest
      rcases front with - | ⟨first, front⟩
      · cases hcs
        have hcrash : c.addTo sum = .error .crash :=
          addTo_eq_crash_iff.mpr ⟨hu, (overrun_iff sum.fits).mpr ⟨hpos, hle, hsum⟩⟩
        rw [hcrash]
        rfl
      · cases hcs
        rw [total_cons, ← Nat.add_assoc] at hsum
        have hfits : sum.nanos + c.nanos < wordBound * nanosPerSecond := by omega
        have hnext : c.addTo sum = .ok ⟨_, hfits⟩ := addTo_eq_ok_iff.mpr ⟨hfront.1, rfl⟩
        rw [hnext]
        exact ih.mpr ⟨front, c', back, rfl, hfront.2, hu, hpos, hle, hsum⟩

end

/-! ### Texts in units -/

namespace Phrase

variable {p : Phrase} {s : Span}

/-- A text in units is read just if all components have room, and then as its sum. -/
theorem parse_eq_ok_iff : parse p.text = .ok s ↔ Roomy 0 p.components ∧ s.nanos = p.nanos := by
  rw [parse_text_eq, addAll_eq_ok_iff, nanos_zero, Nat.zero_add, nanos]

/-- It crashes just if the components overrun. -/
theorem parse_eq_crash_iff : parse p.text = .error .crash ↔ Overruns 0 p.components := by
  rw [parse_text_eq, addAll_eq_crash_iff, nanos_zero]

/-- What is read is the sum. -/
theorem nanos_of_parse (h : parse p.text = .ok s) : s.nanos = p.nanos := (parse_eq_ok_iff.mp h).2

/-- A sum below 63 bits of nanoseconds is read. -/
theorem exists_parse (h : p.nanos < 2 ^ 63) : ∃ s, parse p.text = .ok s ∧ s.nanos = p.nanos := by
  have hroom : Roomy 0 p.components := roomy_of_forall (fun c hc _ =>
    nanosPerSecond_add_le (Nat.lt_of_le_of_lt (nanos_le_total hc) h)) 0
  have hfits : p.nanos < wordBound * nanosPerSecond := Nat.lt_trans h (by decide)
  exact ⟨⟨_, hfits⟩, parse_eq_ok_iff.mpr ⟨hroom, rfl⟩, rfl⟩

/-- A sum that does not fit a span is not read. -/
theorem parse_ne_ok (h : wordBound * nanosPerSecond ≤ p.nanos) (s : Span) :
    parse p.text ≠ .ok s := by
  intro hread
  have hsum := nanos_of_parse hread
  exact absurd s.fits (Nat.not_lt_of_le (hsum ▸ h))

/-- It is refused, unless the components overrun. -/
theorem parse_eq_refuse (h : wordBound * nanosPerSecond ≤ p.nanos)
    (hover : ¬Overruns 0 p.components) : parse p.text = .refuse () := by
  rcases hread : parse p.text with (- | -) | s
  · rfl
  · exact absurd (parse_eq_crash_iff.mp hread) hover
  · exact absurd hread (parse_ne_ok h s)

/-- Components that overrun have a sum that does not fit. -/
theorem le_of_overruns (h : Overruns 0 p.components) : wordBound * nanosPerSecond ≤ p.nanos := by
  obtain ⟨front, c, back, hcs, -, -, -, -, hsum⟩ := h
  calc wordBound * nanosPerSecond = 0 + total front + c.nanos := hsum.symm
    _ ≤ total (front ++ c :: back) := by
        simp only [total, List.map_append, List.sum_append, List.map_cons, List.sum_cons]
        omega
    _ = p.nanos := by rw [← hcs, nanos]

end Phrase

end CacheWarden.Span
