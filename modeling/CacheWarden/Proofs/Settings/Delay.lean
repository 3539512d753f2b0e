import CacheWarden.Proofs.Settings.Crash
/-!
Delays between documents and settings.

Two laws.  A text in units means exactly its sum, or there is no span: it is refused, or it
crashes where the components overrun (`Phrase.denotes`), which a sum that does not fit may do
(`Phrase.crash_lastSecond`).  And what a span is written as is read as this span again
(`lossless`).
-/

namespace CacheWarden

open Yaml (Node Compact Printable)

/-! ### Texts in units -/

/-- The texts that stand for none. -/
def absentTexts : List String := ["", "null", "Null", "NULL", "~"]

theorem mem_of_isAbsent {text : String} (h : IsAbsent text) : text ∈ absentTexts := by
  simpa [IsAbsent, Yaml.isNull, absentTexts, or_assoc] using h

namespace Span

open Text

/-- A text that is read as a span does not stand for none. -/
theorem not_isAbsent_of_parse {text : String} {s : Span} (h : parse text = .ok s) :
    ¬IsAbsent text := by
  have hnone : ∀ t ∈ absentTexts, parse t = .refuse () := by decide
  intro habsent
  rw [hnone text (mem_of_isAbsent habsent)] at h
  cases h

/-- A text in units has digits, so it does not stand for none either. -/
theorem Phrase.not_isAbsent (p : Phrase) : ¬IsAbsent p.text := by
  have hdigits : (absentTexts.all fun t => !t.toList.any isDigit) = true := by decide
  intro habsent
  obtain ⟨c, hc⟩ := List.exists_mem_of_ne_nil _ p.first.digits_ne_nil
  have hmem : c ∈ p.text.toList := by
    simp [Phrase.text, Phrase.components, Component.text, hc]
  have hany : p.text.toList.any isDigit = true :=
    List.any_eq_true.mpr ⟨c, hmem, p.first.isDigit_digits c hc⟩
  have hnone := List.all_eq_true.mp hdigits p.text (mem_of_isAbsent habsent)
  rw [hany] at hnone
  cases hnone

/-- What a text in units says, to the reader of spans and in a field. -/
structure Denotes (p : Phrase) : Prop where
  /-- A span that is read is exactly the sum. -/
  exact : ∀ s, parse p.text = .ok s → s.nanos = p.nanos
  /-- A sum below 63 bits of nanoseconds is read. -/
  accepted : p.nanos < 2 ^ 63 → ∃ s, parse p.text = .ok s
  /-- A sum that does not fit a span is refused, unless the components overrun. -/
  refused : wordBound * nanosPerSecond ≤ p.nanos → ¬Overruns 0 p.components →
    parse p.text = .refuse ()
  /-- Just where they overrun the reader crashes. -/
  crashed : parse p.text = .error .crash ↔ Overruns 0 p.components
  /-- They do so only in a sum that does not fit. -/
  overrun : Overruns 0 p.components → wordBound * nanosPerSecond ≤ p.nanos
  /-- A field that may be absent has the sum. -/
  decoded : ∀ d outer path mark tag style, tag ≠ some (Yaml.coreTag "null") → p.nanos < 2 ^ 63 →
    ∃ s, Decode.optional d outer (Decode.span d path) (.scalar mark tag p.text style) =
      .ok (some s) ∧ s.nanos = p.nanos
  /-- Settings that are accepted store neither less nor more. -/
  kept : ∀ x d field c, Yaml.parse x = .ok d → d.Gives field p.text → Settings.parse x = .ok c →
    ∃ s, field.stored? c = some s ∧ s.nanos = p.nanos
  /-- The delay between two clears is refused as zero just where the sum is. -/
  zeroDelay : ∀ x d, Yaml.parse x = .ok d → d.Gives .fixedDelay p.text →
    (Settings.parse x = .error (.refusal .zeroDelay) ↔
      (∃ c, Settings.ofDocument d = .ok c) ∧ p.nanos = 0)
  /-- No settings have a sum that does not fit.  The document is refused, or there is a text in it
  that crashes. -/
  tooLarge : ∀ x d field, Yaml.parse x = .ok d → d.Gives field p.text →
    wordBound * nanosPerSecond ≤ p.nanos →
    (∃ m, Settings.parse x = .error (.refusal (.misfit m))) ∨
      Settings.parse x = .error .crash ∧
        ∃ field' text, d.Gives field' text ∧ parse text = .error .crash

/-- **A text in units means its sum, or there is no span.**  This holds for components in any order,
as many as there are, and for numbers of any length. -/
theorem Phrase.denotes (p : Phrase) : Denotes p where
  exact s h := nanos_of_parse h
  accepted h := by
    obtain ⟨s, hs, -⟩ := exists_parse h
    exact ⟨s, hs⟩
  refused h hover := parse_eq_refuse h hover
  crashed := parse_eq_crash_iff
  overrun h := le_of_overruns h
  decoded d outer path mark tag style htag h := by
    obtain ⟨s, hs, hsum⟩ := exists_parse h
    exact ⟨s, Decode.optional_of_text hs p.not_isAbsent htag mark style, hsum⟩
  kept x d field c hx hgives hc := by
    obtain ⟨s, hs, hstored⟩ := Settings.stored?_of_parse hx hgives p.not_isAbsent hc
    exact ⟨s, hstored, nanos_of_parse hs⟩
  zeroDelay x d hx hgives := by
    rw [Settings.parse_eq_zeroDelay_iff hx hgives p.not_isAbsent]
    refine and_congr_right fun _ => ⟨fun hs => (nanos_of_parse hs).symm, fun hsum => ?_⟩
    -- zero is short enough to be read, whatever the components are
    obtain ⟨⟨n, hn⟩, hs, hnanos⟩ := exists_parse (p := p) (by omega)
    obtain rfl : n = 0 := hnanos.trans hsum
    exact hs
  tooLarge x d field hx hgives h := by
    refine (Settings.parse_of_parse_ne_ok hx hgives p.not_isAbsent (parse_ne_ok h)).imp_right ?_
    intro hcrash
    obtain ⟨field', text, hgives', htext⟩ := Settings.gives_of_parse_crash hcrash
    rw [hx] at hgives'
    exact ⟨hcrash, field', text, hgives', htext⟩

/-- The most seconds that a span has, and nanoseconds of one more. -/
def lastSecond : Phrase := phrase ⟨wordBound - 1, .second⟩ [⟨nanosPerSecond, .nanosecond⟩]

/-- **A sum that does not fit is not always refused**: this one crashes, and so do settings with
it. -/
theorem Phrase.crash_lastSecond : lastSecond.text = "18446744073709551615s 1000000000ns" ∧
    lastSecond.nanos = wordBound * nanosPerSecond ∧ parse lastSecond.text = .error .crash ∧
    Settings.parse ("app:\n  env: dev\n  shutdown:\n    timeout: " ++ lastSecond.text ++ "\n") =
      .error .crash := by
  have htext : lastSecond.text = "18446744073709551615s 1000000000ns" := by
    rw [lastSecond, text_phrase]
    cbv
  have hnanos : lastSecond.nanos = wordBound * nanosPerSecond := by
    rw [lastSecond, nanos_phrase]
    rfl
  rw [htext]
  exact ⟨rfl, hnanos, by cbv, by cbv⟩

example : parse "1h 1h90 s  0500ms" = .ok ⟨7290500000000, by decide⟩ := by cbv

example : Settings.parse "app:\n  env: a\n  eviction:\n    enabled: true\n    fixed_delay: 0m 00s" =
    .error (.refusal .zeroDelay) := by cbv

end Span

/-! ### Spans as they are written -/

namespace Yaml.Compact

/-- Entries that are shown stand under their names. -/
theorem exists_of_entriesShow {es : List (String × Compact)} {ns : List (Node × Node)}
    (h : EntriesShow es ns) {e : String × Compact} (he : e ∈ es) :
    ∃ mark value, (.scalar mark none e.1 .double, value) ∈ ns ∧ e.2.Shows value := by
  induction es generalizing ns with
  | nil => cases he
  | cons first es ih =>
    obtain ⟨mark, value, rest, rfl, hshows, hrest⟩ := h
    rcases List.mem_cons.mp he with rfl | he
    · exact ⟨mark, value, List.mem_cons_self, hshows⟩
    · obtain ⟨mark', value', hmem, hvalue⟩ := ih hrest he
      exact ⟨mark', value', List.mem_cons_of_mem _ hmem, hvalue⟩

/-- A node that shows a mapping holds what shows its values. -/
theorem holds_of_shows {d : Document} {es : List (String × Compact)} {node : Node}
    (h : (mapping es).Shows node) {e : String × Compact} (he : e ∈ es) :
    ∃ value, d.Holds node e.1 value ∧ e.2.Shows value := by
  obtain ⟨mark, ns, rfl, hentries⟩ := h
  obtain ⟨keyMark, value, hmem, hshows⟩ := exists_of_entriesShow hentries he
  exact ⟨value, ⟨mark, ns, _, keyMark, none, .double, .here _, hmem, .here _⟩, hshows⟩

end Yaml.Compact

namespace Settings

variable {s : Settings} {field : DelayField} {delay : Span}

/-- Settings whose own texts are printable. -/
structure Legible (s : Settings) : Prop where
  env : Printable s.env.toList
  level : ∀ level ∈ s.level?, Printable level.toList

/-- The document of settings has a span that they store, in the section of its field. -/
theorem mem_of_stored? (h : field.stored? s = some delay) :
    ∃ es sec es', s.sections = .mapping es ∧ (field.sectionName, sec) ∈ es ∧
      sec = .mapping es' ∧ (field.name, delay.compact) ∈ es' := by
  cases field with
  | initialDelay | fixedDelay =>
    obtain ⟨e, he, hdelay⟩ := Option.bind_eq_some_iff.mp h
    -- eviction is the third of the sections, shutdown the last
    have hsec := congrArg (Compact.optional Eviction.compact) he
    refine ⟨_, _, _, rfl, List.mem_of_getElem? (i := 2) rfl, hsec.trans rfl, ?_⟩
    simp [DelayField.name, hdelay, Compact.optional]
  | timeout =>
    obtain ⟨t, ht, hdelay⟩ := Option.bind_eq_some_iff.mp h
    have hsec := congrArg (Compact.optional Shutdown.compact) ht
    refine ⟨_, _, _, rfl, List.mem_of_getElem? (i := 4) rfl, hsec.trans rfl, ?_⟩
    simp [DelayField.name, hdelay, Compact.optional]

/-- A document that shows settings gives the text of a span to the field that they store it in. -/
theorem gives_of_shows {d : Yaml.Document} (hd : s.compact.Shows d.root)
    (h : field.stored? s = some delay) : d.Gives field delay.text := by
  obtain ⟨es, sec, es', hsections, hsec, rfl, hvalue⟩ := mem_of_stored? h
  obtain ⟨app, happ, hshows⟩ := Compact.holds_of_shows hd List.mem_cons_self
  rw [hsections] at hshows
  obtain ⟨node, hnode, hshows⟩ := Compact.holds_of_shows hshows hsec
  obtain ⟨value, hvalue, mark, rfl⟩ := Compact.holds_of_shows hshows hvalue
  exact ⟨app, node, _, mark, none, .double, happ, hnode, hvalue, .here _⟩

/-- The text of legible settings is that of a document which holds them, with the spans where they
store them. -/
theorem exists_of_legible (hs : s.Legible) :
    ∃ d, Yaml.parse s.json = .ok d ∧ ofDocument d = .ok s ∧
      ∀ field delay, field.stored? s = some delay → d.Gives field delay.text := by
  obtain ⟨d, hd, hshows⟩ := Yaml.parse_text (fits_compact hs.env hs.level)
  refine ⟨d, ?_, ofDocument_eq hshows, fun field delay h => gives_of_shows hshows h⟩
  rw [json_eq]
  exact hd

end Settings

namespace Span

/-- The first ones of graded parts are read as what they amount to. -/
theorem parse_front {ps front : List Part} (h : Graded ps)
    (hfits : sum ps < wordBound * nanosPerSecond) (hfront : front <+: ps) (hne : front ≠ []) :
    ∃ s, parse (spaced front) = .ok s ∧ s.nanos = sum front := by
  obtain ⟨back, rfl⟩ := hfront
  have hsum : sum (front ++ back) = sum front + sum back := by simp [sum]
  rcases front with - | ⟨p, ps⟩
  · exact absurd rfl hne
  · have hshort : ∀ q ∈ p :: ps, q.measure.isShort → q.nanos < nanosPerSecond :=
      fun q hq => h.nanos_lt q (List.mem_append_left back hq)
    have hle : sum (p :: ps) ≤ sum (p :: ps ++ back) := hsum ▸ Nat.le_add_right _ _
    exact ⟨_, parse_spaced hshort (Nat.lt_of_le_of_lt hle hfits), rfl⟩

/-- What becomes of a span that is written and read, as a text and in a field. -/
structure Lossless (s : Span) : Prop where
  /-- Zero has a text of its own. -/
  zero : s = Span.zero → s.text = "0s"
  /-- Any other span is written in graded parts, which amount to it, and as far as one reads them
  the sum is one that fits. -/
  written : s ≠ Span.zero → ∃ ps, Graded ps ∧ sum ps = s.nanos ∧ s.text = spaced ps ∧
    ∀ front, front <+: ps → front ≠ [] →
      ∃ t, parse (spaced front) = .ok t ∧ t.nanos = sum front
  /-- The text is read as the span. -/
  read : parse s.text = .ok s
  /-- A field that may be absent has the span. -/
  decoded : ∀ d outer path mark tag style, tag ≠ some (Yaml.coreTag "null") →
    Decode.optional d outer (Decode.span d path) (.scalar mark tag s.text style) = .ok (some s)
  /-- Settings write the text into each field that stores the span, and stay as they are in the
  document. -/
  stored : ∀ (c : Settings) (field : DelayField), c.Legible → field.stored? c = some s →
    ∃ d, Yaml.parse c.json = .ok d ∧ d.Gives field s.text ∧ Settings.ofDocument d = .ok c
  /-- The field has the span again when settings are read back that may be read at all. -/
  returned : ∀ (c : Settings) (field : DelayField), c.Legible → field.stored? c = some s →
    ¬c.StoresZero → ∃ c', Settings.parse c.json = .ok c' ∧ field.stored? c' = some s
  /-- As the delay between two clears just zero is refused, and nothing crashes. -/
  refused : ∀ c : Settings, c.Legible → DelayField.fixedDelay.stored? c = some s →
    ∀ stop, Settings.parse c.json = .error stop ↔ stop = .refusal .zeroDelay ∧ s = Span.zero
  /-- Whatever settings the text is part of, the field has the span. -/
  kept : ∀ x d field c, Yaml.parse x = .ok d → d.Gives field s.text → Settings.parse x = .ok c →
    field.stored? c = some s
  /-- Whatever settings the text is part of, just zero is refused as the delay between two
  clears. -/
  zeroDelay : ∀ x d, Yaml.parse x = .ok d → d.Gives .fixedDelay s.text →
    (Settings.parse x = .error (.refusal .zeroDelay) ↔
      (∃ c, Settings.ofDocument d = .ok c) ∧ s = Span.zero)

/-- **Spans are written and read without loss**, each of them and in each field. -/
theorem lossless (s : Span) : Lossless s where
  zero h := by
    rw [h]
    rfl
  written h := by
    have hzero : s.isZero = false := Bool.eq_false_iff.mpr (mt isZero_iff.mp h)
    have hfits : sum s.parts < wordBound * nanosPerSecond := s.sum_parts ▸ s.fits
    refine ⟨s.parts, s.graded_parts, s.sum_parts, text_eq hzero, fun front hfront hne => ?_⟩
    exact parse_front s.graded_parts hfits hfront hne
  read := parse_text s
  decoded d outer path mark tag style htag :=
    have hread := parse_text s
    Decode.optional_of_text hread (not_isAbsent_of_parse hread) htag mark style
  stored c field hc h := by
    obtain ⟨d, hd, hsame, hgives⟩ := Settings.exists_of_legible hc
    exact ⟨d, hd, hgives field s h, hsame⟩
  returned c field hc h hzero := by
    refine ⟨c.completed, ?_, field.stored?_completed h⟩
    rw [Settings.parse_json hc.env hc.level]
    exact Settings.checked_eq_ok.mpr ⟨hzero, rfl⟩
  refused c hc h stop := by
    rw [Settings.parse_json hc.env hc.level]
    simp [Settings.checked_eq_error, DelayField.storesZero_iff, h]
  kept x d field c hx hgives hc := by
    have habsent := not_isAbsent_of_parse (parse_text s)
    obtain ⟨s', hs', hstored⟩ := Settings.stored?_of_parse hx hgives habsent hc
    rw [parse_text] at hs'
    rw [hstored, Except.ok.inj hs']
  zeroDelay x d hx hgives := by
    have habsent := not_isAbsent_of_parse (parse_text s)
    rw [Settings.parse_eq_zeroDelay_iff hx hgives habsent, parse_text, Except.ok.injEq]

/-- The longest span. -/
example : (⟨wordBound * nanosPerSecond - 1, by decide⟩ : Span).text =
    "584542046090years 7months 15days 17h 5m 3s 999ms 999us 999ns" := by cbv

end Span

end CacheWarden
