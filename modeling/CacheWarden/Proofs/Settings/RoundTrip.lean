import CacheWarden.Proofs.Settings.Document
import CacheWarden.Proofs.Yaml.Composing
import CacheWarden.Settings.Reader
import CacheWarden.Settings.Schedule
/-!
Settings are read back as they are written.

The text of settings is that of a compact document, whose root shows it again once it is
parsed.  Each section is read off such a node as it was (`Decode.sections_eq`), so the
settings come to the check on the way in unchanged (`Settings.parse_json`).  What the check
refuses and what it fills in is then all that a round trip can do (`Settings.roundTrip`).
-/

namespace CacheWarden

open Yaml (Node Compact Printable)

namespace Decode

variable {d : Yaml.Document} {path : List String} {outer : Site} {n : Node}

/-! ### Values -/

theorem text_quoted {t : String} (h : (Compact.quoted t).Shows n) : text d path n = .ok t := by
  obtain ⟨m, rfl⟩ := h
  rfl

theorem bool_eq {b : Bool} (h : (Compact.bool b).Shows n) : bool d path n = .ok b := by
  obtain ⟨m, rfl⟩ := h
  cases b with
  | false => rfl
  | true => rfl

theorem span_eq {s : Span} (h : s.compact.Shows n) : span d path n = .ok s := by
  obtain ⟨m, rfl⟩ := h
  simp only [span, string, follow, bind, Except.bind, Span.parse_text]
  rfl

theorem address_eq {a : Address} (h : a.compact.Shows n) : address d path n = .ok a := by
  obtain ⟨m, rfl⟩ := h
  simp only [address, string, follow, bind, Except.bind, Address.parse?_text]
  rfl

/-- A value is present if it is not a word; the word for none is null. -/
theorem optional_eq {α : Type} {f : α → Compact} (hf : ∀ a w, f a ≠ .word w)
    {read : Node → Result α} (hread : ∀ a n, (f a).Shows n → read n = .ok a) {o : Option α}
    (h : (Compact.optional f o).Shows n) : optional d outer read n = .ok o := by
  cases o with
  | none =>
    obtain ⟨m, rfl⟩ := h
    rfl
  | some a =>
    have hfollow : optional d outer read n = some <$> read n := by
      rcases hfa : f a with w | t | es
      · exact absurd hfa (hf a w)
      · rw [Compact.optional, hfa] at h
        obtain ⟨m, rfl⟩ := h
        rfl
      · rw [Compact.optional, hfa] at h
        obtain ⟨m, ns, rfl, -⟩ := h
        rfl
    rw [hfollow, hread a n h]
    rfl

/-! ### Fields -/

/-- A known field that has not come yet is read. -/
theorem fields_cons {α : Type} {known seen : List String} {name : String} {m : Yaml.Mark}
    {rest : List (Node × Node)} {read : Field → α → Result α} {a b : α}
    (hknown : known.contains name = true) (hseen : seen.contains name = false)
    (hread : read ⟨name, outer.path ++ [name], n⟩ a = .ok b) :
    fields d outer known read seen a ((.scalar m none name .double, n) :: rest) =
      fields d outer known read (name :: seen) b rest := by
  rw [fields]
  show (if known.contains name = true then if seen.contains name = true then _ else
    read ⟨name, outer.path ++ [name], n⟩ a >>= fun a =>
      fields d outer known read (name :: seen) a rest
      else _) = _
  rw [if_pos hknown, if_neg (by rw [hseen]; decide), hread]
  rfl

/-! ### Sections -/

theorem optional_span {o : Option Span} (h : (Compact.optional Span.compact o).Shows n) :
    optional d outer (span d path) n = .ok o :=
  optional_eq (fun _ _ h => by cases h) (fun _ _ => span_eq) h

theorem logs_eq {l : Logs} (h : l.compact.Shows n) : logs d path n = .ok l := by
  obtain ⟨m, ns, rfl, m₁, n₁, ns, rfl, hlevel, rfl⟩ := h
  show fields d ⟨path, m⟩ _ _ _ _ _ = _
  rw [fields_cons rfl rfl (b := l)]
  · rfl
  · show (optional d _ (text d _) n₁ >>= _) = _
    rw [optional_eq (fun _ _ h => by cases h) (fun _ _ => text_quoted) hlevel]
    rfl

theorem eviction_eq {e : Eviction} (h : e.compact.Shows n) : eviction d path n = .ok e := by
  obtain ⟨m, ns, rfl, m₁, n₁, ns, rfl, henabled, m₂, n₂, ns, rfl, hinitial, m₃, n₃, ns, rfl, hfixed,
    rfl⟩ := h
  show (fields d ⟨path, m⟩ _ _ _ _ _ >>= _) = _
  rw [fields_cons rfl rfl (b := ⟨some e.enabled, none, none⟩),
    fields_cons rfl rfl (b := ⟨some e.enabled, e.initialDelay, none⟩),
    fields_cons rfl rfl (b := ⟨some e.enabled, e.initialDelay, e.fixedDelay⟩)]
  · rfl
  · show (optional d _ (span d _) n₃ >>= _) = _
    rw [optional_span hfixed]
    rfl
  · show (optional d _ (span d _) n₂ >>= _) = _
    rw [optional_span hinitial]
    rfl
  · show (bool d _ n₁ >>= _) = _
    rw [bool_eq henabled]
    rfl

theorem metrics_eq {e : Metrics} (h : e.compact.Shows n) : metrics d path n = .ok e := by
  obtain ⟨m, ns, rfl, m₁, n₁, ns, rfl, henabled, m₂, n₂, ns, rfl, hlisten, rfl⟩ := h
  show (fields d ⟨path, m⟩ _ _ _ _ _ >>= _) = _
  rw [fields_cons rfl rfl (b := ⟨some e.enabled, none⟩),
    fields_cons rfl rfl (b := ⟨some e.enabled, e.listen⟩)]
  · rfl
  · show (optional d _ (address d _) n₂ >>= _) = _
    rw [optional_eq (fun _ _ h => by cases h) (fun _ _ => address_eq) hlisten]
    rfl
  · show (bool d _ n₁ >>= _) = _
    rw [bool_eq henabled]
    rfl

theorem shutdown_eq {s : Shutdown} (h : s.compact.Shows n) : shutdown d path n = .ok s := by
  obtain ⟨m, ns, rfl, m₁, n₁, ns, rfl, htimeout, rfl⟩ := h
  show fields d ⟨path, m⟩ _ _ _ _ _ = _
  rw [fields_cons rfl rfl (b := s)]
  · rfl
  · show (optional d _ (span d _) n₁ >>= _) = _
    rw [optional_span htimeout]
    rfl

theorem sections_eq {s : Settings} (h : s.sections.Shows n) : sections d path n = .ok s := by
  obtain ⟨m, ns, rfl, m₁, n₁, ns, rfl, henv, m₂, n₂, ns, rfl, hlogs, m₃, n₃, ns, rfl, heviction,
    m₄, n₄, ns, rfl, hmetrics, m₅, n₅, ns, rfl, hshutdown, rfl⟩ := h
  show (fields d ⟨path, m⟩ _ _ _ _ _ >>= _) = _
  rw [fields_cons rfl rfl (b := ⟨some s.env, none, none, none, none⟩),
    fields_cons rfl rfl (b := ⟨some s.env, s.logs, none, none, none⟩),
    fields_cons rfl rfl (b := ⟨some s.env, s.logs, s.eviction, none, none⟩),
    fields_cons rfl rfl (b := ⟨some s.env, s.logs, s.eviction, s.metrics, none⟩),
    fields_cons rfl rfl (b := ⟨some s.env, s.logs, s.eviction, s.metrics, s.shutdown⟩)]
  · rfl
  · show (optional d _ (shutdown d _) n₅ >>= _) = _
    rw [optional_eq (fun _ _ h => by cases h) (fun _ _ => shutdown_eq) hshutdown]
    rfl
  · show (optional d _ (metrics d _) n₄ >>= _) = _
    rw [optional_eq (fun _ _ h => by cases h) (fun _ _ => metrics_eq) hmetrics]
    rfl
  · show (optional d _ (eviction d _) n₃ >>= _) = _
    rw [optional_eq (fun _ _ h => by cases h) (fun _ _ => eviction_eq) heviction]
    rfl
  · show (optional d _ (logs d _) n₂ >>= _) = _
    rw [optional_eq (fun _ _ h => by cases h) (fun _ _ => logs_eq) hlogs]
    rfl
  · show (text d _ n₁ >>= _) = _
    rw [text_quoted henv]
    rfl

end Decode

namespace Settings

/-- A document that shows settings holds them. -/
theorem ofDocument_eq {s : Settings} {d : Yaml.Document} (h : s.compact.Shows d.root) :
    ofDocument d = .ok s := by
  obtain ⟨root, anchored⟩ := d
  obtain ⟨m, ns, rfl, m₁, n₁, ns, rfl, happ, rfl⟩ := h
  show (Decode.fields _ ⟨[], m⟩ _ _ _ _ _ >>= _) = _
  rw [Decode.fields_cons rfl rfl (b := some s)]
  · rfl
  · show (Decode.sections _ _ n₁ >>= _) = _
    rw [Decode.sections_eq happ]
    rfl

/-- The text of settings is read as they are, and then checked. -/
theorem parse_json {s : Settings} (henv : Printable s.env.toList)
    (hlevel : ∀ level ∈ s.level?, Printable level.toList) : parse s.json = s.checked := by
  obtain ⟨d, hparse, hd⟩ := Yaml.parse_text (fits_compact henv hlevel)
  rw [json_eq, compact, parse_of_document hparse]
  unfold load
  rw [ofDocument_eq hd]

/-! ### The check on the way in -/

/-- A delay of zero between two clears is stored. -/
def StoresZero (s : Settings) : Prop :=
  ∃ e, s.eviction = some e ∧ e.fixedDelay = some Span.zero

theorem isSpinning_completed {s : Settings} : s.completed.isSpinning = true ↔ s.StoresZero := by
  obtain ⟨env, logs, eviction, metrics, shutdown⟩ := s
  rcases eviction with - | ⟨enabled, initial, fixed⟩
  · have hdefault : ¬Eviction.default.completed.fixed.isZero = true := by decide
    refine iff_of_false hdefault ?_
    rintro ⟨e, he, -⟩
    cases he
  · show (fixed.getD Eviction.defaultDelay).isZero = true ↔ _
    rw [Span.isZero_iff]
    constructor
    · intro h
      refine ⟨_, rfl, ?_⟩
      cases fixed with
      | none => exact absurd h (by decide)
      | some delay => exact congrArg some h
    · rintro ⟨e, he, hfixed⟩
      cases he
      rw [show fixed = some Span.zero from hfixed]
      rfl

/-- Completed settings are complete. -/
theorem completed_completed (s : Settings) : s.completed.completed = s.completed := rfl

theorem checked_eq_error {s : Settings} {stop : Stop SettingsError} :
    s.checked = .error stop ↔ stop = .refusal .zeroDelay ∧ s.StoresZero := by
  unfold checked
  rw [← isSpinning_completed]
  split
  · rename_i hspin
    simp [hspin, Attempt.refuse, eq_comm]
  · rename_i hspin
    simp [hspin]

theorem checked_eq_ok {s s' : Settings} :
    s.checked = .ok s' ↔ ¬s.StoresZero ∧ s' = s.completed := by
  unfold checked
  rw [← isSpinning_completed]
  split
  · rename_i hspin
    simp [hspin, Attempt.refuse]
  · rename_i hspin
    simp [hspin, eq_comm]

/-- Settings that were read are as they are after the check. -/
theorem checked_of_parse {text : String} {s : Settings} (h : parse text = .ok s) :
    s.checked = .ok s := by
  obtain ⟨d, -, hload⟩ := exists_document h
  unfold load at hload
  split at hload
  · cases hload
  · rename_i s₀ _
    obtain ⟨hzero, rfl⟩ := checked_eq_ok.mp hload
    refine checked_eq_ok.mpr ⟨?_, s₀.completed_completed.symm⟩
    rwa [← isSpinning_completed, completed_completed, isSpinning_completed]

/-! ### The round trip -/

/-- Settings with an eviction section in which both delays are filled in: where there was
none it has the defaults, and where there was one only absent delays become them. -/
structure Filled (s s' : Settings) : Prop where
  env : s'.env = s.env
  logs : s'.logs = s.logs
  metrics : s'.metrics = s.metrics
  shutdown : s'.shutdown = s.shutdown
  absent : s.eviction = none →
    s'.eviction = some ⟨true, some (Span.ofSeconds 10), some (Span.ofSeconds 10)⟩
  present : ∀ e, s.eviction = some e →
    s'.eviction = some ⟨e.enabled, some (e.initialDelay.getD (Span.ofSeconds 10)),
      some (e.fixedDelay.getD (Span.ofSeconds 10))⟩

/-- All questions have the same answers. -/
structure SameAnswers (s s' : Settings) : Prop where
  isProd : s'.isProd = s.isProd
  isTest : s'.isTest = s.isTest
  level : s'.level? = s.level?
  isEvictionEnabled : s'.isEvictionEnabled = s.isEvictionEnabled
  isMetricsEnabled : s'.isMetricsEnabled = s.isMetricsEnabled
  metricsListen : s'.metricsListen = s.metricsListen
  shutdownTimeout : s'.shutdownTimeout = s.shutdownTimeout
  worker : Worker.ofSettings s' = Worker.ofSettings s

/-- What becomes of settings that are written and read. -/
structure RoundTrip (s : Settings) : Prop where
  /-- A stored delay of zero is refused, and nothing else; nothing crashes. -/
  refused : ∀ stop, parse s.json = .error stop ↔ stop = .refusal .zeroDelay ∧ s.StoresZero
  /-- All other settings come back, with delays filled in at most. -/
  kept : ¬s.StoresZero → ∃ s', parse s.json = .ok s' ∧ s.Filled s' ∧ s.SameAnswers s'
  /-- Settings that were read before come back as they are. -/
  settled : ∀ text, parse text = .ok s → parse s.json = .ok s

theorem filled_completed (s : Settings) : s.Filled s.completed where
  env := rfl
  logs := rfl
  metrics := rfl
  shutdown := rfl
  absent h := by
    unfold completed
    rw [h]
    rfl
  present e h := by
    unfold completed
    rw [h]
    rfl

theorem sameAnswers_completed (s : Settings) : s.SameAnswers s.completed where
  isProd := rfl
  isTest := rfl
  level := rfl
  isEvictionEnabled := rfl
  isMetricsEnabled := rfl
  metricsListen := rfl
  shutdownTimeout := rfl
  worker := rfl

/-- Settings whose texts are printable are read back as they are written. -/
theorem roundTrip (s : Settings) (henv : Printable s.env.toList)
    (hlevel : ∀ level ∈ s.level?, Printable level.toList) : s.RoundTrip where
  refused stop := by
    rw [parse_json henv hlevel]
    exact checked_eq_error
  kept hzero := by
    refine ⟨s.completed, ?_, s.filled_completed, s.sameAnswers_completed⟩
    rw [parse_json henv hlevel]
    exact checked_eq_ok.mpr ⟨hzero, rfl⟩
  settled text h := by
    rw [parse_json henv hlevel]
    exact checked_of_parse h

/-- Quotes, a backslash, a link-local address and an absent delay. -/
theorem roundTrip_quoted :
    Printable "say \"test\" \\".toList ∧ Printable "info # warn: null".toList ∧
      RoundTrip {
        env := "say \"test\" \\"
        logs := some ⟨some "info # warn: null"⟩
        eviction := some ⟨false, none, some (Span.ofSeconds 90061)⟩
        metrics := some ⟨true, some ⟨.v6 ⟨[0xfe80, 0, 0, 0, 0, 0, 0, 1], rfl⟩ 3, 9091⟩⟩
        shutdown := none } := by
  have henv : Printable "say \"test\" \\".toList := by decide
  have hlevel : Printable "info # warn: null".toList := by decide
  exact ⟨henv, hlevel, roundTrip _ henv (by rintro _ ⟨⟩; exact hlevel)⟩

end Settings

end CacheWarden
