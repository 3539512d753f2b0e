import CacheWarden.Proofs.Settings.DelayField
/-!
Where reading settings crashes.

Of all readers of values only that of spans can crash.  Reading a document stops at the first
thing that does not fit, so a crash can be followed down to it: through the fields of a mapping
(`crash_of_fields`), section by section, to the value that was read when it happened.  Hence
settings crash on a text only if it is a document that gives, to one of the fields that store
spans, a text that crashes by itself (`gives_of_parse_crash`).
-/

namespace CacheWarden

open Yaml (Node)

namespace Decode

variable {d : Yaml.Document} {path : List String} {outer : Site} {node : Node}

/-! ### Readers that do not crash -/

theorem misfit_ne_crash {α : Type} {expected : String} :
    (misfit node expected path : Result α) ≠ .error .crash := by
  unfold misfit
  cases node with
  | scalar _ tag text style =>
    dsimp only
    split <;> nofun
  | sequence _ _ | mapping _ _ | «alias» _ _ => nofun

theorem string_ne_crash {expected : String} : string d expected path node ≠ .error .crash := by
  unfold string
  split
  · nofun
  · exact misfit_ne_crash

theorem text_ne_crash : text d path node ≠ .error .crash := by
  intro h
  obtain h | ⟨_, _, h⟩ := cases_of_bind_crash h
  · exact string_ne_crash h
  · cases h

theorem bool_ne_crash : bool d path node ≠ .error .crash := by
  unfold bool
  dsimp only
  split
  · split
    · nofun
    · exact misfit_ne_crash
  · exact misfit_ne_crash

theorem address_ne_crash : address d path node ≠ .error .crash := by
  intro h
  obtain h | ⟨_, _, h⟩ := cases_of_bind_crash h
  · exact string_ne_crash h
  · dsimp only at h
    split at h <;> cases h

theorem isPresent_ne_crash : isPresent outer node ≠ .error .crash := by
  unfold isPresent
  split
  · rename_i tag text style
    by_cases hstyle : style = .plain
    · rw [if_neg (not_not_intro hstyle)]
      cases tag with
      | none => nofun
      | some t =>
        dsimp only
        split_ifs <;> nofun
    · rw [if_pos hstyle]
      nofun
  · nofun

theorem fieldName_ne_crash : fieldName d outer node ≠ .error .crash := by
  intro h
  obtain h | ⟨_, _, h⟩ := cases_of_bind_crash h
  · exact string_ne_crash h
  · dsimp only at h
    split at h <;> cases h

theorem entries_ne_crash {expected : String} : entries d expected path node ≠ .error .crash := by
  unfold entries
  split
  · nofun
  · split_ifs
    · nofun
    · exact misfit_ne_crash
  · exact misfit_ne_crash

theorem require_ne_crash {α : Type} {name : String} {o : Option α} :
    require outer name o ≠ .error .crash := by
  cases o with
  | none => nofun
  | some a => nofun

/-! ### Down to the value that crashed -/

/-- What is stored behind a reader does not crash, so the reader did. -/
theorem crash_of_stored {α β : Type} {x : Result α} {store : α → β}
    (h : (do return store (← x)) = (.error .crash : Result β)) : x = .error .crash := by
  obtain h | ⟨_, _, h⟩ := cases_of_bind_crash h
  · exact h
  · cases h

theorem crash_of_optional {α : Type} {read : Node → Result α}
    (h : optional d outer read node = .error .crash) : read (follow d node) = .error .crash := by
  obtain h | ⟨present, -, h⟩ := cases_of_bind_crash h
  · exact absurd h isPresent_ne_crash
  · cases present with
    | false => cases h
    | true =>
      rw [if_pos rfl] at h
      rcases hread : read (follow d node) with stop | a
      · rw [hread] at h
        cases h
        rfl
      · rw [hread] at h
        cases h

/-- A node leads to a text that crashes when it is read as a span. -/
def LeadsToCrash (d : Yaml.Document) (node : Node) : Prop :=
  ∃ mark tag text style, d.Leads node (.scalar mark tag text style) ∧
    Span.parse text = .error .crash

theorem leadsToCrash_of_span (h : span d path (follow d node) = .error .crash) :
    LeadsToCrash d node := by
  obtain h | ⟨⟨text, site⟩, hstring, h⟩ := cases_of_bind_crash h
  · exact absurd h string_ne_crash
  · have hcrash : Span.parse text = .error .crash := by
      dsimp only at h
      split at h
      · cases h
      · rename_i stop hstop
        cases stop with
        | refusal cause => cases h
        | crash => exact hstop
    have htext : text ≠ "" := by
      rintro rfl
      cases hcrash
    obtain ⟨mark, tag, style, hfollow⟩ := follow_of_string hstring
    have hleads := leads_scalar hfollow htext
    refine ⟨mark, tag, text, style, leads_of_follow hleads ?_, hcrash⟩
    rintro _ ⟨⟩
    exact htext rfl

section

variable {α : Type} {known seen : List String} {read : Field → α → Result α} {a : α}
  {es : List (Node × Node)}

/-- Fields crash where a known one does. -/
theorem crash_of_fields (h : fields d outer known read seen a es = .error .crash)
    (named : "" ∉ known) : ∃ f b, f.name ∈ known ∧ Among d es f.name f.value ∧
      read f b = .error .crash := by
  induction es generalizing seen a with
  | nil => cases h
  | cons e es ih =>
    obtain ⟨key, v⟩ := e
    have hlater {seen : List String} {a : α}
        (h : fields d outer known read seen a es = .error .crash) :
        ∃ f b, f.name ∈ known ∧ Among d ((key, v) :: es) f.name f.value ∧
          read f b = .error .crash := by
      obtain ⟨f, b, hknown, hamong, hread⟩ := ih h
      exact ⟨f, b, hknown, hamong.cons (key, v), hread⟩
    rw [fields] at h
    obtain h | ⟨⟨name, last⟩, hname, h⟩ := cases_of_bind_crash h
    · exact absurd h fieldName_ne_crash
    · dsimp only at h
      split_ifs at h with hknown hseen
      · cases h
      · obtain h | ⟨b, -, h⟩ := cases_of_bind_crash h
        · -- this field is the one
          obtain ⟨mark, tag, style, hkey⟩ := follow_of_fieldName hname
          have hmem := List.contains_iff_mem.mp hknown
          have hleads := leads_scalar hkey fun hempty => named (hempty ▸ hmem)
          exact ⟨_, a, hmem, ⟨key, mark, tag, style, List.mem_cons_self, hleads⟩, h⟩
        · exact hlater h
      · exact hlater h

/-- A mapping crashes where a known field that it holds does. -/
theorem crash_of_mapping {expected : String}
    (hentries : entries d expected path node = .ok (outer, es))
    (h : fields d outer known read seen a es = .error .crash) (named : "" ∉ known) :
    ∃ f b, f.name ∈ known ∧ d.Holds node f.name f.value ∧ read f b = .error .crash := by
  obtain ⟨f, b, hknown, ⟨key, mark, tag, style, hmem, hkey⟩, hread⟩ := crash_of_fields h named
  obtain ⟨nodeMark, hnode⟩ := leads_of_entries hentries hmem
  exact ⟨f, b, hknown, ⟨nodeMark, es, key, mark, tag, style, hnode, hmem, hkey⟩, hread⟩

end

/-! ### Sections -/

/-- A section holds a text that crashes, in a field of some name. -/
def Breaks (d : Yaml.Document) (sec : Node) (name : String) : Prop :=
  ∃ value, d.Holds sec name value ∧ LeadsToCrash d value

/-- What the node behind aliases holds, the aliases hold. -/
theorem holds_of_follow {name : String} {v : Node} (h : d.Holds (follow d node) name v) :
    d.Holds node name v := by
  obtain ⟨mark, es, key, keyMark, tag, style, hleads, hentry⟩ := h
  exact ⟨mark, es, key, keyMark, tag, style, leads_of_follow hleads nofun, hentry⟩

theorem Breaks.of_follow {name : String} (h : Breaks d (follow d node) name) :
    Breaks d node name := by
  obtain ⟨value, hholds, hcrash⟩ := h
  exact ⟨value, holds_of_follow hholds, hcrash⟩

theorem logs_ne_crash : logs d path node ≠ .error .crash := by
  intro h
  obtain h | ⟨⟨outer, es⟩, hentries, h⟩ := cases_of_bind_crash h
  · exact entries_ne_crash h
  · obtain ⟨f, b, -, -, hread⟩ := crash_of_mapping hentries h (by simp)
    exact text_ne_crash (crash_of_optional (crash_of_stored hread))

theorem metrics_ne_crash : metrics d path node ≠ .error .crash := by
  intro h
  obtain h | ⟨⟨outer, es⟩, hentries, h⟩ := cases_of_bind_crash h
  · exact entries_ne_crash h
  · obtain h | ⟨m, -, h⟩ := cases_of_bind_crash h
    · obtain ⟨f, b, -, -, hread⟩ := crash_of_mapping hentries h (by simp)
      unfold metricsField at hread
      split_ifs at hread
      · exact bool_ne_crash (crash_of_stored hread)
      · exact address_ne_crash (crash_of_optional (crash_of_stored hread))
    · exact require_ne_crash (crash_of_stored h)

theorem breaks_of_eviction (h : eviction d path node = .error .crash) :
    Breaks d node "initial_delay" ∨ Breaks d node "fixed_delay" := by
  obtain h | ⟨⟨outer, es⟩, hentries, h⟩ := cases_of_bind_crash h
  · exact absurd h entries_ne_crash
  · obtain h | ⟨e, -, h⟩ := cases_of_bind_crash h
    · obtain ⟨f, b, hknown, hholds, hread⟩ := crash_of_mapping hentries h (by simp)
      unfold evictionField at hread
      split_ifs at hread with henabled hinitial
      · exact absurd (crash_of_stored hread) bool_ne_crash
      · have hcrash := leadsToCrash_of_span (crash_of_optional (crash_of_stored hread))
        exact .inl ⟨f.value, hinitial ▸ hholds, hcrash⟩
      · have hcrash := leadsToCrash_of_span (crash_of_optional (crash_of_stored hread))
        have hfixed : f.name = "fixed_delay" := by simpa [henabled, hinitial] using hknown
        exact .inr ⟨f.value, hfixed ▸ hholds, hcrash⟩
    · exact absurd (crash_of_stored h) require_ne_crash

theorem breaks_of_shutdown (h : shutdown d path node = .error .crash) :
    Breaks d node "timeout" := by
  obtain h | ⟨⟨outer, es⟩, hentries, h⟩ := cases_of_bind_crash h
  · exact absurd h entries_ne_crash
  · obtain ⟨f, b, hknown, hholds, hread⟩ := crash_of_mapping hentries h (by simp)
    have hcrash := leadsToCrash_of_span (crash_of_optional (crash_of_stored hread))
    exact ⟨f.value, List.mem_singleton.mp hknown ▸ hholds, hcrash⟩

/-- All sections crash where one of those with spans does. -/
theorem breaks_of_sections (h : sections d path node = .error .crash) :
    ∃ (field : DelayField) (sec : Node), d.Holds node field.sectionName sec ∧
      Breaks d sec field.name := by
  obtain h | ⟨⟨outer, es⟩, hentries, h⟩ := cases_of_bind_crash h
  · exact absurd h entries_ne_crash
  · obtain h | ⟨s, -, h⟩ := cases_of_bind_crash h
    · obtain ⟨f, b, hknown, hholds, hread⟩ := crash_of_mapping hentries h (by simp)
      unfold appField at hread
      split_ifs at hread with henv hlogs heviction hmetrics
      · exact absurd (crash_of_stored hread) text_ne_crash
      · exact absurd (crash_of_optional (crash_of_stored hread)) logs_ne_crash
      · rw [heviction] at hholds
        rcases breaks_of_eviction (crash_of_optional (crash_of_stored hread)) with hbreaks | hbreaks
        · exact ⟨.initialDelay, f.value, hholds, hbreaks.of_follow⟩
        · exact ⟨.fixedDelay, f.value, hholds, hbreaks.of_follow⟩
      · exact absurd (crash_of_optional (crash_of_stored hread)) metrics_ne_crash
      · have hshutdown : f.name = "shutdown" := by
          simpa [henv, hlogs, heviction, hmetrics] using hknown
        rw [hshutdown] at hholds
        have hbreaks := breaks_of_shutdown (crash_of_optional (crash_of_stored hread))
        exact ⟨.timeout, f.value, hholds, hbreaks.of_follow⟩
    · exact absurd (crash_of_stored h) require_ne_crash

end Decode

namespace Settings

open Decode

/-- A document crashes only on a text that it gives to a field for a span. -/
theorem gives_of_ofDocument_crash {d : Yaml.Document} (h : ofDocument d = .error .crash) :
    ∃ field text, d.Gives field text ∧ Span.parse text = .error .crash := by
  obtain h | ⟨⟨outer, es⟩, hentries, h⟩ := cases_of_bind_crash h
  · exact absurd h entries_ne_crash
  · obtain h | ⟨s, -, h⟩ := cases_of_bind_crash h
    · obtain ⟨f, b, hknown, hholds, hread⟩ := crash_of_mapping hentries h (by simp)
      obtain ⟨field, sec, hsec, value, hvalue, mark, tag, text, style, hleads, hcrash⟩ :=
        breaks_of_sections (crash_of_stored hread)
      have happ : f.name = "app" := List.mem_singleton.mp hknown
      exact ⟨field, text, ⟨f.value, sec, value, mark, tag, style, happ ▸ hholds, hsec, hvalue,
        hleads⟩, hcrash⟩
    · exact absurd h require_ne_crash

/-- A text crashes where the document that is read of it does. -/
theorem parse_eq_crash_iff {x : String} :
    parse x = .error .crash ↔ ofDocument (Yaml.upToFault (Yaml.parse x)) = .error .crash := by
  unfold parse
  rcases Yaml.parse x with b | d
  · dsimp only [Yaml.upToFault]
    rcases ofDocument b.front with (m | -) | s <;> simp [Attempt.refuse]
  · -- what fits is only checked, and the check refuses
    dsimp only [Yaml.upToFault, load]
    rcases ofDocument d with (m | -) | s <;> simp [checked_eq_error]

/-- So a text crashes only on one that it gives to a field for a span. -/
theorem gives_of_parse_crash {x : String} (h : parse x = .error .crash) :
    ∃ field text, (Yaml.upToFault (Yaml.parse x)).Gives field text ∧
      Span.parse text = .error .crash :=
  gives_of_ofDocument_crash (parse_eq_crash_iff.mp h)

/-- A crash in front of a fault is no refusal. -/
example : parse "app:\n  shutdown:\n    timeout: 18446744073709551615s 1000000000ns\n  bad: [" =
    .error .crash := by cbv

end Settings

end CacheWarden
