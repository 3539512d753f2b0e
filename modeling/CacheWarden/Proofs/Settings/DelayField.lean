import CacheWarden.Proofs.Settings.Acceptance
/-!
The fields of settings that store spans.

There are three of them (`DelayField`).  A document gives a text to such a field if a scalar
with this text stands there, whatever its style and whatever aliases lead to it (`Gives`).
Then the field has the span that the text is read as, or the document holds no settings
(`stored?_of_ofDocument`), and the check on the way in keeps it (`stored?_of_parse`).
-/

namespace CacheWarden

open Yaml (Node)

/-! ### Fields that store spans -/

/-- The fields of settings that store spans. -/
inductive DelayField where
  | initialDelay
  | fixedDelay
  | timeout
deriving DecidableEq, Repr

namespace DelayField

/-- The name of the section that the field is in. -/
def sectionName : DelayField → String
  | .initialDelay | .fixedDelay => "eviction"
  | .timeout => "shutdown"

/-- The name of the field. -/
def name : DelayField → String
  | .initialDelay => "initial_delay"
  | .fixedDelay => "fixed_delay"
  | .timeout => "timeout"

/-- The span that settings store there. -/
def stored? (s : Settings) : DelayField → Option Span
  | .initialDelay => s.eviction.bind (·.initialDelay)
  | .fixedDelay => s.eviction.bind (·.fixedDelay)
  | .timeout => s.shutdown.bind (·.timeout)

/-- Settings keep the delays that they store when the others are filled in. -/
theorem stored?_completed {s : Settings} {field : DelayField} {delay : Span}
    (h : field.stored? s = some delay) : field.stored? s.completed = some delay := by
  cases field with
  | initialDelay =>
    obtain ⟨e, he, hdelay⟩ := Option.bind_eq_some_iff.mp h
    simp [stored?, Settings.completed, he, Eviction.completed, Eviction.initial, hdelay]
  | fixedDelay =>
    obtain ⟨e, he, hdelay⟩ := Option.bind_eq_some_iff.mp h
    simp [stored?, Settings.completed, he, Eviction.completed, Eviction.fixed, hdelay]
  | timeout => exact h

theorem storesZero_iff {s : Settings} : s.StoresZero ↔ fixedDelay.stored? s = some Span.zero :=
  Option.bind_eq_some_iff.symm

end DelayField

/-- A document gives a text to a field: a scalar with this text stands in its section. -/
def Yaml.Document.Gives (d : Yaml.Document) (field : DelayField) (text : String) : Prop :=
  ∃ app sec value mark tag style, d.Holds d.root "app" app ∧ d.Holds app field.sectionName sec ∧
    d.Holds sec field.name value ∧ d.Leads value (.scalar mark tag text style)

/-- A text that stands for none: it is empty, or a word for null. -/
def IsAbsent (text : String) : Prop := text = "" ∨ Yaml.isNull text = true

/-! ### Reading the fields -/

namespace Decode

variable {d : Yaml.Document} {path : List String} {outer : Site} {node v : Node}

/-- A text counts as present, unless its tag says that it is null. -/
theorem isPresent_of_text {text : String} (h : ¬IsAbsent text) {tag : Option String}
    (htag : tag ≠ some (Yaml.coreTag "null")) (mark : Yaml.Mark) (style : Yaml.Style) :
    isPresent outer (.scalar mark tag text style) = .ok true := by
  obtain ⟨hempty, hnull⟩ := not_or.mp h
  cases tag with
  | none => simp [isPresent, hempty, hnull]
  | some t =>
    have ht : t ≠ Yaml.coreTag "null" := fun heq => htag (congrArg some heq)
    simp [isPresent, hempty, ht]

/-- A text that is tagged as null is refused. -/
theorem isPresent_of_null {text : String} (h : ¬IsAbsent text) (mark : Yaml.Mark)
    (style : Yaml.Style) {present : Bool}
    (hpresent : isPresent outer (.scalar mark (some (Yaml.coreTag "null")) text style) =
      .ok present) : present = true := by
  obtain ⟨hempty, hnull⟩ := not_or.mp h
  simp only [isPresent, hnull] at hpresent
  split at hpresent
  · cases hpresent
    rfl
  · cases hpresent

/-- A scalar is read as the span of its text. -/
theorem span_of_text {text : String} {s : Span} (hs : Span.parse text = .ok s) (mark : Yaml.Mark)
    (tag : Option String) (style : Yaml.Style) :
    span d path (.scalar mark tag text style) = .ok s := by
  simp only [span, string, follow, bind, Except.bind, hs]
  rfl

theorem optional_of_text {text : String} {s : Span} (hs : Span.parse text = .ok s)
    (h : ¬IsAbsent text) {tag : Option String} (htag : tag ≠ some (Yaml.coreTag "null"))
    (mark : Yaml.Mark) (style : Yaml.Style) :
    optional d outer (span d path) (.scalar mark tag text style) = .ok (some s) := by
  show (isPresent outer (.scalar mark tag text style) >>= _) = _
  rw [isPresent_of_text h htag]
  show some <$> span d path (.scalar mark tag text style) = _
  rw [span_of_text hs]
  rfl

/-- A value that counts as present was read. -/
theorem exists_of_present {α : Type} {read : Node → Result α} {o : Option α}
    (ho : optional d outer read node = .ok o)
    (h : ∀ present, isPresent outer (follow d node) = .ok present → present = true) :
    ∃ a, o = some a ∧ read (follow d node) = .ok a := by
  obtain ⟨present, hpresent, hread⟩ := exists_of_bind_ok ho
  obtain rfl := h present hpresent
  rcases o with - | a
  · exact absurd hread map_ne_none
  · exact ⟨a, rfl, ok_of_map hread⟩

/-- A node that leads to a text counts as present, or is refused. -/
theorem present_of_text {text : String} (h : ¬IsAbsent text) {mark : Yaml.Mark}
    {tag : Option String} {style : Yaml.Style} (hleads : d.Leads node (.scalar mark tag text style))
    (present : Bool) (hpresent : isPresent outer node = .ok present) : present = true := by
  cases node with
  | scalar _ _ _ _ =>
    cases hleads
    by_cases htag : tag = some (Yaml.coreTag "null")
    · exact isPresent_of_null h mark style (htag ▸ hpresent)
    · rw [isPresent_of_text h htag] at hpresent
      exact (Except.ok.inj hpresent).symm
  | sequence _ _ | mapping _ _ | «alias» _ _ => exact (Except.ok.inj hpresent).symm

/-- A node that leads to a mapping counts as present. -/
theorem present_of_mapping {mark : Yaml.Mark} {es : List (Node × Node)}
    (hleads : d.Leads node (.mapping mark es)) (present : Bool)
    (hpresent : isPresent outer node = .ok present) : present = true := by
  cases node with
  | scalar _ _ _ _ => cases hleads
  | sequence _ _ | mapping _ _ | «alias» _ _ => exact (Except.ok.inj hpresent).symm

/-- What was read from a node that leads to a text is the span of this text. -/
theorem parse_of_optional {text : String} (h : ¬IsAbsent text) {mark : Yaml.Mark}
    {tag : Option String} {style : Yaml.Style} (hleads : d.Leads node (.scalar mark tag text style))
    {o : Option Span} (ho : optional d outer (span d path) node = .ok o) :
    ∃ s, Span.parse text = .ok s ∧ o = some s := by
  have hfollow := leads_follow hleads nofun
  obtain ⟨s, hsome, hread⟩ := exists_of_present ho (present_of_text h hfollow)
  obtain ⟨⟨text', site⟩, hstring, hs⟩ := exists_of_bind_ok hread
  obtain ⟨mark', tag', style', hscalar⟩ := follow_of_string hstring
  -- the text that was read is the one that the aliases lead to
  have hsame := follow_of_leads hfollow nofun (by rw [hscalar]; nofun)
  rw [hscalar] at hsame
  cases hsame
  dsimp only at hs
  split at hs
  · rename_i s' hs'
    cases hs
    exact ⟨s, hs', hsome⟩
  · cases hs

/-- A section that holds something was read. -/
theorem exists_of_holds {α : Type} {name : String} {read : Node → Result α} {o : Option α}
    (ho : optional d outer read node = .ok o) (hholds : d.Holds node name v) :
    ∃ a, o = some a ∧ read (follow d node) = .ok a ∧ d.Holds (follow d node) name v := by
  obtain ⟨mark, es, key, keyMark, tag, style, hnode, hentry⟩ := hholds
  have hleads := leads_follow hnode nofun
  obtain ⟨a, hsome, hread⟩ := exists_of_present ho (present_of_mapping hleads)
  exact ⟨a, hsome, hread, mark, es, key, keyMark, tag, style, hleads, hentry⟩

/-! ### From a section to the settings -/

theorem initialDelay_of_eviction {e : Eviction} (h : eviction d path node = .ok e)
    (hholds : d.Holds node "initial_delay" v) :
    ∃ outer path, optional d outer (span d path) v = .ok e.initialDelay := by
  obtain ⟨outer, es, hentries, hfields⟩ := exists_of_eviction h
  exact ⟨outer, keeps_initialDelay.value_of_holds hentries hfields (by simp) hholds⟩

theorem fixedDelay_of_eviction {e : Eviction} (h : eviction d path node = .ok e)
    (hholds : d.Holds node "fixed_delay" v) :
    ∃ outer path, optional d outer (span d path) v = .ok e.fixedDelay := by
  obtain ⟨outer, es, hentries, hfields⟩ := exists_of_eviction h
  exact ⟨outer, keeps_fixedDelay.value_of_holds hentries hfields (by simp) hholds⟩

theorem timeout_of_shutdown {s : Shutdown} (h : shutdown d path node = .ok s)
    (hholds : d.Holds node "timeout" v) :
    ∃ outer path, optional d outer (span d path) v = .ok s.timeout := by
  obtain ⟨⟨outer, es⟩, hentries, hfields⟩ := exists_of_bind_ok h
  exact ⟨outer, keeps_timeout.value_of_holds hentries hfields (by simp) hholds⟩

/-- The span of a field is read from the value that its section holds. -/
theorem stored?_of_sections {field : DelayField} {s : Settings} (h : sections d path node = .ok s)
    {sec : Node} (hsec : d.Holds node field.sectionName sec) (hvalue : d.Holds sec field.name v) :
    ∃ outer path, optional d outer (span d path) v = .ok (field.stored? s) := by
  obtain ⟨outer, es, hentries, hfields⟩ := exists_of_sections h
  cases field with
  | initialDelay =>
    obtain ⟨vpath, hopt⟩ := keeps_eviction.value_of_holds hentries hfields (by simp) hsec
    obtain ⟨e, (he : s.eviction = some e), hread, hholds⟩ := exists_of_holds hopt hvalue
    simp only [DelayField.stored?, he]
    exact initialDelay_of_eviction hread hholds
  | fixedDelay =>
    obtain ⟨vpath, hopt⟩ := keeps_eviction.value_of_holds hentries hfields (by simp) hsec
    obtain ⟨e, (he : s.eviction = some e), hread, hholds⟩ := exists_of_holds hopt hvalue
    simp only [DelayField.stored?, he]
    exact fixedDelay_of_eviction hread hholds
  | timeout =>
    obtain ⟨vpath, hopt⟩ := keeps_shutdown.value_of_holds hentries hfields (by simp) hsec
    obtain ⟨t, (ht : s.shutdown = some t), hread, hholds⟩ := exists_of_holds hopt hvalue
    simp only [DelayField.stored?, ht]
    exact timeout_of_shutdown hread hholds

end Decode

namespace Settings

open Decode

variable {d : Yaml.Document} {field : DelayField} {text x : String} {s : Settings}

/-- A field stores the span of the text that the document gives to it. -/
theorem stored?_of_ofDocument (h : ofDocument d = .ok s) (hgives : d.Gives field text)
    (htext : ¬IsAbsent text) :
    ∃ delay, Span.parse text = .ok delay ∧ field.stored? s = some delay := by
  obtain ⟨app, sec, value, mark, tag, style, happ, hsec, hvalue, hleads⟩ := hgives
  obtain ⟨outer, es, hentries, hfields⟩ := exists_of_ofDocument h
  obtain ⟨apath, happ⟩ := keeps_app.value_of_holds hentries hfields (by simp) happ
  obtain ⟨outer', vpath, hopt⟩ := stored?_of_sections (ok_of_map happ) hsec hvalue
  exact parse_of_optional htext hleads hopt

section

variable (hx : Yaml.parse x = .ok d) (hgives : d.Gives field text) (htext : ¬IsAbsent text)

include hx hgives htext

/-- Settings that were accepted store the span of the text that the document gives. -/
theorem stored?_of_parse (h : parse x = .ok s) :
    ∃ delay, Span.parse text = .ok delay ∧ field.stored? s = some delay := by
  obtain ⟨d', s₀, hd', hs₀, -, rfl⟩ := exists_of_parse h
  cases hx.symm.trans hd'
  obtain ⟨delay, hdelay, hstored⟩ := stored?_of_ofDocument hs₀ hgives htext
  exact ⟨delay, hdelay, field.stored?_completed hstored⟩

/-- Where a text is no span there are no settings: reading comes to a misfit, or to a crash. -/
theorem parse_of_parse_ne_ok (h : ∀ delay, Span.parse text ≠ .ok delay) :
    (∃ m, parse x = .error (.refusal (.misfit m))) ∨ parse x = .error .crash := by
  rw [parse_of_document hx, load]
  rcases hd : ofDocument d with (m | -) | s
  · exact .inl ⟨m, rfl⟩
  · exact .inr rfl
  · obtain ⟨delay, hdelay, -⟩ := stored?_of_ofDocument hd hgives htext
    exact absurd hdelay (h delay)

end

/-- The delay between two clears is refused as zero where the rest fits and its text is read as
zero. -/
theorem parse_eq_zeroDelay_iff (hx : Yaml.parse x = .ok d) (hgives : d.Gives .fixedDelay text)
    (htext : ¬IsAbsent text) : parse x = .error (.refusal .zeroDelay) ↔
      (∃ s, ofDocument d = .ok s) ∧ Span.parse text = .ok Span.zero := by
  rw [parse_of_document hx, load]
  rcases hd : ofDocument d with (m | -) | s
  · simp
  · simp
  · obtain ⟨delay, hdelay, hstored⟩ := stored?_of_ofDocument hd hgives htext
    simp [checked_eq_error, DelayField.storesZero_iff, hdelay, hstored]

end Settings

end CacheWarden
