import CacheWarden.Proofs.Settings.Acceptance
import CacheWarden.Proofs.Settings.Fields
import Mathlib
/-!
Settings whatever the layout.

Two documents that hold the same values under the names that are known give the same
settings, or neither gives any (`layout`).  It does not matter in which order the fields
stand, where and in which style they are written, and what else stands between them.  Only
the complaint may be another one, because it is about the first thing that does not fit.

Readers of values agree on nodes with the same value (`Agree`), and from that readers of
sections agree on mappings with the same fields, up to the whole document.
-/

namespace CacheWarden

open Yaml (Node Plain)

/-! ### Results without their complaints -/

@[simp] theorem toOption_ok {ε α : Type} (a : α) :
    (Except.ok a : Except ε α).toOption = some a := rfl

@[simp] theorem toOption_error {ε α : Type} (e : ε) :
    (Except.error e : Except ε α).toOption = none := rfl

@[simp] theorem toOption_refuse {ε α : Type} (e : ε) :
    (Attempt.refuse e : Attempt ε α).toOption = none := rfl

theorem toOption_bind {ε α β : Type} (x : Except ε α) (f : α → Except ε β) :
    (x >>= f).toOption = x.toOption.bind fun a => (f a).toOption := by
  cases x <;> rfl

theorem toOption_map {ε α β : Type} (x : Except ε α) (f : α → β) :
    (x >>= fun a => pure (f a)).toOption = x.toOption.map f := by
  cases x <;> rfl

namespace Decode

/-! ### The same values -/

/-- Nodes with the same value, wherever they stand.  Scalars have the same text, and stand for the
same; of collections it does not matter what they hold, because none belongs where a value is
read. -/
inductive SameValue : Node → Node → Prop
  | scalar {mark mark' : Yaml.Mark} {text : String} {style style' : Yaml.Style} :
      Plain.ofScalar none text style = Plain.ofScalar none text style' →
      SameValue (.scalar mark none text style) (.scalar mark' none text style')
  | sequence {mark mark' : Yaml.Mark} {items items' : List Node} :
      SameValue (.sequence mark items) (.sequence mark' items')
  | mapping {mark mark' : Yaml.Mark} {es es' : List (Node × Node)} :
      SameValue (.mapping mark es) (.mapping mark' es')

/-- Mappings that hold the same under known names, whatever else they hold. -/
inductive SameMapping (known : List String) (same : String → Node → Node → Prop) :
    Node → Node → Prop
  | mapping {mark mark' : Yaml.Mark} {es es' : List (Node × Node)} :
      SameFields known same es es' →
      SameMapping known same (.mapping mark es) (.mapping mark' es')

/-- Sections that are null, or mappings that hold the same values. -/
inductive SameSection (known : List String) : Node → Node → Prop
  | null {mark mark' : Yaml.Mark} {text text' : String} {style style' : Yaml.Style} :
      Plain.ofScalar none text style = .ok .null → Plain.ofScalar none text' style' = .ok .null →
      SameSection known (.scalar mark none text style) (.scalar mark' none text' style')
  | mapping {v w : Node} : SameMapping known (fun _ => SameValue) v w → SameSection known v w

/-- The known fields of a section. -/
def sectionFields (name : String) : List String :=
  if name = "logs" then ["level"]
  else if name = "eviction" then ["enabled", "initial_delay", "fixed_delay"]
  else if name = "metrics" then ["enabled", "listen"]
  else ["timeout"]

/-- The same environment, and the same sections. -/
def SameSections : Node → Node → Prop :=
  SameMapping ["env", "logs", "eviction", "metrics", "shutdown"] fun name =>
    if name = "env" then SameValue else SameSection (sectionFields name)

/-- The same known content. -/
def SameContent : Node → Node → Prop := SameMapping ["app"] fun _ => SameSections

/-! ### What scalars stand for -/

theorem boolean?_of_isNull {s : String} (h : (s.isEmpty || Yaml.isNull s) = true) :
    Yaml.boolean? s = none := by
  simp only [Yaml.isNull, Bool.or_eq_true, String.isEmpty_iff, beq_iff_eq] at h
  rcases h with rfl | ((rfl | rfl) | rfl) | rfl <;> decide

/-- No number is null or a boolean. -/
theorem ne_of_float? {cs : List Char} {p : Plain} (h : Yaml.float? cs = some p) :
    p ≠ .null ∧ ∀ b, p ≠ .bool b := by
  have hfloat {o : Option UInt64} (h : o.map Plain.float = some p) :
      p ≠ .null ∧ ∀ b, p ≠ .bool b := by
    obtain ⟨bits, -, rfl⟩ := Option.map_eq_some_iff.mp h
    exact ⟨nofun, nofun⟩
  unfold Yaml.float? at h
  extract_lets word whole at h
  split_ifs at h
  · cases h
    exact ⟨nofun, nofun⟩
  · cases h
    exact ⟨nofun, nofun⟩
  · cases h
    exact ⟨nofun, nofun⟩
  · split at h <;> exact hfloat h

/-- What a plain scalar stands for that is neither null nor a word for a boolean. -/
theorem ofText_of_other {s : String} (hnull : (s.isEmpty || Yaml.isNull s) = false)
    (hbool : Yaml.boolean? s = none) :
    Plain.ofText s ≠ .null ∧ ∀ b, Plain.ofText s ≠ .bool b := by
  unfold Plain.ofText
  extract_lets cs unsigned
  rw [hnull, hbool, if_neg Bool.false_ne_true]
  rcases Yaml.integer? cs with - | i
  · by_cases hzero : Yaml.isZeroLed unsigned = true
    · simp [hzero]
    · rcases hfloat : Yaml.float? cs with - | p
      · simp [hzero]
      · simpa [hzero] using ne_of_float? hfloat
  · simp

theorem ofText_of_null {s : String} (h : (s.isEmpty || Yaml.isNull s) = true) :
    Plain.ofText s = .null := by
  unfold Plain.ofText
  extract_lets cs unsigned
  rw [h, if_pos rfl]

theorem ofText_of_bool {s : String} {b : Bool} (h : Yaml.boolean? s = some b) :
    Plain.ofText s = .bool b := by
  have hnull : (s.isEmpty || Yaml.isNull s) = false := by
    by_contra hnull
    rw [boolean?_of_isNull (Bool.eq_true_of_not_eq_false hnull)] at h
    cases h
  unfold Plain.ofText
  extract_lets cs unsigned
  rw [hnull, h, if_neg Bool.false_ne_true]

/-- A plain scalar is null if it is empty or a word for null, and a boolean if it is a word for
one. -/
theorem ofText_iff (s : String) :
    (Plain.ofText s = .null ↔ (s.isEmpty || Yaml.isNull s) = true) ∧
      ∀ b, Plain.ofText s = .bool b ↔ Yaml.boolean? s = some b := by
  rcases hnull : s.isEmpty || Yaml.isNull s with - | -
  · rcases hbool : Yaml.boolean? s with - | b
    · obtain ⟨hnot, hnotBool⟩ := ofText_of_other hnull hbool
      simp [hnot, hnotBool]
    · simp [ofText_of_bool hbool]
  · simp [ofText_of_null hnull, boolean?_of_isNull hnull]

/-- The boolean that a scalar is, if it is one. -/
def truth? : Except String Plain → Option Bool
  | .ok (.bool b) => some b
  | _ => none

/-- A scalar without a tag is null if it is plain, and empty or a word for null. -/
theorem ofScalar_eq_null_iff {text : String} {style : Yaml.Style} :
    Plain.ofScalar none text style = .ok .null ↔
      style = .plain ∧ (text.isEmpty || Yaml.isNull text) = true := by
  show Except.ok (if style = .plain then Plain.ofText text else .text text) = _ ↔ _
  by_cases hstyle : style = .plain <;> simp [hstyle, (ofText_iff text).1]

/-- A scalar without a tag is a boolean if it is plain and a word for it. -/
theorem truth?_ofScalar (text : String) (style : Yaml.Style) :
    truth? (Plain.ofScalar none text style)
      = if style = .plain then Yaml.boolean? text else none := by
  show truth? (.ok (if style = .plain then Plain.ofText text else .text text)) = _
  by_cases hstyle : style = .plain
  · rw [if_pos hstyle, if_pos hstyle]
    ext b
    rw [← (ofText_iff text).2 b]
    cases Plain.ofText text <;> simp [truth?]
  · rw [if_neg hstyle, if_neg hstyle]
    rfl

/-! ### Readers of values -/

/-- Readers that give the same of nodes that are the same, or nothing of either. -/
def Agree {α : Type} (same : Node → Node → Prop) (read read' : List String → Node → Result α) :
    Prop :=
  ∀ v w, same v w → ∀ path path', (read path v).toOption = (read' path' w).toOption

section

variable {d d' : Yaml.Document}

theorem agree_text : Agree SameValue (text d) (text d') := by
  intro v w h path path'
  cases h <;> rfl

theorem agree_span : Agree SameValue (span d) (span d') := by
  intro v w h path path'
  cases h with
  | @scalar _ _ text _ _ _ =>
    rcases hspan : Span.parse text with stop | s <;>
      simp [span, string, follow, hspan, toOption_bind]
  | sequence | mapping => rfl

theorem agree_address : Agree SameValue (address d) (address d') := by
  intro v w h path path'
  cases h with
  | @scalar _ _ text _ _ _ =>
    rcases haddress : Address.parse? text with - | a <;>
      simp [address, string, follow, complain, haddress, toOption_bind]
  | sequence | mapping => rfl

theorem toOption_misfit {α : Type} (node : Node) (expected : String) (path : List String) :
    (misfit node expected path : Result α).toOption = none := by
  rcases h : (misfit node expected path : Result α) with e | a
  · rfl
  · exact absurd h misfit_ne_ok

theorem toOption_bool (mark : Yaml.Mark) (text : String) (style : Yaml.Style) (path : List String) :
    (bool d path (.scalar mark none text style)).toOption
      = truth? (Plain.ofScalar none text style) := by
  have hmay : (style = .plain ∨ (style = .literal ∧ none = some (Yaml.coreTag "bool")))
      ↔ style = .plain := by simp
  rw [truth?_ofScalar]
  simp only [bool, follow, hmay]
  rcases if style = .plain then Yaml.boolean? text else none with - | b
  · exact toOption_misfit _ _ _
  · rfl

theorem agree_bool : Agree SameValue (bool d) (bool d') := by
  intro v w h path path'
  cases h with
  | scalar h => rw [toOption_bool, toOption_bool, h]
  | sequence | mapping => rfl

/-! ### Readers of optional values -/

/-- A scalar without a tag is absent if it is null. -/
theorem isPresent_scalar (outer : Site) (mark : Yaml.Mark) (text : String) (style : Yaml.Style) :
    isPresent outer (.scalar mark none text style)
      = .ok (decide (Plain.ofScalar none text style ≠ .ok .null)) := by
  simp only [isPresent, Ne, ofScalar_eq_null_iff, ← Bool.not_or]
  by_cases hstyle : style = .plain
  · rcases text.isEmpty || Yaml.isNull text with - | - <;> simp [hstyle]
  · simp [hstyle]

variable {α : Type} {read read' : List String → Node → Result α} {outer outer' : Site}
  {known : List String}

/-- A value is read if it is present. -/
theorem toOption_optional {node : Node} {present : Bool} (hnode : follow d node = node)
    (hpresent : isPresent outer node = .ok present) (read : Node → Result α) :
    (optional d outer read node).toOption
      = if present then (read node).toOption.map some else some none := by
  rw [optional, hnode, toOption_bind, hpresent]
  cases present with
  | false => rfl
  | true => cases read node <;> rfl

/-- Readers agree on optional values where they agree on values. -/
theorem Agree.optional (h : Agree SameValue read read') :
    Agree SameValue (fun path => Decode.optional d outer (read path))
      fun path => Decode.optional d' outer' (read' path) := by
  intro v w hvalue path path'
  have hread := h v w hvalue path path'
  cases hvalue with
  | scalar hmeaning =>
    rw [toOption_optional rfl (isPresent_scalar _ _ _ _),
      toOption_optional rfl (isPresent_scalar _ _ _ _), hmeaning, hread]
  | sequence | mapping => rw [toOption_optional rfl rfl, toOption_optional rfl rfl, hread]

/-- Readers agree on sections where they agree on mappings. -/
theorem Agree.optionalSection (h : Agree (SameMapping known fun _ => SameValue) read read') :
    Agree (SameSection known) (fun path => Decode.optional d outer (read path))
      fun path => Decode.optional d' outer' (read' path) := by
  intro v w hsection path path'
  cases hsection with
  | null hnull hnull' =>
    rw [toOption_optional rfl (isPresent_scalar _ _ _ _),
      toOption_optional rfl (isPresent_scalar _ _ _ _), hnull, hnull']
    rfl
  | mapping hmapping =>
    have hread := h v w hmapping path path'
    cases hmapping
    rw [toOption_optional rfl rfl, toOption_optional rfl rfl, hread]

/-! ### Readers of sections -/

theorem commutes_singleton {α : Type} {name : String} {read : Field → α → Result α} :
    Commutes [name] read := by
  intro f g a hf hg hne
  rw [List.mem_singleton.mp hf, List.mem_singleton.mp hg] at hne
  exact absurd rfl hne

theorem agree_logs : Agree (SameMapping ["level"] fun _ => SameValue) (logs d) (logs d') := by
  intro v w h path path'
  cases h with
  | mapping h =>
    refine toOption_fields_eq h commutes_singleton fun name _ v w hvalue path path' a => ?_
    rw [toOption_map, toOption_map, agree_text.optional v w hvalue path path']

theorem agree_shutdown :
    Agree (SameMapping ["timeout"] fun _ => SameValue) (shutdown d) (shutdown d') := by
  intro v w h path path'
  cases h with
  | mapping h =>
    refine toOption_fields_eq h commutes_singleton fun name _ v w hvalue path path' a => ?_
    rw [toOption_map, toOption_map, agree_span.optional v w hvalue path path']

/-- A mapping that is read field by field, and what is made of the fields in the end. -/
def readMapping {α β : Type} (d : Yaml.Document) (expected : String) (known : List String)
    (read : Site → Field → α → Result α) (init : α) (finish : Site → α → Result β)
    (path : List String) (node : Node) : Result β := do
  let (outer, es) ← entries d expected path node
  finish outer (← fields d outer known (read outer) [] init es)

/-- Readers of mappings agree if their readers of fields do, and what they make of the fields. -/
theorem agree_readMapping {β : Type} {same : String → Node → Node → Prop} {expected : String}
    {init : α} {read read' : Site → Field → α → Result α} {finish : Site → α → Result β}
    (hcommutes : ∀ outer, Commutes known (read outer))
    (hread : ∀ outer outer', ∀ name ∈ known, ∀ v w, same name v w → ∀ path path' a,
      (read outer ⟨name, path, v⟩ a).toOption = (read' outer' ⟨name, path', w⟩ a).toOption)
    (hfinish : ∀ outer outer' a, (finish outer a).toOption = (finish outer' a).toOption) :
    Agree (SameMapping known same) (readMapping d expected known read init finish)
      (readMapping d' expected known read' init finish) := by
  intro v w h path path'
  cases h with
  | @mapping mark mark' es es' h =>
    show (fields d ⟨path, mark⟩ known (read ⟨path, mark⟩) [] init es
          >>= finish ⟨path, mark⟩).toOption
      = (fields d' ⟨path', mark'⟩ known (read' ⟨path', mark'⟩) [] init es'
          >>= finish ⟨path', mark'⟩).toOption
    rw [toOption_bind, toOption_bind, toOption_fields_eq h (hcommutes _) (hread _ _)]
    exact congrArg _ (funext (hfinish _ _))

theorem toOption_require {name : String} (o : Option α) : (require outer name o).toOption = o := by
  cases o <;> rfl

/-- A value that was read is stored. -/
def stored {β : Type} (x : Option β) (store : β → α → α) (a : α) : Option α := x.map (store · a)

/-- Values that are stored in different places can be stored in either order. -/
theorem stored_comm {β γ : Type} (x : Option β) (y : Option γ) {f : β → α → α} {g : γ → α → α}
    (h : ∀ b c a, g c (f b a) = f b (g c a)) (a : α) :
    (stored x f a).bind (stored y g) = (stored y g a).bind (stored x f) := by
  cases x <;> cases y <;> simp [stored, h]

theorem toOption_evictionField (f : Field) (e : EvictionDraft) :
    (evictionField d outer f e).toOption =
      if f.name = "enabled" then
        stored (bool d f.path f.value).toOption (fun b e => { e with enabled := some b }) e
      else if f.name = "initial_delay" then
        stored (Decode.optional d outer (span d f.path) f.value).toOption
          (fun o e => { e with initialDelay := o }) e
      else
        stored (Decode.optional d outer (span d f.path) f.value).toOption
          (fun o e => { e with fixedDelay := o }) e := by
  unfold evictionField
  split_ifs <;> exact toOption_map _ _

theorem commutes_evictionField :
    Commutes ["enabled", "initial_delay", "fixed_delay"] (evictionField d outer) := by
  intro f g e hf hg hne
  simp only [List.mem_cons, List.not_mem_nil, or_false] at hf hg
  rcases hf with hf | hf | hf <;> rcases hg with hg | hg | hg <;>
    first
    | exact absurd (hf.trans hg.symm) hne
    | simp only [toOption_evictionField, hf, hg, String.reduceEq, if_true, if_false]
      exact stored_comm _ _ (by intros; rfl) e

theorem toOption_metricsField (f : Field) (m : MetricsDraft) :
    (metricsField d outer f m).toOption =
      if f.name = "enabled" then
        stored (bool d f.path f.value).toOption (fun b m => { m with enabled := some b }) m
      else
        stored (Decode.optional d outer (address d f.path) f.value).toOption
          (fun o m => { m with listen := o }) m := by
  unfold metricsField
  split_ifs <;> exact toOption_map _ _

theorem commutes_metricsField : Commutes ["enabled", "listen"] (metricsField d outer) := by
  intro f g e hf hg hne
  simp only [List.mem_cons, List.not_mem_nil, or_false] at hf hg
  rcases hf with hf | hf <;> rcases hg with hg | hg <;>
    first
    | exact absurd (hf.trans hg.symm) hne
    | simp only [toOption_metricsField, hf, hg, String.reduceEq, if_true, if_false]
      exact stored_comm _ _ (by intros; rfl) e

theorem agree_eviction :
    Agree (SameMapping ["enabled", "initial_delay", "fixed_delay"] fun _ => SameValue)
      (eviction d) (eviction d') := by
  have hread (d : Yaml.Document) : eviction d = readMapping d "struct Eviction"
      ["enabled", "initial_delay", "fixed_delay"] (evictionField d) ⟨none, none, none⟩
      fun outer e => do
        return ⟨← require outer "enabled" e.enabled, e.initialDelay, e.fixedDelay⟩ := rfl
  rw [hread, hread]
  refine agree_readMapping (fun _ => commutes_evictionField) ?_ ?_
  · intro outer outer' name _ v w hvalue path path' e
    rw [toOption_evictionField, toOption_evictionField, agree_bool v w hvalue path path',
      agree_span.optional v w hvalue path path']
  · intro outer outer' e
    rw [toOption_map, toOption_map, toOption_require, toOption_require]

theorem agree_metrics :
    Agree (SameMapping ["enabled", "listen"] fun _ => SameValue) (metrics d) (metrics d') := by
  have hread (d : Yaml.Document) : metrics d = readMapping d "struct Metrics" ["enabled", "listen"]
      (metricsField d) ⟨none, none⟩
      fun outer m => do return ⟨← require outer "enabled" m.enabled, m.listen⟩ := rfl
  rw [hread, hread]
  refine agree_readMapping (fun _ => commutes_metricsField) ?_ ?_
  · intro outer outer' name _ v w hvalue path path' m
    rw [toOption_metricsField, toOption_metricsField, agree_bool v w hvalue path path',
      agree_address.optional v w hvalue path path']
  · intro outer outer' m
    rw [toOption_map, toOption_map, toOption_require, toOption_require]

/-! ### Readers of all sections -/

theorem toOption_appField (f : Field) (s : SettingsDraft) :
    (appField d outer f s).toOption =
      if f.name = "env" then
        stored (text d f.path f.value).toOption (fun t s => { s with env := some t }) s
      else if f.name = "logs" then
        stored (Decode.optional d outer (logs d f.path) f.value).toOption
          (fun o s => { s with logs := o }) s
      else if f.name = "eviction" then
        stored (Decode.optional d outer (eviction d f.path) f.value).toOption
          (fun o s => { s with eviction := o }) s
      else if f.name = "metrics" then
        stored (Decode.optional d outer (metrics d f.path) f.value).toOption
          (fun o s => { s with metrics := o }) s
      else
        stored (Decode.optional d outer (shutdown d f.path) f.value).toOption
          (fun o s => { s with shutdown := o }) s := by
  unfold appField
  split_ifs <;> exact toOption_map _ _

theorem commutes_appField :
    Commutes ["env", "logs", "eviction", "metrics", "shutdown"] (appField d outer) := by
  intro f g s hf hg hne
  simp only [List.mem_cons, List.not_mem_nil, or_false] at hf hg
  rcases hf with hf | hf | hf | hf | hf <;> rcases hg with hg | hg | hg | hg | hg <;>
    first
    | exact absurd (hf.trans hg.symm) hne
    | simp only [toOption_appField, hf, hg, String.reduceEq, if_true, if_false]
      exact stored_comm _ _ (by intros; rfl) s

theorem agree_sections : Agree SameSections (sections d) (sections d') := by
  have hread (d : Yaml.Document) : sections d = readMapping d "struct AppBox"
      ["env", "logs", "eviction", "metrics", "shutdown"] (appField d) ⟨none, none, none, none, none⟩
      fun outer s => do
        return ⟨← require outer "env" s.env, s.logs, s.eviction, s.metrics, s.shutdown⟩ := rfl
  rw [hread, hread]
  refine agree_readMapping (fun _ => commutes_appField) ?_ ?_
  · intro outer outer' name hname v w hsame path path' s
    simp only [List.mem_cons, List.not_mem_nil, or_false] at hname
    rcases hname with rfl | rfl | rfl | rfl | rfl <;>
      simp only [toOption_appField, sectionFields, String.reduceEq, if_true, if_false] at hsame ⊢
    · rw [agree_text v w hsame path path']
    · rw [agree_logs.optionalSection v w hsame path path']
    · rw [agree_eviction.optionalSection v w hsame path path']
    · rw [agree_metrics.optionalSection v w hsame path path']
    · rw [agree_shutdown.optionalSection v w hsame path path']
  · intro outer outer' s
    rw [toOption_map, toOption_map, toOption_require, toOption_require]

end

end Decode

namespace Settings

open Decode

/-- Documents with the same content give the same settings, or neither gives any. -/
theorem toOption_ofDocument {d d' : Yaml.Document} (h : SameContent d.root d'.root) :
    (ofDocument d).toOption = (ofDocument d').toOption := by
  have hread (d : Yaml.Document) : ofDocument d = readMapping d "struct FeedCache" ["app"]
      (fun _ f (_ : Option Settings) => do return some (← Decode.sections d f.path f.value)) none
      (require · "app") [] d.root := rfl
  rw [hread, hread]
  refine agree_readMapping (fun _ => commutes_singleton) ?_ ?_ d.root d'.root h [] []
  · intro outer outer' name _ v w hsame path path' s
    rw [toOption_map, toOption_map, agree_sections v w hsame path path']
  · intro outer outer' app
    rw [toOption_require, toOption_require]

/-- Two texts are documents with the same content. -/
def SameDocuments (x y : String) : Prop :=
  ∃ d d', Yaml.parse x = .ok d ∧ Yaml.parse y = .ok d' ∧ SameContent d.root d'.root

/-- Settings do not depend on the layout: texts with the same content give the same settings, or
neither gives any. -/
theorem layout {x y : String} (h : SameDocuments x y) :
    (parse x).toOption = (parse y).toOption := by
  obtain ⟨d, d', hx, hy, hsame⟩ := h
  have hload (d : Yaml.Document) :
      (load d).toOption = (ofDocument d).toOption.bind fun s => s.checked.toOption := by
    unfold load
    cases ofDocument d <;> rfl
  rw [parse_of_document hx, parse_of_document hy, hload, hload, toOption_ofDocument hsame]

/-- A document in block style. -/
def blockText : String := "app:\n  env: dev\n  logs:\n  shutdown:\n    timeout: 5s\n"

/-- The same in flow style, with the fields in another order and one more between them. -/
def flowText : String :=
  "\x7bapp: \x7bshutdown: \x7btimeout: 5s\x7d, z: [1], logs: ~, env: 'dev'\x7d\x7d"

-- the two texts are read by evaluation, which goes deep
set_option maxRecDepth 1000 in
theorem layout_flow :
    SameDocuments blockText flowText ∧ (parse blockText).toOption = (parse flowText).toOption := by
  have hsame : SameDocuments blockText flowText := by
    refine ⟨_, _, by cbv, by cbv, ?_⟩
    refine .mapping ⟨by simp [IsName], by simp [IsName], ?_⟩
    simp only [List.forall_mem_singleton]
    refine .once (.mapping ⟨by simp [IsName], by simp [IsName], ?_⟩)
    simp only [List.forall_mem_cons]
    refine ⟨.once (.scalar rfl), .once (.null rfl rfl), .absent, .absent, .once (.mapping ?_),
      List.forall_mem_nil _⟩
    refine .mapping ⟨by simp [IsName], by simp [IsName], ?_⟩
    show ∀ name ∈ ["timeout"], _
    simp only [List.forall_mem_singleton]
    exact .once (.scalar rfl)
  exact ⟨hsame, layout hsame⟩

end Settings

end CacheWarden
