import CacheWarden.Meter
import Mathlib
/-!
The names of samples.

A sample is known by its metric and, if that is about a region, by a label with the region.
A region without quotes, backslashes and line feeds stands in its label as it is
(`labelText_of_isPlain`), so the name of a sample is put together of the metric and
the region (`finishedSeries_eq`, `Counter.series_eq`), and it gives both back
(`Series.text_injective`).
-/

namespace CacheWarden.Meter

/-! ### Samples -/

/-- What is measured. -/
inductive Metric where
  | evictions
  | evictedItems
  | evictionFailures
  | lastFinished
  | deadLettered
  | malformed
deriving DecidableEq, Repr

/-- The name of a metric. -/
def Metric.name : Metric → String
  | evictions => "feed_cache_evictions_total"
  | evictedItems => "feed_cache_evicted_items_total"
  | evictionFailures => "feed_cache_eviction_failures_total"
  | lastFinished => "feed_cache_eviction_last_finished_at_ms"
  | deadLettered => "events_dead_lettered_total"
  | malformed => "events_malformed_total"

/-- What a sample is about: a counter, or the last clear of a region. -/
inductive Series where
  | counter (c : Counter)
  | finished (region : String)
deriving DecidableEq, Repr

namespace Series

/-- The metric of a sample. -/
def metric : Series → Metric
  | counter (.evictions _) => .evictions
  | counter (.evictedItems _) => .evictedItems
  | counter (.evictionFailures _) => .evictionFailures
  | counter .deadLettered => .deadLettered
  | counter .malformed => .malformed
  | finished _ => .lastFinished

/-- The region of a sample, if its metric is about one. -/
def region? : Series → Option String
  | counter (.evictions region) | counter (.evictedItems region)
  | counter (.evictionFailures region) | finished region => some region
  | counter .deadLettered | counter .malformed => none

/-- The metric, and the region as it is between quotes. -/
def text (s : Series) : String :=
  match s.region? with
  | none => s.metric.name
  | some region => s.metric.name ++ "\x7bregion=\"" ++ region ++ "\"\x7d"

end Series

/-- A region that a label shows as it is. -/
def IsPlain (region : String) : Prop := ∀ c ∈ region.toList, c ≠ '"' ∧ c ≠ '\\' ∧ c ≠ '\n'

/-! ### Names as they are written -/

theorem labelText_of_isPlain {cs : List Char} (h : ∀ c ∈ cs, c ≠ '"' ∧ c ≠ '\\' ∧ c ≠ '\n') :
    labelText false cs = cs := by
  induction cs with
  | nil => rfl
  | cons c cs ih =>
    obtain ⟨hquote, hslash, hfeed⟩ := h c List.mem_cons_self
    simp [labelText, hquote, hslash, hfeed, ih fun d hd => h d (List.mem_cons_of_mem c hd)]

/-- The label of a plain region is the region. -/
theorem labelled_eq (name : String) {region : String} (h : IsPlain region) :
    labelled name region = name ++ "\x7bregion=\"" ++ region ++ "\"\x7d" := by
  rw [labelled, labelText_of_isPlain h, String.ofList_toList]

/-- The name of a counter's sample. -/
theorem Counter.series_eq {c : Counter}
    (h : ∀ region ∈ (Series.counter c).region?, IsPlain region) :
    Counter.series c = (Series.counter c).text := by
  cases c with
  | evictions region | evictedItems region | evictionFailures region =>
    exact labelled_eq _ (h region rfl)
  | deadLettered | malformed => rfl

/-- The name of the sample of a region's last clear. -/
theorem finishedSeries_eq {region : String} (h : IsPlain region) :
    finishedSeries region = (Series.finished region).text :=
  labelled_eq _ h

/-! ### Names give samples back -/

theorem Metric.name_injective : Function.Injective Metric.name := by
  intro m n h
  cases m <;> cases n <;> first | rfl | exact absurd h (by decide)

/-- No metric has a brace in its name. -/
theorem Metric.ne_of_mem_name (m : Metric) : ∀ c ∈ m.name.toList, decide (c ≠ '\x7b') = true := by
  refine List.all_eq_true.mp ?_
  cases m <;> cbv

namespace Series

/-- The sample of a metric, and of a region if the metric is about one. -/
def ofMetric : Metric → Option String → Series
  | .evictions, region? => counter (.evictions (region?.getD ""))
  | .evictedItems, region? => counter (.evictedItems (region?.getD ""))
  | .evictionFailures, region? => counter (.evictionFailures (region?.getD ""))
  | .lastFinished, region? => finished (region?.getD "")
  | .deadLettered, _ => counter .deadLettered
  | .malformed, _ => counter .malformed

/-- The metric and the region are all that a sample is about. -/
theorem ofMetric_metric (s : Series) : ofMetric s.metric s.region? = s := by
  rcases s with (_ | _ | _ | _ | _) | _ <;> rfl

/-- A name's metric ends where its label starts. -/
theorem takeWhile_text (s : Series) :
    s.text.toList.takeWhile (fun c => decide (c ≠ '\x7b')) = s.metric.name.toList := by
  have hmetric := s.metric.ne_of_mem_name
  rcases hs : s.region? with - | region <;> simp only [text, hs]
  · exact List.takeWhile_eq_self_iff.mpr hmetric
  · rw [String.append_assoc, String.append_assoc, String.toList_append,
      List.takeWhile_append_of_pos hmetric]
    simp

/-- Two samples have different names. -/
theorem text_injective : Function.Injective text := by
  intro s t h
  have hmetric : s.metric = t.metric := by
    apply Metric.name_injective
    rw [← String.toList_inj, ← takeWhile_text, ← takeWhile_text, h]
  have hregion : s.region? = t.region? := by
    unfold text at h
    rw [hmetric] at h
    rcases hs : s.region? with - | a <;> rcases ht : t.region? with - | b <;>
      simp [hs, ht, ← String.toList_inj] at h ⊢
    exact h
  rw [← ofMetric_metric s, hmetric, hregion, ofMetric_metric]

end Series

end CacheWarden.Meter
