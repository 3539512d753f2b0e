import CacheWarden.Proofs.Eviction.Samples
import CacheWarden.Proofs.Event.Delivery
/-!
The meter and the log of the boundary tell what became of the events.

The same fault can come from a body and from the handler, and a failure can end in
the dead letters or back with the caller.  The meter tells these apart: it counts
the bodies that are no documents, whatever the handler says, and the failures that
are dead letters, whatever was refused (`Counted.run`).  The log of a call follows
from what the call came to (`Told.call`).  `telling` joins the two for any handler,
any refusals and any calls.
-/

namespace CacheWarden

/-! ### What is counted -/

/-- The event is a dead letter. -/
def isDeadLettered : Except EventError Outcome → Bool
  | .ok .deadLettered => true
  | _ => false

/-- The body is no document. -/
def Call.isRejected (c : Call) : Bool := c.fault?.isSome

/-- From one state to another, so many dead letters and so many rejected bodies were counted, and
nothing else; and the queue grew by the dead letters. -/
structure Counted (s t : Intake) (letters rejections : Nat) : Prop where
  queue : t.queue.length = s.queue.length + letters
  letters : t.meter.count .deadLettered = s.meter.count .deadLettered + UInt64.ofNat letters
  rejections : t.meter.count .malformed = s.meter.count .malformed + UInt64.ofNat rejections
  others : ∀ c : Counter, c ≠ .deadLettered → c ≠ .malformed → t.meter.count c = s.meter.count c
  finished : t.meter.finished = s.meter.finished

namespace Counted

variable {s t u : Intake} {a b c d : Nat}

/-- Nothing was counted where the meter and the queue are the same. -/
theorem of_same (hqueue : t.queue = s.queue) (hmeter : t.meter = s.meter) : Counted s t 0 0 := by
  refine ⟨by rw [hqueue]; rfl, ?_, ?_, ?_, by rw [hmeter]⟩
  · rw [hmeter]
    simp
  · rw [hmeter]
    simp
  · intro c _ _
    rw [hmeter]

/-- What was counted adds up. -/
theorem trans (h : Counted s t a b) (h' : Counted t u c d) : Counted s u (a + c) (b + d) := by
  refine ⟨?_, ?_, ?_, ?_, h'.finished.trans h.finished⟩
  · rw [h'.queue, h.queue, Nat.add_assoc]
  · rw [h'.letters, h.letters, UInt64.ofNat_add, UInt64.add_assoc]
  · rw [h'.rejections, h.rejections, UInt64.ofNat_add, UInt64.add_assoc]
  · intro k hk hk'
    rw [h'.others k hk hk', h.others k hk hk']

/-- A payload counts as a dead letter if its result says so, and never as a rejected body. -/
theorem deliver (i : Ingestor) (now : Int) (p : Payload) (s : Intake) :
    Counted s (i.deliver now p s).1 (isDeadLettered (i.deliver now p s).2.1).toNat 0 := by
  unfold Ingestor.deliver
  rcases hh : i.handler p with (f | fault) | ⟨⟩
  · rcases hr : i.refusal? (s.pushes + 1) with - | reason
    · -- the push is accepted: one letter, and one more on its counter
      simp only [Ingestor.deadLetter, hr, isDeadLettered, Bool.toNat_true]
      refine ⟨by simp, ?_, ?_, ?_, rfl⟩
      · exact Meter.count_add_self _ _ _
      · show (s.meter.add .deadLettered 1).count .malformed = _
        rw [Meter.count_add_of_ne _ (by simp)]
        simp
      · intro c hc _
        exact Meter.count_add_of_ne _ hc _
    · simp only [Ingestor.deadLetter, hr, isDeadLettered, Bool.toNat_false]
      exact of_same rfl rfl
  · exact of_same rfl rfl
  · exact of_same rfl rfl

/-- A call counts its body if that is rejected, and its event if that is a dead letter. -/
theorem call (i : Ingestor) (s : Intake) (c : Call) :
    Counted s (i.call s c).1 (isDeadLettered (i.call s c).2.1).toNat c.isRejected.toNat := by
  cases c with
  | process now p => exact deliver i now p s
  | ingest now body =>
    rcases hb : Document.parse body with fault | d
    · have hrejected : (Call.ingest now body).isRejected = true := by
        simp [Call.isRejected, Call.fault?, hb]
      simp only [Ingestor.call, Ingestor.ingest, hb, hrejected, isDeadLettered, Bool.toNat_true,
        Bool.toNat_false]
      refine ⟨rfl, ?_, ?_, ?_, rfl⟩
      · show (s.meter.add .malformed 1).count .deadLettered = _
        rw [Meter.count_add_of_ne _ (by simp)]
        simp
      · exact Meter.count_add_self _ _ _
      · intro c _ hc
        exact Meter.count_add_of_ne _ hc _
    · have hrejected : (Call.ingest now body).isRejected = false := by
        simp [Call.isRejected, Call.fault?, hb]
      simp only [Ingestor.call, Ingestor.ingest, hb, hrejected, Bool.toNat_false]
      exact deliver i now _ s

/-- A run counts its rejected bodies and its dead letters. -/
theorem run (i : Ingestor) (s : Intake) (calls : List Call) :
    Counted s (i.run s calls).1
      ((i.run s calls).2.countP fun reply => isDeadLettered reply.1)
      (calls.countP Call.isRejected) := by
  induction calls generalizing s with
  | nil => exact of_same rfl rfl
  | cons c calls ih =>
    have h := (call i s c).trans (ih (i.call s c).1)
    simp only [Ingestor.run, List.countP_cons]
    convert h using 1
    · rcases isDeadLettered (i.call s c).2.1 <;> simp [Nat.add_comm]
    · rcases c.isRejected <;> simp [Nat.add_comm]

end Counted

/-! ### What is told -/

namespace EventFailure

/-- The id that is told of a failed event: the text under `id` at the top of its payload, or a
dash. -/
def shownId (f : EventFailure) : String :=
  match f.payload with
  | none => "-"
  | some p =>
    match Keyed.get? "id" p.document with
    | some (.string id) => id
    | _ => "-"

theorem orDash_eventId? (f : EventFailure) : Ingestor.orDash f.eventId? = f.shownId := by
  unfold eventId? text? field? shownId Document.field?
  rcases f.payload with - | p
  · rfl
  · rcases h : Keyed.get? "id" p.document with - | v
    · simp [h, Ingestor.orDash]
    · cases v <;> simp [h, Ingestor.orDash, Json.Value.string?]

/-- The line with the payload, if there is one. -/
def payloadLines (f : EventFailure) : List Record :=
  f.payload.toList.map fun p =>
    ⟨.debug, .ingest, "failed event payload",
      [("component", .text "ingest"), ("payload", .plain p.document.text)]⟩

end EventFailure

/-- What a call tells, by what it brings and by the number of the push that it would make. -/
structure Told (i : Ingestor) (c : Call) (brings : Option Payload) (push : Nat)
    (log : List Record) : Prop where
  /-- A rejected body gives one warning. -/
  rejected : c.isRejected → ∃ line, log = [line] ∧ line.level = .warn
  /-- What the handler does not fail on gives nothing, an error of another kind included. -/
  quiet : ∀ p, brings = some p → i.failure? p = none → log = []
  /-- A failure gives a warning, its payload, and one line on what became of the event; the first
  and the last tell the same id. -/
  failed : ∀ p f, brings = some p → i.failure? p = some f →
    ∃ first last, log = first :: (f.payloadLines ++ [last]) ∧
      first.level = .warn ∧
      last.level = (if (i.refusal? push).isSome then .error else .info) ∧
      first.fields.lookup "event_id" = some (.text f.shownId) ∧
      last.fields.lookup "event_id" = some (.text f.shownId)

namespace Told

/-- The log of a payload follows from what the handler says to it. -/
theorem deliver (i : Ingestor) (now : Int) (p : Payload) (s : Intake) (c : Call)
    (hc : c.isRejected = false) :
    Told i c (some p) (s.pushes + 1) ((i.deliver now p s).2.2.map Notice.record) := by
  have hrejected : c.isRejected → ∃ line, ((i.deliver now p s).2.2.map Notice.record) = [line] ∧
      line.level = .warn := by simp [hc]
  rcases hf : i.failure? p with - | f
  · -- no failure: nothing is told
    have hlog : (i.deliver now p s).2.2 = [] := by
      unfold Ingestor.deliver
      unfold Ingestor.failure? at hf
      rcases hh : i.handler p with (f | fault) | ⟨⟩
      · simp [hh, EventError.failure?] at hf
      · rfl
      · rfl
    refine ⟨hrejected, ?_, ?_⟩
    · intro q _ _
      rw [hlog]
      rfl
    · rintro q f ⟨⟩ hq
      rw [hf] at hq
      cases hq
  · have hh : i.handler p = .error (.failure f) := by
      unfold Ingestor.failure? at hf
      rcases hh : i.handler p with (g | fault) | ⟨⟩
      · simp only [hh, EventError.failure?, Option.some.injEq] at hf
        rw [hf]
      · simp [hh, EventError.failure?] at hf
      · simp [hh] at hf
    refine ⟨hrejected, ?_, ?_⟩
    · rintro q ⟨⟩ hq
      rw [hf] at hq
      cases hq
    · rintro q g ⟨⟩ hq
      obtain rfl : f = g := by simpa [hf] using hq
      -- the first lines do not depend on the push, the last does
      let first := Notice.eventFailed f.shownId (Ingestor.orDash f.eventType?) f.message
      have hfirst : (Ingestor.failureNotices f).map Notice.record
          = first.record :: f.payloadLines := by
        unfold Ingestor.failureNotices EventFailure.payloadLines
        rw [f.orDash_eventId?]
        rcases f.payload with - | q <;> rfl
      unfold Ingestor.deliver Ingestor.deadLetter
      rcases hr : i.refusal? (s.pushes + 1) with - | reason
      · refine ⟨first.record, (Notice.deadLettered f.shownId).record, ?_, rfl, rfl, rfl, rfl⟩
        simp only [hh, hr, List.map_append, hfirst, f.orDash_eventId?]
        rfl
      · refine ⟨first.record, (Notice.deadLetterFailed f.shownId reason).record, ?_, rfl, rfl, rfl,
          rfl⟩
        simp only [hh, hr, List.map_append, hfirst, f.orDash_eventId?]
        rfl

/-- The log of a call follows from what the call comes to. -/
theorem call (i : Ingestor) (s : Intake) (c : Call) :
    Told i c (c.payload? s.seen.length) (s.pushes + 1) ((i.call s c).2.2.map Notice.record) := by
  cases c with
  | process now p => exact deliver i now p s _ rfl
  | ingest now body =>
    rcases hb : Document.parse body with fault | d
    · have hbrings : (Call.ingest now body).payload? s.seen.length = none := by
        simp [Call.payload?, hb]
      rw [hbrings]
      refine ⟨?_, by simp, by simp⟩
      intro _
      simp only [Ingestor.call, Ingestor.ingest, hb]
      exact ⟨_, rfl, rfl⟩
    · have hbrings : (Call.ingest now body).payload? s.seen.length
          = some ⟨.received s.seen.length, d⟩ := by simp [Call.payload?, hb]
      rw [hbrings]
      simp only [Ingestor.call, Ingestor.ingest, Ingestor.process, hb]
      exact deliver i now _ s _ (by simp [Call.isRejected, Call.fault?, hb])

end Told

/-- **Telling.**  For any handler, any refusals, any calls and any state in front of them, with a
meter that nothing was counted on:

* the meter stands, up to 64 bits, at the calls whose event is a dead letter, which is how much the
  queue has grown, and at the calls whose body is no document; nothing else was counted;
* each call has one log, which follows from what the call came to. -/
theorem telling (i : Ingestor) (s : Intake) (calls : List Call) :
    let start := { s with meter := Meter.empty }
    let behind := i.run start calls
    let letters := behind.2.countP fun reply => isDeadLettered reply.1
    (behind.1.meter.count .deadLettered).toNat = letters % 2 ^ 64 ∧
      behind.1.queue.length = s.queue.length + letters ∧
      (behind.1.meter.count .malformed).toNat = calls.countP Call.isRejected % 2 ^ 64 ∧
      (∀ c : Counter, c ≠ .deadLettered → c ≠ .malformed → behind.1.meter.count c = 0) ∧
      behind.1.meter.finished = [] ∧
      behind.2.length = calls.length ∧
      ∀ k : Fin calls.length, ∃ reply, behind.2[k.val]? = some reply ∧
        let front := (i.run start (calls.take k)).1
        Told i (calls.get k) ((calls.get k).payload? front.seen.length) (front.pushes + 1)
          (reply.2.map Notice.record) := by
  intro start behind letters
  have h : Counted start behind.1 letters (calls.countP Call.isRejected) :=
    Counted.run i start calls
  refine ⟨?_, h.queue, ?_, ?_, h.finished, i.length_replies start calls, ?_⟩
  · rw [h.letters]
    show (0 + UInt64.ofNat letters).toNat = _
    rw [UInt64.zero_add, UInt64.toNat_ofNat']
  · rw [h.rejections]
    show (0 + UInt64.ofNat _).toNat = _
    rw [UInt64.zero_add, UInt64.toNat_ofNat']
  · intro c hc hc'
    rw [h.others c hc hc']
    rfl
  · intro k
    exact ⟨_, i.reply_getElem? start calls k, Told.call i _ _⟩

end CacheWarden
