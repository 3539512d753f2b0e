import CacheWarden.Proofs.Event.Call
/-!
No event is lost, doubled or put out of order at the boundary.

`delivery` says of a run from the start what the handler got, what each call gave,
and what lies in the dead letters, each by the calls, the handler and the refusals
alone.  The four results that a call may give exclude each other and leave nothing
out, so an event that the handler fails on is a dead letter or is back with its
caller, never both.
-/

namespace CacheWarden

namespace Ingestor

variable (i : Ingestor)

/-! ### One call -/

/-- A payload is processed if the handler takes it; its failure is a dead letter, or comes back if
the push is refused; any other error comes back. -/
theorem result_deliver (now : Int) (p : Payload) (s : Intake) :
    (i.deliver now p s).2.1 =
      match i.handler p with
      | .ok () => .ok .processed
      | .error (.failure f) =>
        if (i.refusal? (s.pushes + 1)).isSome then .error (.failure f) else .ok .deadLettered
      | .error (.undecodable fault) => .error (.undecodable fault) := by
  unfold deliver
  rcases i.handler p with (f | fault) | ⟨⟩
  · rcases hr : i.refusal? (s.pushes + 1) with - | reason <;> simp [deadLetter, hr]
  · rfl
  · rfl

/-- A call that brings a payload gives what its delivery gives. -/
theorem result_of_payload {s : Intake} {c : Call} {p : Payload}
    (hp : c.payload? s.seen.length = some p) :
    (i.call s c).2.1 = (i.deliver c.now p s).2.1 ∧ c.fault? = none := by
  cases c with
  | process now q =>
    obtain rfl : q = p := by simpa [Call.payload?] using hp
    exact ⟨rfl, rfl⟩
  | ingest now body =>
    rcases hb : Document.parse body with fault | d
    · simp [Call.payload?, hb] at hp
    · obtain rfl : ⟨.received s.seen.length, d⟩ = p := by simpa [Call.payload?, hb] using hp
      simp [call, ingest, process, Call.fault?, Call.now, hb]

/-- A call that brings none is rejected. -/
theorem result_of_no_payload {s : Intake} {c : Call} (hp : c.payload? s.seen.length = none) :
    ∃ fault, c.fault? = some fault ∧ (i.call s c).2.1 = .error (.undecodable fault) := by
  cases c with
  | process now q => simp [Call.payload?] at hp
  | ingest now body =>
    rcases hb : Document.parse body with fault | d
    · exact ⟨fault, by simp [Call.fault?, hb], by simp [call, ingest, hb]⟩
    · simp [Call.payload?, hb] at hp

end Ingestor

/-- What a call gives, by what it brings and by the number of the push that it would make. -/
structure Verdict (i : Ingestor) (c : Call) (brings : Option Payload) (push : Nat)
    (result : Except EventError Outcome) : Prop where
  processed : result = .ok .processed ↔ ∃ p, brings = some p ∧ i.handler p = .ok ()
  deadLettered : result = .ok .deadLettered ↔
    ∃ p f, brings = some p ∧ i.handler p = .error (.failure f) ∧ i.refusal? push = none
  returned : ∀ f, result = .error (.failure f) ↔
    ∃ p, brings = some p ∧ i.handler p = .error (.failure f) ∧ (i.refusal? push).isSome
  undecodable : ∀ fault, result = .error (.undecodable fault) ↔
    c.fault? = some fault ∨ ∃ p, brings = some p ∧ i.handler p = .error (.undecodable fault)

/-- The verdict on a call by itself. -/
theorem Ingestor.verdict_call (i : Ingestor) (s : Intake) (c : Call) :
    Verdict i c (c.payload? s.seen.length) (s.pushes + 1) (i.call s c).2.1 := by
  rcases hp : c.payload? s.seen.length with - | p
  · obtain ⟨fault, hfault, hresult⟩ := i.result_of_no_payload hp
    rw [hresult]
    constructor <;> simp [hfault]
  · obtain ⟨hresult, hfault⟩ := i.result_of_payload hp
    rw [hresult, i.result_deliver]
    rcases hh : i.handler p with (f | fault) | ⟨⟩
    · rcases hr : i.refusal? (s.pushes + 1) with - | reason <;>
        constructor <;> simp [hfault, hh, hr]
    · constructor <;> simp [hfault, hh]
    · constructor <;> simp [hfault, hh]

/-! ### Runs -/

/-- **Delivery.**  For any handler, any refusals and any calls, from the start:

* the handler has got exactly the payloads that the calls bring, in the order of the calls;
* each call has one reply, which is the verdict on the payload that it brings and on the push that
  it would make;
* each failure of the handler was pushed once, and the dead letters are these failures in the order
  of the calls, without those whose push was refused. -/
theorem delivery (i : Ingestor) (calls : List Call) :
    (i.run .start calls).1.seen = (arrivals calls).map (·.2) ∧
      (i.run .start calls).2.length = calls.length ∧
      (∀ k : Fin calls.length, ∃ reply, (i.run .start calls).2[k.val]? = some reply ∧
        Verdict i (calls.get k) ((calls.get k).payload? (arrivals (calls.take k)).length)
          ((i.failures (calls.take k)).length + 1) reply.1) ∧
      (i.run .start calls).1.pushes = (i.failures calls).length ∧
      (i.run .start calls).1.queue = i.letters calls := by
  have h := Account.run i calls
  refine ⟨h.seen, i.length_replies .start calls, ?_, h.pushes, h.queue⟩
  intro k
  have hk := Account.run i (calls.take k)
  refine ⟨_, i.reply_getElem? .start calls k, ?_⟩
  rw [← hk.length_seen, ← hk.pushes]
  exact i.verdict_call _ _

end CacheWarden
