import CacheWarden.Event.Ingest
import Mathlib.Data.List.Induction
/-!
Calls at the boundary, one after another, and what they amount to by themselves.

Which payloads come in is known from the calls alone (`arrivals`), and which of them
fail from the handler (`Ingestor.failures`).  Which failures are kept depends on the
refusals besides (`Ingestor.letters`): the pushes to the dead letters are numbered by
the failures, in order.  A run of the boundary has nothing else in it
(`Account.run`).
-/

namespace CacheWarden

/-- A call, at an instant. -/
inductive Call where
  /-- With a body. -/
  | ingest (now : Int) (body : List UInt8)
  /-- With a payload. -/
  | process (now : Int) (payload : Payload)

namespace Call

/-- The instant of the call. -/
def now : Call → Int
  | .ingest now _ | .process now _ => now

/-- Why its body is no document, if so. -/
def fault? : Call → Option Document.Fault
  | .ingest _ body =>
    match Document.parse body with
    | .ok _ => none
    | .error fault => some fault
  | .process _ _ => none

/-- The payload that it brings, as the handler's call of a number. -/
def payload? (number : Nat) : Call → Option Payload
  | .ingest _ body =>
    match Document.parse body with
    | .ok d => some ⟨.received number, d⟩
    | .error _ => none
  | .process _ payload => some payload

end Call

/-- The payloads that some calls bring, each with the instant of its call. -/
def arrivals (calls : List Call) : List (Int × Payload) :=
  calls.foldl (fun past c => past ++ ((c.payload? past.length).map (c.now, ·)).toList) []

theorem arrivals_concat (calls : List Call) (c : Call) :
    arrivals (calls ++ [c])
      = arrivals calls ++ ((c.payload? (arrivals calls).length).map (c.now, ·)).toList := by
  simp [arrivals, List.foldl_append]

namespace Ingestor

variable (i : Ingestor)

/-! ### What the calls amount to -/

/-- The handler's failure on a payload. -/
def failure? (p : Payload) : Option EventFailure :=
  match i.handler p with
  | .error e => e.failure?
  | .ok () => none

/-- The handler's failures, each with the instant of its call. -/
def failures (calls : List Call) : List (Int × EventFailure) :=
  (arrivals calls).filterMap fun a => (i.failure? a.2).map (a.1, ·)

/-- The dead letters of some failures that are pushed as from a number: all but the refused. -/
def lettersFrom (push : Nat) (failures : List (Int × EventFailure)) : List DeadLetter :=
  (failures.zipIdx push).filterMap fun f =>
    if (i.refusal? f.2).isNone then some (.ofFailure f.1.2 f.1.1) else none

/-- The dead letters of some calls. -/
def letters (calls : List Call) : List DeadLetter := i.lettersFrom 1 (i.failures calls)

theorem failures_concat (calls : List Call) (c : Call) :
    i.failures (calls ++ [c]) = i.failures calls ++
      (((c.payload? (arrivals calls).length).bind i.failure?).map (c.now, ·)).toList := by
  unfold failures
  rw [arrivals_concat, List.filterMap_append]
  rcases c.payload? (arrivals calls).length with - | p
  · rfl
  · rcases h : i.failure? p with - | f <;> simp [h]

theorem lettersFrom_append (push : Nat) (fs gs : List (Int × EventFailure)) :
    i.lettersFrom push (fs ++ gs)
      = i.lettersFrom push fs ++ i.lettersFrom (push + fs.length) gs := by
  unfold lettersFrom
  rw [List.zipIdx_append, List.filterMap_append]

/-! ### Runs -/

/-- Carries out a call. -/
def call (s : Intake) : Call → Intake.Step
  | .ingest now body => i.ingest now body s
  | .process now payload => i.deliver now payload s

/-- Carries out calls, one after another; gives the state behind them, and what each of them has
given and told. -/
def run (s : Intake) : List Call → Intake × List (Except EventError Outcome × List Notice)
  | [] => (s, [])
  | c :: calls =>
    let (s, reply) := i.call s c
    let (s, replies) := run s calls
    (s, reply :: replies)

theorem run_append (s : Intake) (xs ys : List Call) :
    i.run s (xs ++ ys)
      = ((i.run (i.run s xs).1 ys).1, (i.run s xs).2 ++ (i.run (i.run s xs).1 ys).2) := by
  induction xs generalizing s with
  | nil => rfl
  | cons c xs ih => simp [run, ih]

theorem length_replies (s : Intake) (calls : List Call) :
    (i.run s calls).2.length = calls.length := by
  induction calls generalizing s with
  | nil => rfl
  | cons c calls ih => simp [run, ih]

/-- The reply of a call is what it gives behind the calls in front of it. -/
theorem reply_getElem? (s : Intake) (calls : List Call) (k : Fin calls.length) :
    (i.run s calls).2[k.val]? = some (i.call (i.run s (calls.take k)).1 calls[k]).2 := by
  have hlen : (i.run s (calls.take k)).2.length = k.val := by
    rw [length_replies, List.length_take, Nat.min_eq_left (Nat.le_of_lt k.isLt)]
  have hsplit : i.run s calls = i.run s (calls.take k ++ calls[k] :: calls.drop (k + 1)) := by
    simp
  rw [hsplit, run_append, List.getElem?_append_right (Nat.le_of_eq hlen), hlen, Nat.sub_self]
  rfl

/-- What a payload changes: it is seen, and if the handler fails on it, the failure is pushed. -/
theorem deliver_state (now : Int) (p : Payload) (s : Intake) :
    (i.deliver now p s).1.seen = s.seen ++ [p] ∧
      (i.deliver now p s).1.pushes = s.pushes + (i.failure? p).toList.length ∧
      (i.deliver now p s).1.queue = s.queue ++
        i.lettersFrom (s.pushes + 1) ((i.failure? p).map (now, ·)).toList := by
  unfold deliver
  rcases hh : i.handler p with (f | fault) | ⟨⟩
  · -- a failure: its push is the next, and may be refused
    have hf : i.failure? p = some f := by simp [failure?, hh, EventError.failure?]
    rcases hr : i.refusal? (s.pushes + 1) with - | reason <;>
      simp [deadLetter, hr, hf, lettersFrom]
  · have hf : i.failure? p = none := by simp [failure?, hh, EventError.failure?]
    simp [hf, lettersFrom]
  · have hf : i.failure? p = none := by simp [failure?, hh]
    simp [hf, lettersFrom]

end Ingestor

/-! ### The account of a run -/

/-- A state holds what some calls amount to. -/
structure Account (i : Ingestor) (calls : List Call) (s : Intake) : Prop where
  seen : s.seen = (arrivals calls).map (·.2)
  pushes : s.pushes = (i.failures calls).length
  queue : s.queue = i.letters calls

namespace Account

variable {i : Ingestor} {calls : List Call} {s : Intake}

theorem start (i : Ingestor) : Account i [] .start := ⟨rfl, rfl, rfl⟩

/-- The handler's next call has the number of the payloads so far. -/
theorem length_seen (h : Account i calls s) : s.seen.length = (arrivals calls).length := by
  rw [h.seen, List.length_map]

/-- A payload that is handed over goes into the account of its call. -/
theorem deliver (h : Account i calls s) (c : Call) {p : Payload}
    (hp : c.payload? (arrivals calls).length = some p) :
    Account i (calls ++ [c]) (i.deliver c.now p s).1 := by
  obtain ⟨hseen, hpushes, hqueue⟩ := i.deliver_state c.now p s
  have hfailures : i.failures (calls ++ [c])
      = i.failures calls ++ ((i.failure? p).map (c.now, ·)).toList := by
    rw [Ingestor.failures_concat, hp]
    rfl
  refine ⟨?_, ?_, ?_⟩
  · rw [hseen, h.seen, arrivals_concat, hp]
    simp
  · rw [hpushes, h.pushes, hfailures, List.length_append]
    rcases i.failure? p with - | f <;> rfl
  · have hletters : i.letters (calls ++ [c]) = i.letters calls ++
        i.lettersFrom (s.pushes + 1) ((i.failure? p).map (c.now, ·)).toList := by
      unfold Ingestor.letters
      rw [hfailures, Ingestor.lettersFrom_append, h.pushes, Nat.add_comm 1]
    rw [hqueue, h.queue, hletters]

/-- A call that brings nothing leaves the account as it is. -/
theorem skip (h : Account i calls s) {c : Call}
    (hp : c.payload? (arrivals calls).length = none) : Account i (calls ++ [c]) s := by
  refine ⟨?_, ?_, ?_⟩
  · rw [h.seen, arrivals_concat, hp]
    simp
  · rw [h.pushes, Ingestor.failures_concat, hp]
    simp
  · unfold Ingestor.letters
    rw [h.queue, Ingestor.failures_concat, hp]
    simp [Ingestor.letters]

/-- A call goes into the account. -/
theorem call (h : Account i calls s) (c : Call) : Account i (calls ++ [c]) (i.call s c).1 := by
  cases c with
  | process now p => exact h.deliver (.process now p) rfl
  | ingest now body =>
    rcases hb : Document.parse body with fault | d
    · have hskip := h.skip (c := .ingest now body) (by simp [Call.payload?, hb])
      simp only [Ingestor.call, Ingestor.ingest, hb]
      exact ⟨hskip.seen, hskip.pushes, hskip.queue⟩
    · simp only [Ingestor.call, Ingestor.ingest, Ingestor.process, hb]
      refine h.deliver (.ingest now body) ?_
      rw [h.length_seen]
      simp [Call.payload?, hb]

/-- A run from the start holds what its calls amount to. -/
theorem run (i : Ingestor) (calls : List Call) : Account i calls (i.run .start calls).1 := by
  induction calls using List.reverseRecOn with
  | nil => exact start i
  | append_singleton calls c ih =>
    rw [Ingestor.run_append]
    exact ih.call c

end Account

end CacheWarden
