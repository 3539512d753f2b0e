/-!
Tasks: what goes on beside a service's main course.

A task waits for something, and does its job when that comes.  The tasks of a
service form a list, ordered by when each began its present wait: of two that are
due at the same time, the one in front goes first.
-/

namespace CacheWarden

/-- The number of a tracker.  A tracker follows tasks, so that their end can be waited for. -/
abbrev TrackerId := Nat

/-- What a task waits for. -/
inductive Wait where
  /-- Its first turn. -/
  | turn
  /-- A time. -/
  | until (time : Nat)
  /-- The cancellation, and a rest after it; without a rest, it never ends. -/
  | cancellation (rest : Option Nat)
  /-- Nothing that ever comes. -/
  | forever
deriving DecidableEq, Repr

/-- What a task does once its wait is over. -/
inductive Job where
  /-- Clear the feed region, and sleep for the next clear: the eviction loop. -/
  | evict
  /-- End. -/
  | finish
  /-- Ask for the cancellation, and end. -/
  | cancel
  /-- Send an interrupt, and end. -/
  | interrupt
deriving DecidableEq, Repr

/-- A task, and the tracker that follows it. -/
structure Task where
  tracker : Option TrackerId
  job : Job
  wait : Wait
deriving DecidableEq, Repr

namespace Task

/-- The time at which the task goes on by itself. -/
def due? (t : Task) : Option Nat :=
  match t.wait with
  | .until time => some time
  | _ => none

/-- The task has not had a turn yet. -/
def isNew (t : Task) : Bool := t.wait == .turn

/-- The eviction loop, asleep between its clears. -/
def isDozing (t : Task) : Bool := t.job == .evict && t.due?.isSome

/-- The task waits for the cancellation. -/
def isPatient (t : Task) : Bool :=
  match t.wait with
  | .cancellation _ => true
  | _ => false

/-- The task once it has learned of the cancellation. -/
def setOff (now : Nat) (t : Task) : Task :=
  match t.wait with
  | .cancellation (some rest) => { t with wait := .until (now + rest) }
  | .cancellation none => { t with wait := .forever }
  | _ => t

/-- The first of the tasks that are due earliest, and its time. -/
def earliest? : List Task → Option (Nat × Task)
  | [] => none
  | t :: ts =>
    match t.due?, earliest? ts with
    | none, later => later
    | some due, none => some (due, t)
    | some due, some later => if due ≤ later.1 then some (due, t) else some later

/-- No task is told exactly when none is due. -/
theorem earliest?_eq_none_iff {ts : List Task} :
    earliest? ts = none ↔ ∀ t ∈ ts, t.due? = none := by
  induction ts with
  | nil => simp [earliest?]
  | cons a rest ih =>
    unfold earliest?
    cases ha : a.due? with
    | none => simp [ih, ha]
    | some due =>
      cases hr : earliest? rest with
      | none => simp [ha]
      | some later => by_cases hle : due ≤ later.1 <;> simp [hle, ha]

/-- The task told is one of the tasks and due at the time told, and none is due before. -/
theorem earliest?_eq_some {ts : List Task} {time : Nat} {t : Task}
    (h : earliest? ts = some (time, t)) :
    t ∈ ts ∧ t.due? = some time ∧ ∀ u ∈ ts, ∀ due, u.due? = some due → time ≤ due := by
  induction ts generalizing time t with
  | nil => simp [earliest?] at h
  | cons a rest ih =>
    unfold earliest? at h
    cases ha : a.due? with
    | none =>
      obtain ⟨hm, hd, hle⟩ := ih (by simpa [ha] using h)
      exact ⟨List.mem_cons_of_mem _ hm, hd, by simpa [ha] using hle⟩
    | some due =>
      cases hr : earliest? rest with
      | none =>
        obtain ⟨rfl, rfl⟩ : due = time ∧ a = t := by simpa [ha, hr] using h
        have hrest := earliest?_eq_none_iff.mp hr
        refine ⟨List.mem_cons_self, ha, ?_⟩
        intro u hu d hd
        rcases List.mem_cons.mp hu with rfl | hu
        · simp_all
        · simp [hrest u hu] at hd
      | some later =>
        obtain ⟨hm, hd, hle⟩ := @ih later.1 later.2 (by simp [hr])
        by_cases hdue : due ≤ later.1
        · obtain ⟨rfl, rfl⟩ : due = time ∧ a = t := by simpa [ha, hr, hdue] using h
          refine ⟨List.mem_cons_self, ha, ?_⟩
          intro u hu d hd
          rcases List.mem_cons.mp hu with rfl | hu
          · simp_all
          · exact Nat.le_trans hdue (hle u hu d hd)
        · obtain rfl : later = (time, t) := by simpa [ha, hr, hdue] using h
          refine ⟨List.mem_cons_of_mem _ hm, hd, ?_⟩
          intro u hu d hd
          rcases List.mem_cons.mp hu with rfl | hu
          · simp_all; omega
          · exact hle u hu d hd

end Task

end CacheWarden
