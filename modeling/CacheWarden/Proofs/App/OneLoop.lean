import CacheWarden.Proofs.App.Serving
/-!
At most one loop, ever.

Which call starts the loop is decided where the calls come to the flag, and nowhere
else: it is the first that does, whoever began before (`firstAtFlag?`).  That call and
no other is given a handle (`Standing.after`), and puts one task on its tracker
(`tasksOf_eq`).  There are never more loops than handles (`loops_after`); so there is
at most one, and when it has ended there is none any more.  The application's
warnings are as many as its calls that were refused (`refusals_after`).

`one_loop` puts this together for any evictor, and any history from its start on.
-/

namespace CacheWarden

/-! ### Counts in a list in which one element changes -/

section Count

variable {α : Type} {p : α → Bool} {l : List α}

/-- What is counted after a change, and of what was there, is what was counted before, and of what
is there now. -/
theorem countP_set_add {i : Nat} {x : α} (h : l[i]? = some x) (y : α) :
    (l.set i y).countP p + (if p x then 1 else 0) = l.countP p + if p y then 1 else 0 := by
  obtain ⟨hlt, rfl⟩ := List.getElem?_eq_some_iff.mp h
  -- what is taken away was counted
  have hcounted : (if p l[i] then 1 else 0) ≤ l.countP p := by
    split
    · rename_i hp
      exact List.countP_pos_iff.mpr ⟨_, List.getElem_mem hlt, hp⟩
    · exact Nat.zero_le _
  rw [List.countP_set hlt]
  omega

/-- A list with one element more has that at its end. -/
theorem getElem?_concat (l : List α) (y : α) (i : Nat) :
    (l ++ [y])[i]? = if i = l.length then some y else l[i]? := by
  split
  · rename_i hi
    rw [hi, List.getElem?_concat_length]
  · rename_i hi
    rcases Nat.lt_or_gt_of_ne hi with hlt | hgt
    · exact List.getElem?_append_left hlt
    · have hnone : (l ++ [y]).length ≤ i := by simpa using hgt
      rw [List.getElem?_eq_none hnone, List.getElem?_eq_none (Nat.le_of_lt hgt)]

/-- What holds at no place is not counted. -/
theorem countP_eq_zero_of_get (h : ∀ (i : Nat) x, l[i]? = some x → p x = false) :
    l.countP p = 0 := by
  rw [List.countP_eq_zero]
  intro x hx
  obtain ⟨i, hi⟩ := List.getElem?_of_mem hx
  simp [h i x hi]

/-- What holds at one place and no other is counted once. -/
theorem countP_eq_one_of_get {w : Nat} {x : α} (there : l[w]? = some x) (holds : p x = true)
    (only : ∀ (i : Nat) y, l[i]? = some y → p y = true → i = w) : l.countP p = 1 := by
  induction l generalizing w with
  | nil => cases there
  | cons a l ih =>
    rw [List.countP_cons]
    cases w with
    | zero =>
      obtain rfl : a = x := by simpa using there
      have hrest : l.countP p = 0 := by
        apply countP_eq_zero_of_get
        intro i y hy
        rcases hp : p y with - | -
        · rfl
        · cases only (i + 1) y (by simpa using hy) hp
      rw [hrest, if_pos holds]
    | succ w =>
      have hfirst : p a = false := by
        rcases hp : p a with - | -
        · rfl
        · cases only 0 a rfl hp
      have hrest := ih (w := w) (by simpa using there) fun i y hy hp => by
        simpa using only (i + 1) y (by simpa using hy) hp
      rw [hrest, hfirst]
      rfl

end Count

/-! ### The call that is first -/

/-- The number of the call that is the first to come to the flag, where so many calls began
before. -/
def firstAtFlag? : (calls : Nat) → List Happening → Option Nat
  | _, [] => none
  | n, .call _ :: hs => firstAtFlag? (n + 1) hs
  | n, .go i :: hs => if i < n then some i else firstAtFlag? n hs
  | n, .moment _ _ :: hs => firstAtFlag? n hs
  | n, .shut _ :: hs => firstAtFlag? n hs

/-- How the calls stand where a call has won, or none has. -/
structure Standing (enabled : Bool) (winner? : Option Nat) (c : Scene) : Prop where
  worker : c.app.service.evictor.worker.enabled = enabled
  flag : c.app.service.evictor.served = winner?.isSome
  /-- Who wins has a handle or is going to be given one, and nobody else. -/
  wins : ∀ i s, c.starters[i]? = some s → (s.stage.wins = true ↔ winner? = some i)
  /-- As long as none has won, none has come to the flag. -/
  called : enabled = true → winner? = none → ∀ s ∈ c.starters, s.stage = .called
  present : ∀ w, winner? = some w → w < c.starters.length
  off : enabled = false → winner? = none

namespace Standing

variable {enabled : Bool} {winner? : Option Nat} {c : Scene}

theorem call (h : Standing enabled winner? c) (way : Way) :
    Standing enabled winner? ⟨c.app, c.starters ++ [⟨way, .called⟩]⟩ where
  worker := h.worker
  flag := h.flag
  wins := by
    intro i s hs
    rw [getElem?_concat] at hs
    split at hs
    · rename_i hi
      obtain rfl := Option.some.inj hs
      -- the new call has not won, and the winner was there before
      constructor
      · nofun
      · intro hw
        exact absurd hi (Nat.ne_of_lt (h.present i hw))
    · exact h.wins i s hs
  called := by
    intro on none s hs
    rcases List.mem_append.mp hs with hs | hs
    · exact h.called on none s hs
    · rw [List.mem_singleton.mp hs]
  present := by
    intro w hw
    rw [List.length_append]
    exact Nat.lt_of_lt_of_le (h.present w hw) (Nat.le_add_right _ _)
  off := h.off

theorem aside (h : Standing enabled winner? c) {a : App} (ha : Aside c.app a) :
    Standing enabled winner? ⟨a, c.starters⟩ where
  worker := by rw [ha.worker, h.worker]
  flag := ha.served.trans h.flag
  wins := h.wins
  called := h.called
  present := h.present
  off := h.off

/-- A part that sets no flag, and gives no handle but to the winner. -/
theorem keep (h : Standing enabled winner? c) {i : Nat} {s : Starter}
    (present : c.starters[i]? = some s) {a : App} {stage : Stage}
    (worker : a.service.evictor.worker = c.app.service.evictor.worker)
    (served : a.service.evictor.served = c.app.service.evictor.served)
    (wins : stage.wins = s.stage.wins) (late : enabled = true → winner? ≠ none) :
    Standing enabled winner? ⟨a, c.starters.set i ⟨s.way, stage⟩⟩ where
  worker := by rw [worker, h.worker]
  flag := served.trans h.flag
  wins := by
    intro j u hu
    by_cases hj : i = j
    · -- the call that did its part wins now if it did before
      subst hj
      have hlt : i < c.starters.length := (List.getElem?_eq_some_iff.mp present).1
      obtain rfl : (⟨s.way, stage⟩ : Starter) = u := by
        rw [List.getElem?_set_self hlt] at hu
        exact Option.some.inj hu
      rw [show (⟨s.way, stage⟩ : Starter).stage.wins = s.stage.wins from wins]
      exact h.wins i s present
    · rw [List.getElem?_set_ne hj] at hu
      exact h.wins j u hu
  called := fun on none => absurd none (late on)
  present := by
    intro w hw
    rw [List.length_set]
    exact h.present w hw
  off := h.off

/-- The first call at the flag wins. -/
theorem win (h : Standing true none c) {i : Nat} {s : Starter}
    (present : c.starters[i]? = some s) :
    Standing true (some i) ⟨{ c.app with
      service := { c.app.service with
        evictor := { c.app.service.evictor with served := true } } },
      c.starters.set i ⟨s.way, .won⟩⟩ where
  worker := h.worker
  flag := rfl
  wins := by
    have hlt : i < c.starters.length := (List.getElem?_eq_some_iff.mp present).1
    intro j u hu
    by_cases hj : i = j
    · subst hj
      obtain rfl : (⟨s.way, .won⟩ : Starter) = u := by
        rw [List.getElem?_set_self hlt] at hu
        exact Option.some.inj hu
      exact ⟨fun _ => rfl, fun _ => rfl⟩
    · rw [List.getElem?_set_ne hj] at hu
      -- no other call had won before
      have hlose : ¬ u.stage.wins = true := by
        rw [h.wins j u hu]
        nofun
      exact ⟨fun hw => absurd hw hlose, fun hw => absurd (Option.some.inj hw) hj⟩
  called := nofun
  present := by
    intro w hw
    rw [List.length_set, ← Option.some.inj hw]
    exact (List.getElem?_eq_some_iff.mp present).1
  off := nofun

/-- A part of a call decides which call wins, where that is to be decided. -/
theorem part (h : Standing enabled winner? c) {i : Nat} {s : Starter}
    (present : c.starters[i]? = some s) {a : App} {stage : Stage}
    (hp : Part c.app s.way s.stage a stage) :
    Standing enabled (winner?.or (if enabled then some i else none))
      ⟨a, c.starters.set i ⟨s.way, stage⟩⟩ := by
  have hflag := h.flag
  have hworker := h.worker
  -- where none has won and one can, the call has not come to the flag
  by_cases hopen : enabled = true ∧ winner? = none
  · obtain ⟨rfl, rfl⟩ := hopen
    have hcalled := h.called rfl rfl s (List.mem_of_getElem? present)
    obtain ⟨way, stage₀⟩ := s
    obtain rfl : stage₀ = .called := hcalled
    cases hp with
    | win on first => exact h.win present
    | lose late ns quiet =>
      -- the flag would be set
      rw [late hworker] at hflag
      cases hflag
  · have hor : winner?.or (if enabled then some i else none) = winner? := by
      rcases enabled with - | -
      · simp
      · rcases winner? with - | w
        · exact absurd ⟨rfl, rfl⟩ hopen
        · rfl
    have hlate : enabled = true → winner? ≠ none := fun on none => hopen ⟨on, none⟩
    rw [hor]
    obtain ⟨way, stage₀⟩ := s
    cases hp with
    | win on first =>
      -- the flag is not set, so none has won
      rw [hworker] at on
      rw [first] at hflag
      exact absurd (Option.isNone_iff_eq_none.mp (by rw [← Option.not_isSome, ← hflag]; rfl))
        (hlate on)
    | lose _ _ _ | start | report _ _ _ | rest _ => exact h.keep present rfl rfl rfl hlate

/-- A history decides which call wins: where none has won, the first that comes to the flag. -/
theorem after (h : Standing enabled winner? c) (hs : List Happening) :
    Standing enabled
      (winner?.or (if enabled then firstAtFlag? c.starters.length hs else none)) (c.after hs) := by
  induction hs generalizing c winner? with
  | nil => simpa [firstAtFlag?] using h
  | cons x hs ih =>
    rw [Scene.after_cons]
    have ho := c.onward x
    generalize c.step x = d at ho
    cases ho with
    | call way => simpa [firstAtFlag?] using ih (h.call way)
    | part i s present a stage hp =>
      have hlt : i < c.starters.length := (List.getElem?_eq_some_iff.mp present).1
      have hrest := ih (h.part present hp)
      rw [firstAtFlag?, if_pos hlt]
      rcases enabled with - | -
      · simpa using hrest
      · rcases winner? with - | w <;> simpa using hrest
    | absent i none =>
      rw [firstAtFlag?, if_neg (Nat.not_lt.mpr none)]
      exact ih h
    | aside _ other a ha =>
      have hrest := ih (h.aside ha)
      cases x with
      | call _ | go _ => cases other
      | moment _ _ | shut _ => exact hrest

end Standing

/-! ### What a part gives and tells -/

section Part

variable {a a' : App} {way : Way} {stage stage' : Stage}

/-- A part adds a task where it gives the handle, and changes no other. -/
theorem Part.tasks (hp : Part a way stage a' stage') :
    ∃ new, a'.service.tasks = a.service.tasks ++ new ∧
      (⟨way, stage'⟩ : Starter).tasks = (⟨way, stage⟩ : Starter).tasks ++ new := by
  cases hp with
  | win _ _ | lose _ _ _ | rest _ => exact ⟨[], (List.append_nil _).symm, (List.append_nil _).symm⟩
  | report handle _ _ => exact ⟨[], (List.append_nil _).symm, (List.append_nil _).symm⟩
  | start => exact ⟨[way.loop], rfl, rfl⟩

/-- A part adds a loop where it gives the handle. -/
theorem Part.loops (hp : Part a way stage a' stage') :
    a'.service.loops.length + (if stage.hasHandle then 1 else 0)
      = a.service.loops.length + if stage'.hasHandle then 1 else 0 := by
  cases hp with
  | win _ _ | lose _ _ _ | report _ _ _ | rest _ => rfl
  | start =>
    show (a.service.spawn way.loop).loops.length + 0 = _
    rw [Service.loops_spawn, List.length_append]
    rfl

/-- A handle is kept. -/
theorem Part.handle (hp : Part a way stage a' stage') (h : stage.hasHandle = true) :
    stage'.hasHandle = true := by
  cases hp with
  | win _ _ | lose _ _ _ | start => cases h
  | report _ _ _ | rest _ => exact h

/-- The application tells of a call that was refused when it is over. -/
theorem Part.refusals (hp : Part a way stage a' stage') :
    a'.settings = a.settings ∧
      a'.refusals
          + (if a.settings.isEvictionEnabled && (⟨way, stage⟩ : Starter).isRefused then 1 else 0)
        = a.refusals
          + if a.settings.isEvictionEnabled && (⟨way, stage'⟩ : Starter).isRefused
            then 1 else 0 := by
  -- a call that is not over has not been told of
  have hbegun (stage : Stage) (h : stage.left ≠ 0) :
      (⟨way, stage⟩ : Starter).isRefused = false := by
    simp [Starter.isRefused, Starter.isReported, h]
  cases hp with
  | win _ _ | start =>
    rw [hbegun _ (by decide), hbegun _ (by decide)]
    exact ⟨rfl, rfl⟩
  | lose late ns quiet =>
    rw [hbegun _ (by decide), hbegun _ (by decide), App.refusals_tell, quiet]
    exact ⟨rfl, rfl⟩
  | report handle ns told =>
    rw [hbegun (.answered handle) (by simp [Stage.left]), App.refusals_tell, told]
    refine ⟨rfl, ?_⟩
    simp
  | rest handle => exact ⟨rfl, rfl⟩

/-- A call comes closer to its end with each part. -/
theorem Part.left (hp : Part a way stage a' stage') : stage'.left ≤ stage.left - 1 := by
  cases hp with
  | win _ _ | lose _ _ _ | start | report _ _ _ | rest _ => simp [Stage.left]

end Part

namespace Scene

/-! ### The tasks of a call -/

/-- The tasks that a call, by its number, adds in the course of a history. -/
def tasksOf (i : Nat) : Scene → List Happening → List Task
  | _, [] => []
  | c, h :: hs =>
    let new := if h.isGo i then (c.step h).app.service.tasks.drop c.app.service.tasks.length else []
    new ++ tasksOf i (c.step h) hs

/-- The tasks that a call has put on its tracker, if it has begun. -/
def tasksAt (c : Scene) (i : Nat) : List Task := (c.starters[i]?.map Starter.tasks).getD []

/-- What a happening adds for a call is on the call's account. -/
theorem tasksAt_step (c : Scene) (h : Happening) (i : Nat) :
    (c.step h).tasksAt i = c.tasksAt i ++
      if h.isGo i then (c.step h).app.service.tasks.drop c.app.service.tasks.length else [] := by
  have ho := c.onward h
  generalize c.step h = d at ho
  unfold tasksAt
  cases ho with
  | call way =>
    rw [show Happening.isGo i (.call way) = false from rfl, getElem?_concat]
    split
    · -- the new call has added nothing yet
      rename_i hi
      simp [hi, Starter.tasks, Stage.hasHandle]
    · simp
  | part j s present a stage hp =>
    obtain ⟨new, hadd, htasks⟩ := hp.tasks
    have hlt : j < c.starters.length := (List.getElem?_eq_some_iff.mp present).1
    by_cases hj : i = j
    · -- what the part adds is behind the tasks that were there
      subst hj
      simp [Happening.isGo, List.getElem?_set_self hlt, present, hadd, htasks]
    · simp [Happening.isGo, hj, List.getElem?_set_ne (Ne.symm hj)]
  | absent j none => simp
  | aside _ other a ha => simp [Happening.isGo_of_isAside i other]

/-- No part of a call takes a task away. -/
theorem tasks_go (c : Scene) (i : Nat) :
    c.app.service.tasks <+: (c.step (.go i)).app.service.tasks := by
  have ho := c.onward (.go i)
  generalize c.step (.go i) = d at ho
  cases ho with
  | part _ s present a stage hp =>
    obtain ⟨new, hadd, -⟩ := hp.tasks
    exact ⟨new, hadd.symm⟩
  | absent _ none => exact List.prefix_refl _
  | aside _ other _ _ => cases other

/-- All that a call adds in the course of a history. -/
theorem tasksOf_eq (c : Scene) (hs : List Happening) (i : Nat) :
    (c.after hs).tasksAt i = c.tasksAt i ++ c.tasksOf i hs := by
  induction hs generalizing c with
  | nil => exact (List.append_nil _).symm
  | cons h hs ih =>
    rw [after_cons, ih, tasksAt_step, tasksOf, List.append_assoc]

/-! ### The loops that there are -/

/-- The calls that were given a handle. -/
def handles (c : Scene) : Nat := c.starters.countP (·.stage.hasHandle)

/-- A loop more takes a handle more, and no handle is taken back. -/
theorem loops_step (c : Scene) (h : Happening) :
    (c.step h).app.service.loops.length + c.handles
        ≤ c.app.service.loops.length + (c.step h).handles ∧
      c.handles ≤ (c.step h).handles := by
  have ho := c.onward h
  generalize c.step h = d at ho
  unfold handles
  cases ho with
  | call way => simp [Stage.hasHandle]
  | part i s present a stage hp =>
    have hcount := countP_set_add (p := fun s : Starter => s.stage.hasHandle) present ⟨s.way, stage⟩
    have hloops := hp.loops
    have hkept := hp.handle
    dsimp only at hcount ⊢
    -- a call that had a handle has it still; one that had none may be given one with its loop
    split at hcount
    · rename_i hold
      rw [if_pos hold] at hloops
      rw [if_pos (hkept hold)] at hcount hloops
      omega
    · rename_i hold
      rw [if_neg hold] at hloops
      omega
  | absent i none => exact ⟨Nat.le_refl _, Nat.le_refl _⟩
  | aside _ other a ha => exact ⟨Nat.add_le_add_right ha.loops _, Nat.le_refl _⟩

theorem loops_after (c : Scene) (hs : List Happening) :
    (c.after hs).app.service.loops.length + c.handles
        ≤ c.app.service.loops.length + (c.after hs).handles ∧
      c.handles ≤ (c.after hs).handles := by
  induction hs generalizing c with
  | nil => exact ⟨Nat.le_refl _, Nat.le_refl _⟩
  | cons h hs ih =>
    obtain ⟨hloops, hkept⟩ := ih (c.step h)
    obtain ⟨hfirst, hgiven⟩ := c.loops_step h
    rw [after_cons]
    constructor <;> omega

/-! ### The application's warnings -/

/-- The calls that the application is to have told of as refused. -/
def refused (c : Scene) : Nat :=
  c.starters.countP fun s => c.app.settings.isEvictionEnabled && s.isRefused

theorem refusals_step (c : Scene) (h : Happening) :
    (c.step h).app.settings = c.app.settings ∧
      (c.step h).app.refusals + c.refused = c.app.refusals + (c.step h).refused := by
  have ho := c.onward h
  generalize c.step h = d at ho
  unfold refused
  cases ho with
  | call way => simp [Starter.isRefused, Starter.isReported, Stage.left]
  | part i s present a stage hp =>
    obtain ⟨hsettings, htold⟩ := hp.refusals
    have hcount := countP_set_add
      (p := fun s : Starter => c.app.settings.isEvictionEnabled && s.isRefused) present
      ⟨s.way, stage⟩
    refine ⟨hsettings, ?_⟩
    dsimp only at hcount ⊢
    rw [hsettings]
    have : (⟨s.way, s.stage⟩ : Starter) = s := rfl
    rw [this] at htold
    omega
  | absent i none => exact ⟨rfl, rfl⟩
  | aside _ other a ha =>
    refine ⟨ha.settings, ?_⟩
    dsimp only
    rw [ha.settings, ha.refusals]

theorem refusals_after (c : Scene) (hs : List Happening) :
    (c.after hs).app.settings = c.app.settings ∧
      (c.after hs).app.refusals + c.refused = c.app.refusals + (c.after hs).refused := by
  induction hs generalizing c with
  | nil => exact ⟨rfl, rfl⟩
  | cons h hs ih =>
    obtain ⟨hsame, hrest⟩ := ih (c.step h)
    obtain ⟨hsettings, hfirst⟩ := c.refusals_step h
    rw [after_cons]
    refine ⟨hsame.trans hsettings, ?_⟩
    omega

/-! ### The end of a call -/

/-- A part of a call brings it closer to its end, and nothing else does anything to it. -/
theorem left_step (c : Scene) (h : Happening) {i : Nat} {s : Starter}
    (present : c.starters[i]? = some s) :
    ∃ stage, (c.step h).starters[i]? = some ⟨s.way, stage⟩ ∧
      stage.left ≤ s.stage.left - if h.isGo i then 1 else 0 := by
  have hlt : i < c.starters.length := (List.getElem?_eq_some_iff.mp present).1
  have ho := c.onward h
  generalize c.step h = d at ho
  cases ho with
  | call way =>
    refine ⟨s.stage, ?_, Nat.le_refl _⟩
    rw [List.getElem?_append_left hlt]
    exact present
  | part j u there a stage hp =>
    by_cases hj : i = j
    · subst hj
      obtain rfl : s = u := Option.some.inj (present.symm.trans there)
      refine ⟨stage, ?_, ?_⟩
      · exact List.getElem?_set_self hlt
      · simpa [Happening.isGo] using hp.left
    · refine ⟨s.stage, ?_, by simp [Happening.isGo, hj]⟩
      rw [List.getElem?_set_ne (Ne.symm hj)]
      exact present
  | absent j none =>
    have hj : i ≠ j := by omega
    exact ⟨s.stage, present, by simp [Happening.isGo, hj]⟩
  | aside _ other a ha =>
    refine ⟨s.stage, present, ?_⟩
    rw [Happening.isGo_of_isAside i other]
    exact Nat.le_refl _

/-- A call waits for nothing: it is over behind its parts. -/
theorem left_after (c : Scene) (hs : List Happening) {i : Nat} {s : Starter}
    (present : c.starters[i]? = some s) :
    ∃ stage, (c.after hs).starters[i]? = some ⟨s.way, stage⟩ ∧
      stage.left ≤ s.stage.left - hs.countP (·.isGo i) := by
  induction hs generalizing c s with
  | nil => exact ⟨s.stage, present, Nat.le_refl _⟩
  | cons h hs ih =>
    obtain ⟨stage, hstage, hleft⟩ := c.left_step h present
    obtain ⟨last, hlast, hrest⟩ := ih (c.step h) hstage
    refine ⟨last, hlast, ?_⟩
    rw [List.countP_cons]
    dsimp only at hrest
    omega

/-! ### The law -/

/-- The number of the call that wins in the course of a history: the first that comes to the flag,
if the loop is switched on. -/
def winner? (c : Scene) (hs : List Happening) : Option Nat :=
  if c.app.service.evictor.worker.enabled then firstAtFlag? c.starters.length hs else none

/-- The calls of an application that are over are those that were refused and those that have a
handle. -/
theorem countP_isReported (ss : List Starter) :
    ss.countP Starter.isReported
      = ss.countP Starter.isRefused + ss.countP fun s => s.isReported && s.stage.hasHandle := by
  induction ss with
  | nil => rfl
  | cons s ss ih =>
    rw [List.countP_cons, List.countP_cons, List.countP_cons, ih, Starter.isRefused]
    rcases s.isReported with - | - <;> rcases s.stage.hasHandle with - | - <;> simp <;> omega

end Scene

/-- The law of the one loop, for a scene at the start of a history. -/
structure OneLoop (c : Scene) (hs : List Happening) : Prop where
  /-- The call that is the first to come to the flag has a handle or is going to be given one, if
  the loop is switched on; any other never is. -/
  handle : ∀ i s, (c.after hs).starters[i]? = some s →
    (s.stage.wins = true ↔ c.winner? hs = some i)
  begun : ∀ w, c.winner? hs = some w → w < (c.after hs).starters.length
  /-- A call that has done its parts is over. -/
  ends : ∀ i s, (c.after hs).starters[i]? = some s → ∀ more, 3 ≤ more.countP (·.isGo i) →
    ∃ handle, ((c.after hs).after more).starters[i]? = some ⟨s.way, .ended handle⟩
  /-- A call with a handle has added one task, to its tracker; any other has added none. -/
  tasks : ∀ i s, (c.after hs).starters[i]? = some s → c.tasksOf i hs = s.tasks
  /-- No part of a call takes a task away. -/
  adds : ∀ i, (c.after hs).app.service.tasks <+: ((c.after hs).step (.go i)).app.service.tasks
  single : (c.after hs).app.service.loops.length ≤ 1
  idle : c.winner? hs = none → (c.after hs).app.service.loops = []
  /-- Behind the end of the loop, there is none any more. -/
  ended : (∃ s ∈ (c.after hs).starters, s.stage.hasHandle = true) →
    (c.after hs).app.service.loops = [] → ∀ more, ((c.after hs).after more).app.service.loops = []
  /-- The application does not tell that it was refused where its settings have eviction off. -/
  quiet : c.app.settings.isEvictionEnabled = false →
    (c.after hs).app.refusals = c.app.refusals
  /-- Where they have it on, it tells so as often as it was. -/
  told : c.app.settings.isEvictionEnabled = true →
    (c.after hs).app.refusals = c.app.refusals + (c.after hs).starters.countP Starter.isRefused
  /-- That is once less than it called, if one of its calls won. -/
  first : c.app.settings.isEvictionEnabled = true →
    ∀ w s, c.winner? hs = some w → (c.after hs).starters[w]? = some s → s.isReported = true →
      (c.after hs).app.refusals + 1
        = c.app.refusals + (c.after hs).starters.countP Starter.isReported

theorem Stage.wins_of_hasHandle {s : Stage} (h : s.hasHandle = true) : s.wins = true := by
  simp [wins, h]

namespace Standing

variable {enabled : Bool} {winner? : Option Nat} {c : Scene}

/-- Where no call has won, there is no handle. -/
theorem handles_none (h : Standing enabled none c) : c.handles = 0 := by
  apply countP_eq_zero_of_get
  intro i s hs
  rcases hh : s.stage.hasHandle with - | -
  · rfl
  · cases (h.wins i s hs).mp (Stage.wins_of_hasHandle hh)

/-- There is never more than one handle. -/
theorem handles_le (h : Standing enabled winner? c) : c.handles ≤ 1 := by
  rcases winner? with - | w
  · rw [h.handles_none]
    exact Nat.zero_le 1
  · have honly : ∀ (i : Nat) s, c.starters[i]? = some s → s.stage.hasHandle = true → i = w := by
      intro i s hs hh
      exact (Option.some.inj ((h.wins i s hs).mp (Stage.wins_of_hasHandle hh))).symm
    obtain ⟨s, hs⟩ : ∃ s, c.starters[w]? = some s :=
      ⟨_, List.getElem?_eq_getElem (h.present w rfl)⟩
    rcases hh : s.stage.hasHandle with - | -
    · -- the winner has yet to be given its handle, and nobody else has one
      refine Nat.le_trans (Nat.le_of_eq (countP_eq_zero_of_get ?_)) (Nat.zero_le 1)
      intro i u hu
      rcases hi : u.stage.hasHandle with - | -
      · rfl
      · obtain rfl := honly i u hu hi
        obtain rfl : s = u := Option.some.inj (hs.symm.trans hu)
        rw [hh] at hi
        cases hi
    · exact Nat.le_of_eq (countP_eq_one_of_get hs hh honly)

end Standing

/-- A scene in which nothing has been started. -/
structure Scene.Fresh (c : Scene) : Prop where
  starters : c.starters = []
  served : c.app.service.evictor.served = false
  loops : c.app.service.loops = []

namespace Scene.Fresh

variable {c : Scene}

theorem standing (h : c.Fresh) (hs : List Happening) :
    Standing c.app.service.evictor.worker.enabled (c.winner? hs) (c.after hs) := by
  have hstart : Standing c.app.service.evictor.worker.enabled none c := by
    refine ⟨rfl, h.served, ?_, ?_, nofun, fun _ => rfl⟩
    · intro i s hs
      rw [h.starters] at hs
      cases hs
    · intro _ _ s hs
      rw [h.starters] at hs
      cases hs
  have hafter := hstart.after hs
  rw [Option.none_or] at hafter
  exact hafter

/-- There are no more loops than handles. -/
theorem loops_le (h : c.Fresh) (hs : List Happening) :
    (c.after hs).app.service.loops.length ≤ (c.after hs).handles := by
  obtain ⟨hle, -⟩ := c.loops_after hs
  have hnone : c.handles = 0 := by simp [handles, h.starters]
  rw [hnone, h.loops] at hle
  simpa using hle

/-- Once the handle is given, there are no more loops than there were. -/
theorem ended (h : c.Fresh) (hs more : List Happening) (given : 0 < (c.after hs).handles) :
    ((c.after hs).after more).app.service.loops.length
      ≤ (c.after hs).app.service.loops.length := by
  -- there is no second handle, so there is no loop that would take one
  obtain ⟨hle, hkept⟩ := (c.after hs).loops_after more
  have hone := (h.standing (hs ++ more)).handles_le
  rw [after_append] at hone
  omega

/-- The application tells of its calls that were refused. -/
theorem told (h : c.Fresh) (hs : List Happening) (on : c.app.settings.isEvictionEnabled = true) :
    (c.after hs).app.refusals
      = c.app.refusals + (c.after hs).starters.countP Starter.isRefused := by
  obtain ⟨hsettings, htold⟩ := c.refusals_after hs
  simpa [refused, hsettings, on, h.starters] using htold

theorem oneLoop (h : c.Fresh) (hs : List Happening) : OneLoop c hs where
  handle := (h.standing hs).wins
  begun := (h.standing hs).present
  ends := by
    intro i s hi more hparts
    obtain ⟨stage, hstage, hleft⟩ := (c.after hs).left_after more hi
    -- three parts are all that there are
    have hall : s.stage.left ≤ 3 := by cases s.stage <;> simp [Stage.left]
    have hnone : stage.left = 0 := by omega
    cases stage with
    | ended handle => exact ⟨handle, hstage⟩
    | called | won | answered _ => cases hnone
  tasks := by
    intro i s hi
    have htasks := c.tasksOf_eq hs i
    simp only [tasksAt, hi, h.starters] at htasks
    exact htasks.symm
  adds := (c.after hs).tasks_go
  single := Nat.le_trans (h.loops_le hs) (h.standing hs).handles_le
  idle := by
    intro hnone
    have hstanding := h.standing hs
    rw [hnone] at hstanding
    have hle := h.loops_le hs
    rw [hstanding.handles_none] at hle
    exact List.eq_nil_of_length_eq_zero (Nat.le_zero.mp hle)
  ended := by
    rintro ⟨s, hmem, hh⟩ hgone more
    have hgiven : 0 < (c.after hs).handles := List.countP_pos_iff.mpr ⟨s, hmem, hh⟩
    have hle := h.ended hs more hgiven
    rw [hgone] at hle
    exact List.eq_nil_of_length_eq_zero (Nat.le_zero.mp hle)
  quiet := by
    intro off
    obtain ⟨hsettings, htold⟩ := c.refusals_after hs
    simpa [refused, hsettings, off] using htold
  told := h.told hs
  first := by
    intro on w s hw hwin hreported
    have hstanding := h.standing hs
    -- the call that won is over, so it has the handle
    have hhandle : s.stage.hasHandle = true := by
      have hwins := (hstanding.wins w s hwin).mpr hw
      obtain ⟨way, stage⟩ := s
      cases stage with
      | ended handle | answered handle => simpa [Stage.wins, Stage.hasHandle] using hwins
      | called | won => simp [Starter.isReported, Stage.left] at hreported
    have hone : (c.after hs).starters.countP (fun s => s.isReported && s.stage.hasHandle) = 1 := by
      refine countP_eq_one_of_get hwin (by simp [hreported, hhandle]) ?_
      intro i u hu hp
      have hh : u.stage.hasHandle = true := (Bool.and_eq_true_iff.mp hp).2
      have hu' := (hstanding.wins i u hu).mp (Stage.wins_of_hasHandle hh)
      rw [hw] at hu'
      exact (Option.some.inj hu').symm
    rw [h.told hs on, countP_isReported, hone, Nat.add_assoc]

end Scene.Fresh

/-- **At most one loop, ever.**  The worker of an application is switched on exactly where its
settings have eviction on.  And for any evictor, on its own or of an application, the law of the one
loop holds of any history from its start: of any number of calls of both kinds and for any trackers,
their parts in any order, with anything in between. -/
theorem one_loop :
    (∀ settings : Settings, (Worker.ofSettings settings).enabled = settings.isEvictionEnabled) ∧
      ∀ (settings : Settings) (feed : RegionId) (epoch : Int) (timeout : Span) (cache : Cache)
        (worker : Worker) (courses : List Course) (told : List Notice) (hs : List Happening),
        OneLoop ⟨⟨settings, feed, (Service.start epoch timeout cache worker courses).tell told⟩, []⟩
          hs := by
  refine ⟨fun _ => rfl, ?_⟩
  intro settings feed epoch timeout cache worker courses told hs
  have hfresh : Scene.Fresh
      ⟨⟨settings, feed, (Service.start epoch timeout cache worker courses).tell told⟩, []⟩ :=
    ⟨rfl, rfl, rfl⟩
  exact hfresh.oneLoop hs

end CacheWarden
