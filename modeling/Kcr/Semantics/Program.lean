import Kcr.Semantics.Execution
import Mathlib.Logic.Function.Basic
import Mathlib.Tactic.Common

/-!
# Programs and threads

A program is a tree of accesses to a shared state, with locks around some of them. Alone it
runs to its end; on one of many threads every access is a step, and the other threads and
the environment move in between. Nothing here fixes the state, the locks or the calls.
-/

namespace Kcr

/-- A program returns, faults, or goes on after an access, an acquisition or a release. An
access reads and writes the state in one go; what follows depends on the state it found. -/
inductive Program (S L E A : Type) where
  | ret (result : A)
  | fault (reason : E)
  | access (update : S → S) (rest : S → Program S L E A)
  | lock (l : L) (rest : Program S L E A)
  | unlock (l : L) (rest : Program S L E A)

namespace Program

variable {S L E A B : Type}

def bind : Program S L E A → (A → Program S L E B) → Program S L E B
  | .ret result, next => next result
  | .fault reason, _ => .fault reason
  | .access update rest, next => .access update fun s => (rest s).bind next
  | .lock l rest, next => .lock l (rest.bind next)
  | .unlock l rest, next => .unlock l (rest.bind next)

instance : Monad (Program S L E) where
  pure := .ret
  bind := .bind

/-- An access that only reads. -/
def read (get : S → A) : Program S L E A := .access id fun s => .ret (get s)

/-- An access that only writes. -/
def write (update : S → S) : Program S L E Unit := .access update fun _ => .ret ()

/-- An access whose result is computed from the state it found. -/
def fetch (update : S → S) (get : S → A) : Program S L E A := .access update fun s => .ret (get s)

def acquire (l : L) : Program S L E Unit := .lock l (.ret ())

def release (l : L) : Program S L E Unit := .unlock l (.ret ())

/-- What a program that is over returns. -/
def result? : Program S L E A → Option A
  | .ret result => some result
  | _ => none

/-- Run a program alone, when no lock is held. -/
def run : Program S L E A → S → Except E (A × S)
  | .ret result, s => .ok (result, s)
  | .fault reason, _ => .error reason
  | .access update rest, s => (rest s).run (update s)
  | .lock _ rest, s => rest.run s
  | .unlock _ rest, s => rest.run s

section Run

variable (s : S)

@[simp] theorem run_pure (result : A) :
    (pure result : Program S L E A).run s = .ok (result, s) := rfl

@[simp] theorem run_fault (reason : E) :
    (fault reason : Program S L E A).run s = .error reason := rfl

@[simp] theorem run_read (get : S → A) :
    (read get : Program S L E A).run s = .ok (get s, s) := rfl

@[simp] theorem run_write (update : S → S) :
    (write update : Program S L E Unit).run s = .ok ((), update s) := rfl

@[simp] theorem run_fetch (update : S → S) (get : S → A) :
    (fetch update get : Program S L E A).run s = .ok (get s, update s) := rfl

@[simp] theorem run_acquire (l : L) : (acquire l : Program S L E Unit).run s = .ok ((), s) := rfl

@[simp] theorem run_release (l : L) : (release l : Program S L E Unit).run s = .ok ((), s) := rfl

@[simp] theorem run_bind (program : Program S L E A) (next : A → Program S L E B) :
    (program >>= next).run s =
      match program.run s with
      | .ok (result, s') => (next result).run s'
      | .error reason => .error reason := by
  change (program.bind next).run s = _
  induction program generalizing s with
  | ret result => rfl
  | fault reason => rfl
  | access update rest ih => exact ih s (update s)
  | lock l rest ih => exact ih s
  | unlock l rest ih => exact ih s

end Run

end Program

/-- What the threads run: the state they start from, what the beginning of a call records in
it, what the environment does, and the program of a call. -/
structure Machine (T C S L E A : Type) where
  initial : S
  enter : T → C → S → S
  tick : S → S
  body : T → C → Program S L E A

/-- A call in progress: the state it began in, its own entry included, and what is left of
its program. -/
structure Activity (C S L E A : Type) where
  call : C
  start : S
  program : Program S L E A

/-- The shared state, who holds each lock, and what every thread is doing. -/
structure Threads (T C S L E A : Type) where
  shared : S
  owner : L → Option T
  activity : T → Option (Activity C S L E A)

/-- A thread begins a call, takes one step of it or returns from it, or the environment
moves. -/
inductive ThreadEvent (T C A : Type) where
  | begins (thread : T) (call : C)
  | moves (thread : T)
  | returns (thread : T) (call : C) (result : A)
  | ticks

/-- The call that an event begins. -/
def ThreadEvent.call {T C A : Type} : ThreadEvent T C A → Option C
  | .begins _ call => some call
  | _ => none

/-- What an event shows of a call that is over. -/
def ThreadEvent.answer {T C A : Type} : ThreadEvent T C A → Option (T × C × A)
  | .returns thread call result => some (thread, call, result)
  | _ => none

/-- The call that an event begins or ends, with the answer when it ends. -/
def ThreadEvent.border {T C A : Type} : ThreadEvent T C A → Option (T × C × Option A)
  | .begins thread call => some (thread, call, none)
  | .returns thread call result => some (thread, call, some result)
  | _ => none

namespace Machine

variable {T C S L E A : Type} [DecidableEq T] [DecidableEq L]

/-- The steps of a machine. A faulted thread has none, and a thread that wants a lock waits
until no one holds it. -/
inductive Moves (M : Machine T C S L E A) (c : Threads T C S L E A) :
    ThreadEvent T C A → Threads T C S L E A → Prop where
  | begins {t : T} {call : C} (idle : c.activity t = none) :
      Moves M c (.begins t call)
        { c with
          shared := M.enter t call c.shared
          activity := Function.update c.activity t
            (some ⟨call, M.enter t call c.shared, M.body t call⟩) }
  | access {t : T} {call : C} {start : S} {update : S → S} {rest : S → Program S L E A}
      (here : c.activity t = some ⟨call, start, .access update rest⟩) :
      Moves M c (.moves t)
        { c with
          shared := update c.shared
          activity := Function.update c.activity t (some ⟨call, start, rest c.shared⟩) }
  | lock {t : T} {call : C} {start : S} {l : L} {rest : Program S L E A}
      (here : c.activity t = some ⟨call, start, .lock l rest⟩) (free : c.owner l = none) :
      Moves M c (.moves t)
        { c with
          owner := Function.update c.owner l (some t)
          activity := Function.update c.activity t (some ⟨call, start, rest⟩) }
  | unlock {t : T} {call : C} {start : S} {l : L} {rest : Program S L E A}
      (here : c.activity t = some ⟨call, start, .unlock l rest⟩) :
      Moves M c (.moves t)
        { c with
          owner := Function.update c.owner l none
          activity := Function.update c.activity t (some ⟨call, start, rest⟩) }
  | returns {t : T} {call : C} {start : S} {result : A}
      (here : c.activity t = some ⟨call, start, .ret result⟩) :
      Moves M c (.returns t call result)
        { c with activity := Function.update c.activity t none }
  | ticks : Moves M c .ticks { c with shared := M.tick c.shared }

/-- All interleavings of any number of calls. -/
def system (M : Machine T C S L E A) : TransitionSystem (ThreadEvent T C A) where
  State := Threads T C S L E A
  Initial c := c = ⟨M.initial, fun _ => none, fun _ => none⟩
  Step := M.Moves

/-! ## Schedules -/

/-- What is to happen next: a call begins, a thread goes on, or the environment moves. -/
inductive Turn (T C : Type) where
  | begins (thread : T) (call : C)
  | goes (thread : T)
  | ticks

/-- Take a turn, if it can be taken; what it shows. -/
def turn (M : Machine T C S L E A) (c : Threads T C S L E A) :
    Turn T C → Option (ThreadEvent T C A × Threads T C S L E A)
  | .begins t call =>
      match c.activity t with
      | some _ => none
      | none => some (.begins t call,
          { c with
            shared := M.enter t call c.shared
            activity := Function.update c.activity t
              (some ⟨call, M.enter t call c.shared, M.body t call⟩) })
  | .goes t =>
      match c.activity t with
      | none => none
      | some ⟨_, _, .fault _⟩ => none
      | some ⟨call, _, .ret result⟩ => some (.returns t call result,
          { c with activity := Function.update c.activity t none })
      | some ⟨call, start, .access update rest⟩ => some (.moves t,
          { c with
            shared := update c.shared
            activity := Function.update c.activity t (some ⟨call, start, rest c.shared⟩) })
      | some ⟨call, start, .lock l rest⟩ =>
          match c.owner l with
          | some _ => none
          | none => some (.moves t,
              { c with
                owner := Function.update c.owner l (some t)
                activity := Function.update c.activity t (some ⟨call, start, rest⟩) })
      | some ⟨call, start, .unlock l rest⟩ => some (.moves t,
          { c with
            owner := Function.update c.owner l none
            activity := Function.update c.activity t (some ⟨call, start, rest⟩) })
  | .ticks => some (.ticks, { c with shared := M.tick c.shared })

theorem moves_of_turn {M : Machine T C S L E A} {c c' : Threads T C S L E A} {next : Turn T C}
    {event : ThreadEvent T C A} (taken : M.turn c next = some (event, c')) :
    M.Moves c event c' := by
  unfold turn at taken
  cases next with
  | begins t call =>
      cases here : c.activity t with
      | some activity => simp [here] at taken
      | none =>
          simp only [here, Option.some.injEq, Prod.mk.injEq] at taken
          obtain ⟨rfl, rfl⟩ := taken
          exact .begins here
  | ticks =>
      obtain ⟨rfl, rfl⟩ := Prod.mk.inj (Option.some.inj taken)
      exact .ticks
  | goes t =>
      cases here : c.activity t with
      | none => simp [here] at taken
      | some activity =>
          obtain ⟨call, start, program⟩ := activity
          cases program with
          | fault reason => simp [here] at taken
          | lock l rest =>
              cases free : c.owner l with
              | some u => simp [here, free] at taken
              | none =>
                  simp only [here, free, Option.some.injEq, Prod.mk.injEq] at taken
                  obtain ⟨rfl, rfl⟩ := taken
                  exact .lock here free
          | ret result =>
              simp only [here, Option.some.injEq, Prod.mk.injEq] at taken
              obtain ⟨rfl, rfl⟩ := taken
              exact .returns here
          | access update rest =>
              simp only [here, Option.some.injEq, Prod.mk.injEq] at taken
              obtain ⟨rfl, rfl⟩ := taken
              exact .access here
          | unlock l rest =>
              simp only [here, Option.some.injEq, Prod.mk.injEq] at taken
              obtain ⟨rfl, rfl⟩ := taken
              exact .unlock here

/-- Take turns from a state on. -/
def play (M : Machine T C S L E A) :
    List (Turn T C) → Threads T C S L E A → Option (List (ThreadEvent T C A) × Threads T C S L E A)
  | [], c => some ([], c)
  | next :: turns, c =>
      match M.turn c next with
      | none => none
      | some (event, c) => (M.play turns c).map fun played => (event :: played.1, played.2)

/-- What is played is an execution. -/
theorem steps_of_play {M : Machine T C S L E A} {turns : List (Turn T C)}
    {c c' : Threads T C S L E A} {events : List (ThreadEvent T C A)}
    (played : M.play turns c = some (events, c')) : M.system.Steps c events c' := by
  induction turns generalizing c events with
  | nil =>
      obtain ⟨rfl, rfl⟩ := Prod.mk.inj (Option.some.inj played)
      exact .refl
  | cons next turns ih =>
      rw [play] at played
      cases taken : M.turn c next with
      | none => simp [taken] at played
      | some result =>
          obtain ⟨event, mid⟩ := result
          simp only [taken] at played
          obtain ⟨rest, later, same⟩ := Option.map_eq_some_iff.mp played
          obtain ⟨rfl, rfl⟩ := Prod.mk.inj same
          have one : M.system.Steps c ([] ++ [event]) mid := .step .refl (moves_of_turn taken)
          exact one.trans (ih later)

/-- What is seen after some turns from the initial state. -/
def observe (M : Machine T C S L E A) (turns : List (Turn T C)) {B : Type}
    (seen : Threads T C S L E A → Option B) : Option B :=
  (M.play turns ⟨M.initial, fun _ => none, fun _ => none⟩).bind fun played => seen played.2

/-- What is seen after some turns is seen in some run. -/
theorem run_of_observe {M : Machine T C S L E A} {turns : List (Turn T C)} {B : Type} {b : B}
    {seen : Threads T C S L E A → Option B} (computed : M.observe turns seen = some b) :
    ∃ events c, M.system.Run events c ∧ seen c = some b := by
  obtain ⟨⟨events, c⟩, played, same⟩ := Option.bind_eq_some_iff.mp computed
  exact ⟨events, c, ⟨_, rfl, steps_of_play played⟩, same⟩

/-- The result a thread is about to return. -/
def returning (t : T) (c : Threads T C S L E A) : Option A :=
  (c.activity t).bind fun activity => activity.program.result?

/-- A thread that is about to return does so in some run. -/
theorem run_of_returning {M : Machine T C S L E A} {turns : List (Turn T C)} {t : T} {result : A}
    (computed : M.observe turns (returning t) = some result) :
    ∃ events c call, M.system.Run (events ++ [.returns t call result]) c := by
  obtain ⟨events, c, run, seen⟩ := run_of_observe computed
  obtain ⟨⟨call, start, program⟩, here, ended⟩ := Option.bind_eq_some_iff.mp seen
  cases program with
  | ret result' =>
      obtain rfl := Option.some.inj ended
      exact ⟨events, _, call, run.step (.returns here)⟩
  | fault | access | lock | unlock => cases ended

/-- The thread began the call at some point of the events, in the state given. -/
def Began (M : Machine T C S L E A) (events : List (ThreadEvent T C A)) (t : T) (call : C)
    (start : S) : Prop :=
  ∃ before after c₀, events = before ++ .begins t call :: after ∧ M.system.Run before c₀ ∧
    start = M.enter t call c₀.shared

section Began

variable {M : Machine T C S L E A} {events : List (ThreadEvent T C A)} {c : Threads T C S L E A}
  {t : T}

theorem Began.concat {call : C} {start : S} (began : M.Began events t call start)
    (event : ThreadEvent T C A) : M.Began (events ++ [event]) t call start := by
  obtain ⟨before, after, c₀, rfl, ran, same⟩ := began
  exact ⟨before, after ++ [event], c₀, by simp, ran, same⟩

omit [DecidableEq L] in
/-- A thread that goes on is in the call it was in. -/
theorem activity_of_update {u : T} {before activity : Activity C S L E A}
    {own : Option (Activity C S L E A)} (here : c.activity u = some before)
    (goes : ∀ next ∈ own, next.call = before.call ∧ next.start = before.start)
    (after : Function.update c.activity u own t = some activity) :
    ∃ program, c.activity t = some ⟨activity.call, activity.start, program⟩ := by
  by_cases same : t = u
  · subst same
    rw [Function.update_self] at after
    obtain ⟨call, start⟩ := goes activity after
    rw [call, start]
    exact ⟨before.program, here⟩
  · rw [Function.update_of_ne same] at after
    exact ⟨activity.program, after⟩

omit [DecidableEq L] in
/-- A thread that is idle after another's step was idle before. -/
theorem idle_of_update {u : T} {own : Option (Activity C S L E A)}
    (after : Function.update c.activity u own t = none) :
    t = u ∧ own = none ∨ t ≠ u ∧ c.activity t = none := by
  by_cases same : t = u
  · subst same
    rw [Function.update_self] at after
    exact .inl ⟨rfl, after⟩
  · rw [Function.update_of_ne same] at after
    exact .inr ⟨same, after⟩

/-- A step leaves a thread in the call it was in, or begins one. -/
theorem Moves.activity_cases {event : ThreadEvent T C A} {c' : Threads T C S L E A}
    (step : M.Moves c event c') {activity : Activity C S L E A}
    (here : c'.activity t = some activity) :
    (∃ program, c.activity t = some ⟨activity.call, activity.start, program⟩) ∨
      event = .begins t activity.call ∧ activity.start = M.enter t activity.call c.shared := by
  cases step with
  | @begins u call idle =>
      by_cases same : t = u
      · subst same
        simp only [Function.update_self, Option.some.injEq] at here
        subst here
        exact .inr ⟨rfl, rfl⟩
      · simp only [Function.update_of_ne same] at here
        exact .inl ⟨activity.program, here⟩
  | access before | lock before | unlock before =>
      refine .inl (activity_of_update before ?_ here)
      rintro next ⟨⟩
      exact ⟨rfl, rfl⟩
  | returns before => exact .inl (activity_of_update before (by simp) here)
  | ticks => exact .inl ⟨activity.program, here⟩

/-- The call a thread is in began at some point of the run. -/
theorem began_of_run (run : M.system.Run events c) {activity : Activity C S L E A}
    (here : c.activity t = some activity) : M.Began events t activity.call activity.start := by
  apply run.invariant (fun events (c : Threads T C S L E A) => ∀ t activity,
    c.activity t = some activity → M.Began events t activity.call activity.start) _ _ t activity
    here
  · rintro c rfl t activity none
    cases none
  · intro events c event c' prior ih step t activity here
    obtain ⟨program, earlier⟩ | ⟨rfl, start⟩ := step.activity_cases here
    · exact (ih t _ earlier).concat event
    · exact ⟨events, [], c, rfl, prior, start⟩

end Began

end Machine

end Kcr
