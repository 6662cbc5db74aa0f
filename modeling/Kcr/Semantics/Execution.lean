import Mathlib.Logic.Basic

/-!
# Labelled executions

A transition system relates a state, the event a step shows and the state after
it. `Steps` composes steps into finite suffixes, `Run` roots them at an initial
state. The rules below are the only inductions over runs that the rest of the
development uses: an invariant over the history so far, a guard every step
meets, and a projection that deletes some of the events.
-/

namespace Kcr

universe u v

/-- A labelled transition system; an event retains the call and its outcome. -/
structure TransitionSystem (Event : Type u) where
  State : Type v
  Initial : State → Prop
  Step : State → Event → State → Prop

namespace TransitionSystem

variable {Event : Type u}

/-- Zero or more steps from a selected state, with the events they show. -/
inductive Steps (system : TransitionSystem Event) :
    system.State → List Event → system.State → Prop where
  | refl {state} : Steps system state [] state
  | step {state events current event next}
      (prior : Steps system state events current)
      (transition : system.Step current event next) :
      Steps system state (events ++ [event]) next

/-- The events of a finite execution from some initial state. -/
def Run (system : TransitionSystem Event) (events : List Event) (state : system.State) : Prop :=
  ∃ initial, system.Initial initial ∧ system.Steps initial events state

variable {system : TransitionSystem Event}

/-- A suffix followed by another from where the first one stops. -/
theorem Steps.trans {first middle last : system.State} {earlier later : List Event}
    (before : system.Steps first earlier middle)
    (after : system.Steps middle later last) :
    system.Steps first (earlier ++ later) last := by
  induction after with
  | refl => simpa using before
  | step _ transition ih =>
      rw [← List.append_assoc]
      exact .step ih transition

/-- An execution of a concatenation passes through a state between its parts. -/
theorem Steps.split {first last : system.State} {earlier later : List Event}
    (steps : system.Steps first (earlier ++ later) last) :
    ∃ middle, system.Steps first earlier middle ∧
      system.Steps middle later last := by
  generalize joined : earlier ++ later = events at steps
  induction steps generalizing later with
  | refl =>
      obtain ⟨rfl, rfl⟩ := List.append_eq_nil_iff.mp joined
      exact ⟨_, .refl, .refl⟩
  | @step events current event next prior transition ih =>
      rcases List.eq_nil_or_concat later with rfl | ⟨initial, last, rfl⟩
      · rw [List.append_nil] at joined
        subst joined
        exact ⟨_, .step prior transition, .refl⟩
      · rw [List.concat_eq_append, ← List.append_assoc] at joined
        obtain ⟨sameEvents, sameEvent⟩ := List.append_inj' joined rfl
        obtain ⟨middle, before, after⟩ := ih sameEvents
        obtain rfl : last = event := by simpa using sameEvent
        exact ⟨middle, before, by rw [List.concat_eq_append]; exact .step after transition⟩

/-- The initial configuration supplies the empty run. -/
theorem Run.initial {state : system.State} (valid : system.Initial state) :
    system.Run [] state :=
  ⟨state, valid, .refl⟩

/-- A suffix without events ends where it starts. -/
theorem Steps.of_nil {first last : system.State} (steps : system.Steps first [] last) :
    last = first := by
  generalize none : ([] : List Event) = events at steps
  cases steps with
  | refl => rfl
  | step => simp at none

/-- A run without events ends where it starts. -/
theorem Run.of_nil {state : system.State} (run : system.Run [] state) : system.Initial state := by
  obtain ⟨initial, valid, steps⟩ := run
  exact steps.of_nil ▸ valid

/-- Extend a run by one step. -/
theorem Run.step {events : List Event} {event : Event} {state next : system.State}
    (run : system.Run events state) (transition : system.Step state event next) :
    system.Run (events ++ [event]) next := by
  obtain ⟨initial, valid, steps⟩ := run
  exact ⟨initial, valid, .step steps transition⟩

/-- A run of a concatenation is a run of its prefix followed by the suffix. -/
theorem Run.split {events later : List Event} {next : system.State}
    (run : system.Run (events ++ later) next) :
    ∃ state, system.Run events state ∧ system.Steps state later next := by
  obtain ⟨initial, valid, steps⟩ := run
  obtain ⟨state, before, after⟩ := steps.split
  exact ⟨state, ⟨initial, valid, before⟩, after⟩

/-- A suffix with one event is one step. -/
theorem Steps.single {first last : system.State} {event : Event}
    (steps : system.Steps first [event] last) : system.Step first event last := by
  generalize single : [event] = shown at steps
  cases steps with
  | refl => simp at single
  | @step events current shown next prior transition =>
      obtain ⟨rfl, rfl⟩ : events = [] ∧ shown = event := by
        have shape := List.append_eq_singleton_iff.mp single.symm
        rcases shape with ⟨rfl, same⟩ | ⟨_, impossible⟩
        · exact ⟨rfl, by simpa using same⟩
        · simp at impossible
      exact prior.of_nil ▸ transition

/-- A nonempty run ends in one step from the run of its other events. -/
theorem Run.last {events : List Event} {event : Event} {next : system.State}
    (run : system.Run (events ++ [event]) next) :
    ∃ state, system.Run events state ∧ system.Step state event next := by
  obtain ⟨state, before, after⟩ := run.split
  exact ⟨state, before, after.single⟩

/-- Induction over runs: the history invariant holds initially and every step
from a state it holds in preserves it. -/
theorem Run.invariant (Inv : List Event → system.State → Prop)
    (initial : ∀ state, system.Initial state → Inv [] state)
    (preserved : ∀ {events state event next}, system.Run events state → Inv events state →
      system.Step state event next → Inv (events ++ [event]) next)
    {events : List Event} {state : system.State} (run : system.Run events state) :
    Inv events state := by
  obtain ⟨start, valid, steps⟩ := run
  induction steps with
  | refl => exact initial _ valid
  | step prior transition ih => exact preserved ⟨start, valid, prior⟩ ih transition

/-- The same rule along a suffix, over the events of the suffix. -/
theorem Steps.invariant_events {start : system.State} (Inv : List Event → system.State → Prop)
    (initial : Inv [] start)
    (preserved : ∀ {events state event next}, Inv events state →
      system.Step state event next → Inv (events ++ [event]) next)
    {events : List Event} {state : system.State} (steps : system.Steps start events state) :
    Inv events state := by
  induction steps with
  | refl => exact initial
  | step _ transition ih => exact preserved ih transition

/-- The same rule along a suffix, for an invariant of the state alone. -/
theorem Steps.invariant (Inv : system.State → Prop)
    (preserved : ∀ {state event next}, Inv state → system.Step state event next → Inv next)
    {state next : system.State} {events : List Event}
    (steps : system.Steps state events next) (holds : Inv state) : Inv next :=
  steps.invariant_events (fun _ => Inv) holds preserved

/-- Execute events one after another, as long as each can be executed. -/
def execAll {S : Type v} (exec : S → Event → Option S) : List Event → S → Option S
  | [], state => some state
  | event :: events, state => (exec state event).bind (execAll exec events)

/-- Events that an executable step function goes through are steps. -/
theorem steps_of_execAll {exec : system.State → Event → Option system.State}
    (sound : ∀ {state event next}, exec state event = some next → system.Step state event next)
    {events : List Event} {state next : system.State}
    (ran : execAll exec events state = some next) : system.Steps state events next := by
  induction events generalizing state with
  | nil =>
      obtain rfl := Option.some.inj ran
      exact .refl
  | cons event events ih =>
      obtain ⟨middle, first, rest⟩ := Option.bind_eq_some_iff.mp ran
      have one : system.Steps state ([] ++ [event]) middle := .step .refl (sound first)
      exact one.trans (ih rest)

/-- The system whose steps all meet `Guard`, a condition on the state before the
step and on its event. -/
def guarded (system : TransitionSystem Event) (Guard : system.State → Event → Prop) :
    TransitionSystem Event where
  State := system.State
  Initial := system.Initial
  Step state event next := system.Step state event next ∧ Guard state event

/-- Forget the guard along a suffix. -/
theorem Steps.unguard {Guard : system.State → Event → Prop}
    {first last : (system.guarded Guard).State} {events : List Event}
    (steps : (system.guarded Guard).Steps first events last) :
    system.Steps first events last := by
  induction steps with
  | refl => exact .refl
  | step _ transition ih => exact .step ih transition.1

/-- A guarded run is a run. -/
theorem Run.unguard {Guard : system.State → Event → Prop} {events : List Event}
    {state : system.State} (run : (system.guarded Guard).Run events state) :
    system.Run events state := by
  obtain ⟨initial, valid, steps⟩ := run
  exact ⟨initial, valid, Steps.unguard steps⟩

/-- The empty run meets every guard. -/
theorem Run.guard_nil {Guard : system.State → Event → Prop} {state : system.State}
    (run : system.Run [] state) : (system.guarded Guard).Run [] state :=
  ⟨state, run.of_nil, .refl⟩

/-- A guarded run goes on with a step that meets the guard. -/
theorem Run.guard_step {Guard : system.State → Event → Prop} {events : List Event}
    {event : Event} {state next : system.State} (run : (system.guarded Guard).Run events state)
    (transition : system.Step state event next) (guard : Guard state event) :
    (system.guarded Guard).Run (events ++ [event]) next :=
  Run.step run ⟨transition, guard⟩

/-- It goes on with steps whose events always meet the guard. -/
theorem Run.guard_steps {Guard : system.State → Event → Prop} {events later : List Event}
    {state next : system.State} (run : (system.guarded Guard).Run events state)
    (steps : system.Steps state later next)
    (free : ∀ event ∈ later, ∀ state, Guard state event) :
    (system.guarded Guard).Run (events ++ later) next := by
  induction steps with
  | refl => simpa using run
  | step _ transition ih =>
      rw [← List.append_assoc]
      exact (ih fun event member => free event (List.mem_append_left _ member)).guard_step
        transition (free _ (by simp) _)

/-- Deleting events: when a relation is kept by matching the kept events and by
ignoring the others, the kept events of every run are themselves a run. -/
theorem Run.project (keep : Event → Bool) (Allowed : Event → Prop)
    (Related : system.State → system.State → Prop)
    (initial : ∀ state, system.Initial state →
      ∃ reduced, system.Initial reduced ∧ Related state reduced)
    (kept : ∀ {state event next reduced}, Related state reduced → Allowed event →
      keep event = true → system.Step state event next →
      ∃ reduced', system.Step reduced event reduced' ∧ Related next reduced')
    (dropped : ∀ {state event next reduced}, Related state reduced → Allowed event →
      keep event = false → system.Step state event next → Related next reduced)
    {events : List Event} {state : system.State} (run : system.Run events state)
    (allowed : ∀ event ∈ events, Allowed event) :
    ∃ reduced, system.Run (events.filter keep) reduced ∧ Related state reduced := by
  refine run.invariant (fun events state => (∀ event ∈ events, Allowed event) →
    ∃ reduced, system.Run (events.filter keep) reduced ∧ Related state reduced)
    ?_ ?_ allowed
  · intro state valid _
    obtain ⟨reduced, validReduced, related⟩ := initial state valid
    exact ⟨reduced, .initial validReduced, related⟩
  · intro events state event next _ ih transition allowedAll
    obtain ⟨reduced, reducedRun, related⟩ := ih fun e member => allowedAll e (by simp [member])
    have allowedLast : Allowed event := allowedAll event (by simp)
    cases kind : keep event with
    | true =>
        obtain ⟨reduced', reducedStep, related'⟩ := kept related allowedLast kind transition
        exact ⟨reduced', by simpa [List.filter_append, kind] using reducedRun.step reducedStep,
          related'⟩
    | false =>
        exact ⟨reduced, by simpa [List.filter_append, kind] using reducedRun,
          dropped related allowedLast kind transition⟩

end TransitionSystem

end Kcr
