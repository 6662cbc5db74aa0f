import Kcr.Cache.Reachable

/-!
# Calls in phases

A lookup is an L2 search, an L3 search and a promotion, a store an L2 and an L3 insertion.
Each phase holds the lock or the RCU read side it needs and lets go of it before the next
one, so that the phases of calls on different CPUs interleave. Every CPU is in one call
at a time.
-/

namespace Kcr

open Hlist

/-- How far the call on a CPU has come. -/
inductive Phase where
  | idle
  | missedL2 (fingerprint mm : U64)
  | foundL3 (fingerprint : U64) (entry : Node)
  | insertedL2 (fingerprint : U64) (entry : Node)
deriving DecidableEq

structure Phases where
  state : State
  phase : Nat → Phase

/-- The CPU goes on to a phase, leaving the caches in the given state. -/
def Phases.enter (s : Phases) (cpu : Nat) (phase : Phase) (state : State) : Phases where
  state := state
  phase := Function.update s.phase cpu phase

/-- The phases, with the arguments of the call at its first one. -/
inductive PhaseCall where
  | searchL2 (fingerprint mm : U64)
  | searchL3
  | promote
  | insertL2 (fingerprint : U64) (data : Option (Nat → U8)) (len : U32) (mm : U64)
      (kzalloc : Option Node) (kvmalloc : U64)
  | insertL3

structure PhaseEvent where
  who : Caller
  call : PhaseCall

/-- Run one phase; `none` if the call on the CPU is not at it. -/
def execPhase (P : Platform) (fuel : Nat) (who : Caller) (s : Phases) :
    PhaseCall → Except Halt (Option Phases)
  | .searchL2 fingerprint mm =>
      match s.phase who.cpu with
      | .idle => do
          let (entry, state) ← lookupL2 P fuel who (P.thisCpuPtr who.cpu) fingerprint mm s.state
          match entry with
          | some _ => return some (s.enter who.cpu .idle state)
          | none => return some (s.enter who.cpu (.missedL2 fingerprint mm) state)
      | _ => return none
  | .searchL3 =>
      match s.phase who.cpu with
      | .missedL2 fingerprint mm => do
          let entry ← lookupL3 P fuel who fingerprint mm s.state
          match entry with
          | some entry => return some (s.enter who.cpu (.foundL3 fingerprint entry) s.state)
          | none => return some (s.enter who.cpu .idle
              (s.state.thisCpuInc P who.cpu (P.thisCpuPtr who.cpu) .misses))
      | _ => return none
  | .promote =>
      match s.phase who.cpu with
      | .foundL3 fingerprint entry => do
          let state ← promoteToL2 who entry fingerprint s.state
          return some (s.enter who.cpu .idle
            (state.thisCpuInc P who.cpu (P.thisCpuPtr who.cpu) .l3Hits))
      | _ => return none
  | .insertL2 fingerprint data len mm kzalloc kvmalloc =>
      match s.phase who.cpu with
      | .idle =>
          match prepareResult P who fingerprint data len mm kzalloc kvmalloc s.state with
          | (.error _, state) => return some (s.enter who.cpu .idle state)
          | (.ok entry, state) => do
              let state ← storeInL2 fuel who entry fingerprint state
              return some (s.enter who.cpu (.insertedL2 fingerprint entry) state)
      | _ => return none
  | .insertL3 =>
      match s.phase who.cpu with
      | .insertedL2 fingerprint entry => do
          let state ← storeInL3 P fuel who entry fingerprint s.state
          return some (s.enter who.cpu .idle state)
      | _ => return none

/-- The allocators return memory that is not in use; no callback runs between phases here. -/
def PhaseCall.Fresh (s : State) : PhaseCall → Prop
  | .insertL2 _ _ _ _ kzalloc kvmalloc =>
      (∀ n ∈ kzalloc, n ∉ s.live) ∧ (kvmalloc ≠ 0#64 → s.buffers kvmalloc = none)
  | _ => True

instance (s : State) (call : PhaseCall) : Decidable (call.Fresh s) := by
  cases call <;> unfold PhaseCall.Fresh <;> infer_instance

/-- Phases of calls on any CPUs in any order, from the empty caches. -/
def phases (P : Platform) : TransitionSystem PhaseEvent where
  State := Phases
  Initial s := s = ⟨.initial, fun _ => .idle⟩
  Step s event s' := event.call.Fresh s.state ∧
    ∃ fuel, execPhase P fuel event.who s event.call = .ok (some s')

/-- The phases and what they do, by how they go on. -/
inductive PhaseStep (P : Platform) (s : Phases) (who : Caller) : PhaseCall → Phases → Prop where
  | hitL2 {fingerprint mm n} (here : s.phase who.cpu = .idle)
      (found : s.state.heap.Finds (s.state.accepts fingerprint mm who.jiffies)
        (.head (l2Head who.cpu fingerprint)) (some n)) :
      PhaseStep P s who (.searchL2 fingerprint mm)
        (s.enter who.cpu .idle (s.state.thisCpuInc P who.cpu (P.thisCpuPtr who.cpu) .l2Hits))
  | missL2 {fingerprint mm} (here : s.phase who.cpu = .idle)
      (missed : s.state.heap.Finds (s.state.accepts fingerprint mm who.jiffies)
        (.head (l2Head who.cpu fingerprint)) none) :
      PhaseStep P s who (.searchL2 fingerprint mm)
        (s.enter who.cpu (.missedL2 fingerprint mm) s.state)
  | hitL3 {fingerprint mm n} (here : s.phase who.cpu = .missedL2 fingerprint mm)
      (found : s.state.heap.Finds (s.state.accepts fingerprint mm who.jiffies)
        (.head (l3Head P who.cpu fingerprint)) (some n)) :
      PhaseStep P s who .searchL3 (s.enter who.cpu (.foundL3 fingerprint n) s.state)
  | missL3 {fingerprint mm} (here : s.phase who.cpu = .missedL2 fingerprint mm)
      (missed : s.state.heap.Finds (s.state.accepts fingerprint mm who.jiffies)
        (.head (l3Head P who.cpu fingerprint)) none) :
      PhaseStep P s who .searchL3
        (s.enter who.cpu .idle (s.state.thisCpuInc P who.cpu (P.thisCpuPtr who.cpu) .misses))
  | promotes {fingerprint n heap} (here : s.phase who.cpu = .foundL3 fingerprint n)
      (removed : s.state.heap.hlistDelRcu n = .ok heap) :
      PhaseStep P s who .promote (s.enter who.cpu .idle
        ({ s.state with heap := heap.hlistAddHeadRcu n (l2Head who.cpu fingerprint) }.thisCpuInc
          P who.cpu (P.thisCpuPtr who.cpu) .l3Hits))
  | refuses {fingerprint data len mm kzalloc kvmalloc status s'}
      (here : s.phase who.cpu = .idle)
      (refused : prepareResult P who fingerprint data len mm kzalloc kvmalloc s.state =
        (.error status, s')) :
      PhaseStep P s who (.insertL2 fingerprint data len mm kzalloc kvmalloc)
        (s.enter who.cpu .idle s')
  | insertsL2 {fingerprint data len mm kzalloc kvmalloc entry s₀ s₁}
      (here : s.phase who.cpu = .idle)
      (prepared : prepareResult P who fingerprint data len mm kzalloc kvmalloc s.state =
        (.ok entry, s₀))
      (inL2 : ReplaceReturns (l2Head who.cpu fingerprint) entry fingerprint s₀ s₁) :
      PhaseStep P s who (.insertL2 fingerprint data len mm kzalloc kvmalloc)
        (s.enter who.cpu (.insertedL2 fingerprint entry) s₁)
  | insertsL3 {fingerprint entry s'} (here : s.phase who.cpu = .insertedL2 fingerprint entry)
      (inL3 : ReplaceReturns (l3Head P who.cpu fingerprint) entry fingerprint s.state s') :
      PhaseStep P s who .insertL3 (s.enter who.cpu .idle s')

section Phases

variable {P : Platform} {s s' : Phases} {who : Caller} {call : PhaseCall}

theorem PhaseStep.of_exec {fuel : Nat} (ran : execPhase P fuel who s call = .ok (some s')) :
    PhaseStep P s who call s' := by
  cases call with
  | searchL2 fingerprint mm =>
      simp only [execPhase] at ran
      split at ran
      · next here =>
        simp only [lookupL2, bind, Except.bind, pure, Except.pure] at ran
        cases inL2 : s.state.heap.findEntry (s.state.accepts fingerprint mm who.jiffies) fuel
            (s.state.heap.first (l2Head who.cpu fingerprint)) with
        | error reason => simp [inL2] at ran
        | ok result =>
            cases result with
            | some n =>
                simp only [inL2, Except.ok.injEq, Option.some.injEq] at ran
                subst ran
                exact .hitL2 here ⟨fuel, inL2⟩
            | none =>
                simp only [inL2, Except.ok.injEq, Option.some.injEq] at ran
                subst ran
                exact .missL2 here ⟨fuel, inL2⟩
      · cases ran
  | searchL3 =>
      simp only [execPhase] at ran
      split at ran
      · next fingerprint mm here =>
        simp only [lookupL3, bind, Except.bind, pure, Except.pure] at ran
        cases inL3 : s.state.heap.findEntry (s.state.accepts fingerprint mm who.jiffies) fuel
            (s.state.heap.first (l3Head P who.cpu fingerprint)) with
        | error reason => simp [inL3] at ran
        | ok result =>
            cases result with
            | some n =>
                simp only [inL3, Except.ok.injEq, Option.some.injEq] at ran
                subst ran
                exact .hitL3 here ⟨fuel, inL3⟩
            | none =>
                simp only [inL3, Except.ok.injEq, Option.some.injEq] at ran
                subst ran
                exact .missL3 here ⟨fuel, inL3⟩
      · cases ran
  | promote =>
      simp only [execPhase] at ran
      split at ran
      · next fingerprint n here =>
        simp only [promoteToL2, bind, Except.bind, pure, Except.pure] at ran
        cases removed : s.state.heap.hlistDelRcu n with
        | error reason => simp [removed] at ran
        | ok heap =>
            simp only [removed, Except.ok.injEq, Option.some.injEq] at ran
            subst ran
            exact .promotes here removed
      · cases ran
  | insertL2 fingerprint data len mm kzalloc kvmalloc =>
      simp only [execPhase] at ran
      split at ran
      · next here =>
        cases prepared : prepareResult P who fingerprint data len mm kzalloc kvmalloc s.state with
        | mk result state =>
            cases result with
            | error status =>
                simp only [prepared, pure, Except.pure, Except.ok.injEq, Option.some.injEq] at ran
                subst ran
                exact .refuses here prepared
            | ok entry =>
                simp only [prepared, bind, Except.bind, pure, Except.pure] at ran
                cases inL2 : storeInL2 fuel who entry fingerprint state with
                | error reason => simp [inL2] at ran
                | ok state' =>
                    simp only [inL2, Except.ok.injEq, Option.some.injEq] at ran
                    subst ran
                    exact .insertsL2 here prepared (.of_exec inL2)
      · cases ran
  | insertL3 =>
      simp only [execPhase] at ran
      split at ran
      · next fingerprint entry here =>
        simp only [bind, Except.bind, pure, Except.pure] at ran
        cases inL3 : storeInL3 P fuel who entry fingerprint s.state with
        | error reason => simp [inL3] at ran
        | ok state =>
            simp only [inL3, Except.ok.injEq, Option.some.injEq] at ran
            subst ran
            exact .insertsL3 here (.of_exec inL3)
      · cases ran

/-- Every way a phase goes on is one the code takes, with enough fuel. -/
theorem PhaseStep.exec (step : PhaseStep P s who call s') :
    ∃ fuel, execPhase P fuel who s call = .ok (some s') := by
  cases step with
  | hitL2 here found | missL2 here found =>
      obtain ⟨fuel, found⟩ := found
      rw [Heap.read_head] at found
      exact ⟨fuel, by simp [execPhase, here, lookupL2, bind, Except.bind, pure, Except.pure, found]⟩
  | hitL3 here found | missL3 here found =>
      obtain ⟨fuel, found⟩ := found
      rw [Heap.read_head] at found
      exact ⟨fuel, by simp [execPhase, here, lookupL3, bind, Except.bind, pure, Except.pure, found]⟩
  | promotes here removed =>
      exact ⟨0, by simp [execPhase, here, promoteToL2, bind, Except.bind, pure, Except.pure, removed]⟩
  | refuses here refused => exact ⟨0, by simp [execPhase, here, refused, pure, Except.pure]⟩
  | insertsL2 here prepared inL2 =>
      obtain ⟨fuel, ran⟩ := inL2.exec
      have ran := ran fuel (Nat.le_refl fuel)
      exact ⟨fuel, by simp [execPhase, here, prepared, storeInL2, ran, bind, Except.bind, pure,
        Except.pure]⟩
  | insertsL3 here inL3 =>
      obtain ⟨fuel, ran⟩ := inL3.exec
      have ran := ran fuel (Nat.le_refl fuel)
      exact ⟨fuel, by simp [execPhase, here, storeInL3, ran, bind, Except.bind, pure, Except.pure]⟩

theorem phaseStep_iff {event : PhaseEvent} :
    (phases P).Step s event s' ↔ event.call.Fresh s.state ∧ PhaseStep P s event.who event.call s' := by
  constructor
  · rintro ⟨fresh, fuel, ran⟩
    exact ⟨fresh, .of_exec ran⟩
  · rintro ⟨fresh, step⟩
    exact ⟨fresh, step.exec⟩

end Phases

/-! ## Complete calls -/

/-- The phases of a call that goes through all of them. -/
def Call.phases : Call → List PhaseCall
  | .lookupUnified fingerprint mm => [.searchL2 fingerprint mm, .searchL3, .promote]
  | .storeResult fingerprint data len mm kzalloc kvmalloc =>
      [.insertL2 fingerprint data len mm kzalloc kvmalloc, .insertL3]
  | .invalidateRange _ _ _ => []

/-- The phases a call goes through: it may return before the last ones. -/
def Call.Parts (call : Call) (parts : List PhaseCall) : Prop :=
  parts ≠ [] ∧ parts <+: call.phases

/-- The caller's phases, with nothing in between. -/
def Uninterrupted (P : Platform) (who : Caller) (parts : List PhaseCall) (s s' : Phases) : Prop :=
  (phases P).Steps s (parts.map (PhaseEvent.mk who)) s'

section Complete

variable {P : Platform} {who : Caller}

theorem Uninterrupted.refl (s : Phases) : Uninterrupted P who [] s s :=
  TransitionSystem.Steps.refl

theorem Uninterrupted.snoc {parts : List PhaseCall} {s t u : Phases}
    (before : Uninterrupted P who parts s t) {call : PhaseCall} (step : PhaseStep P t who call u)
    (fresh : call.Fresh t.state) : Uninterrupted P who (parts ++ [call]) s u := by
  unfold Uninterrupted
  rw [List.map_append]
  exact .step before (phaseStep_iff.mpr ⟨fresh, step⟩)

theorem Phases.enter_phase (s : Phases) (cpu : Nat) (phase : Phase) (state : State) :
    (s.enter cpu phase state).phase cpu = phase :=
  Function.update_self ..

theorem Phases.enter_other {s : Phases} {cpu cpu' : Nat} (other : cpu' ≠ cpu) (phase : Phase)
    (state : State) : (s.enter cpu phase state).phase cpu' = s.phase cpu' :=
  Function.update_of_ne other _ _

/-- After a CPU goes on, its phase is the new one and the others have not moved. -/
theorem Phases.enter_cases {s : Phases} {cpu cpu' : Nat} {next phase : Phase} {state : State}
    (here : (s.enter cpu next state).phase cpu' = phase) :
    cpu' = cpu ∧ next = phase ∨ cpu' ≠ cpu ∧ s.phase cpu' = phase := by
  by_cases same : cpu' = cpu
  · subst same
    exact .inl ⟨rfl, (s.enter_phase ..).symm.trans here⟩
  · exact .inr ⟨same, (Phases.enter_other same ..).symm.trans here⟩

@[simp] theorem Phases.enter_state (s : Phases) (cpu : Nat) (phase : Phase) (state : State) :
    (s.enter cpu phase state).state = state := rfl

@[simp] theorem Phases.enter_enter (s : Phases) (cpu : Nat) (phase phase' : Phase)
    (state state' : State) :
    (s.enter cpu phase state).enter cpu phase' state' = s.enter cpu phase' state' := by
  simp [Phases.enter]

/-- A call that ends puts its CPU back to where it was. -/
theorem Phases.enter_idle {s : Phases} {cpu : Nat} (idle : s.phase cpu = .idle) (state : State) :
    s.enter cpu .idle state = { s with state := state } := by
  simp only [Phases.enter, Phases.mk.injEq, true_and]
  rw [← idle, Function.update_eq_self]

theorem LookupReturns.phases {s : Phases} {s' : State} (idle : s.phase who.cpu = .idle)
    {fingerprint mm : U64} {result : Option Node}
    (returns : LookupReturns P who fingerprint mm s.state result s') :
    ∃ parts, (Call.lookupUnified fingerprint mm).Parts parts ∧
      Uninterrupted P who parts s { s with state := s' } := by
  rw [← Phases.enter_idle idle]
  cases returns with
  | l2Hit found =>
      refine ⟨[.searchL2 fingerprint mm], ⟨nofun, by simp [Call.phases]⟩, ?_⟩
      exact (Uninterrupted.refl s).snoc (.hitL2 idle found) trivial
  | @l3Hit n heap missed found removed =>
      have one : Uninterrupted P who [.searchL2 fingerprint mm] s _ :=
        (Uninterrupted.refl s).snoc (.missL2 idle missed) trivial
      have two := one.snoc (.hitL3 (s.enter_phase ..) found) trivial
      refine ⟨[.searchL2 fingerprint mm, .searchL3, .promote], ⟨nofun, by simp [Call.phases]⟩, ?_⟩
      simpa using two.snoc (.promotes (Phases.enter_phase ..) removed) trivial
  | miss missed missedL3 =>
      have one : Uninterrupted P who [.searchL2 fingerprint mm] s _ :=
        (Uninterrupted.refl s).snoc (.missL2 idle missed) trivial
      refine ⟨[.searchL2 fingerprint mm, .searchL3], ⟨nofun, by simp [Call.phases]⟩, ?_⟩
      simpa using one.snoc (.missL3 (s.enter_phase ..) missedL3) trivial

/-- A complete call is its phases, uninterrupted. -/
theorem uninterrupted_of_step {s : Phases} {s' : State} {event : Event}
    (idle : s.phase event.who.cpu = .idle) (walks : event.call.Walks)
    (step : (cache P).Step s.state event s') :
    ∃ parts, event.call.Parts parts ∧
      Uninterrupted P event.who parts s { s with state := s' } := by
  obtain ⟨who, call, outcome⟩ := event
  obtain ⟨fresh, fuel, ran⟩ := step
  cases call with
  | invalidateRange => cases walks
  | lookupUnified fingerprint mm =>
      obtain ⟨_⟩ | ⟨returns⟩ := cacheStep_iff.mp ⟨fresh, fuel, ran⟩
      exact returns.phases idle
  | storeResult fingerprint data len mm kzalloc kvmalloc =>
      rw [← Phases.enter_idle idle]
      simp only [exec, storeResult_eq, bind, Except.bind, pure, Except.pure] at ran
      cases prepared : prepareResult P who fingerprint data len mm kzalloc kvmalloc s.state with
      | mk result state =>
          cases result with
          | error status =>
              simp only [prepared, Except.ok.injEq, Prod.mk.injEq] at ran
              obtain ⟨_, rfl⟩ := ran
              refine ⟨_, ⟨List.cons_ne_nil _ _, List.prefix_append [_] [PhaseCall.insertL3]⟩, ?_⟩
              exact (Uninterrupted.refl s).snoc (.refuses idle prepared) fresh
          | ok entry =>
              simp only [prepared] at ran
              split at ran
              · cases ran
              · next result returned =>
                obtain ⟨_, s₁, inL2, inL3⟩ := insertions_ok returned
                simp only [Except.ok.injEq, Prod.mk.injEq] at ran
                obtain ⟨_, rfl⟩ := ran
                have one := (Uninterrupted.refl s).snoc (.insertsL2 idle prepared inL2) fresh
                refine ⟨_, ⟨List.cons_ne_nil _ _, List.prefix_rfl⟩, ?_⟩
                simpa using one.snoc (.insertsL3 (s.enter_phase ..) inL3) trivial

/-- Each call's phases in one piece, call after call. -/
def inPhases (events : List Event) (parts : List (List PhaseCall)) : List PhaseEvent :=
  (List.zipWith (fun event calls => calls.map (PhaseEvent.mk event.who)) events parts).flatten

/-- A run of complete stores and lookups is a run of their phases, which ends in the same
caches with every CPU between calls. -/
theorem phases_of_cache {events : List Event} {s : State} (run : (cache P).Run events s)
    (walks : ∀ event ∈ events, event.call.Walks) :
    ∃ parts, List.Forall₂ (fun event calls => event.call.Parts calls) events parts ∧
      (phases P).Run (inPhases events parts) ⟨s, fun _ => .idle⟩ := by
  refine run.invariant (fun events s => (∀ event ∈ events, event.call.Walks) →
    ∃ parts, List.Forall₂ (fun event calls => event.call.Parts calls) events parts ∧
      (phases P).Run (inPhases events parts) ⟨s, fun _ => .idle⟩) ?_ ?_ walks
  · rintro s rfl _
    exact ⟨[], .nil, .initial rfl⟩
  · intro events s event s' _ ih step walks
    obtain ⟨parts, each, before⟩ := ih fun e member => walks e (List.mem_append_left _ member)
    obtain ⟨calls, those, steps⟩ := uninterrupted_of_step (s := ⟨s, fun _ => .idle⟩) rfl
      (walks event (by simp)) step
    refine ⟨parts ++ [calls], List.rel_append each (.cons those .nil), ?_⟩
    have split : inPhases (events ++ [event]) (parts ++ [calls]) =
        inPhases events parts ++ calls.map (PhaseEvent.mk event.who) := by
      simp [inPhases, List.zipWith_append each.length_eq]
    rw [split]
    obtain ⟨initial, valid, prior⟩ := before
    exact ⟨initial, valid, prior.trans steps⟩

end Complete

/-- A store, and a lookup on another CPU, which promotes the entry. -/
theorem phases_of_cache_promoted :
    ∃ s, (cache .oneNode).Run [⟨.on 0 0, .storeByte 5 1 10, .stored 0⟩,
        ⟨.on 1 1, .lookupUnified 5 1, .found (some 10)⟩] s ∧
      ∃ parts, List.Forall₂ (fun event calls => event.call.Parts calls)
          ([⟨.on 0 0, .storeByte 5 1 10, .stored 0⟩,
            ⟨.on 1 1, .lookupUnified 5 1, .found (some 10)⟩] : List Event) parts ∧
        (phases .oneNode).Run (inPhases [⟨.on 0 0, .storeByte 5 1 10, .stored 0⟩,
          ⟨.on 1 1, .lookupUnified 5 1, .found (some 10)⟩] parts) ⟨s, fun _ => .idle⟩ := by
  obtain ⟨s, run, _⟩ := run_of_replay .oneNode 9 [⟨.on 0 0, .storeByte 5 1 10, .stored 0⟩,
    ⟨.on 1 1, .lookupUnified 5 1, .found (some 10)⟩] (by decide +kernel)
  exact ⟨s, run, phases_of_cache run (by simp [Call.Walks, Call.storeByte])⟩

/-! ## Concrete runs -/

/-- Execute the phase of an event. -/
def replayPhase (P : Platform) (fuel : Nat) (s : Phases) (event : PhaseEvent) : Option Phases :=
  if event.call.Fresh s.state then (execPhase P fuel event.who s event.call).toOption.join
  else none

theorem step_of_replayPhase {P : Platform} {fuel : Nat} {s s' : Phases} {event : PhaseEvent}
    (executed : replayPhase P fuel s event = some s') : (phases P).Step s event s' := by
  unfold replayPhase at executed
  split at executed
  · next fresh =>
    refine ⟨fresh, fuel, ?_⟩
    cases result : execPhase P fuel event.who s event.call with
    | error reason => simp [result, Except.toOption] at executed
    | ok next => simpa [result, Except.toOption] using executed
  · cases executed

/-- Phases that can be executed from the empty caches are a run. -/
theorem phases_of_execAll (P : Platform) (fuel : Nat) {events : List PhaseEvent} {s : Phases}
    (ran : TransitionSystem.execAll (replayPhase P fuel) events ⟨.initial, fun _ => .idle⟩ =
      some s) : (phases P).Run events s :=
  ⟨_, rfl, TransitionSystem.steps_of_execAll step_of_replayPhase ran⟩

end Kcr
