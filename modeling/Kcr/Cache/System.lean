import Kcr.Semantics.Execution
import Kcr.Cache.Operations

/-!
# The cache as a transition system

A step is one complete call on some CPU. It carries what the kernel contributes
(the caller's CPU and tick, the allocators' answers) and what the call returned.
A call that loops or faults has no step.
-/

namespace Kcr

open Hlist

/-- The three entry points, with the allocators' answers where they are asked. -/
inductive Call where
  | storeResult (fingerprint : U64) (data : Option (Nat → U8)) (len : U32) (mm : U64)
      (kzalloc : Option Node) (kvmalloc : U64)
  | lookupUnified (fingerprint mm : U64)
  | invalidateRange (mm start stop : U64)

inductive Outcome where
  | stored (status : Int)
  | found (entry : Option Node)
  | invalidated
deriving DecidableEq

structure Event where
  who : Caller
  call : Call
  outcome : Outcome

/-- Run one call. -/
def exec (P : Platform) (fuel : Nat) (who : Caller) (s : State) :
    Call → Except Halt (Outcome × State)
  | .storeResult fingerprint data len mm kzalloc kvmalloc => do
      let (status, s) ← storeResult P fuel who fingerprint data len mm kzalloc kvmalloc s
      return (.stored status, s)
  | .lookupUnified fingerprint mm => do
      let (entry, s) ← lookupUnified P fuel who fingerprint mm s
      return (.found entry, s)
  | .invalidateRange mm start stop => do
      let s ← invalidateRange P fuel who mm start stop s
      return (.invalidated, s)

/-- The allocators return memory that is not in use. Calls alone free nothing they have linked;
with the callbacks of `call_rcu` among them (`reclaiming`), an address can come back. -/
def Call.Fresh (s : State) : Call → Prop
  | .storeResult _ _ _ _ kzalloc kvmalloc =>
      (∀ n ∈ kzalloc, n ∉ s.live) ∧ (kvmalloc ≠ 0#64 → s.buffers kvmalloc = none)
  | _ => True

instance (s : State) (call : Call) : Decidable (call.Fresh s) := by
  cases call <;> unfold Call.Fresh <;> infer_instance

/-- The call is a store or a lookup. -/
def Call.Walks : Call → Prop
  | .invalidateRange _ _ _ => False
  | _ => True

/-- Complete calls, one after another, from the empty caches. -/
def cache (P : Platform) : TransitionSystem Event where
  State := State
  Initial s := s = .initial
  Step s event s' := event.call.Fresh s ∧
    ∃ fuel, exec P fuel event.who s event.call = .ok (event.outcome, s')

/-! ## Concrete runs -/

/-- Execute the calls of a list of events and compare what they return. -/
def replay (P : Platform) (fuel : Nat) : List Event → State → Option State
  | [], s => some s
  | event :: events, s =>
      if event.call.Fresh s then
        match exec P fuel event.who s event.call with
        | .error _ => none
        | .ok (outcome, s) => if outcome = event.outcome then replay P fuel events s else none
      else none

/-- Events are replayed one after another. -/
theorem replay_append (P : Platform) (fuel : Nat) (events later : List Event) (s : State) :
    replay P fuel (events ++ later) s = (replay P fuel events s).bind (replay P fuel later) := by
  induction events generalizing s with
  | nil => rfl
  | cons event events ih =>
      simp only [List.cons_append, replay]
      split
      · split
        · rfl
        · split
          · exact ih _
          · rfl
      · rfl

/-- The first event replayed is a step. -/
theorem replay_cons {P : Platform} {fuel : Nat} {event : Event} {events : List Event}
    {s s' : State} (replayed : replay P fuel (event :: events) s = some s') :
    ∃ mid, (cache P).Step s event mid ∧ replay P fuel events mid = some s' := by
  rw [replay] at replayed
  split at replayed
  · next fresh =>
    cases ran : exec P fuel event.who s event.call with
    | error reason => simp [ran] at replayed
    | ok result =>
        obtain ⟨outcome, mid⟩ := result
        simp only [ran] at replayed
        split at replayed
        · next same => exact ⟨mid, ⟨fresh, fuel, same ▸ ran⟩, replayed⟩
        · cases replayed
  · cases replayed

/-- Events that can be replayed are steps of the system. -/
theorem steps_of_replay {P : Platform} {fuel : Nat} {events : List Event} {s s' : State}
    (replayed : replay P fuel events s = some s') : (cache P).Steps s events s' := by
  induction events generalizing s with
  | nil =>
      obtain rfl : s = s' := Option.some.inj replayed
      exact .refl
  | cons event events ih =>
      obtain ⟨mid, step, rest⟩ := replay_cons replayed
      have one : (cache P).Steps s ([] ++ [event]) mid := .step .refl step
      exact one.trans (ih rest)

/-- A single event that can be replayed is a step. -/
theorem step_of_replay {P : Platform} {fuel : Nat} {event : Event} {s s' : State}
    (replayed : replay P fuel [event] s = some s') : (cache P).Step s event s' := by
  obtain ⟨mid, step, rest⟩ := replay_cons replayed
  obtain rfl : mid = s' := Option.some.inj rest
  exact step

/-- Events that can be replayed from the empty caches are a run. -/
theorem run_of_replay (P : Platform) (fuel : Nat) (events : List Event)
    (computed : (replay P fuel events .initial).isSome = true) :
    ∃ s, (cache P).Run events s ∧ replay P fuel events .initial = some s := by
  obtain ⟨s, replayed⟩ := Option.isSome_iff_exists.mp computed
  exact ⟨s, ⟨.initial, rfl, steps_of_replay replayed⟩, replayed⟩

/-- What is computed from an execution holds of the state it ends in. -/
theorem observe {S : Type} {execution : Option S} {s : S} (ended : execution = some s) {A : Type}
    (seen : S → A) {a : A} (computed : execution.map seen = some a) : seen s = a := by
  rw [ended] at computed
  exact Option.some.inj computed

/-- A machine with one memory node whose tick is a millisecond. -/
def Platform.oneNode : Platform where
  cpuToNode _ := 0
  numSockets := 1
  msecsToJiffies msecs := BitVec.ofNat 64 (min msecs maxJiffyOffset)
  caches := 0
  perCpuOffset cpu := BitVec.ofNat 64 (4096 * cpu)
  statsOffset := 2048
  numSocketsPos := by decide
  ttlBound := by decide

/-- A task on the given CPU at the given tick. -/
def Caller.on (cpu : Nat) (jiffies : U64) : Caller := ⟨cpu, jiffies, 1, 1⟩

/-- A store of the single byte 1, for which `kzalloc` returns `n`. -/
def Call.storeByte (fingerprint mm : U64) (n : Node) : Call :=
  .storeResult fingerprint (some fun _ => 1#8) 1 mm (some n) 0

/-- A store of 65 bytes 1, for which the allocators return `n` and `kvmalloc`. -/
def Call.storeLarge (fingerprint mm : U64) (n : Node) (kvmalloc : U64) : Call :=
  .storeResult fingerprint (some fun _ => 1#8) 65 mm (some n) kvmalloc

end Kcr
