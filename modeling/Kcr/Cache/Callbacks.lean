import Kcr.Cache.Buckets
import Kcr.Hlist.Clear

/-!
# Callbacks

`call_rcu` queues `free_entry_rcu` for an entry. The callback gives the entry's memory back,
and a later `kzalloc` may return it. Here callbacks run between the calls. A removal through
a stale `pprev` can leave a retired entry on a chain; it is freed there all the same, and
its memory comes back as a new entry that the chain still leads to. In an orderly run every
entry is released before it is freed: nothing refers to it any more.
-/

namespace Kcr

open Hlist

/-- `free_entry_rcu`: `kfree(entry)`. What the memory holds from then on is undefined until
`kzalloc` clears it; here it is cleared at once. -/
def State.freeEntryRcu (s : State) (entry : Node) : State :=
  { s.kfree entry with
    heap := s.heap.clear entry
    entry := Function.update s.entry entry .zeroed
    retired := s.retired.erase entry }

/-- A complete call, or the callback of an entry. -/
inductive RcuEvent where
  | call (event : Event)
  | freeEntryRcu (entry : Node)

/-- The calls among the events, in order. -/
def RcuEvent.calls (events : List RcuEvent) : List Event :=
  events.filterMap fun
    | .call event => some event
    | .freeEntryRcu _ => none

@[simp] theorem RcuEvent.calls_call (events : List RcuEvent) (event : Event) :
    RcuEvent.calls (events ++ [.call event]) = RcuEvent.calls events ++ [event] := by
  simp [RcuEvent.calls]

@[simp] theorem RcuEvent.calls_freed (events : List RcuEvent) (n : Node) :
    RcuEvent.calls (events ++ [.freeEntryRcu n]) = RcuEvent.calls events := by
  simp [RcuEvent.calls]

/-- Complete calls and callbacks, in any order, from the empty caches. -/
def reclaiming (P : Platform) : TransitionSystem RcuEvent where
  State := State
  Initial s := s = .initial
  Step s event s' :=
    match event with
    | .call event => (cache P).Step s event s'
    | .freeEntryRcu entry => entry ∈ s.retired ∧ s' = s.freeEntryRcu entry

/-- The entry was handed over once, no bucket head and no other entry leads to it, and no
other entry's `pprev` names its `next`. -/
structure State.Released (s : State) (entry : Node) : Prop where
  once : entry ∉ s.retired.erase entry
  loose : s.heap.Loose entry

/-- The condition on a step: the guard of a call, and that a callback's entry is released. -/
def Orderly (Guard : State → Caller → Call → Prop) (s : State) : RcuEvent → Prop
  | .call event => Guard s event.who event.call
  | .freeEntryRcu entry => s.Released entry

/-- Calls that meet a guard, and callbacks for released entries. -/
def orderly (P : Platform) (Guard : State → Caller → Call → Prop) : TransitionSystem RcuEvent :=
  (reclaiming P).guarded (Orderly Guard)

section Freed

variable {P : Platform} {s : State} {n : Node}

theorem State.freeEntryRcu_entry {m : Node} (other : m ≠ n) :
    (s.freeEntryRcu n).entry m = s.entry m := Function.update_of_ne other _ _

theorem WellFormed.freed (wellFormed : WellFormed s) (released : s.Released n) :
    WellFormed (s.freeEntryRcu n) where
  confined := by
    refine (wellFormed.confined.clear released.loose).mono ?_
    rintro m ⟨inside, other⟩
    exact (List.mem_erase_of_ne other).mpr inside
  retired := by
    intro m member
    have other : m ≠ n := by
      rintro rfl
      exact released.once member
    exact (List.mem_erase_of_ne other).mpr (wellFormed.retired m (List.mem_of_mem_erase member))

/-- An entry on a chain is not the one freed, and it stays there with its contents. -/
theorem State.Released.onChain (released : s.Released n) {h : Head} {k : Node}
    (visited : s.heap.OnChain (.head h) k) :
    (s.freeEntryRcu n).heap.OnChain (.head h) k ∧ (s.freeEntryRcu n).entry k = s.entry k := by
  refine ⟨visited.clear released.loose nofun, State.freeEntryRcu_entry ?_⟩
  rintro rfl
  exact released.loose.not_onChain (l := .head h) nofun visited

/-- A lookup's search finds what it found before the callback. -/
theorem State.Released.finds (released : s.Released n) {fingerprint mm jiffies : U64} {h : Head}
    {result : Option Node}
    (found : s.heap.Finds (s.accepts fingerprint mm jiffies) (.head h) result) :
    (s.freeEntryRcu n).heap.Finds ((s.freeEntryRcu n).accepts fingerprint mm jiffies)
      (.head h) result := by
  refine Heap.Finds.clear (found.test fun k visited => ?_) released.loose nofun
  unfold State.accepts
  rw [(released.onChain visited).2]

end Freed

section Orderly

variable {P : Platform} {Guard : State → Caller → Call → Prop} {events : List RcuEvent}
  {s : State}

/-- Induction over orderly runs: calls and callbacks from well-formed states. -/
theorem orderly_invariant (Inv : List RcuEvent → State → Prop) (initial : Inv [] .initial)
    (called : ∀ {events s event s'}, WellFormed s → Inv events s →
      Guard s event.who event.call → CacheStep P s event s' → Inv (events ++ [.call event]) s')
    (freed : ∀ {events s n}, WellFormed s → Inv events s → n ∈ s.retired → s.Released n →
      Inv (events ++ [.freeEntryRcu n]) (s.freeEntryRcu n))
    (run : (orderly P Guard).Run events s) : WellFormed s ∧ Inv events s := by
  refine run.invariant (fun events s => WellFormed s ∧ Inv events s) ?_ ?_
  · rintro s rfl
    exact ⟨.initial, initial⟩
  · rintro events s event s' _ ⟨wellFormed, holds⟩ ⟨transition, orderly⟩
    cases event with
    | call event =>
        have step := cacheStep_iff.mp transition
        exact ⟨wellFormed.step step, called wellFormed holds orderly step⟩
    | freeEntryRcu n =>
        obtain ⟨member, rfl⟩ := transition
        exact ⟨wellFormed.freed orderly, freed wellFormed holds member orderly⟩

/-- Callbacks of released entries change nothing that a search comes to. -/
theorem freed_of_steps {freed : List Node} {t : State}
    (steps : (orderly P Guard).Steps t (freed.map .freeEntryRcu) s) :
    (∀ {h n}, t.heap.OnChain (.head h) n →
      s.heap.OnChain (.head h) n ∧ s.entry n = t.entry n) ∧
    ∀ {fingerprint mm jiffies h result},
      t.heap.Finds (t.accepts fingerprint mm jiffies) (.head h) result →
      s.heap.Finds (s.accepts fingerprint mm jiffies) (.head h) result := by
  induction freed generalizing t with
  | nil =>
      obtain rfl : s = t := steps.of_nil
      exact ⟨fun visited => ⟨visited, rfl⟩, id⟩
  | cons m freed ih =>
      rw [List.map_cons, ← List.singleton_append] at steps
      obtain ⟨u, first, rest⟩ := steps.split
      obtain ⟨⟨_, rfl⟩, released⟩ := first.single
      obtain ⟨onChain, finds⟩ := ih rest
      refine ⟨fun visited => ?_, fun found => finds (State.Released.finds released found)⟩
      obtain ⟨kept, same⟩ := State.Released.onChain released visited
      exact ⟨(onChain kept).1, (onChain kept).2.trans same⟩

theorem WellFormed.orderly (run : (orderly P Guard).Run events s) : WellFormed s :=
  (orderly_invariant (fun _ _ => True) trivial (fun _ _ _ _ => trivial)
    (fun _ _ _ _ => trivial) run).1

/-- An orderly run goes on with a call that meets the guard. -/
theorem orderly_call {event : Event} {s' : State} (run : (orderly P Guard).Run events s)
    (step : (cache P).Step s event s') (guard : Guard s event.who event.call) :
    (orderly P Guard).Run (events ++ [.call event]) s' :=
  TransitionSystem.Run.step run ⟨step, guard⟩

/-- It goes on with the callback of a released entry. -/
theorem orderly_freed {n : Node} (run : (orderly P Guard).Run events s) (retired : n ∈ s.retired)
    (released : s.Released n) :
    (orderly P Guard).Run (events ++ [.freeEntryRcu n]) (s.freeEntryRcu n) :=
  TransitionSystem.Run.step run ⟨⟨retired, rfl⟩, released⟩

end Orderly

/-! ## Concrete runs -/

/-- A check over the buckets in use and the allocated entries: nothing refers to the entry. -/
theorem released_of_run {P : Platform} {events : List Event} {s : State} (buckets : List Head)
    (run : (cache P).Run events s) (within : ∀ event ∈ events, event.Within P buckets) {n : Node}
    (once : n ∉ s.retired.erase n) (heads : ∀ h ∈ buckets, s.heap.first h ≠ some n)
    (nodes : ∀ m ∈ s.live, m ≠ n → s.heap.next m ≠ some n ∧ s.heap.pprev m ≠ .link (.next n)) :
    s.Released n := by
  have confined := (WellFormed.run run).confined
  refine ⟨once, fun l other designates => ?_, fun m other named => ?_⟩
  · cases l with
    | head h => exact heads h (first_of_run run within designates) designates
    | next m =>
        have distinct : m ≠ n := fun same => other (same ▸ rfl)
        refine (nodes m ?_ distinct).1 designates
        by_contra outside
        rw [Heap.read_next, (confined.zeroed outside).1] at designates
        cases designates
  · refine (nodes m ?_ other).2 named
    by_contra outside
    rw [(confined.zeroed outside).2] at named
    cases named

/-- Run a call and compare what it returns, or run a callback. -/
def execRcu (P : Platform) (fuel : Nat) (s : State) : RcuEvent → Option State
  | .call event => replay P fuel [event] s
  | .freeEntryRcu n => if n ∈ s.retired then some (s.freeEntryRcu n) else none

theorem step_of_execRcu {P : Platform} {fuel : Nat} {s s' : State} {event : RcuEvent}
    (ran : execRcu P fuel s event = some s') : (reclaiming P).Step s event s' := by
  cases event with
  | call event => exact step_of_replay ran
  | freeEntryRcu n =>
      simp only [execRcu] at ran
      split at ran
      · next member => exact ⟨member, (Option.some.inj ran).symm⟩
      · cases ran

/-- Two stores of one key, and the callback of the entry that the second one replaces. -/
def twoStores : List RcuEvent :=
  [.call ⟨.on 0 0, .storeByte 5 1 10, .stored 0⟩, .call ⟨.on 0 1, .storeByte 5 1 11, .stored 0⟩,
    .freeEntryRcu 10]

/-- The caches after the first and after the second store. Nothing in the latter refers to the
first store's entry any more, so that its callback is in order. -/
structure TwoStores (s₁ s₂ : State) : Prop where
  stored : replay .oneNode 9 [⟨.on 0 0, .storeByte 5 1 10, .stored 0⟩] .initial = some s₁
  replaced : replay .oneNode 9 [⟨.on 0 1, .storeByte 5 1 11, .stored 0⟩] s₁ = some s₂
  both : replay .oneNode 9 [⟨.on 0 0, .storeByte 5 1 10, .stored 0⟩,
    ⟨.on 0 1, .storeByte 5 1 11, .stored 0⟩] .initial = some s₂
  live : s₁.live = [10]
  retired : 10 ∈ s₂.retired
  released : s₂.Released 10

theorem twoStores_run : ∃ s₁ s₂, TwoStores s₁ s₂ := by
  obtain ⟨s₂, run, both⟩ := run_of_replay .oneNode 9
    [⟨.on 0 0, .storeByte 5 1 10, .stored 0⟩, ⟨.on 0 1, .storeByte 5 1 11, .stored 0⟩]
    (by decide +kernel)
  have lists : (s₂.live, s₂.retired) = ([11, 10], [10]) :=
    observe both (fun s => (s.live, s.retired)) (by decide +kernel)
  have heads : [.l2 0 5, .l3 0 5].map s₂.heap.first = [some 11, some 11] :=
    observe both (fun s => [.l2 0 5, .l3 0 5].map s.heap.first) (by decide +kernel)
  have node : (s₂.heap.next 11, s₂.heap.pprev 11) = (none, .link (.head (.l3 0 5))) :=
    observe both (fun s => (s.heap.next 11, s.heap.pprev 11)) (by decide +kernel)
  simp only [List.map_cons, List.map_nil, List.cons.injEq, and_true, Prod.mk.injEq] at lists heads node
  have first : ∃ s₁, replay .oneNode 9 [⟨.on 0 0, .storeByte 5 1 10, .stored 0⟩] .initial =
      some s₁ := Option.isSome_iff_exists.mp (by decide +kernel)
  obtain ⟨s₁, stored⟩ := first
  have second := replay_append .oneNode 9 [⟨.on 0 0, .storeByte 5 1 10, .stored 0⟩]
    [⟨.on 0 1, .storeByte 5 1 11, .stored 0⟩] .initial
  rw [stored, List.singleton_append, both] at second
  refine ⟨s₁, s₂, stored, second.symm, both, ?_, by simp [lists.2], ?_⟩
  · exact observe stored State.live (by decide +kernel)
  · refine released_of_run [.l2 0 5, .l3 0 5] run (by decide) (by simp [lists.2]) ?_ ?_
    · simp [heads]
    · rw [lists.1]
      simp [node]

namespace TwoStores

variable {s₁ s₂ : State} (two : TwoStores s₁ s₂)

include two

/-- The orderly run of the two stores and the callback, if the stores meet the guard. -/
theorem run {Guard : State → Caller → Call → Prop}
    (first : Guard .initial (.on 0 0) (.storeByte 5 1 10))
    (second : (orderly .oneNode Guard).Run [.call ⟨.on 0 0, .storeByte 5 1 10, .stored 0⟩] s₁ →
      Guard s₁ (.on 0 1) (.storeByte 5 1 11)) :
    (orderly .oneNode Guard).Run twoStores (s₂.freeEntryRcu 10) := by
  have stored := orderly_call (.initial rfl) (step_of_replay two.stored) first
  have replaced := orderly_call stored (step_of_replay two.replaced) (second stored)
  exact orderly_freed replaced two.retired two.released

/-- After the callback only the second entry is allocated. -/
theorem left : (s₂.freeEntryRcu 10).live = [11] :=
  observe two.both (fun s => (s.freeEntryRcu 10).live) (by decide +kernel)

/-- Then a link leads to no entry of another fingerprint. -/
theorem not_sameKey (wellFormed : WellFormed (s₂.freeEntryRcu 10)) {l : Link Head Node} {o : Node}
    (designates : (s₂.freeEntryRcu 10).heap.read l = some o) {fingerprint mm : U64}
    (other : fingerprint ≠ 5) : (s₂.freeEntryRcu 10).sameKey fingerprint mm o ≠ true := by
  have inside := wellFormed.confined.read designates
  obtain rfl : o = 11 := by simpa [two.left] using inside
  have key : ((s₂.freeEntryRcu 10).entry 11).fingerprint = 5 :=
    observe two.both (fun s => ((s.freeEntryRcu 10).entry 11).fingerprint) (by decide +kernel)
  intro same
  rw [State.sameKey, key, Bool.and_eq_true] at same
  exact other (eq_of_beq same.1).symm

end TwoStores

end Kcr
