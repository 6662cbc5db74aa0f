import Kcr.Semantics.Rcu
import Kcr.Hlist.Avoid
import Kcr.Cache.Reclamation
import Kcr.Core.Operations

/-!
# Lifetime of returned entries

A lookup leaves the read-side section of each search before it goes on with what the
search found: the promotion, and the caller's `validate_entry` and `inject_result`, run
outside of any section. A store or an invalidation on another CPU can hand the entry over
in between, and its callback waits for sections only.
-/

namespace Kcr

open Hlist

/-- The two searches of a lookup. -/
inductive Tier where
  | l2
  | l3
deriving DecidableEq

def Tier.head (P : Platform) (cpu : Nat) (fingerprint : U64) : Tier → Head
  | .l2 => l2Head cpu fingerprint
  | .l3 => l3Head P cpu fingerprint

/-- How far the lookup on a CPU, or its caller's use of the result, has come. A search
takes the read lock, walks the chain and unlocks. -/
inductive Use where
  | idle
  | locked (tier : Tier) (fingerprint mm : U64)
  | searched (tier : Tier) (fingerprint mm : U64) (result : Option Node)
  | missedL2 (fingerprint mm : U64)
  | foundL3 (fingerprint : U64) (entry : Node)
  | returned (entry : Node)
  | validated (entry : Node)
deriving DecidableEq

/-- The entry a CPU has found and not done with. -/
def Use.entry : Use → Option Node
  | .searched _ _ _ result => result
  | .foundL3 _ entry => some entry
  | .returned entry => some entry
  | .validated entry => some entry
  | _ => none

/-- The entry that the CPU's next step reads or writes: it promotes, validates or injects
it. -/
def Use.accesses : Use → Option Node
  | .foundL3 _ entry => some entry
  | .returned entry => some entry
  | .validated entry => some entry
  | _ => none

structure Readers where
  state : State
  use : Nat → Use
  rcu : Rcu Nat Node

def Readers.initial : Readers where
  state := .initial
  use _ := .idle
  rcu := .idle

def Readers.enter (s : Readers) (cpu : Nat) (use : Use) : Readers :=
  { s with use := Function.update s.use cpu use }

/-- A complete call hands over what it retires. -/
def Readers.finish (s : Readers) (state : State) : Readers :=
  { s with
    state := state
    rcu := s.rcu.handOver (state.retired.drop s.state.retired.length) }

/-- Steps of lookups and of what their callers do with the result, complete stores and
invalidations, and callbacks. -/
inductive ReaderEvent where
  | call (who : Caller) (call : Call)
  | lookupUnified (who : Caller) (fingerprint mm : U64)
  | search (who : Caller)
  | rcuReadUnlock (who : Caller)
  | rcuReadLock (who : Caller)
  | promoteToL2 (who : Caller)
  | validateEntry (who : Caller) (mm : U64)
  | injectResult (who : Caller) (regs : Option PtRegs)
  | freeEntryRcu (i : Nat)

/-- The call is a store or an invalidation. -/
def Call.modifies : Call → Bool
  | .lookupUnified _ _ => false
  | _ => true

/-- Run one step; `none` if it cannot run. -/
def execReader (P : Platform) (fuel : Nat) (s : Readers) : ReaderEvent → Option Readers
  | .call who call =>
      if s.use who.cpu = .idle ∧ call.modifies ∧ call.Fresh s.state then
        (exec P fuel who s.state call).toOption.map fun result => s.finish result.2
      else none
  | .lookupUnified who fingerprint mm =>
      match s.use who.cpu with
      | .idle =>
          some ({ s with rcu := s.rcu.readLock who.cpu }.enter who.cpu (.locked .l2 fingerprint mm))
      | _ => none
  | .search who =>
      match s.use who.cpu with
      | .locked tier fingerprint mm =>
          (s.state.heap.findEntry (s.state.accepts fingerprint mm who.jiffies) fuel
            (s.state.heap.first (tier.head P who.cpu fingerprint))).toOption.map fun result =>
              s.enter who.cpu (.searched tier fingerprint mm result)
      | _ => none
  | .rcuReadUnlock who =>
      let unlocked := { s with rcu := s.rcu.readUnlock who.cpu }
      let count := s.state.thisCpuInc P who.cpu (P.thisCpuPtr who.cpu)
      match s.use who.cpu with
      | .searched .l2 _ _ (some entry) =>
          some ({ unlocked with state := count .l2Hits }.enter who.cpu (.returned entry))
      | .searched .l2 fingerprint mm none =>
          some (unlocked.enter who.cpu (.missedL2 fingerprint mm))
      | .searched .l3 fingerprint _ (some entry) =>
          some (unlocked.enter who.cpu (.foundL3 fingerprint entry))
      | .searched .l3 _ _ none =>
          some ({ unlocked with state := count .misses }.enter who.cpu .idle)
      | _ => none
  | .rcuReadLock who =>
      match s.use who.cpu with
      | .missedL2 fingerprint mm =>
          some ({ s with rcu := s.rcu.readLock who.cpu }.enter who.cpu (.locked .l3 fingerprint mm))
      | _ => none
  | .promoteToL2 who =>
      match s.use who.cpu with
      | .foundL3 fingerprint entry =>
          (promoteToL2 who entry fingerprint s.state).toOption.map fun state =>
            { s with state := state.thisCpuInc P who.cpu (P.thisCpuPtr who.cpu) .l3Hits }.enter
              who.cpu (.returned entry)
      | _ => none
  | .validateEntry who mm =>
      match s.use who.cpu with
      | .returned entry =>
          if validateEntry who.jiffies (some (s.state.entry entry)) mm then
            some (s.enter who.cpu (.validated entry))
          else some (s.enter who.cpu .idle)
      | _ => none
  | .injectResult who regs =>
      match s.use who.cpu with
      | .validated entry =>
          (injectResult regs (some (s.state.entry entry))).toOption.map fun _ =>
            s.enter who.cpu .idle
      | _ => none
  | .freeEntryRcu i => (s.rcu.invoke i).map fun result => { s with rcu := result.2 }

/-- Any CPUs look up and use what they found, and store and invalidate in between, from
the empty caches. A node names one allocation, also after it is freed. -/
def readers (P : Platform) : TransitionSystem ReaderEvent where
  State := Readers
  Initial s := s = .initial
  Step s event s' := ∃ fuel, execReader P fuel s event = some s'

/-- An entry about to be read or written has not been freed. -/
def OutlivesUse (s : Readers) : Prop :=
  ∀ cpu, ∀ n ∈ (s.use cpu).accesses, n ∉ s.rcu.freed

/-- A CPU has found the entry and is not done with it. -/
def Readers.Held (s : Readers) (n : Node) : Prop := ∃ cpu, n ∈ (s.use cpu).entry

/-- The condition on a step, in the state before it: a call only removes through sole links
and retires no held entry, and a promotion splices nothing retired into a chain. -/
def SparesHeld (P : Platform) (s : Readers) : ReaderEvent → Prop
  | .call who call => SoleRemovals P s.state who call ∧
      ∀ n, s.state.MayRetire P who call n → ¬ s.Held n
  | .promoteToL2 who => ∀ fingerprint n, s.use who.cpu = .foundL3 fingerprint n →
      s.state.heap.Splices Set.univ s.state.retiredSet n
  | _ => True

/-- The steps, by what they do to the lists and the entries held. -/
inductive ReaderStep (P : Platform) (s : Readers) : ReaderEvent → Readers → Prop where
  | calls {who call outcome state} (here : s.use who.cpu = .idle)
      (step : CacheStep P s.state ⟨who, call, outcome⟩ state) :
      ReaderStep P s (.call who call) (s.finish state)
  | searches {who tier fingerprint mm result} (here : s.use who.cpu = .locked tier fingerprint mm)
      (found : s.state.heap.Finds (s.state.accepts fingerprint mm who.jiffies)
        (.head (tier.head P who.cpu fingerprint)) result) :
      ReaderStep P s (.search who) (s.enter who.cpu (.searched tier fingerprint mm result))
  | promotes {who fingerprint n heap} (here : s.use who.cpu = .foundL3 fingerprint n)
      (removed : s.state.heap.hlistDelRcu n = .ok heap) :
      ReaderStep P s (.promoteToL2 who) (Readers.enter
        ⟨{ s.state with heap := heap.hlistAddHeadRcu n (l2Head who.cpu fingerprint) }.thisCpuInc
          P who.cpu (P.thisCpuPtr who.cpu) .l3Hits, s.use, s.rcu⟩ who.cpu (.returned n))
  | quiet {event state rcu cpu use} (same : SameLists s.state state)
      (handed : rcu.handed.Perm s.rcu.handed) (less : ∀ n ∈ use.entry, n ∈ (s.use cpu).entry) :
      ReaderStep P s event (Readers.enter ⟨state, s.use, rcu⟩ cpu use)

theorem ReaderStep.of_exec {P : Platform} {fuel : Nat} {s s' : Readers} {event : ReaderEvent}
    (ran : execReader P fuel s event = some s') : ReaderStep P s event s' := by
  have counted : ∀ cpu cache counter, SameLists s.state (s.state.thisCpuInc P cpu cache counter) :=
    fun _ _ _ => ⟨rfl, rfl, rfl, rfl⟩
  cases event with
  | call who call =>
      simp only [execReader] at ran
      split at ran
      · next able =>
        obtain ⟨here, _, fresh⟩ := able
        cases result : exec P fuel who s.state call with
        | error reason => simp [result, Except.toOption] at ran
        | ok result' =>
            obtain ⟨outcome, state⟩ := result'
            simp only [result, Except.toOption, Option.map_some, Option.some.injEq] at ran
            subst ran
            exact .calls here (cacheStep_iff.mp ⟨fresh, fuel, result⟩)
      · cases ran
  | lookupUnified who fingerprint mm =>
      simp only [execReader] at ran
      split at ran
      · obtain rfl := Option.some.inj ran
        exact .quiet (.refl _) (by simp) (by simp [Use.entry])
      · cases ran
  | search who =>
      simp only [execReader] at ran
      split at ran
      · next tier fingerprint mm here =>
        cases result : s.state.heap.findEntry (s.state.accepts fingerprint mm who.jiffies) fuel
            (s.state.heap.first (tier.head P who.cpu fingerprint)) with
        | error reason => simp [result, Except.toOption] at ran
        | ok result' =>
            simp only [result, Except.toOption, Option.map_some, Option.some.injEq] at ran
            subst ran
            exact .searches here ⟨fuel, result⟩
      · cases ran
  | rcuReadUnlock who =>
      simp only [execReader] at ran
      split at ran
      · next here =>
        obtain rfl := Option.some.inj ran
        exact .quiet (counted _ _ _) (by simp) (by simp [here, Use.entry])
      · obtain rfl := Option.some.inj ran
        exact .quiet (.refl _) (by simp) (by simp [Use.entry])
      · next here =>
        obtain rfl := Option.some.inj ran
        exact .quiet (.refl _) (by simp) (by simp [here, Use.entry])
      · obtain rfl := Option.some.inj ran
        exact .quiet (counted _ _ _) (by simp) (by simp [Use.entry])
      · cases ran
  | rcuReadLock who =>
      simp only [execReader] at ran
      split at ran
      · obtain rfl := Option.some.inj ran
        exact .quiet (.refl _) (by simp) (by simp [Use.entry])
      · cases ran
  | promoteToL2 who =>
      simp only [execReader] at ran
      split at ran
      · next fingerprint n here =>
        cases removed : s.state.heap.hlistDelRcu n with
        | error reason =>
            simp [promoteToL2, removed, Except.toOption, bind, Except.bind] at ran
        | ok heap =>
            simp only [promoteToL2, removed, Except.toOption, bind, Except.bind, pure, Except.pure,
              Option.map_some, Option.some.injEq] at ran
            subst ran
            exact .promotes here removed
      · cases ran
  | validateEntry who mm =>
      simp only [execReader] at ran
      split at ran
      · next n here =>
        split at ran
        · obtain rfl := Option.some.inj ran
          exact .quiet (.refl _) (by simp) (by simp [here, Use.entry])
        · obtain rfl := Option.some.inj ran
          exact .quiet (.refl _) (by simp) (by simp [Use.entry])
      · cases ran
  | injectResult who regs =>
      simp only [execReader] at ran
      split at ran
      · obtain ⟨_, _, rfl⟩ := Option.map_eq_some_iff.mp ran
        exact .quiet (.refl _) (by simp) (by simp [Use.entry])
      · cases ran
  | freeEntryRcu i =>
      obtain ⟨⟨entry, rcu⟩, invoked, rfl⟩ := Option.map_eq_some_iff.mp ran
      have same : Readers.enter ⟨s.state, s.use, rcu⟩ 0 (s.use 0) = { s with rcu := rcu } := by
        simp [Readers.enter]
      exact same ▸ .quiet (.refl _) (Rcu.handed_invoke invoked).2 fun _ => id

/-! ## The invariant -/

/-- No rooted and no held entry is retired, and what was handed over is what was retired. -/
structure Lasting (s : Readers) : Prop where
  wellFormed : WellFormed s.state
  unretired : s.state.Unretired
  handed : s.rcu.handed.Perm s.state.retired
  held : ∀ n, s.Held n → n ∈ s.state.live ∧ n ∉ s.state.retired

namespace Lasting

variable {P : Platform} {s : Readers} {state : State} {rcu : Rcu Nat Node} {cpu : Nat} {use : Use}

theorem initial : Lasting .initial where
  wellFormed := .initial
  unretired := .initial
  handed := .nil
  held := by
    rintro n ⟨cpu, here⟩
    cases here

/-- What is held after one CPU goes on. -/
theorem held_enter {n : Node} (held : (Readers.enter ⟨state, s.use, rcu⟩ cpu use).Held n) :
    n ∈ use.entry ∨ s.Held n := by
  obtain ⟨c, here⟩ := held
  by_cases same : c = cpu
  · subst same
    exact .inl (by simpa [Readers.enter] using here)
  · refine .inr ⟨c, ?_⟩
    simpa [Readers.enter, same] using here

/-- A step that leaves the lists alone. -/
theorem quiet (lasting : Lasting s) (same : SameLists s.state state)
    (handed : rcu.handed.Perm s.rcu.handed)
    (less : ∀ n ∈ use.entry, n ∈ s.state.live ∧ n ∉ s.state.retired) :
    Lasting (Readers.enter ⟨state, s.use, rcu⟩ cpu use) := by
  refine ⟨⟨?_, ?_⟩, lasting.unretired.congr same, ?_, fun n held => ?_⟩
  · exact same.heap ▸ same.live ▸ lasting.wellFormed.confined
  · exact same.retired ▸ same.live ▸ lasting.wellFormed.retired
  · exact same.retired ▸ handed.trans lasting.handed
  · rw [show (Readers.enter ⟨state, s.use, rcu⟩ cpu use).state = state from rfl, same.live,
      same.retired]
    exact (held_enter held).elim (less n) (lasting.held n)

/-- A promotion of an entry that is not retired. -/
theorem promotes (lasting : Lasting s) {fingerprint : U64} {n : Node}
    (here : s.use cpu = .foundL3 fingerprint n)
    (splices : s.state.heap.Splices Set.univ s.state.retiredSet n) {l : Link Head Node}
    {mid : Heap Head Node} (gone : Heap.Unlinked s.state.heap n l mid)
    (added : Heap.Pushed mid n (l2Head cpu fingerprint) state.heap)
    (live : state.live = s.state.live) (retired : state.retired = s.state.retired) :
    Lasting (Readers.enter ⟨state, s.use, s.rcu⟩ cpu (.returned n)) := by
  have heldN : s.Held n := ⟨cpu, by rw [here]; rfl⟩
  obtain ⟨inside, current⟩ := lasting.held n heldN
  have avoids : s.state.heap.Avoids Set.univ s.state.retiredSet :=
    Heap.avoids_univ.mpr lasting.unretired
  have after := avoids.moved gone added current splices (.inr (avoids.mono (Set.subset_univ _)))
  refine ⟨⟨?_, ?_⟩, ?_, ?_, fun k held => ?_⟩
  · exact live ▸ (lasting.wellFormed.confined.unlinked gone).pushed inside added
  · exact retired ▸ live ▸ lasting.wellFormed.retired
  · intro k target bad
    have bad : k ∈ state.retired := bad
    rw [retired] at bad
    exact Heap.avoids_univ.mp after k target bad
  · exact retired ▸ lasting.handed
  · rw [show (Readers.enter ⟨state, s.use, s.rcu⟩ cpu (.returned n)).state = state from rfl, live,
      retired]
    rcases held_enter held with same | before
    · obtain rfl : n = k := Option.some.inj same
      exact ⟨inside, current⟩
    · exact lasting.held k before

/-- A complete call that only removes through sole links and retires nothing held. -/
theorem calls (lasting : Lasting s) {event : Event}
    (sole : SoleRemovals P s.state event.who event.call)
    (spares : ∀ n, s.state.MayRetire P event.who event.call n → ¬ s.Held n)
    (step : CacheStep P s.state event state) : Lasting (s.finish state) := by
  obtain ⟨removed, retired, may⟩ := step.retires lasting.wellFormed
  refine ⟨lasting.wellFormed.step step, lasting.unretired.step lasting.wellFormed sole step,
    Rcu.perm_handOver lasting.handed retired, fun n held => ?_⟩
  have before : s.Held n := held
  obtain ⟨inside, current⟩ := lasting.held n before
  refine ⟨(step.keeps lasting.wellFormed inside).1, fun bad => ?_⟩
  have bad : n ∈ s.state.retired ++ removed := retired ▸ bad
  rcases List.mem_append.mp bad with earlier | now
  · exact current earlier
  · exact spares n (may n now) before

/-- A step that meets the condition keeps the invariant. -/
theorem step (lasting : Lasting s) {event : ReaderEvent} {s' : Readers}
    (spares : SparesHeld P s event) (transition : ReaderStep P s event s') : Lasting s' := by
  cases transition with
  | calls here step => exact lasting.calls spares.1 spares.2 step
  | @searches who tier fingerprint mm result here found =>
      refine lasting.quiet (.refl _) (.refl _) fun n isResult => ?_
      obtain rfl : result = some n := isResult
      have onChain := found.some.1
      exact ⟨lasting.wellFormed.confined.onChain onChain,
        lasting.unretired n (Heap.mem_targets_of_onChain onChain ⟨_, rfl⟩)⟩
  | promotes here removed =>
      obtain ⟨l, gone⟩ := Heap.unlinked_of_del removed
      exact lasting.promotes here (spares _ _ here) gone (Heap.pushed_add _ _ _) rfl rfl
  | @quiet _ state rcu cpu use same handed less =>
      exact lasting.quiet same handed fun n isEntry => lasting.held n ⟨cpu, less n isEntry⟩

/-- Held entries have not been freed. -/
theorem outlivesUse (lasting : Lasting s) : OutlivesUse s := by
  intro cpu n accessed freed
  have held : s.Held n := by
    refine ⟨cpu, ?_⟩
    cases here : s.use cpu <;> simp_all [Use.accesses, Use.entry]
  refine (lasting.held n held).2 (lasting.handed.subset ?_)
  exact List.mem_append_left _ freed

end Lasting

/-! ## Complete lookups -/

section Lookup

variable {P : Platform} {who : Caller} {fingerprint mm : U64} {result : Option Node}
  {s s' : Readers} {state : State} {tier : Tier}

/-- The walk of a search and the unlocking after it. -/
theorem steps_search (here : s.use who.cpu = .locked tier fingerprint mm)
    (found : s.state.heap.Finds (s.state.accepts fingerprint mm who.jiffies)
      (.head (tier.head P who.cpu fingerprint)) result)
    (unlocked : execReader P 0 (s.enter who.cpu (.searched tier fingerprint mm result))
      (.rcuReadUnlock who) = some s') :
    (readers P).Steps s ([] ++ [.search who] ++ [.rcuReadUnlock who]) s' := by
  obtain ⟨fuel, found⟩ := found
  rw [Heap.read_head] at found
  have search : (readers P).Step s (.search who)
      (s.enter who.cpu (.searched tier fingerprint mm result)) :=
    ⟨fuel, by simp [execReader, here, found, Except.toOption]⟩
  exact (TransitionSystem.Steps.refl.step search).step ⟨0, unlocked⟩

/-- A complete lookup is the steps of its searches and of the promotion, uninterrupted. -/
theorem LookupReturns.reads (here : s.use who.cpu = .idle)
    (returns : LookupReturns P who fingerprint mm s.state result state) :
    ∃ events s', (readers P).Steps s events s' ∧ s'.state = state ∧
      s'.use = Function.update s.use who.cpu (result.elim .idle .returned) := by
  let locked := { s with rcu := s.rcu.readLock who.cpu }.enter who.cpu (.locked .l2 fingerprint mm)
  have lock : (readers P).Step s (.lookupUnified who fingerprint mm) locked :=
    ⟨0, by simp [execReader, here, locked]⟩
  have began : (readers P).Steps s ([] ++ [.lookupUnified who fingerprint mm]) locked :=
    .step .refl lock
  have inside : locked.use who.cpu = .locked .l2 fingerprint mm := Function.update_self ..
  -- what a miss in L2 leads to: the section of the L3 search
  let missed : Readers := ⟨s.state, Function.update s.use who.cpu (.missedL2 fingerprint mm),
    (s.rcu.readLock who.cpu).readUnlock who.cpu⟩
  let relocked := { missed with rcu := missed.rcu.readLock who.cpu }.enter who.cpu
    (.locked .l3 fingerprint mm)
  have relock : (readers P).Step missed (.rcuReadLock who) relocked :=
    ⟨0, by simp [execReader, missed, relocked]⟩
  have inside' : relocked.use who.cpu = .locked .l3 fingerprint mm := Function.update_self ..
  cases returns with
  | @l2Hit n found =>
      have rest := steps_search (P := P) inside found
        (by simp only [execReader, Readers.enter, Function.update_self]; rfl)
      exact ⟨_, _, began.trans rest, rfl, by simp [locked, Readers.enter]⟩
  | @l3Hit n heap notL2 found removed =>
      have first : (readers P).Steps locked _ missed :=
        steps_search inside notL2 (by simp [execReader, Readers.enter, locked, missed])
      let hit : Readers := ⟨s.state, Function.update s.use who.cpu (.foundL3 fingerprint n),
        (missed.rcu.readLock who.cpu).readUnlock who.cpu⟩
      have rest : (readers P).Steps relocked _ hit :=
        steps_search inside' found (by simp [execReader, Readers.enter, relocked, missed, hit])
      have promote : (readers P).Step hit (.promoteToL2 who) (Readers.enter ⟨_, hit.use, hit.rcu⟩
          who.cpu (.returned n)) :=
        ⟨0, by
          simp only [execReader, hit, Function.update_self, promoteToL2, removed, Except.toOption,
            bind, Except.bind, pure, Except.pure]
          rfl⟩
      exact ⟨_, _, (((began.trans first).step relock).trans rest).step promote, rfl,
        by simp [hit, Readers.enter]⟩
  | miss notL2 notL3 =>
      have first : (readers P).Steps locked _ missed :=
        steps_search inside notL2 (by simp [execReader, Readers.enter, locked, missed])
      have rest := steps_search (P := P) inside' notL3
        (by simp only [execReader, Readers.enter, Function.update_self]; rfl)
      exact ⟨_, _, ((began.trans first).step relock).trans rest, rfl,
        by simp [relocked, missed, Readers.enter]⟩

end Lookup

/-- When no step retires an entry that a CPU holds or leaves a retired one on a chain, no
entry is freed before its last use. -/
theorem outlivesUse_of_sparesHeld {P : Platform} {events : List ReaderEvent} {s : Readers}
    (run : ((readers P).guarded fun s event => SparesHeld P s event).Run events s) :
    OutlivesUse s := by
  have lasting : Lasting s := by
    apply run.invariant (fun _ (s : Readers) => Lasting s)
    · rintro s rfl
      exact .initial
    · rintro events s event s' _ lasting ⟨⟨fuel, ran⟩, spares⟩
      exact lasting.step spares (.of_exec ran)
  exact lasting.outlivesUse

/-- Steps that can be executed are steps of the system. -/
theorem readers_of_execAll (P : Platform) (fuel : Nat) {events : List ReaderEvent}
    {s s' : Readers} (ran : TransitionSystem.execAll (execReader P fuel) events s = some s') :
    (readers P).Steps s events s' := by
  have sound : ∀ {s event s'}, execReader P fuel s event = some s' → (readers P).Step s event s' :=
    fun executed => ⟨fuel, executed⟩
  exact TransitionSystem.steps_of_execAll sound ran

/-- A lookup at tick 1, up to the promotion of what the L3 search found. -/
def searchBoth (cpu : Nat) (fingerprint mm : U64) : List ReaderEvent :=
  [.lookupUnified (.on cpu 1) fingerprint mm, .search (.on cpu 1), .rcuReadUnlock (.on cpu 1),
    .rcuReadLock (.on cpu 1), .search (.on cpu 1), .rcuReadUnlock (.on cpu 1)]

/-- CPU 0 stores a key and stores it again, and the first entry is freed. CPU 1 has found the
second one and is about to promote it. -/
theorem outlivesUse_of_sparesHeld_replaced :
    ∃ s, (readers .oneNode).Run ([.call (.on 0 0) (.storeByte 5 1 10),
        .call (.on 0 1) (.storeByte 5 1 11), .freeEntryRcu 0] ++ searchBoth 1 5 1) s ∧
      s.rcu.freed = [10] ∧ s.use 1 = .foundL3 5 11 ∧ OutlivesUse s := by
  have computed : (execReader .oneNode 9 .initial (.call (.on 0 0) (.storeByte 5 1 10))).map
      Readers.state = replay .oneNode 9 [⟨.on 0 0, .storeByte 5 1 10, .stored 0⟩] .initial := rfl
  obtain ⟨s₁, stored⟩ : ∃ s₁, execReader .oneNode 9 .initial
      (.call (.on 0 0) (.storeByte 5 1 10)) = some s₁ :=
    Option.isSome_iff_exists.mp (by decide +kernel)
  rw [stored] at computed
  have unused : s₁.use = fun _ => .idle := observe stored Readers.use rfl
  have later : (TransitionSystem.execAll (execReader .oneNode 9)
      ([.call (.on 0 1) (.storeByte 5 1 11), .freeEntryRcu 0] ++ searchBoth 1 5 1) s₁).map
      (fun s => (s.rcu.freed, s.use 1)) = some ([10], .foundL3 5 11) :=
    observe stored (fun s => (TransitionSystem.execAll (execReader .oneNode 9)
      ([.call (.on 0 1) (.storeByte 5 1 11), .freeEntryRcu 0] ++ searchBoth 1 5 1) s).map
      fun s => (s.rcu.freed, s.use 1)) (by decide +kernel)
  obtain ⟨s, rest, seen⟩ := Option.map_eq_some_iff.mp later
  obtain ⟨freed, here⟩ := Prod.mk.inj seen
  obtain ⟨s₂, replaced, rest⟩ := Option.bind_eq_some_iff.mp rest
  have start : (readers .oneNode).Run [] .initial := .initial rfl
  have first : SparesHeld .oneNode .initial (.call (.on 0 0) (.storeByte 5 1 10)) := by
    refine ⟨fun _ => State.soleRivals_initial _ _ _ _, ?_⟩
    rintro n _ ⟨cpu, held⟩
    cases held
  have second : SparesHeld .oneNode s₁ (.call (.on 0 1) (.storeByte 5 1 11)) := by
    refine ⟨fun _ => soleRivals_storeByte computed.symm, ?_⟩
    rintro n _ ⟨cpu, held⟩
    rw [unused] at held
    cases held
  have guarded := ((start.guard_nil.guard_step ⟨9, stored⟩ first).guard_step ⟨9, replaced⟩
    second).guard_steps (readers_of_execAll .oneNode 9 rest) (by simp [searchBoth, SparesHeld])
  exact ⟨s, guarded.unguard, freed, here, outlivesUse_of_sparesHeld guarded⟩

/-- CPU 1 replaces the entry, and the callback frees it, before CPU 0 promotes it. -/
theorem not_outlivesUse :
    ¬ ∀ events s, (readers .oneNode).Run events s → OutlivesUse s := by
  intro safe
  have computed : (TransitionSystem.execAll (execReader .oneNode 9)
      ([.call (.on 1 0) (.storeByte 5 1 10)] ++ searchBoth 0 5 1 ++
        [.call (.on 1 2) (.storeByte 5 1 11), .freeEntryRcu 0]) .initial).map
      (fun s => (s.use 0, s.rcu.freed)) = some (.foundL3 5 10, [10]) := by
    decide +kernel
  obtain ⟨s, ran, seen⟩ := Option.map_eq_some_iff.mp computed
  obtain ⟨here, freed⟩ := Prod.mk.inj seen
  refine safe _ s ⟨_, rfl, readers_of_execAll .oneNode 9 ran⟩ 0 10 ?_ ?_
  · rw [here]
    rfl
  · rw [freed]
    exact List.mem_singleton_self 10

end Kcr
