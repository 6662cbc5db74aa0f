import Kcr.Semantics.Rcu
import Kcr.Cache.Slots
import Kcr.Cache.Reclamation
import Mathlib.Data.List.Count

/-!
# Initialization and shutdown

`kcr_init` and `kcr_exit` of `kcr_main.c`, and the subsystem between them: complete calls,
and callbacks that run when no reader is inside a section. A trace records what is asked of
the allocators, in order.
-/

namespace Kcr

open Hlist

/-- What the subsystem asks of the allocators. -/
inductive MemoryOp where
  | allocPercpu (caches : U64)
  | freePercpu (caches : U64)
  | allocRegion (region : U64)
  | freeRegion (region : U64)
  | kcallocTables (tables : U64)
  | kfreeTables (tables : U64)
  | kzalloc (entry : Node)
  | kfree (entry : Node)
  | kvmalloc (buffer : U64)
  | kvfree (buffer : U64)
deriving DecidableEq

/-- The globals of `kcr_main.c`, zero for a null pointer, and kernel memory. -/
structure Subsystem where
  kcrEnable : Bool
  caches : U64
  kcrRegion : U64
  l3Tables : U64
  state : State
  rcu : Rcu Nat Node
  trace : List MemoryOp

namespace Subsystem

/-- The module is loaded and not initialized. -/
def loaded : Subsystem where
  kcrEnable := true
  caches := 0#64
  kcrRegion := 0#64
  l3Tables := 0#64
  state := .initial
  rcu := .idle
  trace := []

def ask (s : Subsystem) (ops : List MemoryOp) : Subsystem := { s with trace := s.trace ++ ops }

/-- The labels at the end of `kcr_init`. -/
def errDisable (s : Subsystem) : Subsystem := { s with kcrEnable := false }

def errFreeCaches (s : Subsystem) : Subsystem :=
  { s.ask [.freePercpu s.caches] with caches := 0#64 }.errDisable

def errFreeRegion (s : Subsystem) : Subsystem :=
  { s.ask [.freeRegion s.kcrRegion] with kcrRegion := 0#64 }.errFreeCaches

end Subsystem

/-- `kcr_init`, with the answers of `alloc_percpu`, `kcr_alloc_region` and `kcalloc`. -/
def kcrInit (allocPercpu allocRegion kcalloc : U64) (s : Subsystem) : Int × Subsystem :=
  if s.kcrEnable = false then (0, s)
  else if allocPercpu = 0#64 then (-enomem, { s with caches := 0#64 }.errDisable)
  else
    let s := { s.ask [.allocPercpu allocPercpu] with caches := allocPercpu }
    if allocRegion = 0#64 then (-enomem, { s with kcrRegion := 0#64 }.errFreeCaches)
    else
      let s := { s.ask [.allocRegion allocRegion] with kcrRegion := allocRegion }
      if kcalloc = 0#64 then (-enomem, { s with l3Tables := 0#64 }.errFreeRegion)
      else (0, { s.ask [.kcallocTables kcalloc] with l3Tables := kcalloc, state := .initial })

/-- A `kcr_init` that succeeds empties the caches and leaves three allocations. -/
theorem kcrInit_ok {allocPercpu allocRegion kcalloc : U64} {s : Subsystem}
    (ran : kcrInit allocPercpu allocRegion kcalloc .loaded = (0, s)) :
    s.state = .initial ∧ s.rcu = .idle ∧
      s.trace = [.allocPercpu allocPercpu, .allocRegion allocRegion, .kcallocTables kcalloc] := by
  unfold kcrInit at ran
  split at ran
  · next disabled => cases disabled
  · split at ran
    · cases ran
    · split at ran
      · cases ran
      · split at ran
        · cases ran
        · obtain ⟨_, rfl⟩ := Prod.mk.inj ran
          exact ⟨rfl, rfl, rfl⟩

/-- `kcr_exit`. -/
def kcrExit (s : Subsystem) : Subsystem :=
  let s := if s.caches ≠ 0#64 then { s.ask [.freePercpu s.caches] with caches := 0#64 } else s
  let s := if s.l3Tables ≠ 0#64 then { s.ask [.kfreeTables s.l3Tables] with l3Tables := 0#64 }
    else s
  if s.kcrRegion ≠ 0#64 then { s.ask [.freeRegion s.kcrRegion] with kcrRegion := 0#64 } else s

/-- What `store_result` asks of the allocators. -/
def storeOps (P : Platform) (who : Caller) (data : Option (Nat → U8)) (len : U32)
    (kzalloc : Option Node) (kvmalloc : U64) (s : State) : List MemoryOp :=
  match data, kzalloc with
  | some _, some entry =>
      if len = 0#32 then []
      else if len.toNat > kcrResultSizeMax then
        if s.freeExtSlot (P.socketIndex who.cpu) = none ∨ kvmalloc = 0#64 then
          [.kzalloc entry, .kfree entry]
        else [.kzalloc entry, .kvmalloc kvmalloc]
      else [.kzalloc entry]
  | _, _ => []

/-- The pointers in a socket's slots. -/
def State.slotBuffers (s : State) (socket : Nat) : List U64 :=
  ((List.finRange kcrExtSlots).map (s.extSlots socket)).filter (· ≠ 0#64)

/-- What a call asks of the allocators; an invalidation frees what its socket's slots hold. -/
def memoryOps (P : Platform) (who : Caller) (s : State) : Call → List MemoryOp
  | .storeResult _ data len _ kzalloc kvmalloc => storeOps P who data len kzalloc kvmalloc s
  | .lookupUnified _ _ => []
  | .invalidateRange _ _ _ => (s.slotBuffers (P.socketIndex who.cpu)).map .kvfree

/-- A complete call, or a callback. -/
inductive SubsystemEvent where
  | call (who : Caller) (call : Call)
  | freeEntryRcu (i : Nat)

def execSubsystem (P : Platform) (fuel : Nat) (s : Subsystem) : SubsystemEvent → Option Subsystem
  | .call who call =>
      if call.Fresh s.state then
        (exec P fuel who s.state call).toOption.map fun result =>
          { s.ask (memoryOps P who s.state call) with
            state := result.2
            rcu := s.rcu.handOver (result.2.retired.drop s.state.retired.length) }
      else none
  | .freeEntryRcu i =>
      (s.rcu.invoke i).map fun result => { s.ask [.kfree result.1] with rcu := result.2 }

/-- Calls and callbacks after a successful `kcr_init`. -/
def subsystem (P : Platform) : TransitionSystem SubsystemEvent where
  State := Subsystem
  Initial s := ∃ allocPercpu allocRegion kcalloc,
    kcrInit allocPercpu allocRegion kcalloc .loaded = (0, s)
  Step s event s' := ∃ fuel, execSubsystem P fuel s event = some s'

/-- The subsystem after a call that ended in the given kernel memory. -/
def Subsystem.afterCall (P : Platform) (who : Caller) (call : Call) (state : State)
    (s : Subsystem) : Subsystem :=
  { s.ask (memoryOps P who s.state call) with
    state := state
    rcu := s.rcu.handOver (state.retired.drop s.state.retired.length) }

/-- A step is a complete call or a callback. -/
theorem subsystem_step_cases {P : Platform} {s s' : Subsystem} {event : SubsystemEvent}
    (transition : (subsystem P).Step s event s') :
    (∃ who call outcome state, CacheStep P s.state ⟨who, call, outcome⟩ state ∧
      s' = s.afterCall P who call state) ∨
    ∃ i entry rcu, s.rcu.invoke i = some (entry, rcu) ∧
      s' = { s.ask [.kfree entry] with rcu := rcu } := by
  obtain ⟨fuel, ran⟩ := transition
  cases event with
  | call who call =>
      simp only [execSubsystem] at ran
      split at ran
      · next fresh =>
        cases result : exec P fuel who s.state call with
        | error reason => simp [result, Except.toOption] at ran
        | ok result' =>
            obtain ⟨outcome, state⟩ := result'
            simp only [result, Except.toOption, Option.map_some, Option.some.injEq] at ran
            exact .inl ⟨who, call, outcome, state, cacheStep_iff.mp ⟨fresh, fuel, result⟩,
              ran.symm⟩
      · cases ran
  | freeEntryRcu i =>
      obtain ⟨⟨entry, rcu⟩, invoked, rfl⟩ := Option.map_eq_some_iff.mp ran
      exact .inr ⟨i, entry, rcu, invoked, rfl⟩

/-- Every entry and every external buffer was freed as often as it was allocated, and no
callback is pending. -/
structure ReturnsAll (s : Subsystem) : Prop where
  entries : ∀ n, s.trace.count (.kfree n) = s.trace.count (.kzalloc n)
  buffers : ∀ a, s.trace.count (.kvfree a) = s.trace.count (.kvmalloc a)
  callbacks : s.rcu.pending = []

/-- The calls have retired every entry once, all callbacks have run, and no slot of any
socket holds a buffer. -/
structure Settled (s : Subsystem) : Prop where
  retired : s.state.retired.Perm s.state.live
  callbacks : s.rcu.pending = []
  slots : ∀ socket slot, s.state.extSlots socket slot = 0#64

/-! ## What a call allocates and frees -/

/-- One for an allocated buffer. -/
def State.holds (s : State) (a : U64) : Nat := if s.buffers a = none then 0 else 1

/-- The operations account for what becomes of the entries and the buffers. -/
structure Asks (ops : List MemoryOp) (s s' : State) : Prop where
  entries : ∀ n, ops.count (.kfree n) + s'.live.count n = ops.count (.kzalloc n) + s.live.count n
  buffers : ∀ a, ops.count (.kvfree a) + s'.holds a = ops.count (.kvmalloc a) + s.holds a

section Calls

variable {P : Platform} {who : Caller} {fingerprint mm : U64} {data : Option (Nat → U8)}
  {len : U32} {kzalloc : Option Node} {kvmalloc : U64} {status : Int} {s s' : State}

theorem Asks.nothing (live : s'.live = s.live) (buffers : s'.buffers = s.buffers) :
    Asks [] s s' where
  entries n := by simp [live]
  buffers a := by simp [State.holds, buffers]

theorem StoreReturns.asks (returns :
    StoreReturns P who fingerprint data len mm kzalloc kvmalloc s status s')
    (unused : kvmalloc ≠ 0#64 → s.buffers kvmalloc = none) :
    Asks (storeOps P who data len kzalloc kvmalloc s) s s' := by
  have same := returns.sameSlots
  cases returns with
  | invalid bad =>
      have none : storeOps P who data len kzalloc kvmalloc s = [] := by
        rcases bad with rfl | rfl
        · rfl
        · cases data <;> cases kzalloc <;> rfl
      rw [none]
      exact .nothing rfl rfl
  | noEntry given nonempty failed =>
      have none : storeOps P who data len kzalloc kvmalloc s = [] := by
        subst failed
        cases data <;> rfl
      rw [none]
      exact .nothing rfl rfl
  | @noBuffer bytes entry given nonempty allocated long failed =>
      have buffers := (same (.inl (by decide))).buffers
      subst given allocated
      simp only [storeOps, if_neg nonempty, if_pos long, if_pos failed]
      refine ⟨fun n => ?_, fun a => ?_⟩
      · simp [State.kfree, storeExternal_lists.2.1, State.setEntry, State.kzalloc, List.count_cons]
      · simp [State.holds, buffers]
  | @stored bytes entry s₀ s₁ _ given nonempty allocated prepared inL2 inL3 =>
      have live : s'.live = entry :: s.live := by
        rw [inL3.live_eq, inL2.live_eq, prepared.live_eq]
      have bought : ∀ n, [MemoryOp.kzalloc entry].count (.kfree n) + s'.live.count n =
          [MemoryOp.kzalloc entry].count (.kzalloc n) + s.live.count n := by
        intro n
        simp [live, List.count_cons, Nat.add_comm]
      subst given allocated
      by_cases long : len.toNat > kcrResultSizeMax
      · obtain ⟨slot, fills⟩ := prepared.fillsSlot long
        have placed : ¬ (s.freeExtSlot (P.socketIndex who.cpu) = none ∨ kvmalloc = 0#64) := by
          rintro (full | failed)
          · exact State.freeExtSlot_none full slot fills.free
          · exact fills.got failed
        have buffers : s'.buffers = s₀.buffers := inL3.buffers_eq.trans inL2.buffers_eq
        simp only [storeOps, if_neg nonempty, if_pos long, if_neg placed]
        refine ⟨fun n => ?_, fun a => ?_⟩
        · simpa [List.count_cons] using bought n
        · by_cases own : a = kvmalloc
          · subst own
            simp [State.holds, buffers, fills.buffers, unused fills.got]
          · have other : ¬ kvmalloc = a := fun same => own same.symm
            simp [State.holds, buffers, fills.buffers, own, other]
      · have buffers := (same (.inr (Nat.le_of_not_lt long))).buffers
        simp only [storeOps, if_neg nonempty, if_neg long]
        exact ⟨bought, fun a => by simp [State.holds, buffers]⟩

/-- No two slots hold the same buffer, so each is freed once. -/
theorem SlotTable.count_slotBuffers (table : SlotTable s) (socket : Nat) (a : U64) :
    (s.slotBuffers socket).count a = if a ≠ 0#64 ∧ ∃ j, s.extSlots socket j = a then 1 else 0 := by
  have mem : a ∈ s.slotBuffers socket ↔ a ≠ 0#64 ∧ ∃ j, s.extSlots socket j = a := by
    simp only [State.slotBuffers, List.mem_filter, List.mem_map, List.mem_finRange, true_and,
      decide_eq_true_eq]
    exact and_comm
  have once : (s.slotBuffers socket).Nodup := by
    rw [State.slotBuffers, List.filter_map]
    refine (List.nodup_map_iff_inj_on ((List.nodup_finRange _).filter _)).mpr ?_
    intro j member i _ same
    have taken : s.extSlots socket j ≠ 0#64 := by simpa using (List.mem_filter.mp member).2
    exact (table.distinct socket j socket i taken same).2
  split
  · next held => exact List.count_eq_one_of_mem once (mem.mpr held)
  · next absent => exact List.count_eq_zero_of_not_mem fun member => absent (mem.mp member)

theorem asks_of_frees {socket : Nat} (table : SlotTable s) (live : s'.live = s.live)
    (frees : FreesSlots socket (List.finRange kcrExtSlots) s s') :
    Asks ((s.slotBuffers socket).map .kvfree) s s' := by
  have kvfrees : ∀ a, ((s.slotBuffers socket).map MemoryOp.kvfree).count (.kvfree a) =
      (s.slotBuffers socket).count a := fun a =>
    List.count_map_of_injective _ _ (fun _ _ => MemoryOp.kvfree.inj) a
  have others : ∀ op, (∀ a, op ≠ MemoryOp.kvfree a) →
      ((s.slotBuffers socket).map MemoryOp.kvfree).count op = 0 := by
    intro op other
    refine List.count_eq_zero_of_not_mem fun member => ?_
    obtain ⟨a, _, rfl⟩ := List.mem_map.mp member
    exact other a rfl
  refine ⟨fun n => ?_, fun a => ?_⟩
  · rw [others _ (by simp), others _ (by simp), live]
  · rw [kvfrees, table.count_slotBuffers, others _ (by simp)]
    split
    · next held =>
      obtain ⟨nonzero, j, rfl⟩ := held
      obtain ⟨bytes, allocated, _⟩ := table.held socket j nonzero
      simp [State.holds, frees.released j (List.mem_finRange j) nonzero, allocated]
    · next absent =>
      have kept := frees.kept a fun j _ taken same => absent ⟨same ▸ taken, j, same⟩
      simp [State.holds, kept]

theorem CacheStep.asks {event : Event} (step : CacheStep P s event s') (table : SlotTable s) :
    Asks (memoryOps P event.who s event.call) s s' := by
  cases step with
  | store _ unused returns => exact returns.asks unused
  | lookup returns => exact .nothing returns.live returns.buffers
  | invalidate ran =>
      exact asks_of_frees table (invalidateRange_entries ran).1 (invalidateRange_freesSlots ran)

end Calls

/-! ## The account -/

/-- The invariant: an entry was freed as often as it was allocated, but for those that are
still allocated for the cache and those its callbacks freed; a buffer, but for those still
allocated; and what was handed over is what was retired. -/
structure Accounted (s : Subsystem) : Prop where
  wellFormed : WellFormed s.state
  table : SlotTable s.state
  handed : s.rcu.handed.Perm s.state.retired
  entries : ∀ n, s.trace.count (.kfree n) + s.state.live.count n =
    s.trace.count (.kzalloc n) + s.rcu.freed.count n
  buffers : ∀ a, s.trace.count (.kvfree a) + s.state.holds a = s.trace.count (.kvmalloc a)

namespace Accounted

variable {P : Platform} {s s' : Subsystem}

theorem initial {allocPercpu allocRegion kcalloc : U64}
    (ran : kcrInit allocPercpu allocRegion kcalloc .loaded = (0, s)) : Accounted s := by
  obtain ⟨state, rcu, trace⟩ := kcrInit_ok ran
  constructor
  · exact state ▸ .initial
  · exact state ▸ .initial
  · rw [state, rcu]
    exact .nil
  · intro n
    rw [state, rcu, trace]
    rfl
  · intro a
    rw [state, trace]
    rfl

theorem step (accounted : Accounted s) {event : SubsystemEvent}
    (transition : (subsystem P).Step s event s') : Accounted s' := by
  obtain ⟨who, call, outcome, state, step, rfl⟩ | ⟨i, entry, rcu, invoked, rfl⟩ :=
    subsystem_step_cases transition
  · obtain ⟨entries, buffers⟩ := step.asks accounted.table
    obtain ⟨removed, retired, _⟩ := step.retires accounted.wellFormed
    refine ⟨accounted.wellFormed.step step, accounted.table.step step,
      Rcu.perm_handOver accounted.handed retired, fun n => ?_, fun a => ?_⟩
    · have before := accounted.entries n
      have change := entries n
      simp only [Subsystem.afterCall, Subsystem.ask, List.count_append, Rcu.handOver] at change ⊢
      omega
    · have before := accounted.buffers a
      have change := buffers a
      simp only [Subsystem.afterCall, Subsystem.ask, List.count_append] at change ⊢
      omega
  · obtain ⟨freed, handed⟩ := Rcu.handed_invoke invoked
    refine ⟨accounted.wellFormed, accounted.table, handed.trans accounted.handed, fun n => ?_,
      fun a => ?_⟩
    · have before := accounted.entries n
      simp only [Subsystem.ask, List.count_append, freed, List.count_cons]
      simp
      omega
    · simpa [Subsystem.ask] using accounted.buffers a

theorem run {events : List SubsystemEvent} (run : (subsystem P).Run events s) : Accounted s := by
  apply run.invariant (fun _ (s : Subsystem) => Accounted s)
  · rintro s ⟨allocPercpu, allocRegion, kcalloc, ran⟩
    exact .initial ran
  · exact fun _ accounted transition => accounted.step transition

/-- Before shutdown everything is returned if and only if the calls have settled it. -/
theorem returnsAll_iff (accounted : Accounted s) : ReturnsAll s ↔ Settled s := by
  have freed : s.rcu.pending = [] → s.rcu.freed.Perm s.state.retired := by
    intro none
    have handed := accounted.handed
    rwa [Rcu.handed, none, List.map_nil, List.append_nil] at handed
  constructor
  · rintro ⟨entries, buffers, callbacks⟩
    refine ⟨?_, callbacks, fun socket slot => ?_⟩
    · refine (freed callbacks).symm.trans (List.perm_iff_count.mpr fun n => ?_)
      have account := accounted.entries n
      rw [entries n] at account
      exact (Nat.add_left_cancel account).symm
    · by_contra taken
      obtain ⟨bytes, allocated, _⟩ := accounted.table.held socket slot taken
      have account := accounted.buffers (s.state.extSlots socket slot)
      simp [buffers, State.holds, allocated] at account
  · rintro ⟨retired, callbacks, slots⟩
    refine ⟨fun n => ?_, fun a => ?_, callbacks⟩
    · have account := accounted.entries n
      have same := ((freed callbacks).trans retired).count_eq n
      rw [same] at account
      exact Nat.add_right_cancel account
    · have unallocated : s.state.buffers a = none := by
        by_contra allocated
        obtain ⟨nonzero, socket, slot, rfl⟩ := accounted.table.placed a allocated
        exact nonzero (slots socket slot)
      simpa [State.holds, unallocated] using accounted.buffers a

end Accounted

/-- `kcr_exit` frees the tables and the region, and runs no callback. -/
theorem kcrExit_trace (s : Subsystem) : (kcrExit s).rcu = s.rcu ∧
    ∃ ops, (kcrExit s).trace = s.trace ++ ops ∧ ∀ op ∈ ops,
      op ∈ [.freePercpu s.caches, .kfreeTables s.l3Tables, .freeRegion s.kcrRegion] := by
  by_cases caches : s.caches = 0#64 <;> by_cases tables : s.l3Tables = 0#64 <;>
    by_cases region : s.kcrRegion = 0#64 <;>
    simp [kcrExit, Subsystem.ask, caches, tables, region]

/-- So it frees no entry and no buffer. -/
theorem returnsAll_kcrExit (s : Subsystem) : ReturnsAll (kcrExit s) ↔ ReturnsAll s := by
  obtain ⟨rcu, ops, trace, tables⟩ := kcrExit_trace s
  have same : ∀ op,
      op ∉ [.freePercpu s.caches, .kfreeTables s.l3Tables, MemoryOp.freeRegion s.kcrRegion] →
      (kcrExit s).trace.count op = s.trace.count op := by
    intro op other
    rw [trace, List.count_append, List.count_eq_zero_of_not_mem fun member =>
      other (tables op member), Nat.add_zero]
  constructor
  · rintro ⟨entries, buffers, callbacks⟩
    refine ⟨fun n => ?_, fun a => ?_, rcu ▸ callbacks⟩
    · rw [← same _ (by simp), ← same _ (by simp), entries n]
    · rw [← same _ (by simp), ← same _ (by simp), buffers a]
  · rintro ⟨entries, buffers, callbacks⟩
    refine ⟨fun n => ?_, fun a => ?_, rcu.symm ▸ callbacks⟩
    · rw [same _ (by simp), same _ (by simp), entries n]
    · rw [same _ (by simp), same _ (by simp), buffers a]

/-- When `kcr_exit` returns, everything has been freed once and no callback is pending if and
only if the calls and callbacks before it had already seen to that. -/
theorem returnsAll_kcrExit_iff {P : Platform} {events : List SubsystemEvent} {s : Subsystem}
    (run : (subsystem P).Run events s) : ReturnsAll (kcrExit s) ↔ Settled s :=
  (returnsAll_kcrExit s).trans (Accounted.run run).returnsAll_iff

/-- The subsystem after a `kcr_init` whose allocations succeed. -/
def Subsystem.initialized : Subsystem := (kcrInit 1 2 3 .loaded).2

/-- Calls and callbacks that can be executed after it are a run. -/
theorem subsystem_of_execAll (P : Platform) (fuel : Nat) {events : List SubsystemEvent}
    {s : Subsystem}
    (ran : TransitionSystem.execAll (execSubsystem P fuel) events .initialized = some s) :
    (subsystem P).Run events s := by
  have sound : ∀ {s event s'}, execSubsystem P fuel s event = some s' →
      (subsystem P).Step s event s' := fun executed => ⟨fuel, executed⟩
  exact ⟨_, ⟨1, 2, 3, rfl⟩, TransitionSystem.steps_of_execAll sound ran⟩

/-- A large store, the invalidation of its memory space, and the callback. -/
theorem returnsAll_kcrExit_iff_large :
    ∃ s, (subsystem .oneNode).Run [.call (.on 0 0) (.storeLarge 5 1 10 1000),
        .call (.on 0 0) (.invalidateRange 1 0 0), .freeEntryRcu 0] s ∧ ReturnsAll (kcrExit s) := by
  have computed : (TransitionSystem.execAll (execSubsystem .oneNode 9)
      [.call (.on 0 0) (.storeLarge 5 1 10 1000), .call (.on 0 0) (.invalidateRange 1 0 0),
        .freeEntryRcu 0] .initialized).map
      (fun s => (s.state.retired, s.state.live, s.rcu.pending.isEmpty, s.trace)) =
      some ([10], [10], true, [.allocPercpu 1, .allocRegion 2, .kcallocTables 3, .kzalloc 10,
        .kvmalloc 1000, .kvfree 1000, .kfree 10]) := by
    decide +kernel
  obtain ⟨s, ran, seen⟩ := Option.map_eq_some_iff.mp computed
  obtain ⟨retired, seen⟩ := Prod.mk.inj seen
  obtain ⟨live, seen⟩ := Prod.mk.inj seen
  obtain ⟨callbacks, trace⟩ := Prod.mk.inj seen
  have run := subsystem_of_execAll .oneNode 9 ran
  refine ⟨s, run, (returnsAll_kcrExit_iff run).mpr ⟨?_, List.isEmpty_iff.mp callbacks,
    fun socket slot => ?_⟩⟩
  · rw [retired, live]
  · have accounted := Accounted.run run
    by_contra taken
    obtain ⟨bytes, allocated, _⟩ := accounted.table.held socket slot taken
    have account := accounted.buffers (s.state.extSlots socket slot)
    simp [trace, State.holds, allocated, List.count_cons] at account

/-- A store and a shutdown: the entry is never freed. -/
theorem not_returnsAll :
    ¬ ∀ events s, (subsystem .oneNode).Run events s → ReturnsAll (kcrExit s) := by
  intro safe
  have computed : (TransitionSystem.execAll (execSubsystem .oneNode 9)
      [.call (.on 0 0) (.storeByte 5 1 10)] .initialized).map
      (fun s => ((kcrExit s).trace.count (.kfree 10), (kcrExit s).trace.count (.kzalloc 10))) =
      some (0, 1) := by
    decide +kernel
  obtain ⟨s, ran, seen⟩ := Option.map_eq_some_iff.mp computed
  obtain ⟨freed, allocated⟩ := Prod.mk.inj seen
  have same := (safe _ s (subsystem_of_execAll .oneNode 9 ran)).entries 10
  rw [freed, allocated] at same
  cases same

end Kcr
