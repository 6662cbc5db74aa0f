import Kcr.Core.Shutdown

/-!
# Custody of external buffers

The slot tables hold every buffer from the `kvmalloc` of the store that asked for it to the
`kvfree` of the invalidation that sweeps its slot. In the trace the two alternate for each
address, and the table invariant leaves nothing else that could free a buffer.
-/

namespace Kcr

open Hlist

/-- Along the trace an address is freed once after each allocation and not otherwise. -/
def FreedInTurn (trace : List MemoryOp) (a : U64) : Prop :=
  ∀ ops, ops <+: trace → ops.count (.kvfree a) ≤ ops.count (.kvmalloc a) ∧
    ops.count (.kvmalloc a) ≤ ops.count (.kvfree a) + 1

section Trace

variable {trace ops : List MemoryOp} {a : U64}

theorem State.holds_le (s : State) (a : U64) : s.holds a ≤ 1 := by
  unfold State.holds
  split <;> omega

/-- A call allocates buffers or frees them, not both. -/
theorem memoryOps_oneWay (P : Platform) (who : Caller) (s : State) (call : Call) (a : U64) :
    (memoryOps P who s call).count (.kvfree a) = 0 ∨
      (memoryOps P who s call).count (.kvmalloc a) = 0 := by
  cases call with
  | storeResult fingerprint data len mm kzalloc kvmalloc =>
      left
      apply List.count_eq_zero_of_not_mem
      simp only [memoryOps, storeOps]
      split
      · split_ifs <;> simp
      · simp
  | lookupUnified fingerprint mm => exact .inl rfl
  | invalidateRange mm start stop =>
      right
      apply List.count_eq_zero_of_not_mem
      simp [memoryOps]

/-- Operations that free what is allocated and allocate what is not keep the turns, when they
do one of the two. -/
theorem FreedInTurn.append (turns : FreedInTurn trace a)
    (freed : ops.count (.kvfree a) = 0 ∨
      trace.count (.kvfree a) + ops.count (.kvfree a) ≤ trace.count (.kvmalloc a))
    (allocated : ops.count (.kvmalloc a) = 0 ∨
      trace.count (.kvmalloc a) + ops.count (.kvmalloc a) ≤ trace.count (.kvfree a) + 1) :
    FreedInTurn (trace ++ ops) a := by
  intro before earlier
  obtain within | beyond := List.prefix_or_prefix_of_prefix earlier (List.prefix_append trace ops)
  · exact turns before within
  · obtain ⟨rest, rfl⟩ := beyond
    have part : rest <+: ops := (List.prefix_append_right_inj trace).mp earlier
    have kvfrees := part.sublist.count_le (.kvfree a)
    have kvmallocs := part.sublist.count_le (.kvmalloc a)
    have whole := turns trace List.prefix_rfl
    simp only [List.count_append]
    omega

theorem FreedInTurn.nil : FreedInTurn [] a := by
  intro ops none
  rw [List.prefix_nil.mp none]
  simp

end Trace

/-- Over any run of calls and callbacks the buffers are freed in turn. -/
theorem freedInTurn_of_run {P : Platform} {events : List SubsystemEvent} {s : Subsystem}
    (run : (subsystem P).Run events s) (a : U64) : FreedInTurn s.trace a := by
  suffices both : Accounted s ∧ FreedInTurn s.trace a from both.2
  apply run.invariant (fun _ (s : Subsystem) => Accounted s ∧ FreedInTurn s.trace a)
  · rintro s ⟨allocPercpu, allocRegion, kcalloc, ran⟩
    refine ⟨.initial ran, ?_⟩
    rw [(kcrInit_ok ran).2.2]
    exact FreedInTurn.nil.append (.inl rfl) (.inl rfl)
  · rintro events s event s' _ ⟨accounted, turns⟩ transition
    have accounted' := accounted.step transition
    refine ⟨accounted', ?_⟩
    obtain ⟨who, call, outcome, state, step, rfl⟩ | ⟨i, entry, rcu, invoked, rfl⟩ :=
      subsystem_step_cases transition
    · have oneWay := memoryOps_oneWay P who s.state call a
      have before := accounted.buffers a
      have after := accounted'.buffers a
      have heldBefore := s.state.holds_le a
      have heldAfter := state.holds_le a
      simp only [Subsystem.afterCall, Subsystem.ask, List.count_append] at after ⊢
      apply turns.append <;> omega
    · apply turns.append <;> simp

/-- In every state the subsystem reaches: an empty slot has size zero, a taken one holds a
buffer of its size that is too large for an entry and still to be freed, and no two slots
hold the same one. So no buffer is freed twice, and a store leaves the taken slots alone. -/
theorem slots_of_run {P : Platform} {events : List SubsystemEvent} {s : Subsystem}
    (run : (subsystem P).Run events s) :
    (∀ socket slot,
      s.state.extSlots socket slot = 0#64 ∧ s.state.extSlotSize socket slot = 0#32 ∨
      s.state.extSlots socket slot ≠ 0#64 ∧
        s.trace.count (.kvmalloc (s.state.extSlots socket slot)) =
          s.trace.count (.kvfree (s.state.extSlots socket slot)) + 1 ∧
        kcrResultSizeMax < (s.state.extSlotSize socket slot).toNat ∧
        ∃ bytes, s.state.buffers (s.state.extSlots socket slot) = some bytes ∧
          bytes.length = (s.state.extSlotSize socket slot).toNat) ∧
    (∀ socket slot socket' slot', s.state.extSlots socket slot ≠ 0#64 →
      s.state.extSlots socket slot = s.state.extSlots socket' slot' →
      socket = socket' ∧ slot = slot') ∧
    (∀ a, FreedInTurn s.trace a) ∧
    ∀ fuel who fingerprint data len mm kzalloc kvmalloc status s',
      storeResult P fuel who fingerprint data len mm kzalloc kvmalloc s.state = .ok (status, s') →
      ∀ socket slot, s.state.extSlots socket slot ≠ 0#64 →
        s'.extSlots socket slot = s.state.extSlots socket slot ∧
        s'.extSlotSize socket slot = s.state.extSlotSize socket slot := by
  have accounted := Accounted.run run
  have table := accounted.table
  refine ⟨fun socket slot => ?_, table.distinct, freedInTurn_of_run run, ?_⟩
  · by_cases empty : s.state.extSlots socket slot = 0#64
    · exact .inl ⟨empty, table.empty socket slot empty⟩
    · obtain ⟨bytes, allocated, size, long⟩ := table.held socket slot empty
      have account := accounted.buffers (s.state.extSlots socket slot)
      simp only [State.holds, allocated, reduceCtorEq, ↓reduceIte] at account
      exact .inr ⟨empty, account.symm, size ▸ long, bytes, allocated, size.symm⟩
  · intro fuel who fingerprint data len mm kzalloc kvmalloc status s' ran socket slot taken
    obtain same | ⟨_, _, bytes, free, _, fills⟩ := (StoreReturns.of_exec ran).slot_cases
    · exact ⟨by rw [same.slots], by rw [same.sizes]⟩
    · have other : ¬ (socket = P.socketIndex who.cpu ∧ slot = free) := by
        rintro ⟨rfl, rfl⟩
        exact taken fills.free
      exact ⟨(fills.slots socket slot).trans (if_neg other),
        (fills.sizes socket slot).trans (if_neg other)⟩

/-- After a large store the first slot holds the buffer, and no second buffer. -/
theorem slots_of_run_large :
    ∃ s, (subsystem .oneNode).Run [.call (.on 0 0) (.storeLarge 5 1 10 1000)] s ∧
      s.state.extSlots 0 0 = 1000#64 ∧
      s.trace.count (.kvmalloc 1000) = s.trace.count (.kvfree 1000) + 1 ∧
      ∀ slot, s.state.extSlots 0 slot = 1000#64 → slot = 0 := by
  have computed : (TransitionSystem.execAll (execSubsystem .oneNode 9)
      [.call (.on 0 0) (.storeLarge 5 1 10 1000)] .initialized).map
      (fun s => s.state.extSlots 0 0) = some 1000#64 := by
    decide +kernel
  obtain ⟨s, ran, first⟩ := Option.map_eq_some_iff.mp computed
  have run := subsystem_of_execAll .oneNode 9 ran
  obtain ⟨slots, distinct, _⟩ := slots_of_run run
  have taken : s.state.extSlots 0 0 ≠ 0#64 := by
    rw [first]
    decide
  obtain ⟨empty, _⟩ | ⟨_, account, _⟩ := slots 0 0
  · exact absurd empty taken
  · rw [first] at account
    refine ⟨s, run, first, account, fun slot same => ?_⟩
    exact (distinct 0 0 0 slot taken (first.trans same.symm)).2.symm

end Kcr
