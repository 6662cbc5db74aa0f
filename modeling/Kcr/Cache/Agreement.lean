import Kcr.Cache.Accesses

/-!
# Calls that are not interrupted

Alone, each program of accesses computes what the function of the cache computes at once. The
allocators answer what they answer in the state the call begins in.
-/

namespace Kcr

open Hlist

namespace Operation

/-- The call, with the answers the allocators give in a state. -/
def call (operation : Operation) (allocator : Allocator) (s : State) : Call :=
  match operation with
  | .storeResult fingerprint data len mm => .storeResult fingerprint data len mm
      (allocator.kzalloc s.live) (allocator.kvmalloc s.buffers)
  | .lookupUnified fingerprint mm => .lookupUnified fingerprint mm
  | .invalidateRange mm start stop => .invalidateRange mm start stop

end Operation

/-- The call without the allocators' answers to it. -/
def Call.operation : Call → Operation
  | .storeResult fingerprint data len mm _ _ => .storeResult fingerprint data len mm
  | .lookupUnified fingerprint mm => .lookupUnified fingerprint mm
  | .invalidateRange mm start stop => .invalidateRange mm start stop

/-- The allocators give their answers to the call while these are not in use. -/
def Call.allocator (call : Call) : Allocator where
  kzalloc live := match call with
    | .storeResult _ _ _ _ kzalloc _ => kzalloc.filter fun n => decide (n ∉ live)
    | _ => none
  kvmalloc buffers := match call with
    | .storeResult _ _ _ _ _ kvmalloc => if buffers kvmalloc = none then kvmalloc else 0#64
    | _ => 0#64
  fresh live n given := by
    cases call with
    | storeResult fingerprint data len mm kzalloc kvmalloc =>
        simpa using (Option.mem_filter_iff.mp given).2
    | lookupUnified | invalidateRange => cases given
  unused buffers got := by
    cases call with
    | storeResult fingerprint data len mm kzalloc kvmalloc =>
        by_cases used : buffers kvmalloc = none
        · simp [used]
        · simp [used] at got
    | lookupUnified | invalidateRange => exact absurd rfl got

theorem Call.call_operation {call : Call} {s : State} (fresh : call.Fresh s) :
    call.operation.call call.allocator s = call := by
  cases call with
  | lookupUnified | invalidateRange => rfl
  | storeResult fingerprint data len mm kzalloc kvmalloc =>
      obtain ⟨unlisted, unused⟩ := fresh
      have entry : (kzalloc.filter fun n => decide (n ∉ s.live)) = kzalloc := by
        cases kzalloc with
        | none => rfl
        | some n => simp [unlisted n rfl]
      have buffer : (if s.buffers kvmalloc = none then kvmalloc else 0#64) = kvmalloc := by
        by_cases null : kvmalloc = 0#64
        · simp [null]
        · rw [if_pos (unused null)]
      simp only [Call.operation, Operation.call, Call.allocator, entry, buffer]

/-- The task that a caller is, whatever the tick. -/
def Caller.task (who : Caller) : Task := ⟨who.cpu, who.pid, who.pidNs⟩

/-- The request for a call, with a bound on its walks. -/
def Call.request (call : Call) (fuel : Nat) : Request := ⟨call.operation, call.allocator, fuel⟩

theorem Call.call_request {call : Call} {s : State} (fresh : call.Fresh s) (fuel : Nat) :
    (call.request fuel).operation.call (call.request fuel).allocator s = call :=
  Call.call_operation fresh

namespace Access

theorem ok_bind {E A B : Type} (result : A) (next : A → Except E B) :
    (Except.ok result >>= next) = next result := rfl

theorem error_bind {E A B : Type} (reason : E) (next : A → Except E B) :
    (Except.error reason >>= next) = .error reason := rfl

theorem pure_ok {E A : Type} (result : A) : (pure result : Except E A) = .ok result := rfl

variable {P : Platform} {task : Task} {fuel : Nat} {s : Shared}

section Lookup

variable {fingerprint mm : U64}

theorem run_accepts (n : Node) : (accepts fingerprint mm n).run s =
    .ok (s.memory.accepts fingerprint mm s.jiffies n, s) := by
  by_cases own : s.memory.sameKey fingerprint mm n = true
  · have key := own
    unfold State.sameKey at key
    simp [accepts, own, State.accepts, key]
  · have key := own
    unfold State.sameKey at key
    simp [accepts, own, State.accepts, key]

theorem run_thisCpuInc (counter : Counter) : (thisCpuInc P task counter).run s =
    .ok ((), s.on (s.memory.thisCpuInc P task.cpu (P.thisCpuPtr task.cpu) counter)) := rfl

theorem run_lookupL2 : (lookupL2 P task fuel fingerprint mm).run s =
    (Kcr.lookupL2 P fuel (task.at s.jiffies) (P.thisCpuPtr task.cpu) fingerprint mm s.memory).map
      fun result => (result.1, s.on result.2) := by
  have searched := @run_findEntry Shared Head Node CacheLock Shared.heap s
    (accepts fingerprint mm) _ run_accepts fuel
    (s.memory.heap.first (l2Head task.cpu fingerprint))
  cases found : s.memory.heap.findEntry (s.memory.accepts fingerprint mm s.jiffies) fuel
      (s.memory.heap.first (l2Head task.cpu fingerprint)) with
  | error reason =>
      simp [lookupL2, Kcr.lookupL2, searched, found, Except.map, error_bind]
  | ok result =>
      cases result with
      | none => simp [lookupL2, Kcr.lookupL2, searched, found, Except.map, ok_bind, pure_ok]
      | some n =>
          simp [lookupL2, Kcr.lookupL2, searched, found, Except.map, ok_bind, pure_ok,
            run_thisCpuInc]

theorem run_lookupL3 : (lookupL3 P task fuel fingerprint mm).run s =
    (Kcr.lookupL3 P fuel (task.at s.jiffies) fingerprint mm s.memory).map
      fun result => (result, s) := by
  have searched := @run_findEntry Shared Head Node CacheLock Shared.heap s
    (accepts fingerprint mm) _ run_accepts fuel
    (s.memory.heap.first (l3Head P task.cpu fingerprint))
  simp [lookupL3, Kcr.lookupL3, searched]

theorem run_promoteToL2 (entry : Node) : (promoteToL2 task entry fingerprint).run s =
    (Kcr.promoteToL2 (task.at s.jiffies) entry fingerprint s.memory).map
      fun memory => ((), s.on memory) := by
  cases removed : s.memory.heap.hlistDelRcu entry with
  | error reason =>
      simp [promoteToL2, Kcr.promoteToL2, run_hlistDelRcu, removed, Except.map]
  | ok heap =>
      simp [promoteToL2, Kcr.promoteToL2, run_hlistDelRcu, run_hlistAddHeadRcu, removed,
        Except.map, ok_bind, pure_ok]

theorem run_lookupUnified : (lookupUnified P task fuel fingerprint mm).run s =
    (Kcr.lookupUnified P fuel (task.at s.jiffies) fingerprint mm s.memory).map
      fun result => (result.1, s.on result.2) := by
  cases inL2 : Kcr.lookupL2 P fuel (task.at s.jiffies) (P.thisCpuPtr task.cpu) fingerprint mm
      s.memory with
  | error reason =>
      simp [lookupUnified, Kcr.lookupUnified, run_lookupL2, inL2, Except.map, error_bind]
  | ok result =>
      obtain ⟨entry, memory⟩ := result
      cases entry with
      | some n =>
          simp [lookupUnified, Kcr.lookupUnified, run_lookupL2, inL2, Except.map, ok_bind, pure_ok]
      | none =>
          cases inL3 : Kcr.lookupL3 P fuel (task.at s.jiffies) fingerprint mm memory with
          | error reason =>
              simp [lookupUnified, Kcr.lookupUnified, run_lookupL2, run_lookupL3, inL2, inL3,
                Except.map, ok_bind, error_bind]
          | ok entry =>
              cases entry with
              | none =>
                  simp [lookupUnified, Kcr.lookupUnified, run_lookupL2, run_lookupL3, inL2, inL3,
                    Except.map, ok_bind, pure_ok, run_thisCpuInc]
              | some n =>
                  cases promoted : Kcr.promoteToL2 (task.at s.jiffies) n fingerprint memory with
                  | error reason =>
                      simp [lookupUnified, Kcr.lookupUnified, run_lookupL2, run_lookupL3,
                        run_promoteToL2, inL2, inL3, promoted, Except.map, ok_bind]
                  | ok memory' =>
                      simp [lookupUnified, Kcr.lookupUnified, run_lookupL2, run_lookupL3,
                        run_promoteToL2, inL2, inL3, promoted, Except.map, ok_bind,
                        run_thisCpuInc]

end Lookup

section Store

variable {fingerprint mm : U64} {entry : Node}

theorem run_replaceIn (bucket : Head) : (replaceIn fuel bucket entry fingerprint).run s =
    (Kcr.replaceIn fuel bucket entry fingerprint s.memory).map
      fun memory => ((), s.on memory) := by
  have searched := @run_findEntry Shared Head Node CacheLock Shared.heap s
    (fun old => .read fun s => s.memory.sameKey fingerprint (s.memory.entry entry).mm old)
    (s.memory.sameKey fingerprint (s.memory.entry entry).mm) (fun _ => rfl) fuel
    (s.memory.heap.first bucket)
  cases found : s.memory.heap.findEntry
      (s.memory.sameKey fingerprint (s.memory.entry entry).mm) fuel
      (s.memory.heap.first bucket) with
  | error reason =>
      simp [replaceIn, Kcr.replaceIn, searched, found, Except.map, error_bind]
  | ok old =>
      cases old with
      | none =>
          simp [replaceIn, Kcr.replaceIn, searched, found, run_hlistAddHeadRcu, Except.map,
            ok_bind, pure_ok]
      | some old =>
          cases removed : s.memory.heap.hlistDelRcu old with
          | error reason =>
              simp [replaceIn, Kcr.replaceIn, searched, found, run_hlistDelRcu, removed,
                Except.map, ok_bind]
          | ok heap =>
              simp [replaceIn, Kcr.replaceIn, searched, found, run_hlistDelRcu, removed, callRcu,
                run_hlistAddHeadRcu, Except.map, ok_bind, pure_ok]

theorem run_insertions : (insertions P task fuel entry fingerprint).run s =
    (Kcr.insertions P fuel (task.at s.jiffies) entry fingerprint s.memory).map
      fun result => (result.1, s.on result.2) := by
  cases inL2 : Kcr.replaceIn fuel (l2Head task.cpu fingerprint) entry fingerprint s.memory with
  | error reason =>
      simp [insertions, Kcr.insertions, storeInL2, run_replaceIn, inL2, Except.map, error_bind]
  | ok memory =>
      cases inL3 : Kcr.replaceIn fuel (l3Head P task.cpu fingerprint) entry fingerprint memory with
      | error reason =>
          simp [insertions, Kcr.insertions, storeInL2, storeInL3, run_replaceIn, inL2, inL3,
            Except.map, ok_bind]
      | ok memory' =>
          simp [insertions, Kcr.insertions, storeInL2, storeInL3, run_replaceIn, inL2, inL3,
            Except.map, ok_bind]

/-- The slot loop finds the first slot that is empty, and fills it if there is a buffer. -/
theorem run_fillSlot (allocator : Allocator) (origin : Origin) (socket : Nat)
    (slots : List (Fin kcrExtSlots)) :
    ∃ ghost, (fillSlot allocator entry origin socket slots).run s =
      let a := allocator.kvmalloc s.memory.buffers
      let e := s.memory.entry entry
      match slots.find? fun slot => s.memory.extSlots socket slot == 0#64 with
      | none => .ok (none, s)
      | some slot =>
          let assigned := { s.memory with
            extSlots := Function.update s.memory.extSlots socket
              (Function.update (s.memory.extSlots socket) slot a) }
          .ok (some slot,
            ⟨if a = 0#64 then assigned
              else { assigned with
                buffers := Function.update s.memory.buffers a
                  (some ((List.range origin.len.toNat).map origin.data))
                extSlotSize := Function.update s.memory.extSlotSize socket
                  (Function.update (s.memory.extSlotSize socket) slot origin.len)
                entry := Function.update s.memory.entry entry
                  { e with payload := (e.payload.setExtData a).setExtSize origin.len } },
              s.now, ghost⟩) := by
  induction slots with
  | nil => exact ⟨s.ghost, rfl⟩
  | cons slot slots ih =>
      by_cases empty : s.memory.extSlots socket slot = 0#64
      · by_cases failed : allocator.kvmalloc s.memory.buffers = 0#64
        · exact ⟨s.ghost, by simp [fillSlot, kvmallocSlot, empty, failed, Shared.on]⟩
        · refine ⟨_, by
            simp [fillSlot, kvmallocSlot, memcpySlot, setSlotSize, setExternal, empty, failed,
              Shared.on, Shared.setHome, Shared.setStatus, State.setEntry]
            rfl⟩
      · obtain ⟨ghost, rest⟩ := ih
        exact ⟨ghost, by simpa [fillSlot, empty] using rest⟩

theorem run_storeExternal (allocator : Allocator) (origin : Origin) :
    ∃ ghost, (storeExternal P task allocator entry origin).run s =
      let result := Kcr.storeExternal P (task.at s.jiffies) entry origin.data origin.len
        (allocator.kvmalloc s.memory.buffers) s.memory
      .ok (result.1, ⟨result.2, s.now, ghost⟩) := by
  obtain ⟨ghost, filled⟩ := @run_fillSlot s entry allocator origin (P.socketIndex task.cpu)
    (List.finRange kcrExtSlots)
  cases free : s.memory.freeExtSlot (P.socketIndex task.cpu) with
  | none =>
      have search := free
      unfold State.freeExtSlot at search
      refine ⟨s.ghost, ?_⟩
      simp only [search] at filled
      simp [storeExternal, filled, Kcr.storeExternal, free]
  | some slot =>
      have search := free
      unfold State.freeExtSlot at search
      refine ⟨ghost, ?_⟩
      simp only [search] at filled
      by_cases failed : allocator.kvmalloc s.memory.buffers = 0#64
      · simp [storeExternal, filled, Kcr.storeExternal, free, failed]
      · simp [storeExternal, filled, Kcr.storeExternal, free, failed]

/-- Up to the history variables and at the same tick, a program computes what a function does. -/
def Computes {A : Type} (program : Access A) (s : Shared) (result : Except Halt (A × State)) :
    Prop :=
  (program.run s).map (fun ran => (ran.1, ran.2.memory, ran.2.now)) =
    result.map fun ran => (ran.1, ran.2, s.now)

theorem Computes.map {A B : Type} {program : Access A} {result : Except Halt (A × State)}
    (computes : Computes program s result) (f : A → B) :
    Computes (program >>= fun a => return f a) s (result.map fun ran => (f ran.1, ran.2)) := by
  unfold Computes at computes ⊢
  rw [Program.run_bind]
  cases ran : program.run s with
  | error reason =>
      rw [ran] at computes
      cases result with
      | error reason' => cases computes; rfl
      | ok after => cases computes
  | ok after =>
      rw [ran] at computes
      cases result with
      | error reason' => cases computes
      | ok after' =>
          simp only [Except.map, Except.ok.injEq, Prod.mk.injEq] at computes
          simp [Except.map, computes]

theorem computes_insertions (P : Platform) (task : Task) (fuel : Nat) (entry : Node)
    (fingerprint : U64) (s : Shared) : Computes (insertions P task fuel entry fingerprint) s
      (Kcr.insertions P fuel (task.at s.jiffies) entry fingerprint s.memory) := by
  unfold Computes
  rw [run_insertions]
  cases Kcr.insertions P fuel (task.at s.jiffies) entry fingerprint s.memory with
  | error reason => rfl
  | ok result => rfl

/-- The large-data branch, from a state in which the entry is filled. -/
theorem computes_external (P : Platform) (task : Task) (fuel : Nat) (allocator : Allocator)
    (entry : Node) (fingerprint : U64) (origin : Origin) (s : Shared) : Computes
      (do
        let slot ← storeExternal P task allocator entry origin
        let pointer ← .read fun s => (s.memory.entry entry).payload.extData
        if slot = none ∨ pointer = 0#64 then do
          kfree entry
          return -enomem
        else insertions P task fuel entry fingerprint) s
      (let result := Kcr.storeExternal P (task.at s.jiffies) entry origin.data origin.len
        (allocator.kvmalloc s.memory.buffers) s.memory
      if result.1 = none ∨ (result.2.entry entry).payload.extData = 0#64 then
        .ok (-enomem, result.2.kfree entry)
      else Kcr.insertions P fuel (task.at s.jiffies) entry fingerprint result.2) := by
  obtain ⟨ghost, external⟩ := @run_storeExternal P task s entry allocator origin
  simp only [Computes, Program.run_bind, external, Program.run_read]
  split
  · rfl
  · exact computes_insertions P task fuel entry fingerprint _

theorem computes_storeResult (thread : Nat) (allocator : Allocator) (data : Option (Nat → U8))
    (len : U32) : Computes
      (storeResult P task fuel thread allocator fingerprint data len mm) s
      (Kcr.storeResult P fuel (task.at s.jiffies) fingerprint data len mm
        (allocator.kzalloc s.memory.live) (allocator.kvmalloc s.memory.buffers) s.memory) := by
  cases data with
  | none => rfl
  | some bytes =>
      by_cases empty : len = 0#32
      · simp [Computes, storeResult, Kcr.storeResult, empty, Except.map, pure_ok]
      · cases allocated : allocator.kzalloc s.memory.live with
        | none =>
            simp [Computes, storeResult, kzalloc, Kcr.storeResult, empty, allocated, Except.map,
              pure_ok]
        | some entry =>
            by_cases long : len.toNat > kcrResultSizeMax
            · have external := computes_external P task fuel allocator entry fingerprint
                ⟨thread, fingerprint, bytes, len, mm, s.now, 0#64⟩
                (((s.on (s.memory.kzalloc entry)).setStatus entry (.draft thread)).on
                  ((s.memory.kzalloc entry).setEntry entry
                    (initEntry P (task.at s.jiffies) fingerprint mm
                      ((s.memory.kzalloc entry).entry entry))))
              simp only [Computes, Program.run_bind, Program.run_read] at external
              simp [Computes, storeResult, Kcr.storeResult, kzalloc, fill, empty, allocated, long]
              exact external
            · simp [Computes, storeResult, Kcr.storeResult, kzalloc, fill, empty, allocated, long,
                storeInline]
              exact computes_insertions P task fuel entry fingerprint _

end Store

section Invalidate

variable {mm : U64} {count : Access Unit} {plain : State → State}

theorem run_sweepEntry (counts : ∀ memory, count.run (s.on memory) = .ok ((), s.on (plain memory)))
    (entry : Node) (memory : State) : (sweepEntry mm count entry).run (s.on memory) =
      (Kcr.sweepEntry mm plain entry memory).map fun memory => ((), s.on memory) := by
  by_cases owner : (memory.entry entry).mm = mm
  · cases removed : memory.heap.hlistDelRcu entry with
    | error reason =>
        simp [sweepEntry, Kcr.sweepEntry, owner, run_hlistDelRcu, removed, Except.map]
    | ok heap =>
        simp [sweepEntry, Kcr.sweepEntry, owner, run_hlistDelRcu, removed, Except.map, callRcu,
          counts, ok_bind, pure_ok]
  · simp [sweepEntry, Kcr.sweepEntry, owner, Except.map, pure_ok]

theorem run_sweepBucket (counts : ∀ memory, count.run (s.on memory) = .ok ((), s.on (plain memory)))
    (bucket : Head) (memory : State) : (sweepBucket fuel mm count bucket).run (s.on memory) =
      (Kcr.sweepBucket fuel mm plain bucket memory).map fun memory => ((), s.on memory) := by
  have swept := @run_forEachSafe _ _ _ CacheLock Shared.heap _ s.on State.heap (fun _ => rfl) _ _
    (@run_sweepEntry s mm count plain counts) fuel (memory.heap.first bucket) memory
  cases plainly : Kcr.sweepBucket fuel mm plain bucket memory with
  | error reason =>
      unfold Kcr.sweepBucket at plainly
      simp [sweepBucket, swept, plainly, Except.map]
  | ok memory' =>
      unfold Kcr.sweepBucket at plainly
      simp [sweepBucket, swept, plainly, Except.map]

theorem run_sweepBuckets
    (counts : ∀ memory, count.run (s.on memory) = .ok ((), s.on (plain memory)))
    (buckets : List Head) (memory : State) :
    (sweepBuckets fuel mm count buckets).run (s.on memory) =
      (Kcr.sweepBuckets fuel mm plain buckets memory).map fun memory => ((), s.on memory) := by
  induction buckets generalizing memory with
  | nil => rfl
  | cons bucket buckets ih =>
      cases swept : Kcr.sweepBucket fuel mm plain bucket memory with
      | error reason =>
          simp [sweepBuckets, Kcr.sweepBuckets, run_sweepBucket counts, swept, Except.map,
            error_bind]
      | ok memory' =>
          simp [sweepBuckets, Kcr.sweepBuckets, run_sweepBucket counts, swept, Except.map, ok_bind,
            ih]

/-- The slots are freed one after another. -/
theorem run_freeExtSlots (socket : Nat) (slots : List (Fin kcrExtSlots)) (s : Shared) :
    ∃ ghost, (freeExtSlots socket slots).run s = .ok ((),
      ⟨slots.foldl (fun memory slot => Kcr.freeExtSlot socket slot memory) s.memory, s.now,
        ghost⟩) := by
  induction slots generalizing s with
  | nil => exact ⟨s.ghost, rfl⟩
  | cons slot slots ih =>
      by_cases empty : s.memory.extSlots socket slot = 0#64
      · obtain ⟨ghost, rest⟩ := ih s
        exact ⟨ghost, by simp [freeExtSlots, freeExtSlot, empty, rest, Kcr.freeExtSlot]⟩
      · obtain ⟨ghost, rest⟩ := ih ⟨Kcr.freeExtSlot socket slot s.memory, s.now,
          (s.setHome (s.memory.extSlots socket slot) none).ghost⟩
        refine ⟨ghost, ?_⟩
        simp [freeExtSlots, freeExtSlot, empty]
        rw [← rest]
        simp [Kcr.freeExtSlot, empty]
        rfl

theorem computes_invalidateRange (P : Platform) (task : Task) (fuel : Nat) (mm start stop : U64)
    (s : Shared) : Computes (invalidateRange P task fuel mm start stop) s
      ((Kcr.invalidateRange P fuel (task.at s.jiffies) mm start stop s.memory).map
        fun memory => ((), memory)) := by
  have counted := @run_sweepBuckets fuel s mm (thisCpuInc P task .invalidations)
    (State.thisCpuInc P task.cpu (P.thisCpuPtr task.cpu) .invalidations)
    (fun _ => rfl) (l2Heads task.cpu) s.memory
  rw [Shared.on_self] at counted
  cases inL2 : Kcr.sweepBuckets fuel mm
      (State.thisCpuInc P task.cpu (P.thisCpuPtr task.cpu) .invalidations) (l2Heads task.cpu)
      s.memory with
  | error reason =>
      simp [Computes, invalidateRange, Kcr.invalidateRange, inL2, counted, Except.map, error_bind]
  | ok memory =>
      have uncounted := @run_sweepBuckets fuel s mm (return ()) id (fun _ => rfl)
        (l3Heads P task.cpu) memory
      cases inL3 : Kcr.sweepBuckets fuel mm id (l3Heads P task.cpu) memory with
      | error reason =>
          simp [Computes, invalidateRange, Kcr.invalidateRange, inL2, counted, inL3, uncounted,
            Except.map, ok_bind]
      | ok memory' =>
          obtain ⟨ghost, freed⟩ := run_freeExtSlots (P.socketIndex task.cpu)
            (List.finRange kcrExtSlots) (s.on memory')
          simp [Computes, invalidateRange, Kcr.invalidateRange, inL2, counted, inL3, uncounted,
            freed, Except.map, ok_bind]

end Invalidate

/-- Alone, the program of a call computes what the call does, at the same tick. -/
theorem computes_body (P : Platform) (task : Task) (thread : Nat) (request : Request)
    (s : Shared) : Computes (body P task thread request) s
      (exec P request.fuel (task.at s.jiffies) s.memory
        (request.operation.call request.allocator s.memory)) := by
  obtain ⟨operation, allocator, fuel⟩ := request
  cases operation with
  | storeResult fingerprint data len mm =>
      have stored := (@computes_storeResult P task fuel s fingerprint mm thread allocator data
        len).map Outcome.stored
      simp only [exec, Operation.call, body]
      cases ran : Kcr.storeResult P fuel (task.at s.jiffies) fingerprint data len mm
          (allocator.kzalloc s.memory.live) (allocator.kvmalloc s.memory.buffers) s.memory with
      | error reason =>
          rw [ran] at stored
          exact stored
      | ok result =>
          rw [ran] at stored
          exact stored
  | lookupUnified fingerprint mm =>
      simp only [exec, Operation.call, body, Computes, Program.run_bind, run_lookupUnified]
      cases Kcr.lookupUnified P fuel (task.at s.jiffies) fingerprint mm s.memory with
      | error reason => rfl
      | ok result => rfl
  | invalidateRange mm start stop =>
      have swept := (computes_invalidateRange P task fuel mm start stop s).map
        fun _ => Outcome.invalidated
      simp only [exec, Operation.call, body]
      cases ran : Kcr.invalidateRange P fuel (task.at s.jiffies) mm start stop s.memory with
      | error reason =>
          rw [ran] at swept
          exact swept
      | ok memory =>
          rw [ran] at swept
          exact swept

end Access

end Kcr
