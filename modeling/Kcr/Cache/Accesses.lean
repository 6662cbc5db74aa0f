import Kcr.Hlist.Accesses
import Kcr.Cache.System

/-!
# The cache operations, access by access

`kcr_cache.c` once more, as programs of single accesses with the bucket locks and the slot
locks around them. Memory that no one else can see is written in one go. The tick is read
where the source reads `jiffies`, so it may move on during a call.
-/

namespace Kcr

open Hlist

/-- What the kernel knows of the task that executes a call. -/
structure Task where
  cpu : Nat
  pid : U32
  pidNs : U64

def Task.at (task : Task) (jiffies : U64) : Caller := ⟨task.cpu, jiffies, task.pid, task.pidNs⟩

@[simp] theorem Task.at_cpu (task : Task) (jiffies : U64) : (task.at jiffies).cpu = task.cpu := rfl

@[simp] theorem Task.at_jiffies (task : Task) (jiffies : U64) :
    (task.at jiffies).jiffies = jiffies := rfl

inductive CacheLock where
  | bucket (h : Head)
  | ext (socket : Nat)
deriving DecidableEq

/-- The answers of `kzalloc` and `kvmalloc`: any memory that is not in use, or none. -/
structure Allocator where
  kzalloc : List Node → Option Node
  kvmalloc : (U64 → Option (List U8)) → U64
  fresh : ∀ live, ∀ n ∈ kzalloc live, n ∉ live
  unused : ∀ buffers, kvmalloc buffers ≠ 0#64 → buffers (kvmalloc buffers) = none

inductive Operation where
  | storeResult (fingerprint : U64) (data : Option (Nat → U8)) (len : U32) (mm : U64)
  | lookupUnified (fingerprint mm : U64)
  | invalidateRange (mm start stop : U64)

/-- A call, with the allocators' answers to it and a bound on its walks. -/
structure Request where
  operation : Operation
  allocator : Allocator
  fuel : Nat

/-- What a store that made an entry was given, when it read `jiffies`, and the buffer it got;
zero for a result that is stored inline. -/
structure Origin where
  thread : Nat
  fingerprint : U64
  data : Nat → U8
  len : U32
  mm : U64
  tick : Nat
  buffer : U64

/-- An entry is not allocated, private to the thread that allocated it, or complete. -/
inductive Status where
  | free
  | draft (thread : Nat)
  | complete (origin : Origin)

/-- History variables, which no access reads: where each entry comes from, the slot each
buffer was allocated for, and the calls begun. -/
structure Ghost where
  status : Node → Status
  home : U64 → Option (Nat × Fin kcrExtSlots)
  begun : List (Nat × Request)

/-- What threads share. -/
structure Shared where
  memory : State
  now : Nat
  ghost : Ghost

namespace Shared

/-- The tick counter, which wraps. -/
def jiffies (s : Shared) : U64 := BitVec.ofNat 64 s.now

def on (s : Shared) (memory : State) : Shared := { s with memory := memory }

def setStatus (s : Shared) (n : Node) (status : Status) : Shared :=
  { s with ghost := { s.ghost with status := Function.update s.ghost.status n status } }

def setHome (s : Shared) (a : U64) (home : Option (Nat × Fin kcrExtSlots)) : Shared :=
  { s with ghost := { s.ghost with home := Function.update s.ghost.home a home } }

def heap : View Shared (Heap Head Node) where
  get s := s.memory.heap
  set heap s := s.on { s.memory with heap := heap }
  get_set _ _ := rfl
  set_get _ := rfl
  set_set _ _ _ := rfl

@[simp] theorem heap_get (s : Shared) : heap.get s = s.memory.heap := rfl

@[simp] theorem heap_set (s : Shared) (h : Heap Head Node) :
    heap.set h s = s.on { s.memory with heap := h } := rfl

@[simp] theorem on_memory (s : Shared) (memory : State) : (s.on memory).memory = memory := rfl

@[simp] theorem on_now (s : Shared) (memory : State) : (s.on memory).now = s.now := rfl

@[simp] theorem on_ghost (s : Shared) (memory : State) : (s.on memory).ghost = s.ghost := rfl

@[simp] theorem on_jiffies (s : Shared) (memory : State) : (s.on memory).jiffies = s.jiffies := rfl

@[simp] theorem on_on (s : Shared) (memory memory' : State) :
    (s.on memory).on memory' = s.on memory' := rfl

@[simp] theorem on_self (s : Shared) : s.on s.memory = s := rfl

@[simp] theorem setStatus_memory (s : Shared) (n : Node) (status : Status) :
    (s.setStatus n status).memory = s.memory := rfl

@[simp] theorem setStatus_now (s : Shared) (n : Node) (status : Status) :
    (s.setStatus n status).now = s.now := rfl

@[simp] theorem setStatus_jiffies (s : Shared) (n : Node) (status : Status) :
    (s.setStatus n status).jiffies = s.jiffies := rfl

@[simp] theorem setStatus_begun (s : Shared) (n : Node) (status : Status) :
    (s.setStatus n status).ghost.begun = s.ghost.begun := rfl

@[simp] theorem setStatus_home (s : Shared) (n : Node) (status : Status) :
    (s.setStatus n status).ghost.home = s.ghost.home := rfl

@[simp] theorem setHome_memory (s : Shared) (a : U64) (home : Option (Nat × Fin kcrExtSlots)) :
    (s.setHome a home).memory = s.memory := rfl

end Shared

abbrev Access (A : Type) := Program Shared CacheLock Halt A

namespace Access

section Lookup

variable (P : Platform) (task : Task) (fuel : Nat)

/-- The test of the lookup loops: the key, and then the time. -/
def accepts (fingerprint mm : U64) (n : Node) : Access Bool := do
  if ← .read fun s => s.memory.sameKey fingerprint mm n then
    .read fun s => timeBefore s.jiffies (s.memory.entry n).expiryJiffies
  else return false

def thisCpuInc (counter : Counter) : Access Unit :=
  .write fun s => s.on (s.memory.thisCpuInc P task.cpu (P.thisCpuPtr task.cpu) counter)

def lookupL2 (fingerprint mm : U64) : Access (Option Node) := do
  let first ← Shared.heap.read fun heap => heap.first (l2Head task.cpu fingerprint)
  let entry ← findEntry Shared.heap (accepts fingerprint mm) fuel first
  match entry with
  | some entry => do
      thisCpuInc P task .l2Hits
      return some entry
  | none => return none

def lookupL3 (fingerprint mm : U64) : Access (Option Node) := do
  let first ← Shared.heap.read fun heap => heap.first (l3Head P task.cpu fingerprint)
  findEntry Shared.heap (accepts fingerprint mm) fuel first

/-- The lock is that of the L2 bucket, whichever list the entry is unlinked from. -/
def promoteToL2 (entry : Node) (fingerprint : U64) : Access Unit := do
  .acquire (.bucket (l2Head task.cpu fingerprint))
  hlistDelRcu Shared.heap entry
  hlistAddHeadRcu Shared.heap entry (l2Head task.cpu fingerprint)
  .release (.bucket (l2Head task.cpu fingerprint))

def lookupUnified (fingerprint mm : U64) : Access (Option Node) := do
  let entry ← lookupL2 P task fuel fingerprint mm
  match entry with
  | some entry => return some entry
  | none => do
      let entry ← lookupL3 P task fuel fingerprint mm
      match entry with
      | some entry => do
          promoteToL2 task entry fingerprint
          thisCpuInc P task .l3Hits
          return some entry
      | none => do
          thisCpuInc P task .misses
          return none

end Lookup

section Store

variable (P : Platform) (task : Task) (fuel : Nat)

def callRcu (n : Node) : Access Unit := .write fun s => s.on (s.memory.callRcu n)

/-- The common body of `store_in_l2` and `store_in_l3`. -/
def replaceIn (bucket : Head) (entry : Node) (fingerprint : U64) : Access Unit := do
  .acquire (.bucket bucket)
  let first ← Shared.heap.read fun heap => heap.first bucket
  let old ← findEntry Shared.heap (fun old => .read fun s =>
    s.memory.sameKey fingerprint (s.memory.entry entry).mm old) fuel first
  match old with
  | some old => do
      hlistDelRcu Shared.heap old
      callRcu old
  | none => pure ()
  hlistAddHeadRcu Shared.heap entry bucket
  .release (.bucket bucket)

/-- `kzalloc` of an entry; it is the thread's own until it is complete. -/
def kzalloc (thread : Nat) (allocator : Allocator) : Access (Option Node) :=
  .fetch
    (fun s =>
      match allocator.kzalloc s.memory.live with
      | none => s
      | some n => (s.on (s.memory.kzalloc n)).setStatus n (.draft thread))
    fun s => allocator.kzalloc s.memory.live

def kfree (n : Node) : Access Unit := .write fun s => (s.on (s.memory.kfree n)).setStatus n .free

/-- The fields set before the length is looked at; the result is the tick they were set at. -/
def fill (entry : Node) (fingerprint mm : U64) : Access Nat :=
  .fetch
    (fun s => s.on (s.memory.setEntry entry
      (initEntry P (task.at s.jiffies) fingerprint mm (s.memory.entry entry))))
    Shared.now

/-- `l3_tables[socket].ext_slots[slot] = kvmalloc(len)`. -/
def kvmallocSlot (allocator : Allocator) (socket : Nat) (slot : Fin kcrExtSlots) : Access Unit :=
  .write fun s =>
    let a := allocator.kvmalloc s.memory.buffers
    let assigned := { s.memory with
      extSlots := Function.update s.memory.extSlots socket
        (Function.update (s.memory.extSlots socket) slot a) }
    if a = 0#64 then s.on assigned
    else (s.on { assigned with buffers := Function.update assigned.buffers a (some []) }).setHome a
      (some (socket, slot))

/-- `memcpy` into the buffer the slot holds. -/
def memcpySlot (data : Nat → U8) (len : U32) (socket : Nat) (slot : Fin kcrExtSlots) :
    Access Unit :=
  .write fun s => s.on { s.memory with
    buffers := Function.update s.memory.buffers (s.memory.extSlots socket slot)
      (some ((List.range len.toNat).map data)) }

def setSlotSize (len : U32) (socket : Nat) (slot : Fin kcrExtSlots) : Access Unit :=
  .write fun s => s.on { s.memory with
    extSlotSize := Function.update s.memory.extSlotSize socket
      (Function.update (s.memory.extSlotSize socket) slot len) }

/-- `entry->ext_data` and `entry->ext_size` from the slot, which completes the entry. -/
def setExternal (entry : Node) (origin : Origin) (socket : Nat) (slot : Fin kcrExtSlots) :
    Access Unit :=
  .write fun s =>
    let a := s.memory.extSlots socket slot
    let e := s.memory.entry entry
    (s.on (s.memory.setEntry entry
      { e with payload := (e.payload.setExtData a).setExtSize origin.len })).setStatus entry
      (.complete { origin with buffer := a })

/-- The slot loop; `none` when it runs past the last slot. -/
def fillSlot (allocator : Allocator) (entry : Node) (origin : Origin) (socket : Nat) :
    List (Fin kcrExtSlots) → Access (Option (Fin kcrExtSlots))
  | [] => return none
  | slot :: slots => do
      let pointer ← .read fun s => s.memory.extSlots socket slot
      if pointer = 0#64 then do
        kvmallocSlot allocator socket slot
        let pointer ← .read fun s => s.memory.extSlots socket slot
        if pointer = 0#64 then return some slot
        else do
          memcpySlot origin.data origin.len socket slot
          setSlotSize origin.len socket slot
          setExternal entry origin socket slot
          return some slot
      else fillSlot allocator entry origin socket slots

/-- The large-data branch, under the slot lock. -/
def storeExternal (allocator : Allocator) (entry : Node) (origin : Origin) :
    Access (Option (Fin kcrExtSlots)) := do
  let socket := P.socketIndex task.cpu
  .acquire (.ext socket)
  let slot ← fillSlot allocator entry origin socket (List.finRange kcrExtSlots)
  .release (.ext socket)
  return slot

/-- The inline branch, which completes the entry. -/
def storeInline (entry : Node) (origin : Origin) : Access Unit :=
  .write fun s =>
    (s.on (s.memory.setEntry entry
      (Kcr.storeInline origin.data origin.len (s.memory.entry entry)))).setStatus entry
      (.complete origin)

/-- The two insertions at the end of `store_result`. -/
def insertions (entry : Node) (fingerprint : U64) : Access Int := do
  replaceIn fuel (l2Head task.cpu fingerprint) entry fingerprint
  replaceIn fuel (l3Head P task.cpu fingerprint) entry fingerprint
  return 0

def storeResult (thread : Nat) (allocator : Allocator) (fingerprint : U64)
    (data : Option (Nat → U8)) (len : U32) (mm : U64) : Access Int :=
  match data with
  | none => return -einval
  | some data =>
      if len = 0#32 then return -einval
      else do
        let entry ← kzalloc thread allocator
        match entry with
        | none => return -enomem
        | some entry => do
            let tick ← fill P task entry fingerprint mm
            let origin : Origin := ⟨thread, fingerprint, data, len, mm, tick, 0#64⟩
            if len.toNat > kcrResultSizeMax then do
              let slot ← storeExternal P task allocator entry origin
              let pointer ← .read fun s => (s.memory.entry entry).payload.extData
              if slot = none ∨ pointer = 0#64 then do
                kfree entry
                return -enomem
              else insertions P task fuel entry fingerprint
            else do
              storeInline entry origin
              insertions P task fuel entry fingerprint

end Store

section Invalidate

variable (P : Platform) (task : Task) (fuel : Nat)

def sweepEntry (mm : U64) (count : Access Unit) (entry : Node) : Access Unit := do
  if ← .read fun s => (s.memory.entry entry).mm == mm then do
    hlistDelRcu Shared.heap entry
    callRcu entry
    count
  else return ()

def sweepBucket (mm : U64) (count : Access Unit) (bucket : Head) : Access Unit := do
  .acquire (.bucket bucket)
  let first ← Shared.heap.read fun heap => heap.first bucket
  forEachSafe Shared.heap (sweepEntry mm count) fuel first
  .release (.bucket bucket)

def sweepBuckets (mm : U64) (count : Access Unit) : List Head → Access Unit
  | [] => return ()
  | bucket :: buckets => do
      sweepBucket fuel mm count bucket
      sweepBuckets mm count buckets

/-- One iteration of the slot loop: free the buffer, then clear the slot and its size. -/
def freeExtSlot (socket : Nat) (slot : Fin kcrExtSlots) : Access Unit := do
  let pointer ← .read fun s => s.memory.extSlots socket slot
  if pointer = 0#64 then return ()
  else do
    .write fun s =>
      let a := s.memory.extSlots socket slot
      (s.on { s.memory with buffers := Function.update s.memory.buffers a none }).setHome a none
    .write fun s => s.on { s.memory with
      extSlots := Function.update s.memory.extSlots socket
        (Function.update (s.memory.extSlots socket) slot 0#64) }
    .write fun s => s.on { s.memory with
      extSlotSize := Function.update s.memory.extSlotSize socket
        (Function.update (s.memory.extSlotSize socket) slot 0#32) }

def freeExtSlots (socket : Nat) : List (Fin kcrExtSlots) → Access Unit
  | [] => return ()
  | slot :: slots => do
      freeExtSlot socket slot
      freeExtSlots socket slots

def invalidateRange (mm _start _stop : U64) : Access Unit := do
  sweepBuckets fuel mm (thisCpuInc P task .invalidations) (l2Heads task.cpu)
  sweepBuckets fuel mm (return ()) (l3Heads P task.cpu)
  .acquire (.ext (P.socketIndex task.cpu))
  freeExtSlots (P.socketIndex task.cpu) (List.finRange kcrExtSlots)
  .release (.ext (P.socketIndex task.cpu))

end Invalidate

/-- The program of a call. -/
def body (P : Platform) (task : Task) (thread : Nat) (request : Request) : Access Outcome :=
  match request.operation with
  | .storeResult fingerprint data len mm => do
      let status ← storeResult P task request.fuel thread request.allocator fingerprint data len mm
      return .stored status
  | .lookupUnified fingerprint mm => do
      let entry ← lookupUnified P task request.fuel fingerprint mm
      return .found entry
  | .invalidateRange mm start stop => do
      invalidateRange P task request.fuel mm start stop
      return .invalidated

end Access

end Kcr
