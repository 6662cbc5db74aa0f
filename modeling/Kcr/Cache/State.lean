import Kcr.Hlist.Heap
import Mathlib.Algebra.Group.Nat.Defs
import Mathlib.Data.Fin.Basic
import Mathlib.Data.List.FinRange

/-!
# Entries, tables and memory

The data of `kcr.h` that the cache operations read and write. Machine integers
are bit vectors of the declared width, a kernel pointer is a 64-bit word with
zero for `NULL`, and an entry is named by the address `kzalloc` returned for it.
The payload union keeps its byte layout, since two of its members overlap a third.
-/

namespace Kcr

open Hlist

abbrev U8 := BitVec 8
abbrev U16 := BitVec 16
abbrev U32 := BitVec 32
abbrev U64 := BitVec 64

abbrev kcrL2Entries : Nat := 64
abbrev kcrL3Entries : Nat := 512
abbrev kcrResultSizeMax : Nat := 64
abbrev kcrExtSlots : Nat := 256
abbrev kcrExtSlotSize : Nat := 4 * 1024
abbrev kcrMaskRax : U8 := 1
abbrev kcrFlagValid : U8 := 1

abbrev einval : Int := 22
abbrev enomem : Int := 12

/-- `MAX_JIFFY_OFFSET`, the largest value `msecs_to_jiffies` returns. -/
abbrev maxJiffyOffset : Nat := 2 ^ 62 - 2

/-- The address of an entry. -/
abbrev Node := Nat

/-- Every bucket head: the L2 buckets of each CPU, the L3 buckets of each socket. -/
inductive Head where
  | l2 (cpu : Nat) (bucket : Fin kcrL2Entries)
  | l3 (socket : Nat) (bucket : Fin kcrL3Entries)
deriving DecidableEq

def l2Bucket (fingerprint : U64) : Fin kcrL2Entries :=
  ⟨fingerprint.toNat % kcrL2Entries, Nat.mod_lt _ (by decide)⟩

def l3Bucket (fingerprint : U64) : Fin kcrL3Entries :=
  ⟨fingerprint.toNat % kcrL3Entries, Nat.mod_lt _ (by decide)⟩

/-! ## The payload union -/

/-- The 64 bytes shared by `result[8]` and `{ext_data, ext_size, reserved}`. -/
abbrev Payload := Fin kcrResultSizeMax → U8

namespace Payload

/-- `ext_data`: bytes 0 to 7, least significant first. -/
def extData (payload : Payload) : U64 :=
  payload 7 ++ payload 6 ++ payload 5 ++ payload 4 ++
    payload 3 ++ payload 2 ++ payload 1 ++ payload 0

/-- `ext_size`: bytes 8 to 11. -/
def extSize (payload : Payload) : U32 :=
  payload 11 ++ payload 10 ++ payload 9 ++ payload 8

def setExtData (payload : Payload) (pointer : U64) : Payload := fun i =>
  if i.val < 8 then pointer.extractLsb' (8 * i.val) 8 else payload i

def setExtSize (payload : Payload) (size : U32) : Payload := fun i =>
  if 8 ≤ i.val ∧ i.val < 12 then size.extractLsb' (8 * (i.val - 8)) 8 else payload i

/-- `memcpy(entry->result, data, len)`. -/
def memcpyResult (payload : Payload) (data : Nat → U8) (len : Nat) : Payload := fun i =>
  if i.val < len then data i.val else payload i

@[simp] theorem extData_setExtData (payload : Payload) (pointer : U64) :
    (payload.setExtData pointer).extData = pointer := by
  apply BitVec.eq_of_getLsbD_eq
  intro i bound
  simp only [extData, setExtData, BitVec.getLsbD_append]
  grind

@[simp] theorem extSize_setExtSize (payload : Payload) (size : U32) :
    (payload.setExtSize size).extSize = size := by
  apply BitVec.eq_of_getLsbD_eq
  intro i bound
  simp only [extSize, setExtSize, BitVec.getLsbD_append]
  grind

/-- The two external members do not overlap. -/
@[simp] theorem extData_setExtSize (payload : Payload) (size : U32) :
    (payload.setExtSize size).extData = payload.extData := rfl

@[simp] theorem extData_zero : extData (fun _ => 0#8) = 0#64 := by
  decide

end Payload

/-- `struct kcr_entry` without its list node, which lives in the list heap. -/
structure Entry where
  fingerprint : U64
  payload : Payload
  expiryJiffies : U64
  fragmentLength : U16
  registerMask : U8
  flags : U8
  hitCount : U32
  mm : U64
  mmGeneration : U64
  pid : U32
  pidNs : U64

/-- The memory `kzalloc` returns. -/
def Entry.zeroed : Entry where
  fingerprint := 0
  payload := fun _ => 0#8
  expiryJiffies := 0
  fragmentLength := 0
  registerMask := 0
  flags := 0
  hitCount := 0
  mm := 0
  mmGeneration := 0
  pid := 0
  pidNs := 0

/-- The fields of `cpu_cache.stats`, in order. -/
inductive Counter where
  | l2Hits
  | l3Hits
  | misses
  | invalidations
  | cyclesSaved
deriving DecidableEq

/-- Offset of a counter in the `stats` struct. -/
def Counter.offset : Counter → U64
  | .l2Hits => 0
  | .l3Hits => 8
  | .misses => 16
  | .invalidations => 24
  | .cyclesSaved => 32

/-- What the operations ask of the kernel they run in. -/
structure Platform where
  cpuToNode : Nat → Nat
  numSockets : Nat
  msecsToJiffies : Nat → U64
  /-- The `caches` per-CPU pointer and the per-CPU area offset of each CPU. -/
  caches : U64
  perCpuOffset : Nat → U64
  /-- `offsetof(struct cpu_cache, stats)`, which depends on the size of a spinlock. -/
  statsOffset : U64
  numSocketsPos : 0 < numSockets
  ttlBound : (msecsToJiffies 1000).toNat ≤ maxJiffyOffset

namespace Platform

/-- Socket index: `cpu_to_node(smp_processor_id())`, or 0 when it is past the tables. -/
def socketIndex (P : Platform) (cpu : Nat) : Nat :=
  let socket := P.cpuToNode cpu
  if socket ≥ P.numSockets then 0 else socket

def thisCpuPtr (P : Platform) (cpu : Nat) : U64 := P.caches + P.perCpuOffset cpu

end Platform

/-- `time_before(a, b)`: the wrapping difference is negative as a `long`. -/
def timeBefore (a b : U64) : Bool := decide ((a - b).toInt < 0)

/-- A deadline set at `start` has not passed while fewer ticks than its delay have, as
long as the counter cannot have gone half way round. -/
theorem timeBefore_add {now start ttl : U64} (near : (now - start).toNat < 2 ^ 63)
    (bounded : ttl.toNat ≤ 2 ^ 63) :
    timeBefore now (start + ttl) = true ↔ (now - start).toNat < ttl.toNat := by
  have difference : now - (start + ttl) = (now - start) - ttl := by
    rw [BitVec.sub_sub]
  unfold timeBefore
  rw [decide_eq_true_iff, difference, BitVec.toInt_neg_iff, BitVec.toNat_sub]
  have small := ttl.isLt
  omega

/-- Kernel memory as the cache sees it. `live` lists the entries allocated and not
freed, `retired` those handed to `call_rcu`, in order; `buffers` holds the external
buffers by address and `words` the statistics words. -/
structure State where
  heap : Heap Head Node
  entry : Node → Entry
  live : List Node
  retired : List Node
  extSlots : Nat → Fin kcrExtSlots → U64
  extSlotSize : Nat → Fin kcrExtSlots → U32
  buffers : U64 → Option (List U8)
  words : U64 → U64

namespace State

/-- The caches after a successful `kcr_init`: empty buckets, empty slots. -/
def initial : State where
  heap := .empty
  entry _ := .zeroed
  live := []
  retired := []
  extSlots _ _ := 0#64
  extSlotSize _ _ := 0#32
  buffers _ := none
  words _ := 0

def setEntry (s : State) (n : Node) (e : Entry) : State :=
  { s with entry := Function.update s.entry n e }

/-- A successful `kzalloc` of an entry at address `n`: all fields, the list node
included, are zero. -/
def kzalloc (s : State) (n : Node) : State :=
  { s with
    heap := (s.heap.write (.next n) none).setPprev n .null
    entry := Function.update s.entry n .zeroed
    live := n :: s.live }

def kfree (s : State) (n : Node) : State := { s with live := s.live.erase n }

/-- `call_rcu(&entry->rcu, free_entry_rcu)`: the callback is a step of its own. -/
def callRcu (s : State) (n : Node) : State := { s with retired := s.retired ++ [n] }

/-- `this_cpu_inc(cache->stats.counter)` with `cache` already a per-CPU address: the
executing CPU's offset is added to the address of the operand. -/
def thisCpuInc (P : Platform) (cpu : Nat) (cache : U64) (counter : Counter) (s : State) : State :=
  let word := cache + P.statsOffset + counter.offset + P.perCpuOffset cpu
  { s with words := Function.update s.words word (s.words word + 1) }

end State

end Kcr
