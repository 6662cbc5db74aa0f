import Kcr.Cache.State

/-!
# The cache operations

`kcr_cache.c`, function by function. A function that walks a chain takes fuel and
returns `Except`: a walk over a cyclic chain runs out of fuel whatever the fuel,
and a removal through a poisoned `pprev` faults. Locks and the RCU read side do
not appear, since each call runs to its end before the next one starts.
-/

namespace Kcr

open Hlist

/-- Who executes a call: CPU, the value of `jiffies`, and the current task. -/
structure Caller where
  cpu : Nat
  jiffies : U64
  pid : U32
  pidNs : U64

/-- The acceptance test of the lookup loops: key, memory space and time to live. -/
def State.accepts (s : State) (fingerprint mm jiffies : U64) (n : Node) : Bool :=
  (s.entry n).fingerprint == fingerprint && (s.entry n).mm == mm &&
    timeBefore jiffies (s.entry n).expiryJiffies

/-- The test of the store loops, which does not look at the time. -/
def State.sameKey (s : State) (fingerprint mm : U64) (n : Node) : Bool :=
  (s.entry n).fingerprint == fingerprint && (s.entry n).mm == mm

/-- The head of the L2 bucket a CPU uses for a fingerprint. -/
def l2Head (cpu : Nat) (fingerprint : U64) : Head := .l2 cpu (l2Bucket fingerprint)

/-- The head of the L3 bucket a CPU uses for a fingerprint. -/
def l3Head (P : Platform) (cpu : Nat) (fingerprint : U64) : Head :=
  .l3 (P.socketIndex cpu) (l3Bucket fingerprint)

section Lookup

variable (P : Platform) (fuel : Nat) (who : Caller)

def lookupL2 (cache : U64) (fingerprint mm : U64) (s : State) :
    Except Halt (Option Node × State) := do
  let entry ← s.heap.findEntry (s.accepts fingerprint mm who.jiffies) fuel
    (s.heap.first (l2Head who.cpu fingerprint))
  match entry with
  | some entry => return (some entry, s.thisCpuInc P who.cpu cache .l2Hits)
  | none => return (none, s)

def lookupL3 (fingerprint mm : U64) (s : State) : Except Halt (Option Node) :=
  s.heap.findEntry (s.accepts fingerprint mm who.jiffies) fuel
    (s.heap.first (l3Head P who.cpu fingerprint))

def promoteToL2 (entry : Node) (fingerprint : U64) (s : State) : Except Halt State := do
  let heap ← s.heap.hlistDelRcu entry
  return { s with heap := heap.hlistAddHeadRcu entry (l2Head who.cpu fingerprint) }

def lookupUnified (fingerprint mm : U64) (s : State) : Except Halt (Option Node × State) := do
  let cache := P.thisCpuPtr who.cpu
  let (entry, s) ← lookupL2 P fuel who cache fingerprint mm s
  match entry with
  | some entry => return (some entry, s)
  | none =>
      let entry ← lookupL3 P fuel who fingerprint mm s
      match entry with
      | some entry =>
          let s ← promoteToL2 who entry fingerprint s
          return (some entry, s.thisCpuInc P who.cpu cache .l3Hits)
      | none => return (none, s.thisCpuInc P who.cpu cache .misses)

end Lookup

section Store

variable (P : Platform) (fuel : Nat) (who : Caller)

/-- The common body of `store_in_l2` and `store_in_l3`: unlink and retire the first
entry with the same key in the bucket, then insert the new entry at its head. -/
def replaceIn (bucket : Head) (entry : Node) (fingerprint : U64) (s : State) :
    Except Halt State := do
  let old ← s.heap.findEntry (s.sameKey fingerprint (s.entry entry).mm) fuel
    (s.heap.first bucket)
  let s ← match old with
    | some old => do
        let heap ← s.heap.hlistDelRcu old
        pure ({ s with heap := heap }.callRcu old)
    | none => pure s
  return { s with heap := s.heap.hlistAddHeadRcu entry bucket }

def storeInL2 (entry : Node) (fingerprint : U64) (s : State) : Except Halt State :=
  replaceIn fuel (l2Head who.cpu fingerprint) entry fingerprint s

def storeInL3 (entry : Node) (fingerprint : U64) (s : State) : Except Halt State :=
  replaceIn fuel (l3Head P who.cpu fingerprint) entry fingerprint s

/-- The fields `store_result` sets before it looks at the length. -/
def initEntry (fingerprint mm : U64) (zeroed : Entry) : Entry :=
  { zeroed with
    fingerprint := fingerprint
    expiryJiffies := who.jiffies + P.msecsToJiffies 1000
    fragmentLength := 0
    registerMask := kcrMaskRax
    flags := kcrFlagValid
    hitCount := 0
    mm := mm
    mmGeneration := mm
    pid := who.pid
    pidNs := who.pidNs }

/-- First-fit search of the slot loop: the first slot that holds `NULL`. -/
def State.freeExtSlot (s : State) (socket : Nat) : Option (Fin kcrExtSlots) :=
  (List.finRange kcrExtSlots).find? fun slot => s.extSlots socket slot == 0#64

/-- The large-data branch up to the failure test. The allocator's result goes into
the slot before it is tested; `none` is a search that ran past the last slot. -/
def storeExternal (entry : Node) (data : Nat → U8) (len : U32) (kvmalloc : U64) (s : State) :
    Option (Fin kcrExtSlots) × State :=
  let socket := P.socketIndex who.cpu
  match s.freeExtSlot socket with
  | none => (none, s)
  | some slot =>
      let s := { s with
        extSlots := Function.update s.extSlots socket
          (Function.update (s.extSlots socket) slot kvmalloc) }
      if kvmalloc = 0#64 then (some slot, s)
      else
        let e := s.entry entry
        (some slot, { s with
          buffers := Function.update s.buffers kvmalloc
            (some ((List.range len.toNat).map data))
          extSlotSize := Function.update s.extSlotSize socket
            (Function.update (s.extSlotSize socket) slot len)
          entry := Function.update s.entry entry
            { e with payload := (e.payload.setExtData kvmalloc).setExtSize len } })

/-- The inline branch: copy the data, then clear the external members. -/
def storeInline (data : Nat → U8) (len : U32) (e : Entry) : Entry :=
  { e with
    payload := ((e.payload.memcpyResult data len.toNat).setExtData 0#64).setExtSize 0#32 }

/-- `store_result`. `data` is what the pointer leads to, `none` for `NULL`; `kzalloc`
and `kvmalloc` are the allocators' answers. -/
def storeResult (fingerprint : U64) (data : Option (Nat → U8)) (len : U32) (mm : U64)
    (kzalloc : Option Node) (kvmalloc : U64) (s : State) : Except Halt (Int × State) :=
  match data with
  | none => return (-einval, s)
  | some data =>
      if len = 0#32 then return (-einval, s)
      else match kzalloc with
        | none => return (-enomem, s)
        | some entry => do
            let s := s.kzalloc entry
            let s := s.setEntry entry (initEntry P who fingerprint mm (s.entry entry))
            if len.toNat > kcrResultSizeMax then
              let (slot, s) := storeExternal P who entry data len kvmalloc s
              if slot = none ∨ (s.entry entry).payload.extData = 0#64 then
                return (-enomem, s.kfree entry)
              else
                let s ← storeInL2 fuel who entry fingerprint s
                let s ← storeInL3 P fuel who entry fingerprint s
                return (0, s)
            else
              let s := s.setEntry entry (storeInline data len (s.entry entry))
              let s ← storeInL2 fuel who entry fingerprint s
              let s ← storeInL3 P fuel who entry fingerprint s
              return (0, s)

/-- `store_result` up to its two insertions: the status it returns early, or the entry
to insert. -/
def prepareResult (fingerprint : U64) (data : Option (Nat → U8)) (len : U32) (mm : U64)
    (kzalloc : Option Node) (kvmalloc : U64) (s : State) : Except Int Node × State :=
  match data with
  | none => (.error (-einval), s)
  | some data =>
      if len = 0#32 then (.error (-einval), s)
      else match kzalloc with
        | none => (.error (-enomem), s)
        | some entry =>
            let s := s.kzalloc entry
            let s := s.setEntry entry (initEntry P who fingerprint mm (s.entry entry))
            if len.toNat > kcrResultSizeMax then
              let (slot, s) := storeExternal P who entry data len kvmalloc s
              if slot = none ∨ (s.entry entry).payload.extData = 0#64 then
                (.error (-enomem), s.kfree entry)
              else (.ok entry, s)
            else (.ok entry, s.setEntry entry (storeInline data len (s.entry entry)))

/-- The two insertions at the end of `store_result`. -/
def insertions (entry : Node) (fingerprint : U64) (s : State) : Except Halt (Int × State) := do
  let s ← storeInL2 fuel who entry fingerprint s
  let s ← storeInL3 P fuel who entry fingerprint s
  return (0, s)

/-- A store is its preparation and the insertions. -/
theorem storeResult_eq (fingerprint : U64) (data : Option (Nat → U8)) (len : U32) (mm : U64)
    (kzalloc : Option Node) (kvmalloc : U64) (s : State) :
    storeResult P fuel who fingerprint data len mm kzalloc kvmalloc s =
      match prepareResult P who fingerprint data len mm kzalloc kvmalloc s with
      | (.error status, s) => .ok (status, s)
      | (.ok entry, s) => insertions P fuel who entry fingerprint s := by
  unfold storeResult prepareResult insertions
  cases data with
  | none => rfl
  | some bytes =>
      by_cases empty : len = 0#32
      · simp only [if_pos empty]
        rfl
      · cases kzalloc with
        | none =>
            simp only [if_neg empty]
            rfl
        | some entry =>
            simp only [if_neg empty]
            split
            · split <;> rfl
            · rfl

end Store

section Invalidate

variable (P : Platform) (fuel : Nat) (who : Caller)

/-- Body of the sweep loops; `count` is the statistics update of the L2 loop. -/
def sweepEntry (mm : U64) (count : State → State) (entry : Node) (s : State) :
    Except Halt State :=
  if (s.entry entry).mm = mm then do
    let heap ← s.heap.hlistDelRcu entry
    return count ({ s with heap := heap }.callRcu entry)
  else return s

/-- One bucket of the sweep. -/
def sweepBucket (mm : U64) (count : State → State) (bucket : Head) (s : State) :
    Except Halt State :=
  Heap.forEachSafe (fun s entry => s.heap.next entry) (sweepEntry mm count) fuel
    (s.heap.first bucket) s

def sweepBuckets (mm : U64) (count : State → State) : List Head → State → Except Halt State
  | [], s => .ok s
  | bucket :: buckets, s => do
      let s ← sweepBucket fuel mm count bucket s
      sweepBuckets mm count buckets s

/-- The heads of the L2 loop of `invalidate_range`. -/
def l2Heads (cpu : Nat) : List Head := (List.finRange kcrL2Entries).map (.l2 cpu)

/-- The heads of its L3 loop. -/
def l3Heads (cpu : Nat) : List Head := (List.finRange kcrL3Entries).map (.l3 (P.socketIndex cpu))

/-- One iteration of the slot loop: free whatever the slot holds. -/
def freeExtSlot (socket : Nat) (slot : Fin kcrExtSlots) (s : State) : State :=
  if s.extSlots socket slot = 0#64 then s
  else { s with
    buffers := Function.update s.buffers (s.extSlots socket slot) none
    extSlots := Function.update s.extSlots socket
      (Function.update (s.extSlots socket) slot 0#64)
    extSlotSize := Function.update s.extSlotSize socket
      (Function.update (s.extSlotSize socket) slot 0#32) }

/-- `invalidate_range`; the range itself is only logged. -/
def invalidateRange (mm _start _stop : U64) (s : State) : Except Halt State := do
  let cache := P.thisCpuPtr who.cpu
  let s ← sweepBuckets fuel mm (State.thisCpuInc P who.cpu cache .invalidations)
    (l2Heads who.cpu) s
  let s ← sweepBuckets fuel mm id (l3Heads P who.cpu) s
  return (List.finRange kcrExtSlots).foldl (fun s slot => freeExtSlot (P.socketIndex who.cpu) slot s) s

end Invalidate

end Kcr
