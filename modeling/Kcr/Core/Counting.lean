import Kcr.Cache.Concurrency
import Kcr.Core.Statistics
import Kcr.Hlist.Quiet

/-!
# Statistics of concurrent calls

`show_stats` once more, after any number of threads have looked up, stored and invalidated at
once. Each lookup bumps one counter in one access, so no increment is lost, and stores and
invalidations leave hits and misses alone. What the report shows is what was answered on the CPUs
whose increments reach a structure that is read.
-/

namespace Kcr

open Hlist Program

/-! ## What is on record -/

/-- What the CPU bumps is in the structure of a possible CPU, and will be read. -/
def Platform.Recorded (P : Platform) (possible : List Nat) (cpu : Nat) : Prop :=
  ∃ shown ∈ possible, P.perCpuOffset cpu + P.perCpuOffset cpu = P.perCpuOffset shown

instance (P : Platform) (possible : List Nat) (cpu : Nat) : Decidable (P.Recorded possible cpu) :=
  inferInstanceAs (Decidable (∃ shown ∈ possible, _))

/-- The hits and the misses on record. -/
def State.onRecord (P : Platform) (possible : List Nat) (s : State) : U64 × U64 :=
  let total counter := (possible.map fun cpu => s.stat P cpu counter).sum
  (total .l2Hits + total .l3Hits, total .misses)

def Shared.onRecord (P : Platform) (possible : List Nat) (s : Shared) : U64 × U64 :=
  s.memory.onRecord P possible

/-- What a counter counts: hits and misses. -/
def Counter.counts : Counter → U64 × U64
  | .l2Hits => (1, 0)
  | .l3Hits => (1, 0)
  | .misses => (0, 1)
  | .invalidations => 0
  | .cyclesSaved => 0

/-- What an answer is counted as. -/
def Outcome.counts : Outcome → U64 × U64
  | .found (some _) => (1, 0)
  | .found none => (0, 1)
  | .stored _ => 0
  | .invalidated => 0

variable {P : Platform} {possible : List Nat} {task : Task} {fuel : Nat} {fingerprint mm : U64}

theorem Shared.onRecord_congr {s s' : Shared} (same : s'.memory.words = s.memory.words) :
    s'.onRecord P possible = s.onRecord P possible := by
  unfold Shared.onRecord State.onRecord State.stat
  rw [same]

theorem Shared.onRecord_heap (heap : Heap Head Node) (s : Shared) :
    (Shared.heap.set heap s).onRecord P possible = s.onRecord P possible :=
  Shared.onRecord_congr rfl

/-- Of the members of a list at most one is added to. -/
theorem sum_add_single {A : Type} (p : A → Prop) [DecidablePred p] {q : Prop} [Decidable q]
    {f : A → U64} {d : U64} {l : List A} (reached : q ↔ ∃ a ∈ l, p a) (nodup : l.Nodup)
    (single : ∀ a ∈ l, ∀ b ∈ l, p a → p b → a = b) :
    (l.map fun a => f a + if p a then d else 0).sum =
      (l.map f).sum + if q then d else 0 := by
  rw [List.sum_map_add, add_right_inj]
  simp only [reached]
  clear reached
  induction l with
  | nil => simp
  | cons a l ih =>
      have rest := ih nodup.of_cons fun b member k other =>
        single b (List.mem_cons_of_mem a member) k (List.mem_cons_of_mem a other)
      rw [List.map_cons, List.sum_cons, rest]
      by_cases own : p a
      · have others : ¬ ∃ b ∈ l, p b := by
          rintro ⟨b, member, met⟩
          obtain rfl := single a (by simp) b (List.mem_cons_of_mem a member) own met
          exact (List.nodup_cons.mp nodup).1 member
        rw [if_pos own, if_neg others, if_pos ⟨a, by simp, own⟩, add_zero]
      · simp [own]

/-- What one increment adds to a counter that is read. -/
theorem stat_thisCpuInc {s : State} {cpu shown : Nat} {counter counter' : Counter}
    (aligned : (P.perCpuOffset cpu).toNat % 64 = 0)
    (aligned' : (P.perCpuOffset shown).toNat % 64 = 0) :
    (s.thisCpuInc P cpu (P.thisCpuPtr cpu) counter).stat P shown counter' =
      s.stat P shown counter' +
        if P.perCpuOffset cpu + P.perCpuOffset cpu = P.perCpuOffset shown then
          if counter = counter' then 1 else 0
        else 0 := by
  have words : (s.thisCpuInc P cpu (P.thisCpuPtr cpu) counter).words =
      Function.update s.words (P.bumpedWord cpu counter)
        (s.words (P.bumpedWord cpu counter) + 1) := rfl
  have lands : P.bumpedWord cpu counter = P.counterWord shown counter' ↔
      P.perCpuOffset cpu + P.perCpuOffset cpu = P.perCpuOffset shown ∧ counter = counter' :=
    bumpedWord_eq_iff aligned aligned'
  unfold State.stat
  rw [words]
  by_cases here : P.bumpedWord cpu counter = P.counterWord shown counter'
  · obtain ⟨doubled, same⟩ := lands.mp here
    rw [here, Function.update_self, if_pos doubled, if_pos same]
  · rw [Function.update_of_ne (Ne.symm here)]
    by_cases doubled : P.perCpuOffset cpu + P.perCpuOffset cpu = P.perCpuOffset shown
    · rw [if_pos doubled, if_neg fun same => here (lands.mpr ⟨doubled, same⟩), add_zero]
    · rw [if_neg doubled, add_zero]

/-- An increment is on record, once, if it reaches a structure that is read. -/
theorem onRecord_thisCpuInc {s : State} {cpu : Nat} {counter : Counter} (apart : P.Apart possible)
    (aligned : P.Aligned possible) (nodup : possible.Nodup) (inside : cpu ∈ possible) :
    (s.thisCpuInc P cpu (P.thisCpuPtr cpu) counter).onRecord P possible =
      s.onRecord P possible + if P.Recorded possible cpu then counter.counts else 0 := by
  have total : ∀ counter', (possible.map fun shown =>
      (s.thisCpuInc P cpu (P.thisCpuPtr cpu) counter).stat P shown counter').sum =
        (possible.map fun shown => s.stat P shown counter').sum +
          if P.Recorded possible cpu then if counter = counter' then 1 else 0 else 0 := by
    intro counter'
    have single : ∀ a ∈ possible, ∀ b ∈ possible,
        P.perCpuOffset cpu + P.perCpuOffset cpu = P.perCpuOffset a →
        P.perCpuOffset cpu + P.perCpuOffset cpu = P.perCpuOffset b → a = b :=
      fun a member b member' one other => apart a member b member' (one.symm.trans other)
    have reached : P.Recorded possible cpu ↔ ∃ shown ∈ possible,
        P.perCpuOffset cpu + P.perCpuOffset cpu = P.perCpuOffset shown := Iff.rfl
    rw [← sum_add_single _ reached nodup single]
    exact congrArg List.sum (List.map_congr_left fun shown member =>
      stat_thisCpuInc (aligned cpu inside) (aligned shown member))
  unfold State.onRecord
  simp only [total]
  by_cases recorded : P.Recorded possible cpu
  · simp only [if_pos recorded]
    cases counter with
    | l2Hits => simp [Counter.counts, add_right_comm]
    | l3Hits => simp [Counter.counts, add_assoc]
    | misses => simp [Counter.counts]
    | invalidations => simp [Counter.counts]
    | cyclesSaved => simp [Counter.counts]
  · simp [recorded]

/-! ## What a call adds -/

namespace Access

variable {thread : Nat} {allocator : Allocator}

/-- A write that leaves the statistics alone. -/
theorem quiet_words {update : Shared → Shared}
    (same : ∀ s, (update s).memory.words = s.memory.words) :
    (.write update : Access Unit).Quiet (Shared.onRecord P possible) :=
  .write fun s => Shared.onRecord_congr (same s)

theorem quiet_accepts (n : Node) :
    (accepts fingerprint mm n).Quiet (Shared.onRecord P possible) := by
  refine (Quiet.read _).bind fun same => ?_
  cases same with
  | true => exact .read _
  | false => exact .pure _

theorem quiet_lookupL3 :
    (lookupL3 P task fuel fingerprint mm).Quiet (Shared.onRecord P possible) :=
  (quiet_read _).bind fun first => quiet_findEntry quiet_accepts fuel first

theorem quiet_promoteToL2 (n : Node) :
    (promoteToL2 task n fingerprint).Quiet (Shared.onRecord P possible) :=
  (Quiet.acquire _).bind fun _ => (quiet_hlistDelRcu Shared.onRecord_heap n).bind fun _ =>
    (quiet_hlistAddHeadRcu Shared.onRecord_heap n _).bind fun _ => .release _

theorem quiet_callRcu (n : Node) : (callRcu n).Quiet (Shared.onRecord P possible) :=
  quiet_words fun _ => rfl

theorem quiet_replaceIn (bucket : Head) (entry : Node) :
    (replaceIn fuel bucket entry fingerprint).Quiet (Shared.onRecord P possible) := by
  refine (Quiet.acquire _).bind fun _ => (quiet_read _).bind fun first => ?_
  refine (quiet_findEntry (fun _ => .read _) fuel first).bind fun old => ?_
  have inserts : (do
      hlistAddHeadRcu Shared.heap entry bucket
      .release (.bucket bucket) : Access Unit).Quiet (Shared.onRecord P possible) :=
    (quiet_hlistAddHeadRcu Shared.onRecord_heap entry bucket).bind fun _ => .release _
  cases old with
  | none => exact inserts
  | some old =>
      exact (quiet_hlistDelRcu Shared.onRecord_heap old).bind fun _ =>
        (quiet_callRcu old).bind fun _ => inserts

theorem quiet_insertions (entry : Node) :
    (insertions P task fuel entry fingerprint).Quiet (Shared.onRecord P possible) :=
  (quiet_replaceIn _ entry).bind fun _ => (quiet_replaceIn _ entry).bind fun _ => .pure _

theorem quiet_kzalloc : (kzalloc thread allocator).Quiet (Shared.onRecord P possible) := by
  refine .fetch (fun s => Shared.onRecord_congr ?_) _
  cases allocator.kzalloc s.memory.live with
  | none => rfl
  | some n => rfl

theorem quiet_fill (entry : Node) :
    (fill P task entry fingerprint mm).Quiet (Shared.onRecord P possible) := by
  refine .fetch (fun s => Shared.onRecord_congr ?_) _
  rfl

theorem quiet_kvmallocSlot (socket : Nat) (slot : Fin kcrExtSlots) :
    (kvmallocSlot allocator socket slot).Quiet (Shared.onRecord P possible) := by
  refine quiet_words fun s => ?_
  by_cases null : allocator.kvmalloc s.memory.buffers = 0#64
  · simp [null]
  · simp [null]

theorem quiet_fillSlot (entry : Node) (origin : Origin) (socket : Nat)
    (slots : List (Fin kcrExtSlots)) :
    (fillSlot allocator entry origin socket slots).Quiet (Shared.onRecord P possible) := by
  induction slots with
  | nil => exact .pure _
  | cons slot slots ih =>
      refine (Quiet.read _).bind fun pointer => ?_
      by_cases null : pointer = 0#64
      · rw [if_pos null]
        refine (quiet_kvmallocSlot socket slot).bind fun _ => (Quiet.read _).bind fun pointer => ?_
        by_cases failed : pointer = 0#64
        · rw [if_pos failed]
          exact .pure _
        · rw [if_neg failed]
          exact .bind (quiet_words fun _ => rfl) fun _ => .bind (quiet_words fun _ => rfl) fun _ =>
            .bind (quiet_words fun _ => rfl) fun _ => .pure _
      · rw [if_neg null]
        exact ih

theorem quiet_storeExternal (entry : Node) (origin : Origin) :
    (storeExternal P task allocator entry origin).Quiet (Shared.onRecord P possible) :=
  (Quiet.acquire _).bind fun _ => (quiet_fillSlot entry origin _ _).bind fun _ =>
    (Quiet.release _).bind fun _ => .pure _

theorem quiet_storeResult (data : Option (Nat → U8)) (len : U32) :
    (storeResult P task fuel thread allocator fingerprint data len mm).Quiet
      (Shared.onRecord P possible) := by
  unfold storeResult
  cases data with
  | none => exact .pure _
  | some data =>
      by_cases empty : len = 0#32
      · simp only [if_pos empty]
        exact .pure _
      · simp only [if_neg empty]
        refine quiet_kzalloc.bind fun entry => ?_
        cases entry with
        | none => exact .pure _
        | some entry =>
            refine (quiet_fill entry).bind fun tick => ?_
            by_cases long : len.toNat > kcrResultSizeMax
            · simp only [if_pos long]
              refine (quiet_storeExternal entry _).bind fun slot => (Quiet.read _).bind
                fun pointer => ?_
              by_cases failed : slot = none ∨ pointer = 0#64
              · simp only [if_pos failed]
                exact .bind (quiet_words fun _ => rfl) fun _ => .pure _
              · simp only [if_neg failed]
                exact quiet_insertions entry
            · simp only [if_neg long]
              exact .bind (quiet_words fun _ => rfl) fun _ => quiet_insertions entry

theorem quiet_sweepBuckets {count : Access Unit} (counts : count.Quiet (Shared.onRecord P possible))
    (buckets : List Head) :
    (sweepBuckets fuel mm count buckets).Quiet (Shared.onRecord P possible) := by
  have entries : ∀ n, (sweepEntry mm count n).Quiet (Shared.onRecord P possible) := by
    intro n
    refine (Quiet.read _).bind fun own => ?_
    cases own with
    | true =>
        exact (quiet_hlistDelRcu Shared.onRecord_heap n).bind fun _ =>
          (quiet_callRcu n).bind fun _ => counts
    | false => exact .pure _
  induction buckets with
  | nil => exact .pure _
  | cons bucket buckets ih =>
      have sweeps : (sweepBucket fuel mm count bucket).Quiet (Shared.onRecord P possible) :=
        (Quiet.acquire _).bind fun _ => (quiet_read _).bind fun first =>
          (quiet_forEachSafe entries fuel first).bind fun _ => .release _
      exact sweeps.bind fun _ => ih

theorem quiet_freeExtSlots (socket : Nat) (slots : List (Fin kcrExtSlots)) :
    (freeExtSlots socket slots).Quiet (Shared.onRecord P possible) := by
  induction slots with
  | nil => exact .pure _
  | cons slot slots ih =>
      have frees : (freeExtSlot socket slot).Quiet (Shared.onRecord P possible) := by
        refine (Quiet.read _).bind fun pointer => ?_
        by_cases null : pointer = 0#64
        · rw [if_pos null]
          exact .pure _
        · rw [if_neg null]
          exact .bind (quiet_words fun _ => rfl) fun _ => .bind (quiet_words fun _ => rfl) fun _ =>
            quiet_words fun _ => rfl
      exact frees.bind fun _ => ih

section Counts

variable (apart : P.Apart possible) (aligned : P.Aligned possible) (nodup : possible.Nodup)
  (inside : task.cpu ∈ possible)

include apart aligned nodup inside

/-- A counter of hits or misses pays for itself, any other is quiet. -/
theorem spends_thisCpuInc (counter : Counter) (spent : U64 × U64) :
    (thisCpuInc P task counter).Spends (Shared.onRecord P possible)
      (fun _ => spent + if P.Recorded possible task.cpu then counter.counts else 0) spent :=
  .write fun _ => onRecord_thisCpuInc apart aligned nodup inside

theorem quiet_invalidateRange (start stop : U64) :
    (invalidateRange P task fuel mm start stop).Quiet (Shared.onRecord P possible) := by
  have invalidations : (thisCpuInc P task .invalidations).Quiet (Shared.onRecord P possible) := by
    refine .intro fun spent => ?_
    have pays := spends_thisCpuInc apart aligned nodup inside .invalidations spent
    simpa [Counter.counts] using pays
  have counted : (sweepBuckets fuel mm (thisCpuInc P task .invalidations)
      (l2Heads task.cpu)).Quiet (Shared.onRecord P possible) := quiet_sweepBuckets invalidations _
  have uncounted : (sweepBuckets fuel mm (return ()) (l3Heads P task.cpu)).Quiet
      (Shared.onRecord P possible) := quiet_sweepBuckets (.pure ()) _
  have frees : (freeExtSlots (P.socketIndex task.cpu) (List.finRange kcrExtSlots)).Quiet
      (Shared.onRecord P possible) := quiet_freeExtSlots _ _
  unfold invalidateRange
  exact counted.bind fun _ => uncounted.bind fun _ => (Quiet.acquire _).bind fun _ =>
    frees.bind fun _ => .release _

/-- A lookup is counted once, as what it answers. -/
theorem spends_lookupUnified : (lookupUnified P task fuel fingerprint mm).Spends
    (Shared.onRecord P possible)
    (fun result => if P.Recorded possible task.cpu then (Outcome.found result).counts else 0) 0 := by
  have counts : ∀ counter, (thisCpuInc P task counter).Spends (Shared.onRecord P possible)
      (fun _ => 0 + if P.Recorded possible task.cpu then counter.counts else 0) 0 :=
    fun counter => spends_thisCpuInc apart aligned nodup inside counter 0
  have inL2 : (lookupL2 P task fuel fingerprint mm).Spends (Shared.onRecord P possible)
      (fun result => if result = none then 0
        else if P.Recorded possible task.cpu then (1, 0) else 0) 0 := by
    refine (quiet_read _).spends fun first => ?_
    refine (quiet_findEntry quiet_accepts fuel first).spends fun result => ?_
    cases result with
    | none => exact .pure (by simp)
    | some n => exact (counts .l2Hits).bind fun _ => .pure (by simp [Counter.counts])
  refine inL2.bind fun result => ?_
  cases result with
  | some n => exact .pure (by simp [Outcome.counts])
  | none =>
      refine quiet_lookupL3.spends fun result => ?_
      cases result with
      | some n =>
          refine (quiet_promoteToL2 n).spends fun _ => ?_
          exact (counts .l3Hits).bind fun _ => .pure (by simp [Counter.counts, Outcome.counts])
      | none =>
          exact (counts .misses).bind fun _ => .pure (by simp [Counter.counts, Outcome.counts])

end Counts

end Access

/-- What a call costs: a lookup on a CPU that is on record counts as what it answers. -/
def counted (P : Platform) (tasks : Nat → Task) (possible : List Nat) (t : Nat)
    (_ : Request) (outcome : Outcome) : U64 × U64 :=
  if P.Recorded possible (tasks t).cpu then outcome.counts else 0

def Outcome.hit : Outcome → Bool
  | .found (some _) => true
  | _ => false

/-- The lookups answered so far that hit, on CPUs that are on record. -/
def hits (P : Platform) (tasks : Nat → Task) (possible : List Nat)
    (events : List (ThreadEvent Nat Request Outcome)) : Nat :=
  (answers events).countP fun answer =>
    P.Recorded possible (tasks answer.1).cpu ∧ answer.2.2.hit

/-- Those that did not. -/
def misses (P : Platform) (tasks : Nat → Task) (possible : List Nat)
    (events : List (ThreadEvent Nat Request Outcome)) : Nat :=
  (answers events).countP fun answer =>
    P.Recorded possible (tasks answer.1).cpu ∧ answer.2.2 = .found none

theorem charges_counted (tasks : Nat → Task) (events : List (ThreadEvent Nat Request Outcome)) :
    Machine.charges (counted P tasks possible) events =
      (BitVec.ofNat 64 (hits P tasks possible events),
        BitVec.ofNat 64 (misses P tasks possible events)) := by
  unfold Machine.charges hits misses answers
  induction events.filterMap ThreadEvent.answer with
  | nil => rfl
  | cons answer rest ih =>
      obtain ⟨t, request, outcome⟩ := answer
      rw [List.map_cons, List.sum_cons, ih, List.map_cons, List.countP_cons, List.countP_cons,
        BitVec.ofNat_add, BitVec.ofNat_add]
      by_cases recorded : P.Recorded possible (tasks t).cpu
      · cases outcome with
        | stored status => simp [counted, recorded, Outcome.counts, Outcome.hit]
        | invalidated => simp [counted, recorded, Outcome.counts, Outcome.hit]
        | found entry =>
            cases entry with
            | none => simp [counted, recorded, Outcome.counts, Outcome.hit, add_comm]
            | some n => simp [counted, recorded, Outcome.counts, Outcome.hit, add_comm]
      · simp [counted, recorded]

/-- The report shows what is on record. -/
theorem onRecord_showStats (P : Platform) (possible : List Nat) (s : Subsystem) :
    s.state.onRecord P possible =
      ((showStats P possible s).totalL2Hits + (showStats P possible s).totalL3Hits,
        (showStats P possible s).totalMisses) := by
  have total : ∀ f : Nat → U64, possible.foldl (fun sum cpu => sum + f cpu) 0#64 =
      (possible.map f).sum := by
    intro f
    rw [List.sum_eq_foldl, List.foldl_map]
    rfl
  simp only [State.onRecord, showStats, total]

/-- The percentage, where the multiplication by 100 does not wrap. -/
theorem hitRate_showStats {s : Subsystem} {hit missed : Nat}
    (onRecord : s.state.onRecord P possible = (BitVec.ofNat 64 hit, BitVec.ofNat 64 missed))
    (fits : (hit + missed) * 100 < 2 ^ 64) :
    (showStats P possible s).hitRate = if hit + missed = 0 then none
      else some (BitVec.ofNat 32 (hit * 100 / (hit + missed))) := by
  rw [onRecord_showStats, Prod.mk.injEq] at onRecord
  obtain ⟨hitTotal, missTotal⟩ := onRecord
  have rate : (showStats P possible s).hitRate =
      if (showStats P possible s).totalL2Hits + (showStats P possible s).totalL3Hits +
        (showStats P possible s).totalMisses > 0#64 then
        some ((((showStats P possible s).totalL2Hits + (showStats P possible s).totalL3Hits) * 100 /
          ((showStats P possible s).totalL2Hits + (showStats P possible s).totalL3Hits +
            (showStats P possible s).totalMisses)).setWidth 32)
      else none := rfl
  rw [rate, hitTotal, missTotal, ← BitVec.ofNat_add]
  have sum : (BitVec.ofNat 64 (hit + missed)).toNat = hit + missed := by
    rw [BitVec.toNat_ofNat, Nat.mod_eq_of_lt (by omega)]
  by_cases empty : hit + missed = 0
  · simp [empty]
  · have product : (BitVec.ofNat 64 hit * 100).toNat = hit * 100 := by
      have small : hit % 2 ^ 64 = hit := Nat.mod_eq_of_lt (by omega)
      have hundred : (100 : U64).toNat = 100 := rfl
      rw [BitVec.toNat_mul, BitVec.toNat_ofNat, small, hundred]
      exact Nat.mod_eq_of_lt (by omega)
    have some_lookups : BitVec.ofNat 64 (hit + missed) > 0#64 := by
      rw [gt_iff_lt, BitVec.lt_def, sum]
      simpa using Nat.pos_of_ne_zero empty
    rw [if_neg empty, if_pos some_lookups]
    congr 1
    apply BitVec.eq_of_toNat_eq
    rw [BitVec.toNat_setWidth, BitVec.toNat_udiv, sum, product, BitVec.toNat_ofNat]

section Report

variable {tasks : Nat → Task} {boot : Nat} (apart : P.Apart possible) (aligned : P.Aligned possible)
  (nodup : possible.Nodup) (inside : ∀ t, (tasks t).cpu ∈ possible)

include apart aligned nodup inside

theorem accounts_interleaved : (interleaved P tasks boot).Accounts (Shared.onRecord P possible)
    (counted P tasks possible) where
  enter t request s := Shared.onRecord_congr rfl
  tick s := Shared.onRecord_congr rfl
  body t request := by
    obtain ⟨operation, allocator, fuel⟩ := request
    cases operation with
    | storeResult fingerprint data len mm =>
        exact (Access.quiet_storeResult data len).spends fun status =>
          .pure (by simp [counted, Outcome.counts])
    | lookupUnified fingerprint mm =>
        exact (Access.spends_lookupUnified apart aligned nodup (inside t)).bind fun entry => .pure rfl
    | invalidateRange mm start stop =>
        exact (Access.quiet_invalidateRange apart aligned nodup (inside t) start stop).spends
          fun _ => .pure (by simp [counted, Outcome.counts])

/-- While no call is in progress, the hits and misses on record are the answers that were given,
modulo the width of the counters. -/
theorem onRecord_of_idle {events : List (ThreadEvent Nat Request Outcome)}
    {c : Threads Nat Request Shared CacheLock Halt Outcome}
    (run : (interleaved P tasks boot).system.Run events c) (idle : ∀ t, c.activity t = none) :
    c.shared.memory.onRecord P possible =
      (BitVec.ofNat 64 (hits P tasks possible events),
        BitVec.ofNat 64 (misses P tasks possible events)) := by
  have nothing : (interleaved P tasks boot).initial.onRecord P possible = 0 := by
    simp [interleaved, Shared.onRecord, State.onRecord, State.stat, State.initial]
  have total := Machine.measure_of_idle
    (accounts_interleaved apart aligned nodup inside) run idle
  rw [nothing, zero_add, charges_counted] at total
  exact total

/-- Statistics lose nothing: while no call is in progress, `show_stats` shows the answers that
lookups got on the CPUs that are on record, and their hit rate as a percentage, rounded down. -/
theorem showStats_of_idle {events : List (ThreadEvent Nat Request Outcome)}
    {c : Threads Nat Request Shared CacheLock Halt Outcome}
    (run : (interleaved P tasks boot).system.Run events c) (idle : ∀ t, c.activity t = none)
    {s : Subsystem} (memory : s.state = c.shared.memory) :
    (showStats P possible s).totalL2Hits + (showStats P possible s).totalL3Hits =
        BitVec.ofNat 64 (hits P tasks possible events) ∧
      (showStats P possible s).totalMisses = BitVec.ofNat 64 (misses P tasks possible events) ∧
      ((hits P tasks possible events + misses P tasks possible events) * 100 < 2 ^ 64 →
        (showStats P possible s).hitRate =
          if hits P tasks possible events + misses P tasks possible events = 0 then none
          else some (BitVec.ofNat 32 (hits P tasks possible events * 100 /
            (hits P tasks possible events + misses P tasks possible events)))) := by
  have total := onRecord_of_idle apart aligned nodup inside run idle
  rw [← memory] at total
  refine ⟨?_, ?_, hitRate_showStats total⟩
  · exact (congrArg Prod.fst ((onRecord_showStats P possible s).symm.trans total))
  · exact (congrArg Prod.snd ((onRecord_showStats P possible s).symm.trans total))

end Report

/-- A store and two lookups on CPU 0, one of the stored key and one of another. -/
def halfHits : List Event :=
  [⟨.on 0 0, .storeByte 5 1 10, .stored 0⟩, ⟨.on 0 9, .lookupUnified 5 1, .found (some 10)⟩,
    ⟨.on 0 9, .lookupUnified 6 1, .found none⟩]

theorem showStats_of_idle_halfHits : ∃ events c,
    (interleaved .oneNode (fun _ => Task.onCpu 0) 0).system.Run events c ∧
    ((showStats .oneNode [0, 1] { Subsystem.loaded with state := c.shared.memory }).totalL2Hits +
        (showStats .oneNode [0, 1] { Subsystem.loaded with state := c.shared.memory }).totalL3Hits =
        1#64) ∧
    (showStats .oneNode [0, 1] { Subsystem.loaded with state := c.shared.memory }).totalMisses =
      1#64 ∧
    (showStats .oneNode [0, 1] { Subsystem.loaded with state := c.shared.memory }).hitRate =
      some 50#32 := by
  let tasks : Nat → Task := fun _ => Task.onCpu 0
  have apart : Platform.oneNode.Apart [0, 1] := by
    unfold Platform.Apart
    decide
  have aligned : Platform.oneNode.Aligned [0, 1] := by
    unfold Platform.Aligned
    decide
  obtain ⟨s, alone, _⟩ := run_of_replay .oneNode 9 halfHits (by decide +kernel)
  have assigned : Assigned tasks halfHits := by
    intro i event member
    have among := List.mem_of_getElem? member
    simp only [halfHits, List.mem_cons, List.not_mem_nil, or_false] at among
    obtain rfl | rfl | rfl := among <;> rfl
  obtain ⟨events, c, run, _, idle, _, shown⟩ := interleaves 0 alone assigned
  have hit : hits .oneNode tasks [0, 1] events = 1 := by
    rw [hits, answers_eq, shown]
    decide +kernel
  have missed : misses .oneNode tasks [0, 1] events = 1 := by
    rw [misses, answers_eq, shown]
    decide +kernel
  obtain ⟨hitTotal, missTotal, rate⟩ := showStats_of_idle apart aligned (by decide)
    (fun t => by decide) run idle (s := { Subsystem.loaded with state := c.shared.memory }) rfl
  rw [hit] at hitTotal
  rw [missed] at missTotal
  rw [hit, missed] at rate
  exact ⟨events, c, run, hitTotal, missTotal, rate (by decide)⟩

end Kcr
