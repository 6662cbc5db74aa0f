import Kcr.Core.Shutdown
import Kcr.Semantics.Recurrence
import Mathlib.Algebra.BigOperators.Group.List.Basic
import Mathlib.Data.BitVec

/-!
# Statistics

`show_stats` of `kcr_debugfs.c` and the counters it reads. A lookup bumps one counter of its
CPU through a pointer that is a per-CPU address already, so the CPU's offset is added twice,
and the increment reaches the structure that is read only where the offset is zero.
-/

namespace Kcr

open Hlist

namespace Platform

/-- `per_cpu_ptr(caches, cpu)`. -/
def perCpuPtr (P : Platform) (cpu : Nat) : U64 := P.caches + P.perCpuOffset cpu

/-- The address of a counter in the structure of a CPU. -/
def counterWord (P : Platform) (cpu : Nat) (counter : Counter) : U64 :=
  P.perCpuPtr cpu + P.statsOffset + counter.offset

/-- The address `this_cpu_inc(cache->stats.counter)` adds one at. -/
def bumpedWord (P : Platform) (cpu : Nat) (counter : Counter) : U64 :=
  P.thisCpuPtr cpu + P.statsOffset + counter.offset + P.perCpuOffset cpu

/-- Possible CPUs have different offsets. -/
def Apart (P : Platform) (possible : List Nat) : Prop :=
  ∀ cpu ∈ possible, ∀ other ∈ possible, P.perCpuOffset cpu = P.perCpuOffset other → cpu = other

/-- The allocator aligns each CPU's copy of `struct cpu_cache` as the type asks. -/
def Aligned (P : Platform) (possible : List Nat) : Prop :=
  ∀ cpu ∈ possible, (P.perCpuOffset cpu).toNat % 64 = 0

end Platform

/-- `cache->stats.counter` with `cache = per_cpu_ptr(caches, cpu)`. -/
def State.stat (P : Platform) (cpu : Nat) (counter : Counter) (s : State) : U64 :=
  s.words (P.counterWord cpu counter)

/-- One line of the per-CPU breakdown. -/
structure CpuLine where
  cpu : Nat
  l2 : U64
  l3 : U64
  miss : U64
  inv : U64

/-- The values `show_stats` prints, in order; the hit rate only after some lookup. -/
structure StatsReport where
  enabled : Bool
  sharedRegion : Bool
  sockets : Nat
  totalL2Hits : U64
  totalL3Hits : U64
  totalMisses : U64
  totalInvalidations : U64
  totalCyclesSaved : U64
  hitRate : Option U32
  perCpu : List CpuLine

/-- `show_stats`, over the possible CPUs. -/
def showStats (P : Platform) (possible : List Nat) (s : Subsystem) : StatsReport :=
  let total counter := possible.foldl (fun sum cpu => sum + s.state.stat P cpu counter) 0#64
  let totalL2Hits := total .l2Hits
  let totalL3Hits := total .l3Hits
  let totalMisses := total .misses
  { enabled := s.kcrEnable
    sharedRegion := s.kcrRegion ≠ 0#64
    sockets := P.numSockets
    totalL2Hits := totalL2Hits
    totalL3Hits := totalL3Hits
    totalMisses := totalMisses
    totalInvalidations := total .invalidations
    totalCyclesSaved := total .cyclesSaved
    hitRate :=
      if totalL2Hits + totalL3Hits + totalMisses > 0#64 then
        let sum := totalL2Hits + totalL3Hits + totalMisses
        some (((totalL2Hits + totalL3Hits) * 100 / sum).setWidth 32)
      else none
    perCpu := possible.map fun cpu =>
      { cpu := cpu
        l2 := s.state.stat P cpu .l2Hits
        l3 := s.state.stat P cpu .l3Hits
        miss := s.state.stat P cpu .misses
        inv := s.state.stat P cpu .invalidations } }

/-- The lookups a CPU has on record. -/
def State.recorded (P : Platform) (cpu : Nat) (s : State) : U64 :=
  s.stat P cpu .l2Hits + s.stat P cpu .l3Hits + s.stat P cpu .misses

def Event.LooksUp (event : Event) : Prop := ∃ fingerprint mm, event.call = .lookupUnified fingerprint mm

/-- The counting of some lookups is exact: each CPU has as many more on record as it executed,
as many more misses as returned nothing, and no other word has changed. -/
structure CountsExactly (P : Platform) (possible : List Nat) (events : List Event)
    (s s' : State) : Prop where
  lookups : ∀ cpu ∈ possible, s'.recorded P cpu =
    s.recorded P cpu + BitVec.ofNat 64 (events.countP fun event => event.who.cpu = cpu)
  misses : ∀ cpu ∈ possible, s'.stat P cpu .misses = s.stat P cpu .misses +
    BitVec.ofNat 64 (events.countP fun event =>
      event.who.cpu = cpu ∧ event.outcome = .found none)
  others : ∀ a, (∀ cpu ∈ possible, ∀ counter, a ≠ P.counterWord cpu counter) →
    s'.words a = s.words a

/-- From every reachable state, whatever the offsets. -/
def StatsExact : Prop :=
  ∀ (P : Platform) (possible : List Nat), P.Apart possible → ∀ ⦃earlier events s s'⦄,
    (cache P).Run earlier s → (cache P).Steps s events s' →
    (∀ event ∈ events, event.LooksUp ∧ event.who.cpu ∈ possible) →
    CountsExactly P possible events s s'

/-! ## What the lookups bump -/

section Bumps

variable {P : Platform} {possible : List Nat}

/-- A lookup with the counter it bumped: a miss is counted as one, a hit is not. -/
structure Bump where
  event : Event
  counter : Counter
  counted : counter = .l2Hits ∨ counter = .l3Hits ∨ counter = .misses
  missed : counter = .misses ↔ event.outcome = .found none

def Bump.word (P : Platform) (bump : Bump) : U64 := P.bumpedWord bump.event.who.cpu bump.counter

theorem LookupReturns.bumps {who : Caller} {fingerprint mm : U64} {s s' : State}
    {result : Option Node} (returns : LookupReturns P who fingerprint mm s result s') :
    ∃ bump : Bump, bump.event = ⟨who, .lookupUnified fingerprint mm, .found result⟩ ∧
      ∀ a, s'.words a = s.words a + if bump.word P = a then 1 else 0 := by
  have bumped : ∀ {s : State} {counter a},
      (s.thisCpuInc P who.cpu (P.thisCpuPtr who.cpu) counter).words a =
        s.words a + if P.bumpedWord who.cpu counter = a then 1 else 0 := by
    intro s counter a
    by_cases here : P.bumpedWord who.cpu counter = a
    · subst here
      simp [State.thisCpuInc, Platform.bumpedWord]
    · have other : a ≠ P.bumpedWord who.cpu counter := fun same => here same.symm
      rw [if_neg here]
      exact (Function.update_of_ne other _ _).trans (BitVec.add_zero _).symm
  cases returns with
  | l2Hit => exact ⟨⟨_, .l2Hits, by simp, by simp⟩, rfl, fun a => bumped⟩
  | l3Hit => exact ⟨⟨_, .l3Hits, by simp, by simp⟩, rfl, fun a => bumped⟩
  | miss => exact ⟨⟨_, .misses, by simp, by simp⟩, rfl, fun a => bumped⟩

/-- A sequence of lookups adds to each word the number of those that bumped it. -/
theorem bumps_of_steps {events : List Event} {s s' : State}
    (steps : (cache P).Steps s events s') (lookups : ∀ event ∈ events, event.LooksUp) :
    ∃ bumps : List Bump, bumps.map Bump.event = events ∧ ∀ a, s'.words a =
      s.words a + BitVec.ofNat 64 (bumps.countP fun bump => bump.word P = a) := by
  apply TransitionSystem.Steps.invariant_events (fun events (s' : State) =>
    (∀ event ∈ events, event.LooksUp) → ∃ bumps : List Bump, bumps.map Bump.event = events ∧
      ∀ a, s'.words a =
        s.words a + BitVec.ofNat 64 (bumps.countP fun bump => bump.word P = a)) _ _ steps lookups
  · exact fun _ => ⟨[], rfl, by simp⟩
  · intro events current event next ih transition lookups
    obtain ⟨bumps, same, words⟩ := ih fun e member => lookups e (by simp [member])
    obtain ⟨fingerprint, mm, call⟩ := lookups event (by simp)
    cases cacheStep_iff.mp transition with
    | store | invalidate => cases call
    | lookup returns =>
        obtain ⟨bump, own, bumped⟩ := returns.bumps
        refine ⟨bumps ++ [bump], by simp [same, own], fun a => ?_⟩
        rw [bumped a, words a, List.countP_append, BitVec.ofNat_add, BitVec.add_assoc]
        congr 2
        by_cases here : bump.word P = a <;> simp [here]

theorem Counter.offset_lt (counter : Counter) : counter.offset.toNat < 64 := by
  cases counter <;> decide

theorem Counter.offset_injective : Function.Injective Counter.offset := by
  intro counter counter' same
  cases counter <;> cases counter' <;> first | rfl | exact absurd same (by decide)

/-- An aligned address and an offset below the alignment determine each other. -/
theorem aligned_add_inj {base base' offset offset' : U64} (aligned : base.toNat % 64 = 0)
    (aligned' : base'.toNat % 64 = 0) (small : offset.toNat < 64) (small' : offset'.toNat < 64) :
    base + offset = base' + offset' ↔ base = base' ∧ offset = offset' := by
  constructor
  · intro same
    have sum := congrArg BitVec.toNat same
    rw [BitVec.toNat_add_of_lt (by omega), BitVec.toNat_add_of_lt (by omega)] at sum
    constructor
    · apply BitVec.eq_of_toNat_eq
      omega
    · apply BitVec.eq_of_toNat_eq
      omega
  · rintro ⟨rfl, rfl⟩
    rfl

/-- In aligned structures an increment lands on the counter it was meant for, in the structure
whose offset is twice the CPU's. -/
theorem bumpedWord_eq_iff {cpu other : Nat} {counter counter' : Counter}
    (aligned : (P.perCpuOffset cpu).toNat % 64 = 0)
    (aligned' : (P.perCpuOffset other).toNat % 64 = 0) :
    P.bumpedWord cpu counter = P.counterWord other counter' ↔
      P.perCpuOffset cpu + P.perCpuOffset cpu = P.perCpuOffset other ∧ counter = counter' := by
  have doubled : (P.perCpuOffset cpu + P.perCpuOffset cpu).toNat % 64 = 0 := by
    rw [BitVec.toNat_add]
    omega
  have bumped : P.bumpedWord cpu counter = P.caches + P.statsOffset +
      (P.perCpuOffset cpu + P.perCpuOffset cpu + counter.offset) := by
    unfold Platform.bumpedWord Platform.thisCpuPtr
    ac_rfl
  have read : P.counterWord other counter' = P.caches + P.statsOffset +
      (P.perCpuOffset other + counter'.offset) := by
    unfold Platform.counterWord Platform.perCpuPtr
    ac_rfl
  rw [bumped, read, BitVec.add_right_inj,
    aligned_add_inj doubled aligned' counter.offset_lt counter'.offset_lt,
    Counter.offset_injective.eq_iff]

/-- Every lookup is counted by one of the three counters. -/
theorem countP_counters (p : Event → Prop) [DecidablePred p] (bumps : List Bump) :
    (bumps.countP fun bump => p bump.event ∧ bump.counter = .l2Hits) +
      (bumps.countP fun bump => p bump.event ∧ bump.counter = .l3Hits) +
      (bumps.countP fun bump => p bump.event ∧ bump.counter = .misses) =
    (bumps.map Bump.event).countP fun event => p event := by
  induction bumps with
  | nil => rfl
  | cons bump bumps ih =>
      have single : (if decide (p bump.event ∧ bump.counter = .l2Hits) = true then 1 else 0) +
          (if decide (p bump.event ∧ bump.counter = .l3Hits) = true then 1 else 0) +
          (if decide (p bump.event ∧ bump.counter = .misses) = true then 1 else 0) =
          if decide (p bump.event) = true then 1 else 0 := by
        obtain l2 | l3 | miss := bump.counted
        · simp [l2]
        · simp [l3]
        · simp [miss]
      rw [List.map_cons, List.countP_cons, List.countP_cons, List.countP_cons, List.countP_cons,
        ← ih, ← single]
      omega

/-- What lookups add to the structure of a CPU: the lookups of the CPUs with half its offset. -/
theorem counted_of_steps {events : List Event} {s s' : State}
    (steps : (cache P).Steps s events s') (aligned : P.Aligned possible)
    (lookups : ∀ event ∈ events, event.LooksUp ∧ event.who.cpu ∈ possible) {cpu : Nat}
    (member : cpu ∈ possible) :
    s'.recorded P cpu = s.recorded P cpu + BitVec.ofNat 64 (events.countP fun event =>
      P.perCpuOffset event.who.cpu + P.perCpuOffset event.who.cpu = P.perCpuOffset cpu) ∧
    s'.stat P cpu .misses = s.stat P cpu .misses + BitVec.ofNat 64 (events.countP fun event =>
      P.perCpuOffset event.who.cpu + P.perCpuOffset event.who.cpu = P.perCpuOffset cpu ∧
        event.outcome = .found none) := by
  obtain ⟨bumps, rfl, words⟩ := bumps_of_steps steps fun event among => (lookups event among).1
  let doubled (event : Event) : Prop :=
    P.perCpuOffset event.who.cpu + P.perCpuOffset event.who.cpu = P.perCpuOffset cpu
  have stat : ∀ counter, s'.stat P cpu counter = s.stat P cpu counter +
      BitVec.ofNat 64 (bumps.countP fun bump => doubled bump.event ∧ bump.counter = counter) := by
    intro counter
    unfold State.stat
    rw [words]
    congr 2
    apply List.countP_congr
    intro bump among
    have inside := (lookups bump.event (List.mem_map_of_mem among)).2
    rw [decide_eq_true_iff, decide_eq_true_iff]
    exact bumpedWord_eq_iff (aligned _ inside) (aligned cpu member)
  constructor
  · rw [← countP_counters doubled, BitVec.ofNat_add, BitVec.ofNat_add]
    unfold State.recorded
    rw [stat, stat, stat]
    ac_rfl
  · rw [stat]
    congr 2
    rw [List.countP_map]
    apply List.countP_congr
    intro bump _
    simp [doubled, bump.missed]

/-- Lookups leave the words that none of them bumps. -/
theorem words_of_steps {events : List Event} {s s' : State}
    (steps : (cache P).Steps s events s') (lookups : ∀ event ∈ events, event.LooksUp) {a : U64}
    (apart : ∀ event ∈ events, ∀ counter, P.bumpedWord event.who.cpu counter ≠ a) :
    s'.words a = s.words a := by
  obtain ⟨bumps, rfl, words⟩ := bumps_of_steps steps lookups
  have none : (bumps.countP fun bump => bump.word P = a) = 0 := by
    apply List.countP_eq_zero.mpr
    intro bump among
    rw [decide_eq_true_iff]
    exact apart bump.event (List.mem_map_of_mem among) bump.counter
  rw [words, none]
  exact BitVec.add_zero _

end Bumps

/-! ## Offsets that doubling keeps -/

/-- Doubling a word 64 times leaves nothing of it. -/
theorem iterate_double (v : U64) : (fun v : U64 => v + v)^[64] v = 0 := by
  have power : ∀ n, ((fun v : U64 => v + v)^[n] v).toNat = v.toNat * 2 ^ n % 2 ^ 64 := by
    intro n
    induction n with
    | zero =>
        rw [pow_zero, Nat.mul_one]
        exact (Nat.mod_eq_of_lt v.isLt).symm
    | succ n ih =>
        have next : v.toNat * 2 ^ (n + 1) = v.toNat * 2 ^ n * 2 := by rw [Nat.pow_succ, Nat.mul_assoc]
        rw [Function.iterate_succ_apply', BitVec.toNat_add, ih, next]
        omega
  apply BitVec.eq_of_toNat_eq
  rw [power, Nat.mul_mod_left]
  rfl

section Exact

variable {P : Platform} {possible : List Nat} {events : List Event} {s s' : State}

/-- Without offset the doubled offset is a CPU's own. -/
theorem countsExactly_of_zero (apart : P.Apart possible) (aligned : P.Aligned possible)
    (steps : (cache P).Steps s events s')
    (lookups : ∀ event ∈ events, event.LooksUp ∧ event.who.cpu ∈ possible)
    (zero : ∀ event ∈ events, P.perCpuOffset event.who.cpu = 0#64) :
    CountsExactly P possible events s s' := by
  have own : ∀ cpu ∈ possible, ∀ event ∈ events,
      (P.perCpuOffset event.who.cpu + P.perCpuOffset event.who.cpu = P.perCpuOffset cpu ↔
        event.who.cpu = cpu) := by
    intro cpu member event among
    have none := zero event among
    constructor
    · intro same
      apply apart _ (lookups event among).2 _ member
      rw [none, BitVec.add_zero] at same
      exact none.trans same
    · rintro rfl
      rw [none, BitVec.add_zero]
  constructor
  · intro cpu member
    rw [(counted_of_steps steps aligned lookups member).1]
    congr 2
    apply List.countP_congr
    intro event among
    simp [own cpu member event among]
  · intro cpu member
    rw [(counted_of_steps steps aligned lookups member).2]
    congr 2
    apply List.countP_congr
    intro event among
    simp [own cpu member event among]
  · intro a outside
    apply words_of_steps steps fun event among => (lookups event among).1
    intro event among counter bumped
    apply outside _ (lookups event among).2 counter
    have inside := (lookups event among).2
    rw [← bumped, (bumpedWord_eq_iff (aligned _ inside) (aligned _ inside)).mpr ⟨?_, rfl⟩]
    rw [zero event among, BitVec.add_zero]

/-- If every CPU has its lookups on record, doubling permutes the offsets of the CPUs that
executed them, so these are zero. -/
theorem CountsExactly.zero (exact : CountsExactly P possible events s s')
    (apart : P.Apart possible) (aligned : P.Aligned possible)
    (steps : (cache P).Steps s events s')
    (lookups : ∀ event ∈ events, event.LooksUp ∧ event.who.cpu ∈ possible)
    (bounded : events.length < 2 ^ 64) :
    ∀ event ∈ events, P.perCpuOffset event.who.cpu = 0#64 := by
  let offsets := events.map fun event => P.perCpuOffset event.who.cpu
  have permutes : (offsets.map fun v => v + v).Perm offsets := by
    apply perm_map_of_count
    intro a member
    obtain ⟨event, among, rfl⟩ := List.mem_map.mp member
    have inside := (lookups event among).2
    have recorded := (counted_of_steps steps aligned lookups inside).1
    rw [exact.lookups _ inside, BitVec.add_right_inj] at recorded
    have small : ∀ p : Event → Bool, events.countP p < 2 ^ 64 := fun p =>
      Nat.lt_of_le_of_lt List.countP_le_length bounded
    have counts := congrArg BitVec.toNat recorded
    rw [BitVec.toNat_ofNat, BitVec.toNat_ofNat, Nat.mod_eq_of_lt (small _),
      Nat.mod_eq_of_lt (small _)] at counts
    have image : (offsets.map fun v => v + v).count (P.perCpuOffset event.who.cpu) =
        events.countP fun other =>
          P.perCpuOffset other.who.cpu + P.perCpuOffset other.who.cpu =
            P.perCpuOffset event.who.cpu := by
      rw [List.count, List.countP_map, List.countP_map]
      rfl
    have before : offsets.count (P.perCpuOffset event.who.cpu) =
        events.countP fun other => other.who.cpu = event.who.cpu := by
      rw [List.count, List.countP_map]
      apply List.countP_congr
      intro other amongst
      have same : P.perCpuOffset other.who.cpu = P.perCpuOffset event.who.cpu ↔
          other.who.cpu = event.who.cpu :=
        ⟨apart _ (lookups other amongst).2 _ inside, fun same => by rw [same]⟩
      simpa using same
    rw [image, before, counts]
  intro event among
  exact eq_of_perm_map permutes iterate_double _ (List.mem_map_of_mem among)

/-- Each event is counted for one of the possible CPUs. -/
theorem sum_countP (nodup : possible.Nodup)
    (inside : ∀ event ∈ events, event.who.cpu ∈ possible) :
    (possible.map fun cpu => events.countP fun event => event.who.cpu = cpu).sum =
      events.length := by
  have occurrences : ∀ (cpu : Nat) (cpus : List Nat),
      (cpus.map fun other => if cpu = other then 1 else 0).sum = cpus.count cpu := by
    intro cpu cpus
    induction cpus with
    | nil => rfl
    | cons other cpus ih =>
        rw [List.map_cons, List.sum_cons, ih, List.count_cons, Nat.add_comm]
        by_cases same : cpu = other
        · simp [same]
        · simp [same, Ne.symm same]
  induction events with
  | nil => simp
  | cons event events ih =>
      have one := List.count_eq_one_of_mem nodup (inside event (by simp))
      have rest := ih fun e member => inside e (List.mem_cons_of_mem _ member)
      simp only [List.countP_cons, decide_eq_true_eq, List.sum_map_add, List.length_cons]
      rw [rest, occurrences, one]

/-- The lookups `show_stats` shows, over all possible CPUs. -/
def StatsReport.lookups (report : StatsReport) : U64 :=
  report.totalL2Hits + report.totalL3Hits + report.totalMisses

/-- They are those on record for the possible CPUs. -/
theorem lookups_showStats (P : Platform) (possible : List Nat) (s : Subsystem) :
    (showStats P possible s).lookups =
      (possible.map fun cpu => s.state.recorded P cpu).sum := by
  have total : ∀ f : Nat → U64, possible.foldl (fun sum cpu => sum + f cpu) 0#64 =
      (possible.map f).sum := by
    intro f
    rw [List.sum_eq_foldl, List.foldl_map]
    rfl
  unfold StatsReport.lookups showStats State.recorded
  simp only [total, List.sum_map_add]

/-- Where the offset of the executing CPUs is zero, the report shows every lookup. -/
theorem showStats_counts {before after : Subsystem} (apart : P.Apart possible)
    (aligned : P.Aligned possible) (nodup : possible.Nodup)
    (steps : (cache P).Steps before.state events after.state)
    (lookups : ∀ event ∈ events, event.LooksUp ∧ event.who.cpu ∈ possible)
    (zero : ∀ event ∈ events, P.perCpuOffset event.who.cpu = 0#64) :
    (showStats P possible after).lookups =
      (showStats P possible before).lookups + BitVec.ofNat 64 events.length := by
  have exact := countsExactly_of_zero apart aligned steps lookups zero
  have cast : ∀ (f : Nat → Nat) (cpus : List Nat), BitVec.ofNat 64 (cpus.map f).sum =
      (cpus.map fun cpu => BitVec.ofNat 64 (f cpu)).sum := by
    intro f cpus
    induction cpus with
    | nil => rfl
    | cons cpu cpus ih =>
        rw [List.map_cons, List.sum_cons, BitVec.ofNat_add, ih, List.map_cons, List.sum_cons]
  rw [lookups_showStats, lookups_showStats, ← sum_countP nodup fun e among => (lookups e among).2,
    cast, ← List.sum_map_add]
  exact congrArg List.sum (List.map_congr_left exact.lookups)

/-- The counting of lookups is exact when they all run on a CPU whose offset is zero, and
otherwise it is not. -/
theorem countsExactly_iff (apart : P.Apart possible) (aligned : P.Aligned possible)
    (steps : (cache P).Steps s events s')
    (lookups : ∀ event ∈ events, event.LooksUp ∧ event.who.cpu ∈ possible) :
    ((∀ event ∈ events, P.perCpuOffset event.who.cpu = 0#64) →
      CountsExactly P possible events s s') ∧
    (events.length < 2 ^ 64 → CountsExactly P possible events s s' →
      ∀ event ∈ events, P.perCpuOffset event.who.cpu = 0#64) := by
  constructor
  · exact countsExactly_of_zero apart aligned steps lookups
  · exact fun bounded exact => exact.zero apart aligned steps lookups bounded

end Exact

/-- A miss on CPU 0, whose offset is zero. -/
theorem countsExactly_iff_zero :
    ∃ s, (cache .oneNode).Steps .initial [⟨.on 0 0, .lookupUnified 5 1, .found none⟩] s ∧
      CountsExactly .oneNode [0, 1] [⟨.on 0 0, .lookupUnified 5 1, .found none⟩] .initial s := by
  obtain ⟨s, _, replayed⟩ := run_of_replay .oneNode 9
    [⟨.on 0 0, .lookupUnified 5 1, .found none⟩] (by decide +kernel)
  have steps := steps_of_replay replayed
  have apart : Platform.oneNode.Apart [0, 1] := by
    unfold Platform.Apart
    decide
  have aligned : Platform.oneNode.Aligned [0, 1] := by
    unfold Platform.Aligned
    decide
  have lookups : ∀ event ∈ [(⟨.on 0 0, .lookupUnified 5 1, .found none⟩ : Event)],
      event.LooksUp ∧ event.who.cpu ∈ [0, 1] := by
    intro event member
    rw [List.mem_singleton.mp member]
    exact ⟨⟨5, 1, rfl⟩, by decide⟩
  refine ⟨s, steps, (countsExactly_iff apart aligned steps lookups).1 fun event member => ?_⟩
  rw [List.mem_singleton.mp member]
  decide

/-- A miss on CPU 1 is on no record. -/
theorem not_statsExact : ¬ StatsExact := by
  intro exact
  obtain ⟨s, _, replayed⟩ := run_of_replay .oneNode 9
    [⟨.on 1 0, .lookupUnified 5 1, .found none⟩] (by decide +kernel)
  have apart : Platform.oneNode.Apart [0, 1] := by
    unfold Platform.Apart
    decide
  have lookups : ∀ event ∈ [(⟨.on 1 0, .lookupUnified 5 1, .found none⟩ : Event)],
      event.LooksUp ∧ event.who.cpu ∈ [0, 1] := by
    intro event member
    rw [List.mem_singleton.mp member]
    exact ⟨⟨5, 1, rfl⟩, by decide⟩
  have counted := (exact .oneNode [0, 1] apart ⟨.initial, rfl, .refl⟩ (steps_of_replay replayed)
    lookups).misses 1 (by decide)
  have unchanged : s.stat .oneNode 1 .misses = 0#64 :=
    observe replayed (State.stat .oneNode 1 .misses) (by decide +kernel)
  rw [unchanged] at counted
  exact absurd counted (by decide)

end Kcr
