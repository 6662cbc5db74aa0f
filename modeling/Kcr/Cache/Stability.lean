import Kcr.Cache.Callbacks
import Kcr.Cache.Refinement

/-!
# Results stay on their CPU

A store leaves its entry in front of the L2 bucket of its CPU, although it goes on to unlink
an old entry from L3 and to link the new one there: no `pprev` but that of the entry in front
names an L2 head. A promotion does the same, and a search that stopped at an entry
stops there again as long as no entry before it comes back to life.

This needs memory that nothing leads to any more when it is freed. A store that gets the
memory of an entry its L3 chain still holds finds its own entry there and unlinks that.
-/

namespace Kcr

open Hlist

/-! ## Fronts -/

section Fronted

variable {P : Platform} {s s' : State}

theorem ReplaceReturns.fronted {bucket : Head} {entry : Node} {fingerprint : U64}
    (fronted : s.heap.Fronted) (returns : ReplaceReturns bucket entry fingerprint s s') :
    s'.heap.Fronted := by
  obtain ⟨old, mid, _, removal, added, _⟩ := returns.heap_cases
  cases removal with
  | none => exact fronted.pushed added
  | some gone => exact (fronted.unlinked gone).pushed added

theorem CacheStep.fronted {event : Event} (step : CacheStep P s event s')
    (wellFormed : WellFormed s) (fronted : s.heap.Fronted) : s'.heap.Fronted := by
  cases step with
  | store fresh _ returns =>
      obtain ⟨_, sameHeap, _⟩ | ⟨_, _, bytes, entry, s₀, s₁, _, _, insertion⟩ :=
        returns.cases wellFormed fresh
      · exact sameHeap ▸ fronted
      · rw [← insertion.heap] at fronted
        exact insertion.inL3.fronted (insertion.inL2.fronted fronted)
  | lookup returns =>
      obtain same | ⟨n, l, mid, _, _, gone, added⟩ := returns.heap_cases
      · exact same ▸ fronted
      · exact (fronted.unlinked gone).pushed added
  | @invalidate who _ _ _ _ _ ran =>
      apply invalidateRange_rule (fun _ t => t.heap.Fronted) (fun _ _ _ t => t.heap.Fronted)
        (fun _ holds => holds) _ (fun holds => holds) _ fronted ran
      · intro done bucket n t t' count counts holds swept
        obtain ⟨_, rfl⟩ | gone := sweepEntry_cases counts swept
        · exact holds
        · obtain ⟨l, unlinked⟩ := gone.heap
          exact holds.unlinked unlinked
      · intro done t slot holds
        rw [(sameLists_freeExtSlot (P.socketIndex who.cpu) slot t).heap]
        exact holds

/-- In every state of an orderly run only the first node of a head points back at it. -/
theorem fronted_of_orderly {Guard : State → Caller → Call → Prop} {events : List RcuEvent}
    (run : (orderly P Guard).Run events s) : s.heap.Fronted :=
  (orderly_invariant (fun _ s => s.heap.Fronted) .empty
    (fun wellFormed fronted _ step => step.fronted wellFormed fronted)
    (fun _ fronted _ _ => fronted.clear) run).2

/-- The L2 bucket still begins with the new entry when the L3 insertion is done. -/
theorem Insertion.first_l2 {who : Caller} {fingerprint mm : U64} {bytes : Nat → U8} {len : U32}
    {entry : Node} {kvmalloc : U64} {s₀ s₁ : State}
    (insertion : Insertion P who fingerprint bytes len mm entry kvmalloc s s₀ s₁ s')
    (wellFormed : WellFormed s) (fronted : s.heap.Fronted) :
    s'.heap.first (l2Head who.cpu fingerprint) = some entry := by
  obtain ⟨old, mid, _, removal, added, _⟩ := insertion.l2_cases wellFormed
  obtain ⟨old', mid', found, removal', added', _⟩ := insertion.inL3.heap_cases
  have inFront : s₁.heap.first (l2Head who.cpu fingerprint) = some entry := added.read_head
  have fronted₁ : s₁.heap.Fronted := by
    rw [← insertion.heap] at fronted
    exact insertion.inL2.fronted fronted
  have still : mid'.first (l2Head who.cpu fingerprint) = some entry := by
    cases removal' with
    | none => exact inFront
    | @some n _ _ gone =>
        -- what the L3 search found was linked before, so it is not the new entry
        obtain ⟨⟨l, _, designates⟩, _⟩ :=
          (insertion.found_l3 wellFormed removal added found).some
        have other : n ≠ entry := by
          rintro rfl
          exact insertion.unread wellFormed removal l designates
        rw [← inFront]
        apply fronted₁.first_unlinked gone
        rw [inFront]
        exact fun same => other (Option.some.inj same).symm
  refine (added'.read_other (m := .head _) ?_ nofun).trans still
  exact fun same => l3Head_ne_l2Head (Link.head.inj same).symm

end Fronted

/-! ## The next lookup -/

/-- A successful store of the key that created the entry, or a lookup that returned it. -/
def Event.Yields (event : Event) (fingerprint mm : U64) (n : Node) : Prop :=
  event.Stores fingerprint mm n ∨
    event.call = .lookupUnified fingerprint mm ∧ event.outcome = .found (some n)

section Stable

variable {P : Platform} {s s' : State} {event : Event} {fingerprint mm : U64} {n : Node}

/-- Such a call leaves the entry in front of its L2 bucket, or it was an L2 hit and has
changed no list. -/
theorem CacheStep.yields_cases (step : CacheStep P s event s') (wellFormed : WellFormed s)
    (fronted : s.heap.Fronted) (yields : event.Yields fingerprint mm n) :
    s'.sameKey fingerprint mm n = true ∧
      (s'.heap.first (l2Head event.who.cpu fingerprint) = some n ∨
        SameLists s s' ∧ s.heap.Finds (s.accepts fingerprint mm event.who.jiffies)
          (.head (l2Head event.who.cpu fingerprint)) (some n)) := by
  obtain ⟨data, len, kvmalloc, call, outcome⟩ | ⟨call, outcome⟩ := yields
  · cases step with
    | lookup | invalidate => cases call
    | store fresh _ returns =>
        cases call
        cases outcome
        obtain ⟨error, _⟩ | ⟨_, _, bytes, entry, s₀, s₁, _, allocated, insertion⟩ :=
          returns.cases wellFormed fresh
        · exact absurd rfl error
        · cases allocated
          refine ⟨?_, .inl (insertion.first_l2 wellFormed fronted)⟩
          rw [State.sameKey_iff, State.key, insertion.entry_eq, insertion.key.1,
            insertion.key.2.1]
  · cases step with
    | store | invalidate => cases call
    | lookup returns =>
        cases call
        cases outcome
        obtain ⟨own, _⟩ := State.accepts_iff.mp returns.accepted
        cases returns with
        | l2Hit found => exact ⟨own, .inr ⟨sameLists_thisCpuInc .., found⟩⟩
        | l3Hit missed found removed =>
            exact ⟨own, .inl (Heap.pushed_add _ _ _).read_head⟩

end Stable

/-- The lookup terminates, and its L2 search returns the entry. -/
def State.ReturnsFromL2 (P : Platform) (who : Caller) (fingerprint mm : U64) (s : State)
    (n : Node) : Prop :=
  ∃ fuel, ∀ more, fuel ≤ more →
    lookupL2 P more who (P.thisCpuPtr who.cpu) fingerprint mm s =
      .ok (some n, s.thisCpuInc P who.cpu (P.thisCpuPtr who.cpu) .l2Hits) ∧
    lookupUnified P more who fingerprint mm s =
      .ok (some n, s.thisCpuInc P who.cpu (P.thisCpuPtr who.cpu) .l2Hits)

/-- A lookup that finds its entry in L2 does so with any fuel its walk needs. -/
theorem lookupUnified_l2 {P : Platform} {who : Caller} {fingerprint mm : U64} {s : State}
    {n : Node} (found : s.heap.Finds (s.accepts fingerprint mm who.jiffies)
      (.head (l2Head who.cpu fingerprint)) (some n)) :
    s.ReturnsFromL2 P who fingerprint mm n := by
  obtain ⟨fuel, returned⟩ := found
  refine ⟨fuel, fun more enough => ?_⟩
  have returned := Heap.findEntry_mono enough returned
  rw [Heap.read_head] at returned
  constructor
  · simp [lookupL2, bind, Except.bind, pure, Except.pure, returned]
  · simp [lookupUnified, lookupL2, bind, Except.bind, pure, Except.pure, returned]

/-- The ticks of the calls, and of the lookup that follows them. -/
def ticks (events : List RcuEvent) (who : Caller) : List U64 :=
  (RcuEvent.calls events).map (fun event => event.who.jiffies) ++ [who.jiffies]

/-- After a call that stored or returned an entry, and any callbacks, the next call, if it looks
up the key on the same CPU before the entry expires, returns the entry from its L2 search. -/
def ResultsStay (P : Platform) : Prop :=
  ∀ ⦃events event⦄ ⦃freed : List Node⦄ ⦃s⦄,
    (reclaiming P).Run (events ++ [.call event] ++ freed.map .freeEntryRcu) s →
    ∀ ⦃fingerprint mm n⦄, event.Yields fingerprint mm n → ∀ start who,
    who.cpu = event.who.cpu → Timely start (ticks (events ++ [.call event]) who) →
    s.Unexpired who.jiffies n → s.ReturnsFromL2 P who fingerprint mm n

/-! ## Runs -/

section Run

variable {P : Platform} {Guard : State → Caller → Call → Prop} {events : List RcuEvent}
  {s t : State}

/-- Every allocated entry has the expiry that a store of the run gave it. -/
structure Dated (P : Platform) (events : List RcuEvent) (s : State) : Prop where
  nodup : s.live.Nodup
  stored : ∀ n ∈ s.live, ∃ event ∈ RcuEvent.calls events,
    (s.entry n).expiryJiffies = event.who.jiffies + P.msecsToJiffies 1000

/-- A call allocates one entry at most. -/
theorem CacheStep.live_cases {event : Event} {s' : State} (step : CacheStep P s event s')
    (wellFormed : WellFormed s) : s'.live = s.live ∨ ∃ n, n ∉ s.live ∧ s'.live = n :: s.live := by
  cases step with
  | store fresh _ returns =>
      obtain ⟨_, _, sameLive, _⟩ | ⟨_, _, bytes, entry, s₀, s₁, _, _, insertion⟩ :=
        returns.cases wellFormed fresh
      · exact .inl sameLive
      · exact .inr ⟨entry, insertion.fresh, insertion.live_eq⟩
  | lookup returns => exact .inl returns.live
  | invalidate ran => exact .inl (invalidateRange_entries ran).1

theorem dated_of_orderly (run : (orderly P Guard).Run events s) : Dated P events s := by
  refine (orderly_invariant (Dated P) ⟨List.nodup_nil, nofun⟩ ?_ ?_ run).2
  · intro events s event s' wellFormed dated _ step
    refine ⟨?_, fun n inside => ?_⟩
    · obtain same | ⟨n, outside, grown⟩ := step.live_cases wellFormed
      · rw [same]
        exact dated.nodup
      · rw [grown]
        exact List.nodup_cons.mpr ⟨outside, dated.nodup⟩
    · rw [RcuEvent.calls_call]
      by_cases earlier : n ∈ s.live
      · obtain ⟨store, member, expiry⟩ := dated.stored n earlier
        rw [(step.keeps wellFormed earlier).2]
        exact ⟨store, List.mem_append_left _ member, expiry⟩
      · exact ⟨event, by simp, (step.allocates wellFormed earlier inside).2⟩
  · intro events s n _ dated _ _
    refine ⟨dated.nodup.erase n, fun m inside => ?_⟩
    obtain ⟨other, before⟩ := (List.Nodup.mem_erase_iff dated.nodup).mp inside
    rw [RcuEvent.calls_freed, State.freeEntryRcu_entry other]
    exact dated.stored m before

/-- In orderly runs results stay on their CPU. -/
theorem lookupUnified_stable {event : Event} {freed : List Node}
    (run : (orderly P fun _ _ _ => True).Run
      (events ++ [.call event] ++ freed.map .freeEntryRcu) s)
    {fingerprint mm : U64} {n : Node} (yields : event.Yields fingerprint mm n) (start : U64)
    (who : Caller) (onCpu : who.cpu = event.who.cpu)
    (timely : Timely start (ticks (events ++ [.call event]) who))
    (unexpired : s.Unexpired who.jiffies n) : s.ReturnsFromL2 P who fingerprint mm n := by
  obtain ⟨t, called, steps⟩ := run.split
  obtain ⟨before, prior, transition, _⟩ := called.last
  obtain ⟨kept, finds⟩ := freed_of_steps steps
  rw [ticks, RcuEvent.calls_call] at timely
  obtain ⟨timelyEvents, ordered, bounded⟩ := timely_concat.mp timely
  obtain ⟨own, place⟩ := (cacheStep_iff.mp transition).yields_cases (.orderly prior)
    (fronted_of_orderly prior) yields
  have visited : t.heap.OnChain (.head (l2Head who.cpu fingerprint)) n := by
    rw [onCpu]
    obtain front | ⟨same, found⟩ := place
    · exact .of_read front
    · exact same.heap ▸ found.some.1
  have accepted : t.accepts fingerprint mm who.jiffies n = true := by
    refine State.accepts_iff.mpr ⟨own, ?_⟩
    rw [State.Unexpired, (kept visited).2] at unexpired
    exact unexpired
  apply lookupUnified_l2
  apply finds
  rw [onCpu]
  obtain front | ⟨same, found⟩ := place
  · exact .here front accepted
  · -- an entry of the key that had expired when it was passed over is still expired
    rw [← same.heap] at found
    apply found.again _ accepted
    intro k visited rejected
    by_contra revived
    obtain ⟨key, later⟩ := State.accepts_iff.mp (Bool.not_eq_false _ ▸ revived)
    have inside := (WellFormed.orderly called).confined.onChain visited
    obtain ⟨store, member, expiry⟩ := (dated_of_orderly called).stored k inside
    have earlier : t.Unexpired event.who.jiffies k := by
      apply later.earlier expiry _ (ordered _ (by simp)) bounded
      rw [RcuEvent.calls_call] at member
      obtain among | last := List.mem_append.mp member
      · rw [List.map_append, List.map_singleton] at timelyEvents
        exact (timely_concat.mp timelyEvents).2.1 _ (List.mem_map_of_mem among)
      · rw [List.mem_singleton.mp last]
    have accepts := State.accepts_iff.mpr ⟨key, earlier⟩
    unfold State.accepts at accepts rejected
    rw [same.entry] at accepts
    exact absurd accepts (Bool.eq_false_iff.mp rejected)

end Run

/-- A replaced entry is freed, a store of another key gets its memory, and a lookup follows. -/
theorem lookupUnified_stable_reused :
    ∃ s, (reclaiming .oneNode).Run [.call ⟨.on 0 0, .storeByte 5 1 10, .stored 0⟩,
        .call ⟨.on 0 1, .storeByte 5 1 11, .stored 0⟩, .freeEntryRcu 10,
        .call ⟨.on 0 2, .storeByte 69 1 10, .stored 0⟩] s ∧
      s.ReturnsFromL2 .oneNode (.on 0 3) 69 1 10 := by
  obtain ⟨s₁, s₂, two⟩ := twoStores_run
  have computed : (replay .oneNode 9 [⟨.on 0 2, .storeByte 69 1 10, .stored 0⟩]
      (s₂.freeEntryRcu 10)).map (fun s => (s.entry 10).expiryJiffies) = some 1002#64 :=
    observe two.both (fun s => (replay .oneNode 9 [⟨.on 0 2, .storeByte 69 1 10, .stored 0⟩]
      (s.freeEntryRcu 10)).map fun s => (s.entry 10).expiryJiffies) (by decide +kernel)
  obtain ⟨s, reused, expiry⟩ := Option.map_eq_some_iff.mp computed
  have unexpired : s.Unexpired (Caller.on 0 3).jiffies 10 := by
    unfold State.Unexpired
    rw [expiry]
    decide
  have prior : (orderly .oneNode fun _ _ _ => True).Run twoStores (s₂.freeEntryRcu 10) :=
    two.run trivial fun _ => trivial
  have run : (orderly .oneNode fun _ _ _ => True).Run (twoStores ++
      [.call _] ++ ([] : List Node).map .freeEntryRcu) s :=
    orderly_call prior (step_of_replay reused) trivial
  exact ⟨s, run.unguard, lookupUnified_stable run (.inl ⟨_, _, _, rfl, rfl⟩) 0 (.on 0 3) rfl
    (by simp [Timely, ticks, RcuEvent.calls, twoStores, Caller.on]) unexpired⟩

/-- Three stores into one L2 bucket leave the first entry, retired, on the chain of its L3
bucket. It is freed, and the next store of its key gets its memory. -/
theorem not_resultsStay : ¬ ResultsStay .oneNode := by
  intro stay
  have computed : (TransitionSystem.execAll (execRcu .oneNode 9)
      [.call ⟨.on 0 0, .storeByte 0 1 10, .stored 0⟩,
        .call ⟨.on 0 0, .storeByte 64 1 11, .stored 0⟩,
        .call ⟨.on 0 0, .storeByte 0 1 12, .stored 0⟩, .freeEntryRcu 10,
        .call ⟨.on 0 0, .storeByte 0 1 10, .stored 0⟩] .initial).map (fun s =>
          ((s.entry 10).expiryJiffies, (replay .oneNode 9
            [⟨.on 0 1, .lookupUnified 0 1, .found (some 12)⟩] s).isSome)) =
        some (1000#64, true) := by
    decide +kernel
  obtain ⟨s, ran, seen⟩ := Option.map_eq_some_iff.mp computed
  obtain ⟨expiry, answered⟩ := Prod.mk.inj seen
  obtain ⟨s', answered⟩ := Option.isSome_iff_exists.mp answered
  have run : (reclaiming .oneNode).Run ([.call _, .call _, .call _, .freeEntryRcu 10] ++
      [.call _] ++ ([] : List Node).map .freeEntryRcu) s :=
    ⟨.initial, rfl, TransitionSystem.steps_of_execAll step_of_execRcu ran⟩
  have unexpired : s.Unexpired (Caller.on 0 1).jiffies 10 := by
    unfold State.Unexpired
    rw [expiry]
    decide
  obtain ⟨fuel, returned⟩ := stay run (.inl ⟨_, _, _, rfl, rfl⟩) 0 (.on 0 1) rfl
    (by simp [Timely, ticks, RcuEvent.calls, Caller.on]) unexpired
  obtain ⟨_⟩ | ⟨other⟩ := cacheStep_iff.mp (step_of_replay answered)
  exact absurd (other.unique (.of_exec (returned fuel (Nat.le_refl _)).2)) (by decide)

end Kcr
