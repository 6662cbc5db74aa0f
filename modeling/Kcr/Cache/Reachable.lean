import Kcr.Cache.Returns

/-!
# Reachable states

What holds in every state a run reaches, whatever the calls: the lists mention
allocated entries only, and an allocated entry is the work of one successful
store of the run and still holds what that store put into it.
-/

namespace Kcr

open Hlist

/-- The lists and the retired entries stay within the allocated entries. -/
structure WellFormed (s : State) : Prop where
  confined : s.heap.Confined {n | n ∈ s.live}
  retired : ∀ n ∈ s.retired, n ∈ s.live

def State.retiredSet (s : State) : Set Node := {n | n ∈ s.retired}

theorem WellFormed.initial : WellFormed .initial where
  confined := Heap.confined_empty _
  retired n member := by simp [State.initial] at member

/-! ## A store that succeeds -/

/-- The first stage of a store that inserts: the entry is allocated and filled. -/
structure Allocation (P : Platform) (who : Caller) (fingerprint : U64) (data : Nat → U8)
    (len : U32) (mm : U64) (entry : Node) (kvmalloc : U64) (s s₀ : State) : Prop where
  fresh : entry ∉ s.live
  heap : s₀.heap = s.heap
  live : s₀.live = entry :: s.live
  retired : s₀.retired = s.retired
  filled : Filled P who fingerprint data len mm entry kvmalloc s s₀

/-- All three stages: allocation, L2 insertion, L3 insertion. -/
structure Insertion (P : Platform) (who : Caller) (fingerprint : U64) (data : Nat → U8)
    (len : U32) (mm : U64) (entry : Node) (kvmalloc : U64) (s s₀ s₁ s' : State) : Prop
    extends Allocation P who fingerprint data len mm entry kvmalloc s s₀ where
  inL2 : ReplaceReturns (l2Head who.cpu fingerprint) entry fingerprint s₀ s₁
  inL3 : ReplaceReturns (l3Head P who.cpu fingerprint) entry fingerprint s₁ s'

section Store

variable {P : Platform} {who : Caller} {fingerprint : U64} {data : Option (Nat → U8)}
  {bytes : Nat → U8} {len : U32} {mm : U64} {kzalloc : Option Node} {entry : Node}
  {kvmalloc : U64} {s s₀ s₁ s' : State} {status : Int}

theorem Prepares.allocation
    (prepared : Prepares P who fingerprint bytes len mm entry kvmalloc s s₀)
    (wellFormed : WellFormed s) (fresh : entry ∉ s.live) :
    Allocation P who fingerprint bytes len mm entry kvmalloc s s₀ where
  fresh := fresh
  heap := prepared.heap_eq.trans (s.kzalloc_heap wellFormed.confined fresh)
  live := prepared.live_eq
  retired := prepared.retired_eq
  filled := prepared.filled

/-- From a well-formed state a store either fails, changing neither lists nor allocated
entries, or inserts. -/
theorem StoreReturns.cases (returns :
    StoreReturns P who fingerprint data len mm kzalloc kvmalloc s status s')
    (wellFormed : WellFormed s) (fresh : ∀ n ∈ kzalloc, n ∉ s.live) :
    (status ≠ 0 ∧ s'.heap = s.heap ∧ s'.live = s.live ∧ s'.retired = s.retired ∧
      ∀ n ∈ s.live, s'.entry n = s.entry n) ∨
    (status = 0 ∧ StoreAccepted P who data len kzalloc kvmalloc s ∧
      ∃ bytes entry s₀ s₁, data = some bytes ∧ kzalloc = some entry ∧
      Insertion P who fingerprint bytes len mm entry kvmalloc s s₀ s₁ s') := by
  by_cases error : status = 0
  · subst error
    refine .inr ⟨rfl, returns.storeAccepted, ?_⟩
    generalize zero : (0 : Int) = status at returns
    cases returns with
    | invalid | noEntry | noBuffer => exact absurd zero (by decide)
    | @stored bytes entry s₀ s₁ _ given nonempty allocated prepared inL2 inL3 =>
        exact ⟨bytes, entry, s₀, s₁, given, allocated,
          prepared.allocation wellFormed (fresh entry allocated), inL2, inL3⟩
  · exact .inl ⟨error, returns.failed error wellFormed.confined fresh⟩

namespace Allocation

/-- Entries that were allocated before keep their contents. -/
theorem entry_of_live
    (allocation : Allocation P who fingerprint bytes len mm entry kvmalloc s s₀)
    {n : Node} (inside : n ∈ s.live) : s₀.entry n = s.entry n :=
  allocation.filled.others n (ne_of_mem_of_not_mem inside allocation.fresh)

theorem key (allocation : Allocation P who fingerprint bytes len mm entry kvmalloc s s₀) :
    (s₀.entry entry).fingerprint = fingerprint ∧ (s₀.entry entry).mm = mm ∧
      (s₀.entry entry).expiryJiffies = who.jiffies + P.msecsToJiffies 1000 := by
  obtain ⟨payload, fields⟩ := allocation.filled.fields
  rw [fields]
  exact ⟨rfl, rfl, rfl⟩

end Allocation

namespace Insertion

theorem entry_eq
    (insertion : Insertion P who fingerprint bytes len mm entry kvmalloc s s₀ s₁ s') :
    s'.entry = s₀.entry :=
  insertion.inL3.entry_eq.trans insertion.inL2.entry_eq

theorem live_eq
    (insertion : Insertion P who fingerprint bytes len mm entry kvmalloc s s₀ s₁ s') :
    s'.live = entry :: s.live := by
  rw [insertion.inL3.live_eq, insertion.inL2.live_eq, insertion.live]

end Insertion

end Store

/-! ## Well-formedness -/

namespace WellFormed

variable {P : Platform} {s s' : State}

/-- An insertion of an allocated entry keeps the lists within the allocated entries. -/
theorem replace (wellFormed : WellFormed s) {bucket : Head} {entry : Node} {fingerprint : U64}
    (allocated : entry ∈ s.live)
    (returns : ReplaceReturns bucket entry fingerprint s s') : WellFormed s' := by
  have sameLive := returns.live_eq
  obtain ⟨old, mid, _, removal, added, same⟩ := returns.heap_cases
  have between : mid.Confined {n | n ∈ s.live} ∧ ∀ n ∈ old, n ∈ s.live := by
    cases removal with
    | none => exact ⟨wellFormed.confined, nofun⟩
    | some gone =>
        refine ⟨wellFormed.confined.unlinked gone, ?_⟩
        rintro n ⟨⟩
        exact wellFormed.confined.mem_of_unlinked gone
  constructor
  · rw [sameLive]
    exact between.1.pushed allocated added
  · rw [sameLive, same]
    intro n member
    rcases List.mem_append.mp member with earlier | last
    · exact wellFormed.retired n earlier
    · exact between.2 n (Option.mem_toList.mp last)

/-- The state with the new entry allocated and not yet linked. -/
theorem allocated {who : Caller} {fingerprint : U64} {bytes : Nat → U8} {len : U32} {mm : U64}
    {entry : Node} {kvmalloc : U64} {s₀ : State} (wellFormed : WellFormed s)
    (allocation : Allocation P who fingerprint bytes len mm entry kvmalloc s s₀) :
    WellFormed s₀ := by
  have more : ∀ n ∈ s.live, n ∈ s₀.live := by
    intro n inside
    rw [allocation.live]
    exact List.mem_cons_of_mem _ inside
  constructor
  · rw [allocation.heap]
    exact wellFormed.confined.mono more
  · rw [allocation.retired]
    exact fun n member => more n (wellFormed.retired n member)

theorem step (wellFormed : WellFormed s) {event : Event} (step : CacheStep P s event s') :
    WellFormed s' := by
  cases step with
  | @store who fingerprint data len mm kzalloc kvmalloc status _ fresh _ returns =>
      rcases returns.cases wellFormed fresh with
        ⟨_, sameHeap, sameLive, sameRetired, _⟩ | ⟨_, _, bytes, entry, s₀, s₁, _, _, insertion⟩
      · constructor
        · rw [sameHeap, sameLive]
          exact wellFormed.confined
        · rw [sameRetired, sameLive]
          exact wellFormed.retired
      · have member : entry ∈ s₀.live := by rw [insertion.live]; exact List.mem_cons_self
        have member' : entry ∈ s₁.live := by rw [insertion.inL2.live_eq]; exact member
        exact ((wellFormed.allocated insertion.toAllocation).replace member insertion.inL2).replace member'
          insertion.inL3
  | lookup returns =>
      constructor
      · rw [returns.live]
        rcases returns.heap_cases with same | ⟨n, l, mid, _, ⟨_, found⟩, gone, added⟩
        · rw [same]
          exact wellFormed.confined
        · exact (wellFormed.confined.unlinked gone).pushed
            (wellFormed.confined.onChain found.some.1) added
      · rw [returns.retired, returns.live]
        exact wellFormed.retired
  | @invalidate who _ _ _ _ _ ran =>
      refine invalidateRange_rule (fun _ => WellFormed) (fun _ _ _ => WellFormed)
        (fun _ holds => holds) ?_ (fun holds => holds) ?_ wellFormed ran
      · intro done bucket n s s' count counts holds ran
        rcases sweepEntry_cases counts ran with ⟨_, rfl⟩ | swept
        · exact holds
        · obtain ⟨l, gone⟩ := swept.heap
          constructor
          · rw [swept.live]
            exact holds.confined.unlinked gone
          · rw [swept.retired, swept.live]
            intro k member
            rcases List.mem_append.mp member with earlier | last
            · exact holds.retired k earlier
            · obtain rfl := List.mem_singleton.mp last
              exact holds.confined.mem_of_unlinked gone
      · intro done s slot holds
        have same := sameLists_freeExtSlot (P.socketIndex who.cpu) slot s
        constructor
        · rw [same.heap, same.live]
          exact holds.confined
        · rw [same.retired, same.live]
          exact holds.retired

theorem run {events : List Event} (run : (cache P).Run events s) : WellFormed s := by
  refine TransitionSystem.Run.invariant (fun _ => WellFormed) ?_ ?_ run
  · rintro state rfl
    exact .initial
  · intro events state event next _ holds transition
    exact holds.step (cacheStep_iff.mp transition)

end WellFormed

/-! ## Provenance -/

/-- The event is a successful `store_result` with this key that created entry `n`. -/
def Event.Stores (event : Event) (fingerprint mm : U64) (n : Node) : Prop :=
  ∃ data len kvmalloc, event.call = .storeResult fingerprint data len mm (some n) kvmalloc ∧
    event.outcome = .stored 0

section Provenance

variable {P : Platform} {s s' : State} {event : Event}

/-- An invalidation edits lists, and neither allocates nor changes entries. -/
theorem invalidateRange_entries {who : Caller} {fuel : Nat} {mm start stop : U64}
    (ran : invalidateRange P fuel who mm start stop s = .ok s') :
    s'.live = s.live ∧ s'.entry = s.entry := by
  refine invalidateRange_rule
    (fun _ t => t.live = s.live ∧ t.entry = s.entry)
    (fun _ _ _ t => t.live = s.live ∧ t.entry = s.entry)
    (fun _ holds => holds) ?_ (fun holds => holds) ?_ ⟨rfl, rfl⟩ ran
  · intro done bucket k t t' count counts holds ran
    rcases sweepEntry_cases counts ran with ⟨_, rfl⟩ | swept
    · exact holds
    · rw [swept.live, swept.entry]
      exact holds
  · intro done t slot holds
    have same := sameLists_freeExtSlot (P.socketIndex who.cpu) slot t
    rw [same.live, same.entry]
    exact holds

/-- A step keeps allocated entries and their contents. -/
theorem CacheStep.keeps (step : CacheStep P s event s') (wellFormed : WellFormed s) {n : Node}
    (inside : n ∈ s.live) : n ∈ s'.live ∧ s'.entry n = s.entry n := by
  cases step with
  | store fresh _ returns =>
      rcases returns.cases wellFormed fresh with
        ⟨_, _, sameLive, _, kept⟩ | ⟨_, _, bytes, entry, s₀, s₁, _, _, insertion⟩
      · exact ⟨sameLive ▸ inside, kept n inside⟩
      · rw [insertion.live_eq, insertion.entry_eq]
        exact ⟨List.mem_cons_of_mem _ inside, insertion.entry_of_live inside⟩
  | lookup returns =>
      rw [returns.live, returns.entry]
      exact ⟨inside, rfl⟩
  | invalidate ran =>
      obtain ⟨sameLive, sameEntry⟩ := invalidateRange_entries ran
      rw [sameLive, sameEntry]
      exact ⟨inside, rfl⟩

/-- An entry that a step allocates is created by it, filled from its arguments. -/
theorem CacheStep.allocates (step : CacheStep P s event s') (wellFormed : WellFormed s) {n : Node}
    (outside : n ∉ s.live) (inside : n ∈ s'.live) :
    event.Stores (s'.entry n).fingerprint (s'.entry n).mm n ∧
      (s'.entry n).expiryJiffies = event.who.jiffies + P.msecsToJiffies 1000 := by
  cases step with
  | store fresh _ returns =>
      rcases returns.cases wellFormed fresh with
        ⟨_, _, sameLive, _⟩ | ⟨rfl, _, bytes, entry, s₀, s₁, rfl, rfl, insertion⟩
      · exact absurd (sameLive ▸ inside) outside
      · rw [insertion.live_eq] at inside
        obtain rfl : n = entry := (List.mem_cons.mp inside).resolve_right outside
        rw [insertion.entry_eq, insertion.key.1, insertion.key.2.1]
        exact ⟨⟨_, _, _, rfl, rfl⟩, insertion.key.2.2⟩
  | lookup returns => exact absurd (returns.live ▸ inside) outside
  | invalidate ran => exact absurd ((invalidateRange_entries ran).1 ▸ inside) outside

/-- Every allocated entry was created by a store of the run, whose prefix reaches a
state in which the entry has the contents it still has. -/
theorem created {events : List Event} (run : (cache P).Run events s) {n : Node}
    (inside : n ∈ s.live) :
    ∃ before store after s₀, events = before ++ store :: after ∧
      (cache P).Run (before ++ [store]) s₀ ∧ s.entry n = s₀.entry n ∧
      store.Stores (s.entry n).fingerprint (s.entry n).mm n ∧
      (s.entry n).expiryJiffies = store.who.jiffies + P.msecsToJiffies 1000 := by
  refine run.invariant (fun (events : List Event) (s : State) => n ∈ s.live →
    ∃ before store after s₀, events = before ++ store :: after ∧
      (cache P).Run (before ++ [store]) s₀ ∧ s.entry n = s₀.entry n ∧
      store.Stores (s.entry n).fingerprint (s.entry n).mm n ∧
      (s.entry n).expiryJiffies = store.who.jiffies + P.msecsToJiffies 1000) ?_ ?_ inside
  · rintro state rfl member
    simp [State.initial] at member
  · intro events state event next prior ih transition member
    have wellFormed := WellFormed.run prior
    have step := cacheStep_iff.mp transition
    by_cases earlier : n ∈ state.live
    · obtain ⟨before, store, after, s₀, split, reaches, same, stores, expiry⟩ := ih earlier
      have kept := (step.keeps wellFormed earlier).2
      refine ⟨before, store, after ++ [event], s₀, by simp [split], reaches, ?_⟩
      rw [kept]
      exact ⟨same, stores, expiry⟩
    · obtain ⟨stores, expiry⟩ := step.allocates wellFormed earlier member
      exact ⟨events, event, [], next, rfl, prior.step transition, rfl, stores, expiry⟩

/-- An entry some store of the run created is allocated. -/
theorem live_of_stores {events : List Event} (run : (cache P).Run events s) {store : Event}
    (member : store ∈ events) {fingerprint mm : U64} {n : Node}
    (stores : store.Stores fingerprint mm n) : n ∈ s.live := by
  refine run.invariant (fun (events : List Event) (s : State) => store ∈ events → n ∈ s.live)
    ?_ ?_ member
  · intro s _ none
    cases none
  · intro events s event s' prior ih transition member
    have wellFormed := WellFormed.run prior
    have step := cacheStep_iff.mp transition
    rcases List.mem_append.mp member with earlier | last
    · exact (step.keeps wellFormed (ih earlier)).1
    · obtain rfl := List.mem_singleton.mp last
      obtain ⟨data, len, kvmalloc, call, outcome⟩ := stores
      cases step with
      | lookup | invalidate => cases call
      | store fresh _ returns =>
          cases call
          cases outcome
          obtain ⟨error, _⟩ | ⟨_, _, bytes, entry, s₀, s₁, _, allocated, insertion⟩ :=
            returns.cases wellFormed fresh
          · exact absurd rfl error
          · cases allocated
            rw [insertion.live_eq]
            exact List.mem_cons_self

end Provenance

/-! ## Rooted entries -/

section Rooted

variable {P : Platform} {s s' : State} {n : Node}

/-- An insertion makes no other entry rooted. -/
theorem ReplaceReturns.targets_rooted {bucket : Head} {entry : Node} {fingerprint : U64}
    (returns : ReplaceReturns bucket entry fingerprint s s')
    (target : n ∈ s'.heap.Targets s'.heap.Rooted) :
    n = entry ∨ n ∈ s.heap.Targets s.heap.Rooted := by
  obtain ⟨old, mid, found, removal, added, _⟩ := returns.heap_cases
  have inside : ∀ o ∈ old, .next o ∈ s.heap.Rooted := by
    rintro o ⟨⟩
    exact Heap.closed_rooted.next_mem (Heap.mem_targets_of_onChain found.some.1 ⟨_, rfl⟩)
  have head : .head bucket ∈ s.heap.Rooted := Heap.head_mem_rooted bucket
  have rooted := ((removal.closed_keep Heap.closed_rooted inside).pushed added head).rooted
    fun h => .inr (Heap.head_mem_rooted h)
  exact (Heap.targets_pushed added head (Heap.Targets.mono rooted target)).imp id
    fun kept => removal.targets_keep inside kept

/-- What a lookup returns is rooted. -/
theorem LookupReturns.rooted {who : Caller} {fingerprint mm : U64}
    (returns : LookupReturns P who fingerprint mm s (some n) s') :
    n ∈ s.heap.Targets s.heap.Rooted := by
  rcases returns.visited with onL2 | onL3
  · exact Heap.mem_targets_of_onChain onL2 ⟨_, rfl⟩
  · exact Heap.mem_targets_of_onChain onL3 ⟨_, rfl⟩

/-- A lookup makes no entry rooted. -/
theorem LookupReturns.targets_rooted {who : Caller} {fingerprint mm : U64} {result : Option Node}
    (returns : LookupReturns P who fingerprint mm s result s')
    (target : n ∈ s'.heap.Targets s'.heap.Rooted) : n ∈ s.heap.Targets s.heap.Rooted := by
  rcases returns.heap_cases with same | ⟨m, l, mid, _, ⟨_, found⟩, gone, added⟩
  · exact same ▸ target
  · have moved : m ∈ s.heap.Targets s.heap.Rooted :=
      Heap.mem_targets_of_onChain found.some.1 ⟨_, rfl⟩
    have inside := Heap.closed_rooted.next_mem moved
    have head : .head (l2Head who.cpu fingerprint) ∈ s.heap.Rooted := Heap.head_mem_rooted _
    have rooted := ((Heap.closed_rooted.unlinked gone inside).pushed added head).rooted
      fun h => .inr (Heap.head_mem_rooted h)
    rcases Heap.targets_pushed added head (Heap.Targets.mono rooted target) with rfl | kept
    · exact moved
    · exact Heap.targets_unlinked gone inside kept

/-- A sweep keeps every closed region with the swept heads, and makes no new entry one
of its targets. -/
theorem targets_of_invalidateRange {who : Caller} {fuel : Nat} {mm start stop : U64}
    (ran : invalidateRange P fuel who mm start stop s = .ok s') {region : Set (Link Head Node)}
    (closed : s.heap.Closed region) (heads : ∀ h ∈ sweptHeads P who.cpu, .head h ∈ region) :
    s'.heap.Closed region ∧ s'.heap.Targets region ⊆ s.heap.Targets region := by
  refine invalidateRange_rule
    (fun _ t => t.heap.Closed region ∧ t.heap.Targets region ⊆ s.heap.Targets region)
    (fun _ _ position t => (t.heap.Closed region ∧
      t.heap.Targets region ⊆ s.heap.Targets region) ∧ ∀ n ∈ position, .next n ∈ region)
    ?_ ?_ (fun holds => holds.1) ?_ ⟨closed, Set.Subset.rfl⟩ ran
  · rintro done bucket t member ⟨closed, within⟩
    exact ⟨⟨closed, within⟩, fun n first => closed (heads bucket member) first⟩
  · rintro done bucket n t t' count counts ⟨⟨closed, within⟩, here⟩ ran
    have inside := here n rfl
    have next : ∀ k ∈ t.heap.next n, .next k ∈ region := fun k successor => closed inside successor
    rcases sweepEntry_cases counts ran with ⟨_, rfl⟩ | swept
    · exact ⟨⟨closed, within⟩, next⟩
    · obtain ⟨l, gone⟩ := swept.heap
      exact ⟨⟨closed.unlinked gone inside, (Heap.targets_unlinked gone inside).trans within⟩, next⟩
  · rintro done t slot holds
    rw [(sameLists_freeExtSlot (P.socketIndex who.cpu) slot t).heap]
    exact holds

/-- Every entry that is rooted after a step was rooted before it, or is new. -/
theorem CacheStep.targets_rooted {event : Event} (step : CacheStep P s event s')
    (wellFormed : WellFormed s) (target : n ∈ s'.heap.Targets s'.heap.Rooted) :
    n ∈ s.heap.Targets s.heap.Rooted ∨ n ∉ s.live := by
  cases step with
  | store fresh _ returns =>
      rcases returns.cases wellFormed fresh with
        ⟨_, sameHeap, _⟩ | ⟨_, _, bytes, entry, s₀, s₁, _, _, insertion⟩
      · exact .inl (sameHeap ▸ target)
      · rcases insertion.inL3.targets_rooted target with rfl | target
        · exact .inr insertion.fresh
        · rcases insertion.inL2.targets_rooted target with rfl | target
          · exact .inr insertion.fresh
          · exact .inl (insertion.heap ▸ target)
  | lookup returns => exact .inl (returns.targets_rooted target)
  | invalidate ran =>
      obtain ⟨closed, within⟩ := targets_of_invalidateRange ran Heap.closed_rooted
        fun h _ => Heap.head_mem_rooted h
      exact .inl (within (Heap.Targets.mono (closed.rooted Heap.head_mem_rooted) target))

end Rooted

end Kcr
