import Kcr.Cache.Reachable

/-!
# Sweeps that remove through sole links

`invalidate_range` walks the chains of the heads its CPU sees and removes the entries
of one memory space. When the `pprev` of each of these entries names the only rooted
link that leads to it, a removal takes exactly one link, the entry's own `next`, out
of the rooted ones, and the other entries keep their sole links for the rest of the
sweep.
-/

namespace Kcr

open Hlist

/-- The heads an invalidation sweeps, as links. -/
def sweptLinks (P : Platform) (cpu : Nat) : Set (Link Head Node) :=
  {l | ∃ h ∈ sweptHeads P cpu, l = .head h}

/-- The links on the chains an invalidation sweeps. -/
def State.swept (P : Platform) (cpu : Nat) (s : State) : Set (Link Head Node) :=
  s.heap.Reached (sweptLinks P cpu)

/-- For each entry of the memory space on a swept chain, `pprev` names the only rooted
link that leads to it. -/
def State.SoleSwept (P : Platform) (cpu : Nat) (mm : U64) (s : State) : Prop :=
  ∀ n ∈ s.heap.Targets (s.swept P cpu), (s.entry n).mm = mm → s.heap.SoleLink s.heap.Rooted n

theorem State.swept_subset_rooted {P : Platform} {cpu : Nat} {s : State} :
    s.swept P cpu ⊆ s.heap.Rooted := by
  apply Heap.reached_mono
  rintro l ⟨h, _, rfl⟩
  exact ⟨h, rfl⟩

section Step

variable {P : Platform} {cpu : Nat} {mm : U64} {n : Node} {l : Link Head Node} {s s' : State}

/-- The removal goes through a swept link, the one that leads to the entry. -/
theorem State.SoleSwept.named (sole : s.SoleSwept P cpu mm)
    (target : n ∈ s.heap.Targets (s.swept P cpu)) (own : (s.entry n).mm = mm)
    (gone : Heap.Unlinked s.heap n l s'.heap) : l ∈ s.swept P cpu ∧ s.heap.read l = some n := by
  obtain ⟨m, member, designates⟩ := target
  have viaM := sole n ⟨m, member, designates⟩ own m (State.swept_subset_rooted member) designates
  obtain rfl : l = m := by
    rw [gone.named] at viaM
    exact Pprev.link.inj viaM
  exact ⟨member, designates⟩

/-- The removal takes the entry's `next` out of the rooted links. -/
theorem State.SoleSwept.rooted (sole : s.SoleSwept P cpu mm)
    (target : n ∈ s.heap.Targets (s.swept P cpu)) (own : (s.entry n).mm = mm)
    (gone : Heap.Unlinked s.heap n l s'.heap) :
    s'.heap.Rooted ⊆ s.heap.Rooted \ {.next n} := by
  have inside : .next n ∈ s.heap.Rooted :=
    Heap.closed_rooted.next_mem (Heap.Targets.mono State.swept_subset_rooted target)
  exact (Heap.closed_rooted.unlinked_sole gone inside (sole n target own)).rooted
    fun h => ⟨Heap.head_mem_rooted h, nofun⟩

/-- Removals leave the rooted entries rooted at most, and drop the removed one. -/
theorem State.SoleSwept.targets_rooted (sole : s.SoleSwept P cpu mm)
    (target : n ∈ s.heap.Targets (s.swept P cpu)) (own : (s.entry n).mm = mm)
    (gone : Heap.Unlinked s.heap n l s'.heap) {k : Node}
    (rooted : k ∈ s'.heap.Targets s'.heap.Rooted) : k ∈ s.heap.Targets s.heap.Rooted ∧ k ≠ n := by
  have inside : .next n ∈ s.heap.Rooted :=
    Heap.closed_rooted.next_mem (Heap.Targets.mono State.swept_subset_rooted target)
  have within := Heap.Targets.mono (sole.rooted target own gone) rooted
  refine ⟨Heap.targets_unlinked gone inside (Heap.Targets.mono Set.sdiff_subset within), ?_⟩
  rintro rfl
  exact Heap.not_mem_targets_unlinked Heap.closed_rooted gone inside (sole k target own) within

theorem State.SoleSwept.targets_swept (sole : s.SoleSwept P cpu mm)
    (target : n ∈ s.heap.Targets (s.swept P cpu)) (own : (s.entry n).mm = mm)
    (gone : Heap.Unlinked s.heap n l s'.heap) {k : Node}
    (swept : k ∈ s'.heap.Targets (s'.swept P cpu)) :
    k ∈ s.heap.Targets (s.swept P cpu) ∧ k ≠ n := by
  have inside : .next n ∈ s.swept P cpu := (Heap.closed_reached _).next_mem target
  have keeps : s'.swept P cpu ⊆ s.swept P cpu :=
    ((Heap.closed_reached _).unlinked gone inside).reached (Heap.subset_reached _)
  refine ⟨Heap.targets_unlinked gone inside (Heap.Targets.mono keeps swept), ?_⟩
  exact (sole.targets_rooted target own gone
    (Heap.Targets.mono State.swept_subset_rooted swept)).2

/-- One removal of a sweep leaves the other entries their sole links. -/
theorem State.SoleSwept.step (sole : s.SoleSwept P cpu mm)
    (target : n ∈ s.heap.Targets (s.swept P cpu)) (swept : Swept mm n s s') :
    s'.SoleSwept P cpu mm := by
  obtain ⟨l, gone⟩ := swept.heap
  have inside : .next n ∈ s.heap.Rooted :=
    Heap.closed_rooted.next_mem (Heap.Targets.mono State.swept_subset_rooted target)
  intro k targetK ownK
  rw [swept.entry] at ownK
  obtain ⟨before, other⟩ := sole.targets_swept target swept.own gone targetK
  exact ((sole k before ownK).unlinked gone inside other).mono
    (sole.rooted target swept.own gone)

/-- The saved successor of a removed entry is on a swept chain. -/
theorem State.SoleSwept.next (sole : s.SoleSwept P cpu mm)
    (target : n ∈ s.heap.Targets (s.swept P cpu)) (swept : Swept mm n s s') {k : Node}
    (successor : s.heap.next n = some k) : k ∈ s'.heap.Targets (s'.swept P cpu) := by
  obtain ⟨l, gone⟩ := swept.heap
  obtain ⟨member, _⟩ := sole.named target swept.own gone
  exact ⟨l, gone.reached member, gone.read_named.trans successor⟩

theorem State.SoleSwept.congr (sole : s.SoleSwept P cpu mm) (same : SameLists s s') :
    s'.SoleSwept P cpu mm := by
  unfold State.SoleSwept State.swept
  rw [same.heap, same.entry]
  exact sole

end Step

section Rule

variable {P : Platform} {who : Caller} {mm start stop : U64} {fuel : Nat} {s s' : State}

/-- Position of the walk: the next entry is on a swept chain. -/
def AtSwept (P : Platform) (cpu : Nat) (position : Option Node) (s : State) : Prop :=
  ∀ n ∈ position, n ∈ s.heap.Targets (s.swept P cpu)

theorem AtSwept.first {bucket : Head} (member : bucket ∈ sweptHeads P who.cpu) :
    AtSwept P who.cpu (s.heap.first bucket) s :=
  fun _ first => ⟨.head bucket, Heap.subset_reached _ ⟨bucket, member, rfl⟩, first⟩

theorem AtSwept.next {n : Node} (here : AtSwept P who.cpu (some n) s) :
    AtSwept P who.cpu (s.heap.next n) s :=
  fun _ successor => ⟨.next n, (Heap.closed_reached _).next_mem (here n rfl), successor⟩

/-- Rule for an invalidation that removes through sole links: what each removal keeps
holds after it. -/
theorem State.SoleSwept.rule (sole : s.SoleSwept P who.cpu mm) (Inv : State → Prop)
    (step : ∀ {n s s'}, s.SoleSwept P who.cpu mm → n ∈ s.heap.Targets (s.swept P who.cpu) →
      Inv s → Swept mm n s s' → Inv s')
    (free : ∀ {s s'}, SameLists s s' → Inv s → Inv s') (holds : Inv s)
    (ran : invalidateRange P fuel who mm start stop s = .ok s') : Inv s' := by
  refine (invalidateRange_rule (fun _ s => s.SoleSwept P who.cpu mm ∧ Inv s)
    (fun _ _ position s => (s.SoleSwept P who.cpu mm ∧ Inv s) ∧ AtSwept P who.cpu position s)
    (fun member holds => ⟨holds, .first member⟩) ?_ (fun holds => holds.1) ?_
    ⟨sole, holds⟩ ran).2
  · rintro done bucket n s s' count counts ⟨⟨sole, holds⟩, here⟩ ran
    rcases sweepEntry_cases counts ran with ⟨_, rfl⟩ | swept
    · exact ⟨⟨sole, holds⟩, here.next⟩
    · exact ⟨⟨sole.step (here n rfl) swept, step sole (here n rfl) holds swept⟩,
        fun k successor => sole.next (here n rfl) swept successor⟩
  · rintro done s slot ⟨sole, holds⟩
    have same := sameLists_freeExtSlot (P.socketIndex who.cpu) slot s
    exact ⟨sole.congr same, free same holds⟩

/-- Such an invalidation does not fault. -/
theorem State.SoleSwept.safe (sole : s.SoleSwept P who.cpu mm) {reason : Halt}
    (failed : invalidateRange P fuel who mm start stop s = .error reason) : reason = .fuel := by
  refine invalidateRange_safe (fun _ s => s.SoleSwept P who.cpu mm)
    (fun _ _ position s => s.SoleSwept P who.cpu mm ∧ AtSwept P who.cpu position s)
    (fun member sole => ⟨sole, .first member⟩) ?_ ?_ (fun holds => holds.1) sole failed
  · rintro done bucket n s ⟨sole, here⟩ own
    obtain ⟨l, member, designates⟩ := here n rfl
    exact ⟨l, sole n (here n rfl) own l (State.swept_subset_rooted member) designates⟩
  · rintro done bucket n s s' count counts ⟨sole, here⟩ ran
    rcases sweepEntry_cases counts ran with ⟨_, rfl⟩ | swept
    · exact ⟨sole, here.next⟩
    · exact ⟨sole.step (here n rfl) swept, fun k successor => sole.next (here n rfl) swept successor⟩

end Rule

/-! ## What such a sweep removes -/

section Clear

variable {P : Platform} {who : Caller} {mm start stop : U64} {fuel : Nat} {s s' : State}

/-- No entry of the memory space is on the chain. -/
def State.Cleared (mm : U64) (s : State) (bucket : Head) : Prop :=
  ∀ n, s.heap.OnChain (.head bucket) n → (s.entry n).mm ≠ mm

/-- A removal leaves a cleared chain alone. -/
theorem State.Cleared.step {n : Node} {bucket : Head} (cleared : s.Cleared mm bucket)
    (sole : s.SoleSwept P who.cpu mm) (target : n ∈ s.heap.Targets (s.swept P who.cpu))
    (swept : Swept mm n s s') : s'.Cleared mm bucket := by
  obtain ⟨l, gone⟩ := swept.heap
  obtain ⟨_, leads⟩ := sole.named target swept.own gone
  have outside : l ∉ s.heap.Reached {.head bucket} := fun member =>
    cleared n (Heap.mem_targets_singleton.mp ⟨l, member, leads⟩) swept.own
  have closed := (Heap.closed_reached _).unlinked_outside gone outside
  rintro k ⟨m, path, designates⟩
  have member := closed.leads (Heap.subset_reached _ rfl) path
  rw [gone.read_other (ne_of_mem_of_not_mem member outside)] at designates
  rw [swept.entry]
  exact cleared k (Heap.mem_targets_singleton.mp ⟨m, member, designates⟩)

/-- Inside the walk of a bucket: the position is what the link `current` of its chain
holds, and the entries of the memory space on the chain are further on. -/
structure Clearing (P : Platform) (cpu : Nat) (mm : U64) (bucket : Head)
    (position : Option Node) (current : Link Head Node) (s : State) : Prop where
  swept : bucket ∈ sweptHeads P cpu
  onChain : current ∈ s.heap.Reached {.head bucket}
  read : s.heap.read current = position
  rest : ∀ n, s.heap.OnChain (.head bucket) n → (s.entry n).mm = mm → s.heap.OnChain current n

namespace Clearing

variable {bucket : Head} {position : Option Node} {current : Link Head Node} {n : Node}

theorem reached (clearing : Clearing P who.cpu mm bucket position current s) :
    current ∈ s.swept P who.cpu := by
  refine Heap.reached_mono ?_ clearing.onChain
  rintro l rfl
  exact ⟨bucket, clearing.swept, rfl⟩

/-- Walk past an entry of another memory space. -/
theorem skip (clearing : Clearing P who.cpu mm bucket (some n) current s)
    (other : (s.entry n).mm ≠ mm) :
    Clearing P who.cpu mm bucket (s.heap.next n) (.next n) s := by
  refine ⟨clearing.swept, Heap.closed_reached _ clearing.onChain clearing.read, rfl,
    fun k onChain own => ?_⟩
  rcases (clearing.rest k onChain own).cases clearing.read with rfl | rest
  · exact absurd own other
  · exact rest

/-- Remove an entry: the link that held it now holds its successor. -/
theorem remove (clearing : Clearing P who.cpu mm bucket (some n) current s)
    (sole : s.SoleSwept P who.cpu mm) (swept : Swept mm n s s') :
    Clearing P who.cpu mm bucket (s.heap.next n) current s' := by
  have target : n ∈ s.heap.Targets (s.swept P who.cpu) :=
    ⟨current, clearing.reached, clearing.read⟩
  obtain ⟨l, gone⟩ := swept.heap
  obtain rfl : current = l := by
    have named := sole n target swept.own current
      (State.swept_subset_rooted clearing.reached) clearing.read
    rw [gone.named] at named
    exact (Pprev.link.inj named).symm
  have inside : .next n ∈ s.heap.Reached {.head bucket} :=
    Heap.closed_reached _ clearing.onChain clearing.read
  have keeps := ((Heap.closed_reached _).unlinked gone inside).reached (Heap.subset_reached _)
  refine ⟨clearing.swept, gone.reached clearing.onChain, gone.read_named, fun k onChain own => ?_⟩
  have before : s.heap.OnChain (.head bucket) k := Heap.mem_targets_singleton.mp
    (Heap.targets_unlinked gone inside (Heap.Targets.mono keeps
      (Heap.mem_targets_singleton.mpr onChain)))
  have other : k ≠ n := by
    refine (sole.targets_rooted target swept.own gone ?_).2
    exact Heap.mem_targets_of_onChain onChain ⟨_, rfl⟩
  rw [swept.entry] at own
  have rest := Heap.mem_targets_singleton.mpr (clearing.rest k before own)
  exact Heap.mem_targets_singleton.mp
    (gone.targets_other clearing.read (Heap.subset_reached _ rfl) rest other)

end Clearing

/-- Such an invalidation leaves no entry of the memory space on the chains it sweeps. -/
theorem State.SoleSwept.cleared (sole : s.SoleSwept P who.cpu mm)
    (ran : invalidateRange P fuel who mm start stop s = .ok s') :
    ∀ bucket ∈ sweptHeads P who.cpu, s'.Cleared mm bucket := by
  refine (invalidateRange_rule
    (fun done s => s.SoleSwept P who.cpu mm ∧ ∀ bucket ∈ done, s.Cleared mm bucket)
    (fun done bucket position s =>
      (s.SoleSwept P who.cpu mm ∧ ∀ bucket ∈ done, s.Cleared mm bucket) ∧
        ∃ current, Clearing P who.cpu mm bucket position current s)
    ?_ ?_ ?_ ?_ ⟨sole, nofun⟩ ran).2
  · rintro done bucket s member holds
    exact ⟨holds, .head bucket, member, Heap.subset_reached _ rfl, rfl, fun _ onChain _ => onChain⟩
  · rintro done bucket n s s' count counts ⟨⟨sole, cleared⟩, current, clearing⟩ ran
    rcases sweepEntry_cases counts ran with ⟨other, rfl⟩ | swept
    · exact ⟨⟨sole, cleared⟩, .next n, clearing.skip other⟩
    · have target : n ∈ s.heap.Targets (s.swept P who.cpu) :=
        ⟨current, clearing.reached, clearing.read⟩
      exact ⟨⟨sole.step target swept, fun bucket member =>
        (cleared bucket member).step sole target swept⟩, current, clearing.remove sole swept⟩
  · rintro done bucket s ⟨⟨sole, cleared⟩, current, clearing⟩
    refine ⟨sole, ?_⟩
    rintro bucket' (rfl | member)
    · exact fun n onChain own =>
        Heap.not_onChain_of_none clearing.read (clearing.rest n onChain own)
    · exact cleared bucket' member
  · rintro done s slot ⟨sole, cleared⟩
    have same := sameLists_freeExtSlot (P.socketIndex who.cpu) slot s
    refine ⟨sole.congr same, ?_⟩
    unfold State.Cleared
    rw [same.heap, same.entry]
    exact cleared

/-- An entry that is rooted on swept chains only stays so. -/
theorem State.SoleSwept.covered (sole : s.SoleSwept P who.cpu mm) {n : Node}
    (covered : n ∈ s.heap.Targets s.heap.Rooted → n ∈ s.heap.Targets (s.swept P who.cpu))
    (ran : invalidateRange P fuel who mm start stop s = .ok s') :
    n ∈ s'.heap.Targets s'.heap.Rooted → n ∈ s'.heap.Targets (s'.swept P who.cpu) := by
  refine sole.rule
    (fun t => n ∈ t.heap.Targets t.heap.Rooted → n ∈ t.heap.Targets (t.swept P who.cpu))
    ?_ ?_ covered ran
  · intro k t t' sole target covered swept rooted
    obtain ⟨l, gone⟩ := swept.heap
    obtain ⟨before, other⟩ := sole.targets_rooted target swept.own gone rooted
    obtain ⟨member, leads⟩ := sole.named target swept.own gone
    exact gone.targets_other leads member (covered before) other
  · intro t t' same covered
    unfold State.swept
    rw [same.heap]
    exact covered

/-- Such an invalidation removes every entry of the memory space that is rooted on swept
chains. -/
theorem State.SoleSwept.removes (sole : s.SoleSwept P who.cpu mm) {n : Node}
    (own : (s.entry n).mm = mm)
    (covered : n ∈ s.heap.Targets s.heap.Rooted → n ∈ s.heap.Targets (s.swept P who.cpu))
    (ran : invalidateRange P fuel who mm start stop s = .ok s') :
    n ∉ s'.heap.Targets s'.heap.Rooted := by
  intro rooted
  obtain ⟨l, ⟨start, ⟨bucket, member, rfl⟩, path⟩, designates⟩ := sole.covered covered ran rooted
  refine sole.cleared ran bucket member n ⟨l, path, designates⟩ ?_
  rw [(invalidateRange_entries ran).2]
  exact own

end Clear

end Kcr
