import Kcr.Cache.Buckets
import Kcr.Cache.Sweep

/-!
# Invalidation

An invalidation is complete when no later lookup returns an entry of the memory space
that was stored before. The sweep covers the L2 of its own CPU and the L3 of its
socket, and removes each entry through one link; entries that other chains lead to
stay. It should also leave the other memory spaces alone, which fails where a removal
writes into a link that another space's chain uses.
-/

namespace Kcr

open Hlist

/-! ## Completeness -/

/-- After the events `before`, the state never again returns an entry they created,
when asked for the memory space. -/
def Forgets (P : Platform) (before : List Event) (mm : U64) (s : State) : Prop :=
  ∀ ⦃after t who fingerprint n t'⦄, (cache P).Steps s after t →
    (cache P).Step t ⟨who, .lookupUnified fingerprint mm, .found (some n)⟩ t' →
    ∀ store ∈ before, ∀ fingerprint' mm', ¬ store.Stores fingerprint' mm' n

/-- The sweep reaches every rooted entry of the memory space, and each of them through
the only rooted link that leads to it. -/
structure State.Sweepable (P : Platform) (cpu : Nat) (mm : U64) (s : State) : Prop where
  covered : ∀ n ∈ s.heap.Targets s.heap.Rooted, (s.entry n).mm = mm →
    n ∈ s.heap.Targets (s.swept P cpu)
  sole : s.SoleSwept P cpu mm

section Sweep

variable {P : Platform} {who : Caller} {mm start stop : U64} {fuel : Nat} {s s' : State}

/-- A sweep that can reach every rooted entry of the memory space removes them all. -/
theorem State.Sweepable.invalidateRange (sweepable : s.Sweepable P who.cpu mm)
    (ran : invalidateRange P fuel who mm start stop s = .ok s') :
    ∀ n ∈ s'.heap.Targets s'.heap.Rooted, (s'.entry n).mm ≠ mm := by
  intro n rooted own
  rw [(invalidateRange_entries ran).2] at own
  exact sweepable.sole.removes own (fun rooted => sweepable.covered n rooted own) ran rooted

end Sweep

/-- After an invalidation that can reach every rooted entry of the memory space, no
lookup for it ever returns an entry stored before. -/
theorem forgets_of_sweepable {P : Platform} {before : List Event} {s s' : State} {who : Caller}
    {mm start stop : U64} (run : (cache P).Run before s) (sweepable : s.Sweepable P who.cpu mm)
    (invalidation : (cache P).Step s
      ⟨who, .invalidateRange mm start stop, .invalidated⟩ s') :
    Forgets P before mm s' := by
  intro after t reader fingerprint n t' later hit store member fingerprint' mm' stores
  have old : n ∈ s.live := live_of_stores run member stores
  have wellFormed := WellFormed.run run
  have kept := (cacheStep_iff.mp invalidation).keeps wellFormed old
  have wellFormed' := wellFormed.step (cacheStep_iff.mp invalidation)
  cases cacheStep_iff.mp invalidation with
  | invalidate ran =>
      -- along the later steps the entry stays allocated and out of the space's rooted entries
      have invariant := later.invariant
        (fun (t : State) => WellFormed t ∧ n ∈ t.live ∧ t.entry n = s'.entry n ∧
          (n ∈ t.heap.Targets t.heap.Rooted → (t.entry n).mm ≠ mm))
        (fun {t event u} holds transition => by
          obtain ⟨wellFormed, inside, same, absent⟩ := holds
          have step := cacheStep_iff.mp transition
          have keeps := step.keeps wellFormed inside
          refine ⟨wellFormed.step step, keeps.1, keeps.2.trans same, fun rooted => ?_⟩
          rw [keeps.2]
          exact absent ((step.targets_rooted wellFormed rooted).resolve_right (absurd inside)))
        ⟨wellFormed', kept.1, rfl, sweepable.invalidateRange ran n⟩
      obtain ⟨_⟩ | ⟨returns⟩ := cacheStep_iff.mp hit
      have accepted := returns.accepted
      simp only [State.accepts, Bool.and_eq_true, beq_iff_eq] at accepted
      exact invariant.2.2.2 returns.rooted accepted.1.2

/-- The entry of a single store stays in its L3 bucket. -/
theorem not_forgets :
    ¬ ∀ before s who mm start stop s', (cache .oneNode).Run before s →
      (cache .oneNode).Step s ⟨who, .invalidateRange mm start stop, .invalidated⟩ s' →
      Forgets .oneNode before mm s' := by
  intro forgets
  obtain ⟨t, run, _⟩ := run_of_replay .oneNode 9
    ([⟨.on 0 0, .storeByte 5 1 10, .stored 0⟩] ++
      [⟨.on 0 1, .invalidateRange 1 0 0, .invalidated⟩] ++
      [⟨.on 0 2, .lookupUnified 5 1, .found (some 10)⟩]) (by decide +kernel)
  obtain ⟨s', before, hit⟩ := run.last
  obtain ⟨s, stored, invalidation⟩ := before.last
  exact forgets _ s _ _ _ _ s' stored invalidation .refl hit _ List.mem_cons_self 5 1
    ⟨_, _, _, rfl, rfl⟩

/-! ## Other memory spaces -/

/-- Lookups for other memory spaces return after the invalidation what they would have
returned without it. -/
def LeavesOthers (P : Platform) (mm : U64) (s s' : State) : Prop :=
  ∀ ⦃who fingerprint mm' result t⦄, mm' ≠ mm →
    (cache P).Step s ⟨who, .lookupUnified fingerprint mm', .found result⟩ t →
    ∃ t', (cache P).Step s' ⟨who, .lookupUnified fingerprint mm', .found result⟩ t'

/-- The sweep's removals change no rooted pointer to anything but what they remove. -/
def State.SparesOthers (P : Platform) (cpu : Nat) (mm : U64) (s : State) : Prop :=
  ∀ n ∈ s.heap.Targets (s.swept P cpu), (s.entry n).mm = mm → s.heap.Spares s.heap.Rooted n

section Others

variable {P : Platform} {who : Caller} {mm start stop : U64} {fuel : Nat} {s s' t t' : State}

/-- During the sweep, compared with the state `s` before it: searches for other memory
spaces from rooted links find what they found, and removals still spare the links. -/
structure Sparing (P : Platform) (cpu : Nat) (mm : U64) (s t : State) : Prop where
  rooted : t.heap.Closed s.heap.Rooted
  swept : t.heap.Closed (s.swept P cpu)
  entry : t.entry = s.entry
  spares : ∀ n, .next n ∈ s.swept P cpu → (s.entry n).mm = mm → t.heap.Spares s.heap.Rooted n
  finds : ∀ ⦃accepts l result⦄, (∀ n, (s.entry n).mm = mm → accepts n = false) →
    l ∈ s.heap.Rooted → s.heap.Finds accepts l result → t.heap.Finds accepts l result
  linked : ∀ n, (s.entry n).mm ≠ mm → (∃ l, s.heap.pprev n = .link l) →
    ∃ l, t.heap.pprev n = .link l

theorem Sparing.step {n : Node} (sparing : Sparing P who.cpu mm s t)
    (inside : .next n ∈ s.swept P who.cpu) (swept : Swept mm n t t') :
    Sparing P who.cpu mm s t' := by
  obtain ⟨l, gone⟩ := swept.heap
  have own : (s.entry n).mm = mm := sparing.entry ▸ swept.own
  have spares := sparing.spares n inside own
  have rooted := State.swept_subset_rooted inside
  refine ⟨sparing.rooted.unlinked gone rooted, sparing.swept.unlinked gone inside,
    swept.entry.trans sparing.entry, fun k insideK ownK => ?_, ?_, fun k other linked => ?_⟩
  · exact (sparing.spares k insideK ownK).unlinked spares gone (State.swept_subset_rooted insideK)
  · intro accepts m result rejects member found
    refine (sparing.finds rejects member found).unlinked sparing.rooted spares gone member ?_
    rintro ⟨⟩
    have accepted := found.some.2
    rw [rejects n own] at accepted
    cases accepted
  · have distinct : k ≠ n := fun same => other (same ▸ own)
    exact gone.linked distinct (sparing.linked k other linked)

theorem Sparing.congr (sparing : Sparing P who.cpu mm s t) (same : SameLists t t') :
    Sparing P who.cpu mm s t' := by
  refine ⟨?_, ?_, same.entry.trans sparing.entry, ?_, ?_, ?_⟩ <;> rw [same.heap]
  · exact sparing.rooted
  · exact sparing.swept
  · exact sparing.spares
  · exact sparing.finds
  · exact sparing.linked

/-- Rule for an invalidation whose removals spare the rooted links: what each removal keeps
holds after it. -/
theorem State.SparesOthers.rule (spares : s.SparesOthers P who.cpu mm) (Inv : State → Prop)
    (step : ∀ {n t t'}, Sparing P who.cpu mm s t → t.heap.Spares s.heap.Rooted n → Inv t →
      Swept mm n t t' → Inv t')
    (free : ∀ {t t'}, SameLists t t' → Inv t → Inv t') (holds : Inv s)
    (ran : invalidateRange P fuel who mm start stop s = .ok s') :
    Sparing P who.cpu mm s s' ∧ Inv s' := by
  have atStart : Sparing P who.cpu mm s s := by
    refine ⟨Heap.closed_rooted, Heap.closed_reached _, rfl, fun n inside own => ?_,
      fun _ _ _ _ _ found => found, fun _ _ linked => linked⟩
    refine spares n (Heap.mem_targets_of_next inside ?_) own
    rintro ⟨h, _, same⟩
    cases same
  refine invalidateRange_rule (fun _ t => Sparing P who.cpu mm s t ∧ Inv t)
    (fun _ _ position t => (Sparing P who.cpu mm s t ∧ Inv t) ∧
      ∀ n ∈ position, .next n ∈ s.swept P who.cpu) ?_ ?_ (fun holds => holds.1) ?_
    ⟨atStart, holds⟩ ran
  · rintro done bucket t member ⟨sparing, holds⟩
    exact ⟨⟨sparing, holds⟩, fun n first =>
      sparing.swept (Heap.subset_reached _ ⟨bucket, member, rfl⟩) first⟩
  · rintro done bucket n t t' count counts ⟨⟨sparing, holds⟩, here⟩ ran
    have inside := here n rfl
    have next : ∀ k ∈ t.heap.next n, .next k ∈ s.swept P who.cpu :=
      fun k successor => sparing.swept inside successor
    rcases sweepEntry_cases counts ran with ⟨_, rfl⟩ | swept
    · exact ⟨⟨sparing, holds⟩, next⟩
    · have spares := sparing.spares n inside (sparing.entry ▸ swept.own)
      exact ⟨⟨sparing.step inside swept, step sparing spares holds swept⟩, next⟩
  · rintro done t slot ⟨sparing, holds⟩
    have same := sameLists_freeExtSlot (P.socketIndex who.cpu) slot t
    exact ⟨sparing.congr same, free same holds⟩

/-- The whole sweep spares the other memory spaces. -/
theorem State.SparesOthers.sparing (spares : s.SparesOthers P who.cpu mm)
    (ran : invalidateRange P fuel who mm start stop s = .ok s') :
    Sparing P who.cpu mm s s' :=
  (spares.rule (fun _ => True) (fun _ _ _ _ => trivial) (fun _ _ => trivial) trivial ran).1

/-- An invalidation whose removals spare the rooted links leaves the lookups for all
other memory spaces as they were. -/
theorem leavesOthers_of_sparesOthers (spares : s.SparesOthers P who.cpu mm)
    (invalidation : (cache P).Step s ⟨who, .invalidateRange mm start stop, .invalidated⟩ s') :
    LeavesOthers P mm s s' := by
  intro reader fingerprint mm' result u other hit
  cases cacheStep_iff.mp invalidation with
  | invalidate ran =>
      have sparing := spares.sparing ran
      obtain ⟨_⟩ | ⟨returns⟩ := cacheStep_iff.mp hit
      have test : s'.accepts fingerprint mm' reader.jiffies =
          s.accepts fingerprint mm' reader.jiffies := by
        unfold State.accepts
        rw [sparing.entry]
      have rejects : ∀ n, (s.entry n).mm = mm →
          s.accepts fingerprint mm' reader.jiffies n = false := by
        intro n own
        simp [State.accepts, own, Ne.symm other]
      have foreign : ∀ n, result = some n → (s.entry n).mm ≠ mm := by
        rintro n rfl own
        have accepted := returns.accepted
        rw [rejects n own] at accepted
        cases accepted
      obtain ⟨u', returns'⟩ := returns.transfer
        (fun h found _ _ search => test ▸ sparing.finds rejects (Heap.head_mem_rooted h) search)
        (fun n hit => sparing.linked n (foreign n hit))
      exact ⟨u', cacheStep_iff.mpr (.lookup returns')⟩

end Others

/-- Removing an entry of space 1 writes through the link of a store in between, and cuts
off the chain that led to an entry of space 2. -/
theorem not_leavesOthers :
    ¬ ∀ events s who mm start stop s', (cache .oneNode).Run events s →
      (cache .oneNode).Step s ⟨who, .invalidateRange mm start stop, .invalidated⟩ s' →
      LeavesOthers .oneNode mm s s' := by
  intro leaves
  obtain ⟨s, run, replayed⟩ := run_of_replay .oneNode 9
    [⟨.on 0 0, .storeByte 0 2 10, .stored 0⟩, ⟨.on 0 1, .storeByte 64 1 11, .stored 0⟩,
      ⟨.on 0 2, .storeByte 512 2 12, .stored 0⟩] (by decide +kernel)
  have without : (replay .oneNode 9 [⟨.on 0 4, .lookupUnified 0 2, .found (some 10)⟩] s).isSome =
      true := observe replayed (fun s => (replay .oneNode 9
        [⟨.on 0 4, .lookupUnified 0 2, .found (some 10)⟩] s).isSome) (by decide +kernel)
  have after : (replay .oneNode 9 [⟨.on 0 3, .invalidateRange 1 0 0, .invalidated⟩,
      ⟨.on 0 4, .lookupUnified 0 2, .found none⟩] s).isSome = true :=
    observe replayed (fun s => (replay .oneNode 9
      [⟨.on 0 3, .invalidateRange 1 0 0, .invalidated⟩,
        ⟨.on 0 4, .lookupUnified 0 2, .found none⟩] s).isSome) (by decide +kernel)
  obtain ⟨t, hit⟩ := Option.isSome_iff_exists.mp without
  obtain ⟨u, both⟩ := Option.isSome_iff_exists.mp after
  obtain ⟨s', invalidation, missed⟩ := replay_cons both
  obtain ⟨t', kept⟩ := leaves _ s _ _ _ _ s' run invalidation (by decide) (step_of_replay hit)
  obtain ⟨_⟩ | ⟨found⟩ := cacheStep_iff.mp kept
  obtain ⟨_⟩ | ⟨lost⟩ := cacheStep_iff.mp (step_of_replay missed)
  cases found.unique lost

/-! ## One run for both -/

/-- Two stores of another memory space leave the first entry behind the third one only,
in both tiers, and its `pprev` says so. -/
theorem sweepable_third :
    ∃ s s', (cache .oneNode).Run [⟨.on 0 0, .storeByte 0 1 10, .stored 0⟩,
        ⟨.on 0 1, .storeByte 64 2 11, .stored 0⟩, ⟨.on 0 2, .storeByte 512 2 12, .stored 0⟩] s ∧
      (cache .oneNode).Step s ⟨.on 0 3, .invalidateRange 1 0 0, .invalidated⟩ s' ∧
      s'.retired = [10] ∧ s.Sweepable .oneNode 0 1 ∧ s.SparesOthers .oneNode 0 1 := by
  obtain ⟨s, run, replayed⟩ := run_of_replay .oneNode 9
    [⟨.on 0 0, .storeByte 0 1 10, .stored 0⟩, ⟨.on 0 1, .storeByte 64 2 11, .stored 0⟩,
      ⟨.on 0 2, .storeByte 512 2 12, .stored 0⟩] (by decide +kernel)
  have live : s.live = [12, 11, 10] := observe replayed State.live (by decide +kernel)
  have spaces : [12, 11].map (fun n => (s.entry n).mm) = [2, 2] :=
    observe replayed (fun s => [12, 11].map fun n => (s.entry n).mm) (by decide +kernel)
  have heads : [.l2 0 0, .l3 0 0, .l3 0 64].map s.heap.first = [some 12, some 12, some 11] :=
    observe replayed (fun s => [.l2 0 0, .l3 0 0, .l3 0 64].map s.heap.first) (by decide +kernel)
  have nodes : [12, 11, 10].map s.heap.next = [some 10, none, none] :=
    observe replayed (fun s => [12, 11, 10].map s.heap.next) (by decide +kernel)
  have named : s.heap.pprev 10 = .link (.next 12) :=
    observe replayed (fun s => s.heap.pprev 10) (by decide +kernel)
  have visited : (s.heap.findEntry (· == 10) 9 (s.heap.first (.l2 0 0))).toOption =
      some (some 10) :=
    observe replayed (fun s => (s.heap.findEntry (· == 10) 9 (s.heap.first (.l2 0 0))).toOption)
      (by decide +kernel)
  have swept : (replay .oneNode 9 [⟨.on 0 3, .invalidateRange 1 0 0, .invalidated⟩] s).map
      State.retired = some [10] :=
    observe replayed (fun s => (replay .oneNode 9
      [⟨.on 0 3, .invalidateRange 1 0 0, .invalidated⟩] s).map State.retired) (by decide +kernel)
  have found : s.heap.Finds (· == 10) (.head (.l2 0 0)) (some 10) := .of_toOption visited
  obtain ⟨s', replayed', retired⟩ := Option.map_eq_some_iff.mp swept
  simp only [List.map_cons, List.map_nil, List.cons.injEq, and_true] at spaces heads nodes
  have only : ∀ {n region}, n ∈ s.heap.Targets region → (s.entry n).mm = 1 → n = 10 := by
    rintro n region ⟨l, _, designates⟩ own
    have inside : n ∈ s.live := (WellFormed.run run).confined.read designates
    rw [live] at inside
    simp only [List.mem_cons, List.not_mem_nil, or_false] at inside
    rcases inside with rfl | rfl | rfl
    · exact absurd (spaces.1.symm.trans own) (by decide)
    · exact absurd (spaces.2.symm.trans own) (by decide)
    · rfl
  have sole : s.heap.SoleLink s.heap.Rooted 10 := by
    refine soleLink_of_run [.l2 0 0, .l3 0 0, .l3 0 64] run (by decide) ?_ ?_
    · simp [heads]
    · rw [live, named]
      simp [nodes]
  refine ⟨s, s', run, step_of_replay replayed', retired, ⟨?_, ?_⟩, ?_⟩
  · intro n target own
    rw [only target own]
    have inside : .l2 0 0 ∈ sweptHeads .oneNode 0 :=
      List.mem_append_left _ (List.mem_map_of_mem (List.mem_finRange 0))
    exact Heap.mem_targets_of_onChain found.some.1 ⟨_, inside, rfl⟩
  · exact fun n target own => only target own ▸ sole
  · intro n target own l _ viaL
    obtain rfl := only target own
    rw [named] at viaL
    obtain rfl := Pprev.link.inj viaL
    exact .inl nodes.1

theorem forgets_of_sweepable_third :
    ∃ s s', (cache .oneNode).Step s ⟨.on 0 3, .invalidateRange 1 0 0, .invalidated⟩ s' ∧
      s'.retired = [10] ∧
      Forgets .oneNode
        [⟨.on 0 0, .storeByte 0 1 10, .stored 0⟩, ⟨.on 0 1, .storeByte 64 2 11, .stored 0⟩,
          ⟨.on 0 2, .storeByte 512 2 12, .stored 0⟩] 1 s' := by
  obtain ⟨s, s', run, invalidation, retired, sweepable, _⟩ := sweepable_third
  exact ⟨s, s', invalidation, retired, forgets_of_sweepable run sweepable invalidation⟩

theorem leavesOthers_of_sparesOthers_third :
    ∃ s s', (cache .oneNode).Step s ⟨.on 0 3, .invalidateRange 1 0 0, .invalidated⟩ s' ∧
      s'.retired = [10] ∧ LeavesOthers .oneNode 1 s s' := by
  obtain ⟨s, s', _, invalidation, retired, _, spares⟩ := sweepable_third
  exact ⟨s, s', invalidation, retired, leavesOthers_of_sparesOthers spares invalidation⟩

end Kcr
