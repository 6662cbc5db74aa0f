import Kcr.Cache.Buckets
import Kcr.Cache.Replacement
import Kcr.Cache.Sweep

/-!
# Reclamation

An entry handed to `call_rcu` should be out of every chain, so that it is neither
visited nor handed over again. A removal achieves this when it goes through the only
reachable link that leads to the entry; the entry may sit in chains of both tiers
and of several CPUs, and its one `pprev` names one link.
-/

namespace Kcr

open Hlist

/-- Retired entries are unreachable and were retired once, and no call removes an
entry whose `pprev` is poisoned. -/
structure ReclamationSafe (P : Platform) (Guard : State → Caller → Call → Prop) (s : State) :
    Prop where
  unreachable : ∀ n ∈ s.retired, ∀ h, ¬ s.heap.OnChain (.head h) n
  once : s.retired.Nodup
  noPoison : ∀ fuel who call, call.Fresh s → Guard s who call →
    exec P fuel who s call ≠ .error .poison

/-- Each entry a call may remove is designated by a sole link: for a store, the entries
with its key on the two chains it walks; for an invalidation, those of its memory space
on the chains it sweeps. -/
def SoleRemovals (P : Platform) (s : State) (who : Caller) : Call → Prop
  | .storeResult fingerprint data len mm kzalloc kvmalloc =>
      StoreAccepted P who data len kzalloc kvmalloc s → s.SoleRivals P who fingerprint mm
  | .lookupUnified _ _ => True
  | .invalidateRange mm _ _ => s.SoleSwept P who.cpu mm

/-- No rooted entry is retired. -/
def State.Unretired (s : State) : Prop := ∀ n ∈ s.heap.Targets s.heap.Rooted, n ∉ s.retired

namespace State.Unretired

variable {P : Platform} {who : Caller} {fingerprint mm : U64} {s s' : State}

theorem initial : State.initial.Unretired := by
  rintro n ⟨l, _, designates⟩
  simp [State.initial] at designates

theorem congr (unretired : s.Unretired) (same : SameLists s s') : s'.Unretired := by
  unfold State.Unretired
  rw [same.heap, same.retired]
  exact unretired

theorem lookup (unretired : s.Unretired) {result : Option Node}
    (returns : LookupReturns P who fingerprint mm s result s') : s'.Unretired := by
  intro n target
  rw [returns.retired]
  exact unretired n (returns.targets_rooted target)

/-- A store retires rooted entries and leaves no kept link to them. -/
theorem replaced (unretired : s.Unretired) (wellFormed : WellFormed s) {entry : Node}
    (fresh : entry ∉ s.live) {removed : List Node}
    (replaces : Replaces P who fingerprint mm entry s s' removed) : s'.Unretired := by
  intro n target
  rw [replaces.retired, List.mem_append]
  rcases replaces.targets n target with rfl | ⟨kept, notRemoved⟩
  · rintro (earlier | now)
    · exact fresh (wellFormed.retired n earlier)
    · obtain ⟨l, _, designates⟩ := State.rivals_subset_rooted (replaces.rival n now)
      exact fresh (wellFormed.confined.read designates)
  · have before := unretired n (Heap.Targets.mono State.kept_subset_rooted kept)
    exact fun either => either.elim before notRemoved

/-- One removal of a sweep. -/
theorem sweptEntry {n : Node} (unretired : s.Unretired) (sole : s.SoleSwept P who.cpu mm)
    (target : n ∈ s.heap.Targets (s.swept P who.cpu)) (swept : Swept mm n s s') :
    s'.Unretired := by
  obtain ⟨l, gone⟩ := swept.heap
  intro k member
  obtain ⟨before, other⟩ := sole.targets_rooted target swept.own gone member
  rw [swept.retired]
  simpa using ⟨unretired k before, other⟩

/-- A step that only removes through sole links. -/
theorem step (unretired : s.Unretired) (wellFormed : WellFormed s) {event : Event}
    (sole : SoleRemovals P s event.who event.call) (step : CacheStep P s event s') :
    s'.Unretired := by
  cases step with
  | store fresh _ returns =>
      rcases returns.cases wellFormed fresh with
        ⟨_, sameHeap, _, sameRetired, _⟩ | ⟨_, accepted, bytes, entry, s₀, s₁, rfl, rfl, insertion⟩
      · unfold State.Unretired
        rw [sameHeap, sameRetired]
        exact unretired
      · obtain ⟨removed, replaces⟩ := insertion.replaces wellFormed (sole accepted)
        exact unretired.replaced wellFormed insertion.fresh replaces
  | lookup returns => exact unretired.lookup returns
  | invalidate ran =>
      exact sole.rule State.Unretired
        (fun sole target holds swept => holds.sweptEntry sole target swept)
        (fun same holds => holds.congr same) unretired ran

end State.Unretired

/-- The invariant: rooted entries are not retired and their `pprev` names a link. -/
structure Reclaims (s : State) : Prop where
  rooted : ∀ n ∈ s.heap.Targets s.heap.Rooted,
    n ∉ s.retired ∧ ∃ l, s.heap.pprev n = .link l
  once : s.retired.Nodup

namespace Reclaims

variable {P : Platform} {who : Caller} {fingerprint mm : U64} {s s' : State}

theorem unretired (reclaims : Reclaims s) : s.Unretired := fun n target =>
  (reclaims.rooted n target).1

theorem initial : Reclaims .initial where
  rooted := by
    rintro n ⟨l, _, designates⟩
    simp [State.initial] at designates
  once := List.nodup_nil

theorem congr (reclaims : Reclaims s) (same : SameLists s s') : Reclaims s' := by
  constructor
  · rw [same.heap, same.retired]
    exact reclaims.rooted
  · rw [same.retired]
    exact reclaims.once

/-- A lookup moves a rooted entry within the rooted links. -/
theorem lookup (reclaims : Reclaims s) {result : Option Node}
    (returns : LookupReturns P who fingerprint mm s result s') : Reclaims s' := by
  refine ⟨fun k target => ⟨reclaims.unretired.lookup returns k target, ?_⟩,
    returns.retired ▸ reclaims.once⟩
  obtain ⟨_, linked⟩ := reclaims.rooted k (returns.targets_rooted target)
  rcases returns.heap_cases with same | ⟨n, l, mid, _, ⟨_, found⟩, gone, added⟩
  · exact same ▸ linked
  · apply added.linked
    by_cases moved : k = n
    · exact .inl moved
    · exact .inr (gone.linked moved linked)

/-- A store retires entries that no kept link leads to. -/
theorem store (reclaims : Reclaims s) (wellFormed : WellFormed s) {entry : Node}
    (fresh : entry ∉ s.live) {removed : List Node}
    (replaces : Replaces P who fingerprint mm entry s s' removed) : Reclaims s' := by
  have unretired := reclaims.unretired.replaced wellFormed fresh replaces
  refine ⟨fun n target => ⟨unretired n target, ?_⟩, ?_⟩
  · have notRemoved : n ∉ removed := fun member => unretired n target (by
      rw [replaces.retired]
      exact List.mem_append_right _ member)
    refine replaces.linked n notRemoved ((replaces.targets n target).imp id fun kept => ?_)
    exact (reclaims.rooted n (Heap.Targets.mono State.kept_subset_rooted kept.1)).2
  · rw [replaces.retired]
    refine List.nodup_append.mpr ⟨reclaims.once, replaces.nodup, ?_⟩
    rintro o earlier _ now rfl
    exact reclaims.unretired o (State.rivals_subset_rooted (replaces.rival o now)) earlier

/-- One removal of a sweep. -/
theorem sweptEntry {n : Node} (reclaims : Reclaims s) (sole : s.SoleSwept P who.cpu mm)
    (target : n ∈ s.heap.Targets (s.swept P who.cpu)) (swept : Swept mm n s s') : Reclaims s' := by
  obtain ⟨l, gone⟩ := swept.heap
  have rooted := Heap.Targets.mono State.swept_subset_rooted target
  refine ⟨fun k member =>
    ⟨reclaims.unretired.sweptEntry sole target swept k member, ?_⟩, ?_⟩
  · obtain ⟨before, other⟩ := sole.targets_rooted target swept.own gone member
    exact gone.linked other (reclaims.rooted k before).2
  · rw [swept.retired]
    refine List.nodup_append.mpr ⟨reclaims.once, List.nodup_singleton n, ?_⟩
    rintro o earlier _ now rfl
    obtain rfl := List.mem_singleton.mp now
    exact reclaims.unretired o rooted earlier

/-- A step that only removes through sole links keeps the invariant. -/
theorem step (reclaims : Reclaims s) (wellFormed : WellFormed s) {event : Event}
    (sole : SoleRemovals P s event.who event.call) (step : CacheStep P s event s') :
    Reclaims s' := by
  cases step with
  | store fresh _ returns =>
      rcases returns.cases wellFormed fresh with
        ⟨_, sameHeap, _, sameRetired, _⟩ | ⟨_, accepted, bytes, entry, s₀, s₁, rfl, rfl, insertion⟩
      · constructor
        · rw [sameHeap, sameRetired]
          exact reclaims.rooted
        · rw [sameRetired]
          exact reclaims.once
      · obtain ⟨removed, replaces⟩ := insertion.replaces wellFormed (sole accepted)
        exact reclaims.store wellFormed insertion.fresh replaces
  | lookup returns => exact reclaims.lookup returns
  | invalidate ran =>
      exact sole.rule Reclaims
        (fun sole target holds swept => holds.sweptEntry sole target swept)
        (fun same holds => holds.congr same) reclaims ran

/-! ### No call removes a poisoned entry -/

/-- What a search finds can be removed. -/
theorem removable (reclaims : Reclaims s) {test : Node → Bool} {h : Head} {n : Node}
    (found : s.heap.Finds test (.head h) (some n)) : ∃ heap, s.heap.hlistDelRcu n = .ok heap := by
  obtain ⟨_, l, named⟩ := reclaims.rooted n (Heap.mem_targets_of_onChain found.some.1 ⟨_, rfl⟩)
  exact Heap.del_of_link named

theorem noPoison (reclaims : Reclaims s) (wellFormed : WellFormed s) {call : Call} {fuel : Nat}
    (fresh : call.Fresh s) (sole : SoleRemovals P s who call) :
    exec P fuel who s call ≠ .error .poison := by
  intro failed
  cases call with
  | lookupUnified fingerprint mm =>
      simp only [exec, bind, Except.bind, pure, Except.pure] at failed
      split at failed
      · next reason returned =>
        obtain rfl := Except.error.inj failed
        obtain ⟨h, _, search⟩ | ⟨n, found, removed⟩ := lookupUnified_error returned
        · cases Heap.findEntry_error search
        · obtain ⟨heap, ok⟩ := reclaims.removable found
          rw [ok] at removed
          cases removed
      · cases failed
  | invalidateRange mm start stop =>
      simp only [exec, bind, Except.bind, pure, Except.pure] at failed
      split at failed
      · next reason returned =>
        obtain rfl := Except.error.inj failed
        cases sole.safe returned
      · cases failed
  | storeResult fingerprint data len mm kzalloc kvmalloc =>
      simp only [exec, bind, Except.bind, pure, Except.pure] at failed
      split at failed
      · next reason returned =>
        obtain rfl := Except.error.inj failed
        obtain ⟨status, t, _, _, same⟩ | ⟨accepted, bytes, entry, s₀, rfl, rfl, prepared, same⟩ :=
          storeResult_cases P who fingerprint data len mm kzalloc kvmalloc s
        · rw [same] at returned
          cases returned
        · rw [same] at returned
          have allocation := prepared.allocation wellFormed (fresh.1 entry rfl)
          have reclaims₀ : Reclaims s₀ :=
            ⟨by rw [allocation.heap, allocation.retired]; exact reclaims.rooted,
              by rw [allocation.retired]; exact reclaims.once⟩
          rcases insertions_error returned with failedL2 | ⟨s₁, inL2, failedL3⟩
          · obtain search | ⟨old, found, removed⟩ := replaceIn_error failedL2
            · cases Heap.findEntry_error search
            · obtain ⟨heap, ok⟩ := reclaims₀.removable found
              rw [ok] at removed
              cases removed
          · obtain search | ⟨old, found, removed⟩ := replaceIn_error failedL3
            · cases Heap.findEntry_error search
            · -- the entry still has its sole link after the L2 insertion
              obtain ⟨old', stage⟩ := inL2.stage (P := P)
                (fun l => by rw [allocation.heap]; exact wellFormed.unread allocation.fresh l)
                (allocation.soleRivals wellFormed (sole accepted))
              obtain ⟨isRival, target⟩ := stage.found inL2 found old rfl
              have soleLink := stage.sole old isRival target
              obtain ⟨l, member, designates⟩ := target
              obtain ⟨heap, ok⟩ := Heap.del_of_link (soleLink l member designates)
              rw [ok] at removed
              cases removed
      · cases failed

end Reclaims

/-! ## What a call retires -/

section Retires

variable {P : Platform} {s s' : State}

/-- The entries a call may retire: those a store displaces, and for an invalidation those
of its memory space on the chains it sweeps. -/
def State.MayRetire (P : Platform) (s : State) (who : Caller) (call : Call) (n : Node) : Prop :=
  match call with
  | .storeResult fingerprint data len mm kzalloc kvmalloc =>
      StoreAccepted P who data len kzalloc kvmalloc s ∧ s.Displaced P who fingerprint mm n
  | .lookupUnified _ _ => False
  | .invalidateRange mm _ _ => n ∈ s.heap.Targets (s.swept P who.cpu) ∧ (s.entry n).mm = mm

/-- An invalidation appends entries of its memory space on swept chains. -/
theorem invalidateRange_retires {who : Caller} {fuel : Nat} {mm start stop : U64}
    (ran : invalidateRange P fuel who mm start stop s = .ok s') :
    ∃ removed, s'.retired = s.retired ++ removed ∧
      ∀ n ∈ removed, n ∈ s.heap.Targets (s.swept P who.cpu) ∧ (s.entry n).mm = mm := by
  let region : Set (Link Head Node) := s.swept P who.cpu
  let Inv (t : State) : Prop := t.heap.Closed region ∧
    t.heap.Targets region ⊆ s.heap.Targets region ∧ t.entry = s.entry ∧
    ∃ removed, t.retired = s.retired ++ removed ∧
      ∀ n ∈ removed, n ∈ s.heap.Targets region ∧ (s.entry n).mm = mm
  have starts : ∀ bucket ∈ sweptHeads P who.cpu, .head bucket ∈ region := fun bucket member =>
    Heap.subset_reached _ ⟨bucket, member, rfl⟩
  refine (invalidateRange_rule (fun _ => Inv)
    (fun _ _ position t => Inv t ∧
      ∀ n ∈ position, n ∈ s.heap.Targets region ∧ .next n ∈ region)
    ?_ ?_ (fun holds => holds.1) ?_ ⟨Heap.closed_reached _, Set.Subset.rfl, rfl, [], by simp,
      nofun⟩ ran).2.2.2
  · rintro done bucket t member holds
    refine ⟨holds, fun n first => ?_⟩
    have here : n ∈ t.heap.Targets region := ⟨.head bucket, starts bucket member, first⟩
    exact ⟨holds.2.1 here, holds.1.next_mem here⟩
  · rintro done bucket n t t' count counts ⟨⟨closed, within, entry, removed, retired, own⟩, here⟩ ran
    obtain ⟨target, inside⟩ := here n rfl
    have next : ∀ k ∈ t.heap.next n, k ∈ s.heap.Targets region ∧ .next k ∈ region := by
      intro k successor
      have onward : k ∈ t.heap.Targets region := ⟨.next n, inside, successor⟩
      exact ⟨within onward, closed.next_mem onward⟩
    rcases sweepEntry_cases counts ran with ⟨_, rfl⟩ | swept
    · exact ⟨⟨closed, within, entry, removed, retired, own⟩, next⟩
    · obtain ⟨l, gone⟩ := swept.heap
      refine ⟨⟨closed.unlinked gone inside, (Heap.targets_unlinked gone inside).trans within,
        swept.entry.trans entry, removed ++ [n], ?_, fun k member => ?_⟩, next⟩
      · rw [swept.retired, retired, List.append_assoc]
      · rcases List.mem_append.mp member with earlier | last
        · exact own k earlier
        · obtain rfl := List.mem_singleton.mp last
          exact ⟨target, entry ▸ swept.own⟩
  · rintro done t slot ⟨closed, within, entry, removed, retired, own⟩
    have same := sameLists_freeExtSlot (P.socketIndex who.cpu) slot t
    exact ⟨same.heap ▸ closed, same.heap ▸ within, same.entry.trans entry, removed,
      same.retired.trans retired, own⟩

/-- A step appends such entries to the retired ones. -/
theorem CacheStep.retires {event : Event} (step : CacheStep P s event s')
    (wellFormed : WellFormed s) :
    ∃ removed, s'.retired = s.retired ++ removed ∧
      ∀ n ∈ removed, s.MayRetire P event.who event.call n := by
  cases step with
  | store fresh _ returns =>
      rcases returns.cases wellFormed fresh with
        ⟨_, _, _, same, _⟩ | ⟨_, accepted, bytes, entry, s₀, s₁, rfl, rfl, insertion⟩
      · exact ⟨[], by simp [same], nofun⟩
      · obtain ⟨removed, retired, displaced⟩ := insertion.retires wellFormed
        exact ⟨removed, retired, fun n member => ⟨accepted, displaced n member⟩⟩
  | lookup returns => exact ⟨[], by simp [returns.retired], nofun⟩
  | invalidate ran => exact invalidateRange_retires ran

end Retires

/-- In every state of a run whose calls only remove through sole links, retired entries
are unreachable and were retired once, and the next such call does not fault. -/
theorem reclamationSafe_of_soleRemovals {P : Platform} {events : List Event} {s : State}
    (run : ((cache P).guarded fun s event => SoleRemovals P s event.who event.call).Run events s) :
    ReclamationSafe P (SoleRemovals P) s := by
  have wellFormed := WellFormed.run run.unguard
  have reclaims : Reclaims s := by
    refine TransitionSystem.Run.invariant (fun _ s => Reclaims s ∧ WellFormed s) ?_ ?_ run |>.1
    · rintro s rfl
      exact ⟨.initial, .initial⟩
    · rintro events s event s' _ ⟨reclaims, wellFormed⟩ ⟨transition, sole⟩
      have step := cacheStep_iff.mp transition
      exact ⟨reclaims.step wellFormed sole step, wellFormed.step step⟩
  refine ⟨fun n retired h onChain => ?_, reclaims.once, fun fuel who call fresh sole =>
    reclaims.noPoison wellFormed fresh sole⟩
  exact (reclaims.rooted n (Heap.mem_targets_of_onChain onChain ⟨_, rfl⟩)).1 retired

/-- After one store its entry is the sole rival of the next store of the key. -/
theorem soleRivals_storeByte {s : State}
    (replayed : replay .oneNode 9 [⟨.on 0 0, .storeByte 5 1 10, .stored 0⟩] .initial = some s) :
    s.SoleRivals .oneNode (.on 0 1) 5 1 := by
  have run : (cache .oneNode).Run [⟨.on 0 0, .storeByte 5 1 10, .stored 0⟩] s :=
    ⟨.initial, rfl, steps_of_replay replayed⟩
  have node : (s.live, s.heap.next 10, s.heap.pprev 10) = ([10], none, .link (.head (.l3 0 5))) :=
    observe replayed (fun s => (s.live, s.heap.next 10, s.heap.pprev 10)) (by decide +kernel)
  simp only [Prod.mk.injEq] at node
  rintro o rival
  have inside : o ∈ s.live := by
    obtain ⟨l, _, designates⟩ := State.rivals_subset_rooted rival
    exact (WellFormed.run run).confined.read designates
  obtain rfl : o = 10 := by simpa [node.1] using inside
  refine soleLink_of_run [.l2 0 5, .l3 0 5] run (by decide) ?_ ?_
  · intro h used kept _
    obtain ⟨g, other, same⟩ | ⟨_, _, same⟩ := Heap.head_mem_of_reached kept
    · obtain rfl := Link.head.inj same
      rw [node.2.2]
      simp only [List.mem_cons, List.not_mem_nil, or_false] at used
      rw [used.resolve_left other]
    · cases same
  · simp [node]

/-- A store replaces the entry of its key, and a lookup on another CPU promotes the new one. -/
theorem reclamationSafe_replaced :
    ∃ s, (cache .oneNode).Run [⟨.on 0 0, .storeByte 5 1 10, .stored 0⟩,
        ⟨.on 0 1, .storeByte 5 1 11, .stored 0⟩, ⟨.on 1 2, .lookupUnified 5 1, .found (some 11)⟩] s ∧
      s.retired = [10] ∧ ReclamationSafe .oneNode (SoleRemovals .oneNode) s := by
  obtain ⟨s₁, before, stored⟩ := run_of_replay .oneNode 9
    ([] ++ [⟨.on 0 0, .storeByte 5 1 10, .stored 0⟩]) (by decide +kernel)
  have later : (replay .oneNode 9 [⟨.on 0 1, .storeByte 5 1 11, .stored 0⟩,
      ⟨.on 1 2, .lookupUnified 5 1, .found (some 11)⟩] s₁).map State.retired = some [10] :=
    observe stored (fun s => (replay .oneNode 9 [⟨.on 0 1, .storeByte 5 1 11, .stored 0⟩,
      ⟨.on 1 2, .lookupUnified 5 1, .found (some 11)⟩] s).map State.retired) (by decide +kernel)
  obtain ⟨s, replayed, retired⟩ := Option.map_eq_some_iff.mp later
  obtain ⟨s₂, replaced, rest⟩ := replay_cons replayed
  obtain ⟨s₀, start, store⟩ := before.last
  obtain rfl : s₀ = .initial := start.of_nil
  have alone : SoleRemovals .oneNode .initial (.on 0 0) (.storeByte 5 1 10) :=
    fun _ => State.soleRivals_initial _ _ _ _
  have sole : SoleRemovals .oneNode s₁ (.on 0 1) (.storeByte 5 1 11) :=
    fun _ => soleRivals_storeByte stored
  have both : ((cache .oneNode).guarded fun s event =>
      SoleRemovals .oneNode s event.who event.call).Run _ s₂ :=
    (start.guard_nil.guard_step store alone).guard_step replaced sole
  have run := both.guard_step (step_of_replay rest) trivial
  exact ⟨s, run.unguard, retired, reclamationSafe_of_soleRemovals run⟩

/-- Two keys that share an L2 bucket: the second store for the first key retires an
entry that the L3 bucket still leads to. -/
theorem not_reclamationSafe :
    ¬ ∀ events s, (cache .oneNode).Run events s →
      ReclamationSafe .oneNode (fun _ _ _ => True) s := by
  intro safe
  obtain ⟨s, run, replayed⟩ := run_of_replay .oneNode 9
    [⟨.on 0 0, .storeByte 0 1 10, .stored 0⟩, ⟨.on 0 0, .storeByte 64 1 11, .stored 0⟩,
      ⟨.on 0 0, .storeByte 0 1 12, .stored 0⟩] (by decide +kernel)
  have retired : s.retired = [10] := observe replayed State.retired (by decide +kernel)
  have visited : (s.heap.findEntry (· == 10) 9 (s.heap.first (.l3 0 0))).toOption =
      some (some 10) :=
    observe replayed (fun s => (s.heap.findEntry (· == 10) 9 (s.heap.first (.l3 0 0))).toOption)
      (by decide +kernel)
  have found : s.heap.Finds (· == 10) (.head (.l3 0 0)) (some 10) := .of_toOption visited
  exact (safe _ s run).unreachable 10 (by rw [retired]; simp) _ found.some.1

end Kcr
