import Kcr.Cache.Callbacks
import Kcr.Cache.Replacement

/-!
# Walks end

The loops over a chain have no bound: they end because the chain does. A removal that
goes through a stale `pprev` can write into a link behind the removed entry and close
the chain to a cycle; an insertion never does, since a new entry is on no chain and a
promoted one was not on the chain it is put in front of.
-/

namespace Kcr

open Hlist

/-- Every chain from a bucket head ends, and no call runs out of fuel for good. -/
structure WalksEnd (P : Platform) (Guard : State → Caller → Call → Prop) (s : State) : Prop where
  ends : ∀ h, s.heap.Ends (.head h)
  returns : ∀ who call, call.Walks → call.Fresh s → Guard s who call →
    ∃ fuel, ∀ more, fuel ≤ more → exec P more who s call ≠ .error .fuel

/-- The entries with the key on the two chains a store walks: where the `pprev` of one
names a link behind one of them, that link leads to it. -/
def State.UntangledRivals (P : Platform) (who : Caller) (fingerprint mm : U64) (s : State) :
    Prop :=
  ∀ o ∈ s.rivals P who fingerprint mm, ∀ o' ∈ s.rivals P who fingerprint mm,
    ∀ k, s.heap.OnChain (.next o') k → s.heap.pprev o = .link (.next k) → s.heap.next k = some o

/-- The `pprev` of an entry a call may remove names no link behind it: a rival of the
entry to store, or the entry a lookup promotes. -/
def Untangled (P : Platform) (s : State) (who : Caller) : Call → Prop
  | .storeResult fingerprint data len mm kzalloc kvmalloc =>
      StoreAccepted P who data len kzalloc kvmalloc s → s.UntangledRivals P who fingerprint mm
  | .lookupUnified fingerprint mm =>
      ∀ o, s.Promotes P who fingerprint mm o →
        ∀ k, s.heap.OnChain (.next o) k → s.heap.pprev o ≠ .link (.next k)
  | .invalidateRange _ _ _ => True

/-- The invariant: the chain of every bucket ends. -/
def State.Ends (s : State) : Prop := ∀ h, s.heap.Ends (.head h)

section Step

variable {P : Platform} {who : Caller} {fingerprint mm : U64} {entry : Node} {s s₁ s' : State}

theorem State.Ends.next (ends : s.Ends) {h : Head} {n : Node}
    (visited : s.heap.OnChain (.head h) n) : s.heap.Ends (.next n) :=
  (ends h).leads visited.leads

/-- A lookup that promotes an untangled entry. -/
theorem State.Ends.lookup (ends : s.Ends) {result : Option Node}
    (untangled : Untangled P s who (.lookupUnified fingerprint mm))
    (returns : LookupReturns P who fingerprint mm s result s') : s'.Ends := by
  rcases returns.heap_cases with same | ⟨n, l, mid, _, ⟨missed, found⟩, gone, added⟩
  · unfold State.Ends
    rw [same]
    exact ends
  · have behind := ends.next found.some.1
    have outside : ∀ k, s.heap.OnChain (.next n) k → l ≠ .next k := by
      rintro k visited rfl
      exact untangled n ⟨missed, found⟩ k visited gone.named
    have between : ∀ h, mid.Ends (.head h) := fun h => (ends h).unlinked gone behind outside
    have absent : ¬ mid.OnChain (.head (l2Head who.cpu fingerprint)) n := by
      intro visited
      rcases gone.onChain visited with onL2 | after
      · have rejected := missed.rejects onL2
        rw [found.some.2] at rejected
        cases rejected
      · exact behind.not_onChain_next after
    exact fun h => (between h).pushed added (between _) absent

/-- After the L2 insertion: chains end, the new entry is on no chain but that of the L2
head, and the entry the L3 search finds is still untangled. -/
structure Between (P : Platform) (who : Caller) (fingerprint : U64) (entry : Node) (s₁ : State) :
    Prop where
  ends : s₁.Ends
  unread : ∀ l, s₁.heap.read l = some entry → l = .head (l2Head who.cpu fingerprint)
  untangled : ∀ o k,
    s₁.heap.Finds (s₁.sameKey fingerprint (s₁.entry entry).mm)
      (.head (l3Head P who.cpu fingerprint)) (some o) →
    s₁.heap.OnChain (.next o) k → s₁.heap.pprev o ≠ .link (.next k)

/-- A rival's `pprev` does not name a link behind it. -/
theorem State.UntangledRivals.not_behind {o k : Node}
    (untangled : s.UntangledRivals P who fingerprint mm) (ends : s.Ends)
    (rival : o ∈ s.rivals P who fingerprint mm) (behind : s.heap.OnChain (.next o) k) :
    s.heap.pprev o ≠ .link (.next k) := by
  intro named
  have leads := untangled o rival o rival k behind named
  have finite : s.heap.Ends (.next o) := rival.2.elim ends.next ends.next
  exact finite.not_onChain_next ⟨_, behind.leads, leads⟩

/-- The removal of the L2 insertion keeps the chains finite. -/
theorem State.UntangledRivals.ends_of_removal {old : Option Node} {mid : Heap Head Node}
    (untangled : s.UntangledRivals P who fingerprint mm) (ends : s.Ends)
    (found : s.heap.Finds (s.sameKey fingerprint mm) (.head (l2Head who.cpu fingerprint)) old)
    (removal : Heap.Removal s.heap old mid) (h : Head) : mid.Ends (.head h) := by
  cases removal with
  | none => exact ends h
  | some gone =>
      refine (ends h).unlinked gone (ends.next found.some.1) ?_
      rintro k behind rfl
      exact untangled.not_behind ends ⟨found.some.2, .inl found.some.1⟩ behind gone.named

/-- It leaves the rivals on the L3 chain untangled. -/
theorem State.UntangledRivals.of_removal {old : Option Node} {mid : Heap Head Node}
    {o k : Node} (untangled : s.UntangledRivals P who fingerprint mm) (ends : s.Ends)
    (found : s.heap.Finds (s.sameKey fingerprint mm) (.head (l2Head who.cpu fingerprint)) old)
    (removal : Heap.Removal s.heap old mid)
    (onL3 : mid.OnChain (.head (l3Head P who.cpu fingerprint)) o)
    (sameKey : s.sameKey fingerprint mm o = true) (behind : mid.OnChain (.next o) k) :
    mid.pprev o ≠ .link (.next k) := by
  intro named
  have endsMid := untangled.ends_of_removal ends found removal
  cases removal with
  | none => exact untangled.not_behind ends ⟨sameKey, .inr onL3⟩ behind named
  | @some n l _ gone =>
      have rival : n ∈ s.rivals P who fingerprint mm := ⟨found.some.2, .inl found.some.1⟩
      have outside : ∀ k, s.heap.OnChain (.next n) k → l ≠ .next k := by
        rintro k behind rfl
        exact untangled.not_behind ends rival behind gone.named
      have oRival : o ∈ s.rivals P who fingerprint mm := by
        refine ⟨sameKey, ?_⟩
        rcases gone.onChain onL3 with before | after
        · exact .inr before
        · exact .inl (after.of_leads found.some.1.leads)
      rw [gone.pprev] at named
      split at named
      · cases named
      · split at named
        · next successor =>
          -- the removed entry's `pprev` has become that of its successor
          have named := Pprev.link.inj named
          rcases gone.onChain behind with own | after
          · exact outside k (.of_next successor own) named
          · exact outside k after named
        · rcases gone.onChain behind with own | after
          · exact untangled.not_behind ends oRival own named
          · -- the link leads to the entry, and still does after the removal
            have leads := untangled o oRival n rival k after named
            have still : mid.read (.next k) = some o :=
              (gone.read_other fun same => outside k after same.symm).trans leads
            exact ((endsMid _).leads onL3.leads).not_onChain_next ⟨_, behind.leads, still⟩

/-- The first insertion of a store. -/
theorem ReplaceReturns.between
    (inL2 : ReplaceReturns (l2Head who.cpu fingerprint) entry fingerprint s s₁)
    (ends : s.Ends) (unread : ∀ l, s.heap.read l ≠ some entry)
    (untangled : s.UntangledRivals P who fingerprint (s.entry entry).mm) :
    Between P who fingerprint entry s₁ := by
  obtain ⟨old, mid, found, removal, added, _⟩ := inL2.heap_cases
  have endsMid := untangled.ends_of_removal ends found removal
  have unreadMid : ∀ l, mid.read l ≠ some entry := by
    intro l designates
    rcases removal.read l with same | ⟨n, _, _, same⟩
    · exact unread l (same.symm.trans designates)
    · exact unread (.next n) (same.symm.trans designates)
  have notOnChain : ∀ {l}, ¬ mid.OnChain l entry := by
    rintro l ⟨m, _, designates⟩
    exact unreadMid m designates
  refine ⟨fun h => (endsMid h).pushed added (endsMid _) notOnChain, fun l designates => ?_, ?_⟩
  · rw [added.read] at designates
    split at designates
    · assumption
    · split at designates
      · exact absurd designates (unreadMid (.head _))
      · exact absurd designates (unreadMid l)
  · intro o k hit behind named
    have sameKey := hit.some.2
    rw [State.sameKey, inL2.entry_eq] at sameKey
    have onL3 := added.onChain_other unreadMid (m := .head (l3Head P who.cpu fingerprint))
      (fun same => l3Head_ne_l2Head (Link.head.inj same)) (by simp) hit.some.1
    have other : o ≠ entry := by
      rintro rfl
      exact notOnChain onL3
    have behindMid := added.onChain_other unreadMid (m := .next o) (by simp)
      (fun same => other (Link.next.inj same)) behind
    rw [added.pprev] at named
    split at named
    · obtain rfl := Link.next.inj (Pprev.link.inj named)
      exact notOnChain behindMid
    · exact untangled.of_removal ends found removal onL3 sameKey behindMid named

/-- The second insertion of a store. -/
theorem Between.ends_of_replace (between : Between P who fingerprint entry s₁)
    (inL3 : ReplaceReturns (l3Head P who.cpu fingerprint) entry fingerprint s₁ s') : s'.Ends := by
  obtain ⟨old, mid, found, removal, added, _⟩ := inL3.heap_cases
  -- only the L2 head leads to the new entry, and no walk comes to it from elsewhere
  have notOnChain : ∀ {l}, l ≠ .head (l2Head who.cpu fingerprint) →
      ¬ s₁.heap.OnChain l entry := by
    rintro l other ⟨m, path, designates⟩
    obtain rfl := between.unread m designates
    have reached : .head (l2Head who.cpu fingerprint) ∈ s₁.heap.Reached {l} := ⟨l, rfl, path⟩
    exact other (Heap.head_mem_of_reached reached).symm
  have notL2 : .head (l3Head P who.cpu fingerprint) ≠
      (.head (l2Head who.cpu fingerprint) : Link Head Node) :=
    fun same => l3Head_ne_l2Head (Link.head.inj same)
  cases removal with
  | none => exact fun h => (between.ends h).pushed added (between.ends _) (notOnChain notL2)
  | @some n l _ gone =>
      have endsMid : ∀ h, mid.Ends (.head h) := fun h =>
        (between.ends h).unlinked gone (between.ends.next found.some.1) (by
          rintro k behind rfl
          exact between.untangled n k found behind gone.named)
      refine fun h => (endsMid h).pushed added (endsMid _) fun visited => ?_
      rcases gone.onChain visited with before | after
      · exact notOnChain notL2 before
      · exact notOnChain (l := .next n) (by simp) after

end Step

/-! ## Runs -/

section Run

variable {P : Platform} {s s' : State}

/-- The guard of a store, after the entry has been allocated. -/
theorem Allocation.untangledRivals {who : Caller} {fingerprint : U64} {bytes : Nat → U8}
    {len : U32} {mm : U64} {entry : Node} {kvmalloc : U64} {s₀ : State}
    (allocation : Allocation P who fingerprint bytes len mm entry kvmalloc s s₀)
    (wellFormed : WellFormed s) (untangled : s.UntangledRivals P who fingerprint mm) :
    s₀.UntangledRivals P who fingerprint (s₀.entry entry).mm := by
  rw [allocation.key.2.1]
  unfold State.UntangledRivals
  rw [allocation.rivals_eq wellFormed, allocation.heap]
  exact untangled

/-- An untangled store or lookup keeps every chain finite. -/
theorem State.Ends.step (ends : s.Ends) (wellFormed : WellFormed s) {event : Event}
    (walks : event.call.Walks) (untangled : Untangled P s event.who event.call)
    (step : CacheStep P s event s') : s'.Ends := by
  cases step with
  | store fresh _ returns =>
      rcases returns.cases wellFormed fresh with
        ⟨_, sameHeap, _⟩ | ⟨_, accepted, bytes, entry, s₀, s₁, rfl, rfl, insertion⟩
      · unfold State.Ends
        rw [sameHeap]
        exact ends
      · have ends₀ : s₀.Ends := by
          unfold State.Ends
          rw [insertion.heap]
          exact ends
        have between := insertion.inL2.between (P := P) ends₀
          (fun l => by rw [insertion.heap]; exact wellFormed.unread insertion.fresh l)
          (insertion.untangledRivals wellFormed (untangled accepted))
        exact between.ends_of_replace insertion.inL3
  | lookup returns => exact ends.lookup untangled returns
  | invalidate => cases walks

/-- The search of an insertion does not run out of fuel for good. -/
theorem State.Ends.replaceIn (ends : s.Ends) (bucket : Head) (entry : Node) (fingerprint : U64) :
    ∃ fuel, ∀ more, fuel ≤ more → replaceIn more bucket entry fingerprint s ≠ .error .fuel := by
  obtain ⟨result, fuel, found⟩ :=
    (ends bucket).finds (s.sameKey fingerprint (s.entry entry).mm)
  refine ⟨fuel, fun more enough failed => ?_⟩
  obtain search | ⟨n, _, removed⟩ := replaceIn_error failed
  · rw [← Heap.read_head, Heap.findEntry_mono enough found] at search
    cases search
  · exact Heap.del_error removed rfl

/-- Nor do those of a lookup. -/
theorem State.Ends.lookupUnified (ends : s.Ends) (who : Caller) (fingerprint mm : U64) :
    ∃ fuel, ∀ more, fuel ≤ more →
      lookupUnified P more who fingerprint mm s ≠ .error .fuel := by
  obtain ⟨_, fuel, inL2⟩ := (ends (l2Head who.cpu fingerprint)).finds
    (s.accepts fingerprint mm who.jiffies)
  obtain ⟨_, fuel', inL3⟩ := (ends (l3Head P who.cpu fingerprint)).finds
    (s.accepts fingerprint mm who.jiffies)
  refine ⟨max fuel fuel', fun more enough failed => ?_⟩
  obtain ⟨h, rfl | rfl, search⟩ | ⟨n, _, removed⟩ := lookupUnified_error failed
  · rw [← Heap.read_head, Heap.findEntry_mono ((Nat.le_max_left _ _).trans enough) inL2] at search
    cases search
  · rw [← Heap.read_head, Heap.findEntry_mono ((Nat.le_max_right _ _).trans enough) inL3] at search
    cases search
  · exact Heap.del_error removed rfl

/-- From a state whose chains end, an untangled call returns or faults. -/
theorem State.Ends.returns (ends : s.Ends) (wellFormed : WellFormed s) {who : Caller} {call : Call}
    (walks : call.Walks) (fresh : call.Fresh s) (untangled : Untangled P s who call) :
    ∃ fuel, ∀ more, fuel ≤ more → exec P more who s call ≠ .error .fuel := by
  cases call with
  | invalidateRange => cases walks
  | lookupUnified fingerprint mm =>
      obtain ⟨fuel, returned⟩ := ends.lookupUnified (P := P) who fingerprint mm
      refine ⟨fuel, fun more enough failed => ?_⟩
      simp only [exec, bind, Except.bind, pure, Except.pure] at failed
      split at failed
      · next reason stopped =>
        obtain rfl := Except.error.inj failed
        exact returned more enough stopped
      · cases failed
  | storeResult fingerprint data len mm kzalloc kvmalloc =>
      have stops : ∀ {more}, exec P more who s
          (.storeResult fingerprint data len mm kzalloc kvmalloc) = .error .fuel →
          storeResult P more who fingerprint data len mm kzalloc kvmalloc s = .error .fuel := by
        intro more failed
        simp only [exec, bind, Except.bind, pure, Except.pure] at failed
        split at failed
        · next reason stopped =>
          obtain rfl := Except.error.inj failed
          exact stopped
        · cases failed
      obtain ⟨status, t, _, _, same⟩ | ⟨accepted, bytes, entry, s₀, rfl, rfl, prepared, same⟩ :=
        storeResult_cases P who fingerprint data len mm kzalloc kvmalloc s
      · refine ⟨0, fun more _ failed => ?_⟩
        have stopped := stops failed
        rw [same] at stopped
        cases stopped
      · have allocation := prepared.allocation wellFormed (fresh.1 entry rfl)
        have ends₀ : s₀.Ends := by
          unfold State.Ends
          rw [allocation.heap]
          exact ends
        obtain ⟨fuel, inL2⟩ := ends₀.replaceIn (l2Head who.cpu fingerprint) entry fingerprint
        -- the L3 walk starts from the state the L2 insertion leaves, if it leaves one
        have inL3 : ∃ fuel', ∀ s₁,
            ReplaceReturns (l2Head who.cpu fingerprint) entry fingerprint s₀ s₁ →
            ∀ more, fuel' ≤ more →
              Kcr.replaceIn more (l3Head P who.cpu fingerprint) entry fingerprint s₁ ≠
                .error .fuel := by
          by_cases stored : ∃ s₁,
              ReplaceReturns (l2Head who.cpu fingerprint) entry fingerprint s₀ s₁
          · obtain ⟨s₁, inserted⟩ := stored
            have between := inserted.between (P := P) ends₀
              (fun l => by rw [allocation.heap]; exact wellFormed.unread allocation.fresh l)
              (allocation.untangledRivals wellFormed (untangled accepted))
            obtain ⟨fuel', returned⟩ :=
              between.ends.replaceIn (l3Head P who.cpu fingerprint) entry fingerprint
            exact ⟨fuel', fun s₂ other => other.unique inserted ▸ returned⟩
          · exact ⟨0, fun s₁ inserted => absurd ⟨s₁, inserted⟩ stored⟩
        obtain ⟨fuel', inL3⟩ := inL3
        refine ⟨max fuel fuel', fun more enough failed => ?_⟩
        have stopped := stops failed
        rw [same] at stopped
        rcases insertions_error stopped with failedL2 | ⟨s₁, inserted, failedL3⟩
        · exact inL2 more ((Nat.le_max_left _ _).trans enough) failedL2
        · exact inL3 s₁ inserted more ((Nat.le_max_right _ _).trans enough) failedL3

/-- In every state of an orderly run of untangled stores and lookups all chains end, and the
next such call returns or faults. -/
theorem walksEnd_of_untangled {events : List RcuEvent}
    (run : (orderly P fun s who call => call.Walks ∧ Untangled P s who call).Run events s) :
    WalksEnd P (Untangled P) s := by
  obtain ⟨wellFormed, ends⟩ := orderly_invariant (fun _ s => s.Ends) (fun h => .of_none rfl)
    (fun wellFormed ends ⟨walks, untangled⟩ step => ends.step wellFormed walks untangled step)
    (fun _ ends _ _ h => (ends h).clear) run
  exact ⟨ends, fun who call walks fresh untangled => ends.returns wellFormed walks fresh untangled⟩

end Run

/-- An entry is replaced and freed, and a store of another key gets its memory. -/
theorem walksEnd_of_untangled_reused :
    ∃ s, (reclaiming .oneNode).Run [.call ⟨.on 0 0, .storeByte 5 1 10, .stored 0⟩,
        .call ⟨.on 0 1, .storeByte 5 1 11, .stored 0⟩, .freeEntryRcu 10,
        .call ⟨.on 0 2, .storeByte 69 1 10, .stored 0⟩] s ∧
      WalksEnd .oneNode (Untangled .oneNode) s := by
  obtain ⟨s₁, s₂, two⟩ := twoStores_run
  have named : s₁.heap.pprev 10 = .link (.head (.l3 0 5)) :=
    observe two.stored (fun s => s.heap.pprev 10) (by decide +kernel)
  have reused : (replay .oneNode 9 [⟨.on 0 2, .storeByte 69 1 10, .stored 0⟩]
      (s₂.freeEntryRcu 10)).isSome = true :=
    observe two.both (fun s => (replay .oneNode 9 [⟨.on 0 2, .storeByte 69 1 10, .stored 0⟩]
      (s.freeEntryRcu 10)).isSome) (by decide +kernel)
  obtain ⟨s, reused⟩ := Option.isSome_iff_exists.mp reused
  have first : Untangled .oneNode .initial (.on 0 0) (.storeByte 5 1 10) := by
    rintro _ o ⟨_, ⟨l, _, designates⟩ | ⟨l, _, designates⟩⟩ <;>
      simp [State.initial] at designates
  have prior : (orderly .oneNode fun s who call =>
      call.Walks ∧ Untangled .oneNode s who call).Run twoStores (s₂.freeEntryRcu 10) := by
    refine two.run ⟨trivial, first⟩ fun run => ⟨trivial, ?_⟩
    rintro _ o ⟨_, visited⟩ _ _ k _ behind
    have confined := (WellFormed.orderly run).confined
    have inside := visited.elim confined.onChain confined.onChain
    obtain rfl : o = 10 := by simpa [two.live] using inside
    rw [named] at behind
    cases behind
  have third : Untangled .oneNode (s₂.freeEntryRcu 10) (.on 0 2) (.storeByte 69 1 10) := by
    rintro _ o ⟨sameKey, ⟨l, _, designates⟩ | ⟨l, _, designates⟩⟩ <;>
      exact absurd sameKey (two.not_sameKey (.orderly prior) designates (by decide))
  have run := orderly_call prior (step_of_replay reused) ⟨trivial, third⟩
  exact ⟨s, run.unguard, walksEnd_of_untangled run⟩

/-- Three keys in one L2 bucket, the second stored twice and a promotion in between: the
second entry's `pprev` names a link behind it when it is replaced a third time. -/
theorem not_walksEnd :
    ¬ ∀ events s, (cache .oneNode).Run events s → (∀ event ∈ events, event.call.Walks) →
      events.Pairwise (fun earlier later => earlier.who.jiffies ≤ later.who.jiffies) →
      WalksEnd .oneNode (fun _ _ _ => True) s := by
  intro finite
  obtain ⟨s, run, replayed⟩ := run_of_replay .oneNode 9
    [⟨.on 0 0, .storeByte 0 1 10, .stored 0⟩, ⟨.on 0 0, .storeByte 512 1 11, .stored 0⟩,
      ⟨.on 0 0, .storeByte 64 1 12, .stored 0⟩, ⟨.on 0 0, .storeByte 512 1 13, .stored 0⟩,
      ⟨.on 0 0, .storeByte 128 1 14, .stored 0⟩,
      ⟨.on 0 0, .lookupUnified 0 1, .found (some 10)⟩,
      ⟨.on 0 0, .storeByte 512 1 15, .stored 0⟩] (by decide +kernel)
  have links : [s.heap.first (.l3 0 0), s.heap.next 15, s.heap.next 13, s.heap.next 11,
      s.heap.next 10, s.heap.next 14] =
      [some 15, some 13, some 11, some 10, some 14, some 11] :=
    observe replayed (fun s => [s.heap.first (.l3 0 0), s.heap.next 15, s.heap.next 13,
      s.heap.next 11, s.heap.next 10, s.heap.next 14]) (by decide +kernel)
  simp only [List.cons.injEq, and_true] at links
  obtain ⟨first, next15, next13, next11, next10, next14⟩ := links
  have ends := (finite _ s run (by simp [Call.Walks, Call.storeByte]) (by simp [Caller.on])).ends
    (.l3 0 0)
  have cycle : s.heap.OnChain (.next 11) 11 :=
    .of_next next11 (.of_next next10 (.of_read next14))
  have visited : s.heap.OnChain (.head (.l3 0 0)) 11 :=
    .of_next first (.of_next next15 (.of_read next13))
  exact (ends.leads visited.leads).not_onChain_next cycle

end Kcr
