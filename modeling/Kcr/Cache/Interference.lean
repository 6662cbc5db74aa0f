import Kcr.Cache.Buckets

/-!
# Non-interference between hash classes

Hash classes colour the heads. Entries take the colour of the store that creates them,
and the lists stay coloured whatever the `pprev` fields name. Keeping one class
therefore commutes with every call, and the calls of the other classes can be deleted
from a run.
-/

namespace Kcr

open Hlist

/-- The second state is the first one without the entries of other classes than `kept`. -/
structure Projects (P : Platform) (colour : Node → HashClass) (kept : HashClass)
    (s t : State) : Prop where
  confined : s.heap.Confined {n | n ∈ s.live}
  coloured : s.heap.Coloured (Head.hashClass P) colour
  heap : t.heap = s.heap.restrict (Head.hashClass P) colour kept
  entry : ∀ n ∈ s.live, colour n = kept → t.entry n = s.entry n
  live : ∀ n, n ∈ t.live ↔ n ∈ s.live ∧ colour n = kept

namespace Projects

variable {P : Platform} {colour : Node → HashClass} {kept : HashClass} {s s' t t' : State}
  {who : Caller} {fingerprint mm : U64} {n : Node} {bucket : Head} {result : Option Node}

/-- The empty caches without any class are the empty caches. -/
theorem initial : Projects P colour kept .initial .initial where
  confined := Heap.confined_empty _
  coloured := .empty
  heap := Heap.restrict_empty.symm
  entry n member := by simp [State.initial] at member
  live n := by simp [State.initial]

theorem reduced_confined (projects : Projects P colour kept s t) :
    t.heap.Confined {n | n ∈ t.live} := by
  have sets : {n | n ∈ t.live} = {n | n ∈ {n | n ∈ s.live} ∧ colour n = kept} := by
    ext n
    exact projects.live n
  rw [sets, projects.heap]
  exact projects.confined.restrict projects.coloured

/-- Changes that the lists do not show. -/
theorem congr (projects : Projects P colour kept s t) (left : SameLists s s')
    (right : SameLists t t') : Projects P colour kept s' t' := by
  refine ⟨?_, ?_, ?_, ?_, ?_⟩
  · rw [left.heap, left.live]
    exact projects.confined
  · rw [left.heap]
    exact projects.coloured
  · rw [right.heap, left.heap]
    exact projects.heap
  · rw [right.entry, left.entry, left.live]
    exact projects.entry
  · rw [right.live, left.live]
    exact projects.live

/-- A search on behalf of the kept class returns the same entry. -/
theorem finds (projects : Projects P colour kept s t) {test test' : Node → Bool}
    (same : ∀ n, t.entry n = s.entry n → test' n = test n)
    (place : bucket.hashClass P = kept) (found : s.heap.Finds test (.head bucket) result) :
    t.heap.Finds test' (.head bucket) result := by
  have place' : (Link.head bucket : Link Head Node).colour (Head.hashClass P) colour = kept :=
    place
  rw [projects.heap]
  refine found.restrict projects.coloured (fun {l m} designates colourM => ?_) place'
  exact same m (projects.entry m (projects.confined.read designates) colourM)

/-! ### Removal and insertion -/

/-- Removing an entry of the kept class happens in both states. -/
theorem removed (projects : Projects P colour kept s t) (own : colour n = kept)
    {heap : Heap Head Node} (removed : s.heap.hlistDelRcu n = .ok heap) (r r' : List Node) :
    ∃ heap', t.heap.hlistDelRcu n = .ok heap' ∧
      Projects P colour kept { s with heap := heap, retired := r }
        { t with heap := heap', retired := r' } := by
  obtain ⟨l, gone⟩ := Heap.unlinked_of_del removed
  refine ⟨heap.restrict (Head.hashClass P) colour kept, ?_, projects.confined.unlinked gone,
    projects.coloured.unlinked gone, rfl, projects.entry, projects.live⟩
  rw [projects.heap]
  exact Heap.restrict_del projects.coloured own removed

/-- Removing an entry of another class happens in the first state only. -/
theorem removed_other (projects : Projects P colour kept s t) (other : colour n ≠ kept)
    {heap : Heap Head Node} (removed : s.heap.hlistDelRcu n = .ok heap) (r : List Node) :
    Projects P colour kept { s with heap := heap, retired := r } t := by
  obtain ⟨l, gone⟩ := Heap.unlinked_of_del removed
  refine ⟨projects.confined.unlinked gone, projects.coloured.unlinked gone, ?_, projects.entry,
    projects.live⟩
  rw [projects.heap]
  exact (Heap.restrict_del_other projects.coloured other removed).symm

theorem pushed (projects : Projects P colour kept s t) (inside : n ∈ s.live)
    (own : colour n = kept) (place : bucket.hashClass P = kept) :
    Projects P colour kept { s with heap := s.heap.hlistAddHeadRcu n bucket }
      { t with heap := t.heap.hlistAddHeadRcu n bucket } := by
  have added := Heap.pushed_add s.heap n bucket
  have same : bucket.hashClass P = colour n := place.trans own.symm
  refine ⟨projects.confined.pushed inside added, projects.coloured.pushed added same, ?_,
    projects.entry, projects.live⟩
  rw [Heap.restrict_add projects.coloured own same, ← projects.heap]

theorem pushed_other (projects : Projects P colour kept s t) (inside : n ∈ s.live)
    (other : colour n ≠ kept) (place : bucket.hashClass P = colour n) :
    Projects P colour kept { s with heap := s.heap.hlistAddHeadRcu n bucket } t := by
  have added := Heap.pushed_add s.heap n bucket
  refine ⟨projects.confined.pushed inside added, projects.coloured.pushed added place, ?_,
    projects.entry, projects.live⟩
  rw [Heap.restrict_add_other projects.coloured other place, ← projects.heap]

/-! ### Lookup -/

theorem lookup (projects : Projects P colour kept s t)
    (own : hashClass P who.cpu fingerprint = kept)
    (returns : LookupReturns P who fingerprint mm s result s') :
    ∃ t', LookupReturns P who fingerprint mm t result t' ∧ Projects P colour kept s' t' := by
  have placeL2 := (hashClass_l2Head P who.cpu fingerprint).trans own
  have placeL3 := (hashClass_l3Head P who.cpu fingerprint).trans own
  have test : ∀ n, t.entry n = s.entry n → t.accepts fingerprint mm who.jiffies n =
      s.accepts fingerprint mm who.jiffies n := by
    intro n same
    simp [State.accepts, same]
  cases returns with
  | l2Hit found =>
      exact ⟨_, .l2Hit (projects.finds test placeL2 found),
        projects.congr (sameLists_thisCpuInc ..) (sameLists_thisCpuInc ..)⟩
  | @l3Hit n heap missed found removed =>
      have onL3 := found.some.1
      have colourN : colour n = kept := (projects.coloured.onChain onL3).trans placeL3
      have inside : n ∈ s.live := projects.confined.onChain onL3
      obtain ⟨heap', removed', between⟩ := projects.removed colourN removed s.retired t.retired
      exact ⟨_, .l3Hit (projects.finds test placeL2 missed) (projects.finds test placeL3 found)
        removed', (between.pushed inside colourN placeL2).congr (sameLists_thisCpuInc ..)
          (sameLists_thisCpuInc ..)⟩
  | miss missed missedL3 =>
      exact ⟨_, .miss (projects.finds test placeL2 missed) (projects.finds test placeL3 missedL3),
        projects.congr (sameLists_thisCpuInc ..) (sameLists_thisCpuInc ..)⟩

theorem lookup_other (projects : Projects P colour kept s t)
    (other : hashClass P who.cpu fingerprint ≠ kept)
    (returns : LookupReturns P who fingerprint mm s result s') :
    Projects P colour kept s' t := by
  cases returns with
  | l2Hit | miss => exact projects.congr (sameLists_thisCpuInc ..) (.refl t)
  | @l3Hit n heap missed found removed =>
      have onL3 := found.some.1
      have colourN : colour n = hashClass P who.cpu fingerprint :=
        (projects.coloured.onChain onL3).trans (hashClass_l3Head ..)
      have inside : n ∈ s.live := projects.confined.onChain onL3
      have dropped : colour n ≠ kept := fun same => other (colourN.symm.trans same)
      have between := projects.removed_other dropped removed s.retired
      exact (between.pushed_other inside dropped
        ((hashClass_l2Head ..).trans colourN.symm)).congr (sameLists_thisCpuInc ..) (.refl t)

/-! ### Store -/

theorem replace (projects : Projects P colour kept s t) (inside : n ∈ s.live)
    (own : colour n = kept) (place : bucket.hashClass P = kept)
    (returns : ReplaceReturns bucket n fingerprint s s') :
    ∃ t', ReplaceReturns bucket n fingerprint t t' ∧ Projects P colour kept s' t' := by
  have test : ∀ m, t.entry m = s.entry m → t.sameKey fingerprint (t.entry n).mm m =
      s.sameKey fingerprint (s.entry n).mm m := by
    intro m same
    simp [State.sameKey, same, projects.entry n inside own]
  cases returns with
  | inserted missed =>
      exact ⟨_, .inserted (projects.finds test place missed), projects.pushed inside own place⟩
  | @replaced old heap found removed =>
      have colourOld : colour old = kept := (projects.coloured.onChain found.some.1).trans place
      obtain ⟨heap', removed', between⟩ :=
        projects.removed colourOld removed (s.retired ++ [old]) (t.retired ++ [old])
      exact ⟨_, .replaced (projects.finds test place found) removed',
        between.pushed inside own place⟩

theorem replace_other (projects : Projects P colour kept s t) (inside : n ∈ s.live)
    (other : colour n ≠ kept) (place : bucket.hashClass P = colour n)
    (returns : ReplaceReturns bucket n fingerprint s s') : Projects P colour kept s' t := by
  cases returns with
  | inserted missed => exact projects.pushed_other inside other place
  | @replaced old heap found removed =>
      have colourOld : colour old = colour n := (projects.coloured.onChain found.some.1).trans place
      have between := projects.removed_other (fun same => other (colourOld.symm.trans same)) removed
        (s.retired ++ [old])
      exact between.pushed_other inside other place

/-- Allocating an entry of the kept class, in both states. -/
theorem allocated (projects : Projects P colour kept s t) (fresh : n ∉ s.live) (e : Entry) :
    Projects P (Function.update colour n kept) kept ((s.kzalloc n).setEntry n e)
      ((t.kzalloc n).setEntry n e) := by
  have others : ∀ m ∈ s.live, Function.update colour n kept m = colour m := fun m inside =>
    Function.update_of_ne (ne_of_mem_of_not_mem inside fresh) _ _
  have fresh' : n ∉ t.live := fun inside => fresh ((projects.live n).mp inside).1
  have heap : ((s.kzalloc n).setEntry n e).heap = s.heap := s.kzalloc_heap projects.confined fresh
  have heap' : ((t.kzalloc n).setEntry n e).heap = t.heap :=
    t.kzalloc_heap projects.reduced_confined fresh'
  refine ⟨?_, ?_, ?_, fun m inside own => ?_, fun m => ?_⟩
  · rw [heap]
    exact projects.confined.mono fun m inside => List.mem_cons_of_mem n inside
  · rw [heap]
    exact projects.coloured.recolour projects.confined others
  · rw [heap, heap', Heap.restrict_congr projects.confined others]
    exact projects.heap
  · by_cases new : m = n
    · rw [new, State.setEntry_self, State.setEntry_self]
    · have inside : m ∈ s.live := (List.mem_cons.mp inside).resolve_left new
      rw [others m inside] at own
      simpa [State.setEntry, State.kzalloc, new] using projects.entry m inside own
  · by_cases new : m = n
    · simp [new, State.setEntry, State.kzalloc]
    · simpa [new, State.setEntry, State.kzalloc] using projects.live m

/-- Allocating an entry of another class, in the first state. -/
theorem allocated_other (projects : Projects P colour kept s t) (fresh : n ∉ s.live) (e : Entry)
    {c : HashClass} (other : c ≠ kept) :
    Projects P (Function.update colour n c) kept ((s.kzalloc n).setEntry n e) t := by
  have others : ∀ m ∈ s.live, Function.update colour n c m = colour m := fun m inside =>
    Function.update_of_ne (ne_of_mem_of_not_mem inside fresh) _ _
  have fresh' : n ∉ t.live := fun inside => fresh ((projects.live n).mp inside).1
  have heap : ((s.kzalloc n).setEntry n e).heap = s.heap := s.kzalloc_heap projects.confined fresh
  refine ⟨?_, ?_, ?_, fun m inside own => ?_, fun m => ?_⟩
  · rw [heap]
    exact projects.confined.mono fun m inside => List.mem_cons_of_mem n inside
  · rw [heap]
    exact projects.coloured.recolour projects.confined others
  · rw [heap, Heap.restrict_congr projects.confined others]
    exact projects.heap
  · by_cases new : m = n
    · rw [new, Function.update_self] at own
      exact absurd own other
    · have inside : m ∈ s.live := (List.mem_cons.mp inside).resolve_left new
      rw [others m inside] at own
      simpa [State.setEntry, State.kzalloc, new] using projects.entry m inside own
  · by_cases new : m = n
    · simp [new, fresh', other]
    · simpa [new, State.setEntry, State.kzalloc] using projects.live m

section Store

variable {data : Option (Nat → U8)} {len : U32} {kzalloc : Option Node} {kvmalloc : U64}
  {status : Int}

theorem store (projects : Projects P colour kept s t) (short : len.toNat ≤ kcrResultSizeMax)
    (fresh : ∀ n ∈ kzalloc, n ∉ s.live) (own : hashClass P who.cpu fingerprint = kept)
    (returns : StoreReturns P who fingerprint data len mm kzalloc kvmalloc s status s') :
    ∃ colour' t', StoreReturns P who fingerprint data len mm kzalloc kvmalloc t status t' ∧
      Projects P colour' kept s' t' := by
  cases returns with
  | invalid bad => exact ⟨colour, t, .invalid bad, projects⟩
  | noEntry given nonempty failed => exact ⟨colour, t, .noEntry given nonempty failed, projects⟩
  | noBuffer _ _ _ long _ => exact absurd long (Nat.not_lt.mpr short)
  | @stored bytes n s₀ s₁ _ given nonempty got prepared inL2 inL3 =>
      cases prepared with
      | external long _ _ => exact absurd long (Nat.not_lt.mpr short)
      | inline =>
          have start := projects.allocated (fresh n got)
            (storeInline bytes len (initEntry P who fingerprint mm .zeroed))
          have colourN : Function.update colour n kept n = kept := Function.update_self ..
          obtain ⟨t₁, inL2', afterL2⟩ := start.replace List.mem_cons_self colourN
            ((hashClass_l2Head ..).trans own) inL2
          have inside : n ∈ s₁.live := by
            rw [inL2.live_eq]
            exact List.mem_cons_self
          obtain ⟨t₂, inL3', afterL3⟩ := afterL2.replace inside colourN
            ((hashClass_l3Head ..).trans own) inL3
          exact ⟨_, t₂, .stored given nonempty got (.inline short) inL2' inL3', afterL3⟩

theorem store_other (projects : Projects P colour kept s t)
    (short : len.toNat ≤ kcrResultSizeMax) (fresh : ∀ n ∈ kzalloc, n ∉ s.live)
    (other : hashClass P who.cpu fingerprint ≠ kept)
    (returns : StoreReturns P who fingerprint data len mm kzalloc kvmalloc s status s') :
    ∃ colour', Projects P colour' kept s' t := by
  cases returns with
  | invalid | noEntry => exact ⟨colour, projects⟩
  | noBuffer _ _ _ long _ => exact absurd long (Nat.not_lt.mpr short)
  | @stored bytes n s₀ s₁ _ given nonempty got prepared inL2 inL3 =>
      cases prepared with
      | external long _ _ => exact absurd long (Nat.not_lt.mpr short)
      | inline =>
          have start := projects.allocated_other (fresh n got)
            (storeInline bytes len (initEntry P who fingerprint mm .zeroed)) other
          have colourN : Function.update colour n (hashClass P who.cpu fingerprint) n =
              hashClass P who.cpu fingerprint := Function.update_self ..
          have dropped := fun same => other (colourN.symm.trans same)
          have afterL2 := start.replace_other List.mem_cons_self dropped
            ((hashClass_l2Head ..).trans colourN.symm) inL2
          have inside : n ∈ s₁.live := by
            rw [inL2.live_eq]
            exact List.mem_cons_self
          exact ⟨_, afterL2.replace_other inside dropped
            ((hashClass_l3Head ..).trans colourN.symm) inL3⟩

end Store

/-! ### Invalidation -/

section Sweep

variable {count : State → State} {fuel : Nat} {start stop : U64} {buckets : List Head}

theorem sweptEntry (projects : Projects P colour kept s t) (counts : SweepCount P who.cpu count)
    (own : colour n = kept) (inside : n ∈ s.live) (ran : sweepEntry mm count n s = .ok s') :
    ∃ t', sweepEntry mm count n t = .ok t' ∧ Projects P colour kept s' t' := by
  unfold sweepEntry at ran ⊢
  rw [projects.entry n inside own]
  by_cases ownMm : (s.entry n).mm = mm
  · simp only [if_pos ownMm, bind, Except.bind, pure, Except.pure] at ran ⊢
    cases removed : s.heap.hlistDelRcu n with
    | error reason => simp [removed] at ran
    | ok heap =>
        simp only [removed, Except.ok.injEq] at ran
        subst ran
        obtain ⟨heap', removed', after⟩ :=
          projects.removed own removed (s.retired ++ [n]) (t.retired ++ [n])
        exact ⟨_, by rw [removed']; rfl, after.congr (counts.sameLists _) (counts.sameLists _)⟩
  · simp only [if_neg ownMm, pure, Except.pure, Except.ok.injEq] at ran ⊢
    exact ⟨t, rfl, ran ▸ projects⟩

theorem sweptEntry_other (projects : Projects P colour kept s t)
    (counts : SweepCount P who.cpu count) (other : colour n ≠ kept)
    (ran : sweepEntry mm count n s = .ok s') : Projects P colour kept s' t := by
  unfold sweepEntry at ran
  split at ran
  · simp only [bind, Except.bind, pure, Except.pure] at ran
    cases removed : s.heap.hlistDelRcu n with
    | error reason => simp [removed] at ran
    | ok heap =>
        simp only [removed, Except.ok.injEq] at ran
        subst ran
        exact (projects.removed_other other removed _).congr (counts.sameLists _) (.refl t)
  · simp only [pure, Except.pure, Except.ok.injEq] at ran
    exact ran ▸ projects

/-- The walk of a bucket of the kept class visits the same entries in both states; a
bucket of another class is empty in the second state. -/
theorem sweptBucket (projects : Projects P colour kept s t) (counts : SweepCount P who.cpu count)
    (ran : sweepBucket fuel mm count bucket s = .ok s') :
    ∃ t', sweepBucket fuel mm count bucket t = .ok t' ∧ Projects P colour kept s' t' := by
  have first : t.heap.first bucket =
      if bucket.hashClass P = kept then s.heap.first bucket else none := by
    rw [projects.heap]
    rfl
  have start : ∀ n, s.heap.first bucket = some n → colour n = bucket.hashClass P ∧ n ∈ s.live :=
    fun n designates => ⟨projects.coloured.read (l := .head bucket) designates,
      projects.confined.read (l := .head bucket) designates⟩
  unfold sweepBucket at ran ⊢
  by_cases place : bucket.hashClass P = kept
  · rw [first, if_pos place]
    let Related (position : Option Node) (s t : State) : Prop :=
      (∀ n ∈ position, colour n = kept ∧ n ∈ s.live) ∧ Projects P colour kept s t
    have step : ∀ {n u u' v}, Related (some n) u v → sweepEntry mm count n u = .ok u' →
        ∃ v', sweepEntry mm count n v = .ok v' ∧ v.heap.next n = u.heap.next n ∧
          Related (u.heap.next n) u' v' := by
      rintro n u u' v ⟨here, related⟩ ran
      obtain ⟨own, inside⟩ := here n rfl
      obtain ⟨v', ran', related'⟩ := related.sweptEntry counts own inside ran
      have live : u'.live = u.live := by
        rcases sweepEntry_cases counts ran with ⟨_, rfl⟩ | swept
        · rfl
        · exact swept.live
      refine ⟨v', ran', ?_, fun m successor => ?_, related'⟩
      · rw [related.heap]
        exact if_pos own
      · have designates : u.heap.read (.next n) = some m := successor
        rw [live]
        exact ⟨(related.coloured.read designates).trans own, related.confined.read designates⟩
    have atStart : Related (s.heap.first bucket) s t :=
      ⟨fun n designates => ⟨(start n designates).1.trans place, (start n designates).2⟩, projects⟩
    obtain ⟨t', ran', _, projects'⟩ := Heap.forEachSafe_simulates
      (fun (s : State) n => s.heap.next n) (sweepEntry mm count) Related step atStart ran
    exact ⟨t', ran', projects'⟩
  · rw [first, if_neg place]
    refine ⟨t, by cases fuel <;> rfl, ?_⟩
    refine (Heap.forEachSafe_rule (fun position s => (∀ n ∈ position, colour n ≠ kept) ∧
      Projects P colour kept s t) ?_ ⟨?_, projects⟩ ran).2
    · rintro n u u' ⟨here, related⟩ ran
      have other := here n rfl
      refine ⟨fun m successor same => other ?_, related.sweptEntry_other counts other ran⟩
      exact (related.coloured.read (l := .next n) successor).symm.trans same
    · intro n designates same
      exact place ((start n designates).1.symm.trans same)

theorem sweptBuckets (projects : Projects P colour kept s t) (counts : SweepCount P who.cpu count)
    (ran : sweepBuckets fuel mm count buckets s = .ok s') :
    ∃ t', sweepBuckets fuel mm count buckets t = .ok t' ∧ Projects P colour kept s' t' := by
  induction buckets generalizing s t with
  | nil =>
      obtain rfl := Except.ok.inj ran
      exact ⟨t, rfl, projects⟩
  | cons bucket buckets ih =>
      simp only [sweepBuckets, bind, Except.bind] at ran ⊢
      cases swept : sweepBucket fuel mm count bucket s with
      | error reason => simp [swept] at ran
      | ok mid =>
          rw [swept] at ran
          obtain ⟨mid', swept', between⟩ := projects.sweptBucket counts swept
          rw [swept']
          exact ih between ran

theorem invalidate (projects : Projects P colour kept s t)
    (ran : invalidateRange P fuel who mm start stop s = .ok s') :
    ∃ t', invalidateRange P fuel who mm start stop t = .ok t' ∧
      Projects P colour kept s' t' := by
  simp only [invalidateRange, bind, Except.bind, pure, Except.pure] at ran ⊢
  split at ran
  · cases ran
  · next s₁ sweptL2 =>
    split at ran
    · cases ran
    · next s₂ sweptL3 =>
      obtain rfl := Except.ok.inj ran
      obtain ⟨t₁, sweptL2', afterL2⟩ := projects.sweptBuckets .l2 sweptL2
      obtain ⟨t₂, sweptL3', afterL3⟩ := afterL2.sweptBuckets (.l3 : SweepCount P who.cpu id) sweptL3
      rw [sweptL2']
      simp only [sweptL3']
      exact ⟨_, rfl, afterL3.congr (sameLists_freeExtSlots ..) (sameLists_freeExtSlots ..)⟩

end Sweep

end Projects

/-! ## Runs -/

/-- The call belongs to the class, or is an invalidation. -/
def Event.keptBy (P : Platform) (kept : HashClass) (event : Event) : Bool :=
  match event.call with
  | .storeResult fingerprint _ _ _ _ _ => hashClass P event.who.cpu fingerprint == kept
  | .lookupUnified fingerprint _ => hashClass P event.who.cpu fingerprint == kept
  | .invalidateRange _ _ _ => true

/-- If the call is a store, its data fits into the entry. -/
def Event.Inline (event : Event) : Prop :=
  match event.call with
  | .storeResult _ _ len _ _ _ => len.toNat ≤ kcrResultSizeMax
  | _ => True

section Runs

variable {P : Platform} {s s' t t' : State} {event : Event}

/-- Without large stores no external buffer ever exists. -/
theorem CacheStep.no_buffers (step : CacheStep P s event s') (inline : event.Inline)
    (empty : ∀ pointer, s.buffers pointer = none) (pointer : U64) : s'.buffers pointer = none := by
  cases step with
  | store _ _ returns =>
      cases returns with
      | invalid | noEntry => exact empty pointer
      | noBuffer _ _ _ long _ => exact absurd long (Nat.not_lt.mpr inline)
      | stored _ _ _ prepared inL2 inL3 =>
          rw [inL3.buffers_eq, inL2.buffers_eq]
          cases prepared with
          | inline => exact empty pointer
          | external long _ _ => exact absurd long (Nat.not_lt.mpr inline)
  | lookup returns =>
      rw [returns.buffers]
      exact empty pointer
  | @invalidate who _ _ _ _ _ ran =>
      refine invalidateRange_rule (fun _ s => s.buffers pointer = none)
        (fun _ _ _ s => s.buffers pointer = none) (fun _ holds => holds) ?_
        (fun holds => holds) ?_ (empty pointer) ran
      · intro done bucket n u u' count counts holds ran
        rcases sweepEntry_cases counts ran with ⟨_, rfl⟩ | swept
        · exact holds
        · rw [swept.buffers]
          exact holds
      · intro done u slot holds
        unfold freeExtSlot
        split
        · exact holds
        · simp only [Function.update_apply]
          split
          · rfl
          · exact holds

/-- A run's state next to the state its calls of one class reach. -/
def Reduced (P : Platform) (kept : HashClass) (s t : State) : Prop :=
  (∃ colour, Projects P colour kept s t) ∧ ∀ pointer, t.buffers pointer = none

variable {kept : HashClass}

/-- A call of the kept class, or an invalidation, does the same in the reduced state. -/
theorem Reduced.step (reduced : Reduced P kept s t) (inline : event.Inline)
    (own : event.keptBy P kept = true) (step : CacheStep P s event s') :
    ∃ t', CacheStep P t event t' ∧ Reduced P kept s' t' := by
  obtain ⟨⟨colour, projects⟩, noBuffers⟩ := reduced
  cases step with
  | store fresh _ returns =>
      obtain ⟨colour', t', returns', projects'⟩ :=
        projects.store inline fresh (beq_iff_eq.mp own) returns
      have fresh' := fun n got inside => fresh n got ((projects.live n).mp inside).1
      have step' := CacheStep.store (P := P) fresh' (fun _ => noBuffers _) returns'
      exact ⟨t', step', ⟨colour', projects'⟩, step'.no_buffers inline noBuffers⟩
  | lookup returns =>
      obtain ⟨t', returns', projects'⟩ := projects.lookup (beq_iff_eq.mp own) returns
      have step' := CacheStep.lookup returns'
      exact ⟨t', step', ⟨colour, projects'⟩, step'.no_buffers inline noBuffers⟩
  | invalidate ran =>
      obtain ⟨t', ran', projects'⟩ := projects.invalidate ran
      have step' := CacheStep.invalidate ran'
      exact ⟨t', step', ⟨colour, projects'⟩, step'.no_buffers inline noBuffers⟩

/-- A call of another class does nothing to the reduced state. -/
theorem Reduced.skip (reduced : Reduced P kept s t) (inline : event.Inline)
    (other : event.keptBy P kept = false) (step : CacheStep P s event s') :
    Reduced P kept s' t := by
  obtain ⟨⟨colour, projects⟩, noBuffers⟩ := reduced
  cases step with
  | store fresh _ returns =>
      obtain ⟨colour', projects'⟩ :=
        projects.store_other inline fresh (beq_eq_false_iff_ne.mp other) returns
      exact ⟨⟨colour', projects'⟩, noBuffers⟩
  | lookup returns =>
      exact ⟨⟨colour, projects.lookup_other (beq_eq_false_iff_ne.mp other) returns⟩, noBuffers⟩
  | invalidate => cases other

/-- Deleting the stores and lookups of all other classes leaves a run in which every
remaining call returns what it returned before. -/
theorem run_of_hashClass {events : List Event} (run : (cache P).Run events s)
    (inline : ∀ event ∈ events, event.Inline) (kept : HashClass) :
    ∃ t, (cache P).Run (events.filter (Event.keptBy P kept)) t := by
  have initial : ∀ s, (cache P).Initial s → ∃ t, (cache P).Initial t ∧ Reduced P kept s t := by
    rintro s rfl
    exact ⟨.initial, rfl, ⟨fun _ => kept, .initial⟩, fun _ => rfl⟩
  obtain ⟨t, reducedRun, _⟩ := TransitionSystem.Run.project (Event.keptBy P kept) Event.Inline
    (Reduced P kept) initial
    (fun related inline own transition => by
      obtain ⟨t', step', related'⟩ := related.step inline own (cacheStep_iff.mp transition)
      exact ⟨t', cacheStep_iff.mpr step', related'⟩)
    (fun related inline other transition =>
      related.skip inline other (cacheStep_iff.mp transition)) run inline
  exact ⟨t, reducedRun⟩

/-- Two classes, one promotion and an invalidation; the calls of class 1 go. -/
theorem run_of_hashClass_two :
    ∃ t, (cache .oneNode).Run (List.filter (Event.keptBy .oneNode (0, 0))
      [⟨.on 0 0, .storeByte 64 1 10, .stored 0⟩, ⟨.on 0 1, .storeByte 1 1 11, .stored 0⟩,
        ⟨.on 1 2, .lookupUnified 64 1, .found (some 10)⟩,
        ⟨.on 1 3, .invalidateRange 1 0 0, .invalidated⟩,
        ⟨.on 1 4, .lookupUnified 64 1, .found none⟩]) t := by
  obtain ⟨s, run, _⟩ := run_of_replay .oneNode 9
    [⟨.on 0 0, .storeByte 64 1 10, .stored 0⟩, ⟨.on 0 1, .storeByte 1 1 11, .stored 0⟩,
      ⟨.on 1 2, .lookupUnified 64 1, .found (some 10)⟩,
      ⟨.on 1 3, .invalidateRange 1 0 0, .invalidated⟩,
      ⟨.on 1 4, .lookupUnified 64 1, .found none⟩] (by decide +kernel)
  refine run_of_hashClass run ?_ (0, 0)
  simp [Event.Inline, Call.storeByte, kcrResultSizeMax]

end Runs

end Kcr
