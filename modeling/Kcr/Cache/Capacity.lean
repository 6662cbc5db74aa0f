import Kcr.Cache.Callbacks
import Kcr.Cache.Invalidation
import Kcr.Cache.Replacement
import Kcr.Cache.Slots
import Kcr.Hlist.Avoid
import Mathlib.Data.Set.Card

/-!
# Capacity

`KCR_L2_ENTRIES` and `KCR_L3_ENTRIES` are the numbers of entries a table is documented to
hold; the code uses them as numbers of buckets, and nothing looks at how many entries the
chains of a table lead to. What a call adds to them is one entry at most where its removals
take out what they should, and whole chains where a moved or inserted entry is still on
another one.
-/

namespace Kcr

open Hlist Heap

/-- The L2 cache of a CPU, or the L3 cache of a socket. -/
inductive Table where
  | l2 (cpu : Nat)
  | l3 (socket : Nat)

def Table.heads : Table → Set Head
  | .l2 cpu => Set.range (.l2 cpu)
  | .l3 socket => Set.range (.l3 socket)

def Table.capacity : Table → Nat
  | .l2 _ => kcrL2Entries
  | .l3 _ => kcrL3Entries

/-- The entries that the chains of these heads hold. -/
def State.reachable (s : State) (heads : Set Head) : Set Node :=
  s.heap.Targets (s.heap.Reached (headLinks heads))

/-- No table holds more entries than its capacity, and no slot more than its size. -/
structure Bounded (s : State) : Prop where
  entries : ∀ table : Table, (s.reachable table.heads).encard ≤ table.capacity
  slots : ∀ socket slot, (s.extSlotSize socket slot).toNat ≤ kcrExtSlotSize

section Room

variable (P : Platform) (who : Caller) (fingerprint mm : U64) (s : State)

/-- The heads that lead to the older entries of a table after a store: its L2 head then
leads to the new entry and from there to what the L3 head led to. -/
def storeHeads (heads : Set Head) : Set Head :=
  insert (l3Head P who.cpu fingerprint) (heads \ {l2Head who.cpu fingerprint})

/-- The entry a store replaces: the first one with its key on the L2 chain, or else on the
L3 chain. -/
def State.Replaced (o : Node) : Prop :=
  s.heap.Finds (s.sameKey fingerprint mm) (.head (l2Head who.cpu fingerprint)) (some o) ∨
    s.heap.Finds (s.sameKey fingerprint mm) (.head (l2Head who.cpu fingerprint)) none ∧
      s.heap.Finds (s.sameKey fingerprint mm) (.head (l3Head P who.cpu fingerprint)) (some o)

/-- The older entries of a table after a store: the one it replaces is gone if `pprev`
names the sole link to it. -/
def State.remaining (heads : Set Head) : Set Node :=
  {m ∈ s.reachable (storeHeads P who fingerprint heads) |
    ¬ (s.Replaced P who fingerprint mm m ∧
      s.heap.SoleLink (s.heap.Reached (headLinks (storeHeads P who fingerprint heads))) m)}

/-- A store fits: its buffer into a slot, its entry into the tables it goes to, and its
removals change no other pointer. -/
structure State.StoreRoom (len : U32) : Prop where
  slot : len.toNat ≤ kcrExtSlotSize
  spares : ∀ o, s.Displaced P who fingerprint mm o → s.heap.Spares s.heap.Rooted o
  room : ∀ table : Table, l2Head who.cpu fingerprint ∈ table.heads ∨
    l3Head P who.cpu fingerprint ∈ table.heads →
      (s.remaining P who fingerprint mm table.heads).encard < table.capacity

/-- A promotion fits: the entry into its CPU's L2 cache, and into any other table the L2
chain it joins, unless the removal takes the entry out of that table. -/
structure State.PromotionRoom (n : Node) : Prop where
  spares : s.heap.Spares s.heap.Rooted n
  joins : ∀ table : Table, l2Head who.cpu fingerprint ∈ table.heads →
    (insert n (s.reachable table.heads)).encard ≤ table.capacity
  others : ∀ table : Table, l2Head who.cpu fingerprint ∉ table.heads →
    s.heap.SoleLink (s.heap.Reached (headLinks table.heads)) n ∨
      (s.reachable table.heads ∪ s.reachable {l2Head who.cpu fingerprint}).encard ≤
        table.capacity

end Room

/-- The condition on a call, in the state before it. -/
def KeepsRoom (P : Platform) (s : State) (who : Caller) : Call → Prop
  | .storeResult fingerprint data len mm kzalloc kvmalloc =>
      StoreAccepted P who data len kzalloc kvmalloc s → s.StoreRoom P who fingerprint mm len
  | .lookupUnified fingerprint mm =>
      ∀ n, s.Promotes P who fingerprint mm n → s.PromotionRoom who fingerprint n
  | .invalidateRange mm _ _ => s.SparesOthers P who.cpu mm

theorem State.reached_subset_rooted {s : State} {heads : Set Head} :
    s.heap.Reached (headLinks heads) ⊆ s.heap.Rooted := by
  apply Heap.reached_mono
  rintro l ⟨h, _, rfl⟩
  exact ⟨h, rfl⟩

/-- A head that is not among the starts is not reached. -/
theorem head_not_mem_reached {s : State} {heads : Set Head} {h : Head} (other : h ∉ heads) :
    .head h ∉ s.heap.Reached (headLinks heads) := by
  intro reached
  obtain ⟨g, member, same⟩ := Heap.head_mem_of_reached reached
  exact other (Link.head.inj same ▸ member)

/-- The `next` of an entry nothing leads to is not reached. -/
theorem next_not_mem_reached {s : State} {heads : Set Head} {n : Node}
    (unread : ∀ l, s.heap.read l ≠ some n) : .next n ∉ s.heap.Reached (headLinks heads) := by
  intro reached
  obtain ⟨l, _, designates⟩ := Heap.mem_targets_of_next reached next_not_mem_headLinks
  exact unread l designates

/-- The starts stay when the `next` of an entry is left out of what they reach. -/
theorem headLinks_subset_diff {s : State} {heads : Set Head} {n : Node} :
    headLinks heads ⊆ s.heap.Reached (headLinks heads) \ {.next n} := by
  intro l isHead
  refine ⟨Heap.subset_reached _ isHead, fun same => ?_⟩
  exact next_not_mem_headLinks (same ▸ isHead : (.next n : Link Head Node) ∈ headLinks heads)

/-! ## The entries of a table after a store -/

section Store

variable {P : Platform} {who : Caller} {fingerprint mm : U64} {bytes : Nat → U8} {len : U32}
  {entry : Node} {kvmalloc : U64} {s s₀ s₁ s' : State} {heads : Set Head}
  {region : Set (Link Head Node)} {mid : Heap Head Node}

/-- The L3 insertion, from a region around the heads but the L2 head, which leads to the
new entry or into the region. -/
theorem targets_of_l3Pushed {heap : Heap Head Node} (closed : mid.Closed region)
    (starts : headLinks (storeHeads P who fingerprint heads) ⊆ region)
    (added : Pushed mid entry (l3Head P who.cpu fingerprint) heap)
    (overwritten : ∀ k, mid.first (l2Head who.cpu fingerprint) = some k →
      k = entry ∨ k ∈ mid.Targets region) :
    heap.Targets (heap.Reached (headLinks heads)) ⊆ insert entry (mid.Targets region) := by
  have inside : .head (l3Head P who.cpu fingerprint) ∈ region := starts ⟨_, .inl rfl, rfl⟩
  have same : heap.read (.head (l2Head who.cpu fingerprint)) =
      mid.first (l2Head who.cpu fingerprint) :=
    added.read_other (fun heads => l3Head_ne_l2Head (Link.head.inj heads).symm) nofun
  have around : heap.Closed (insert (.head (l2Head who.cpu fingerprint))
      (insert (.next entry) region)) := by
    refine (closed.pushed added inside).adjoin fun k designates => ?_
    rcases overwritten k (same.symm.trans designates) with rfl | target
    · exact .inl rfl
    · exact .inr (closed.next_mem target)
  have reached : heap.Reached (headLinks heads) ⊆ insert (.head (l2Head who.cpu fingerprint))
      (insert (.next entry) region) := by
    apply around.reached
    rintro l ⟨h, member, rfl⟩
    by_cases own : h = l2Head who.cpu fingerprint
    · exact .inl (own ▸ rfl)
    · exact .inr (.inr (starts ⟨h, .inr ⟨member, own⟩, rfl⟩))
  rintro k ⟨l, member, designates⟩
  rcases reached member with rfl | member
  · exact overwritten k (same.symm.trans designates)
  · exact targets_pushed added inside ⟨l, member, designates⟩

/-- The same with the removal before it: what the search finds is in the region. -/
theorem ReplaceReturns.targets_l3
    (inL3 : ReplaceReturns (l3Head P who.cpu fingerprint) entry fingerprint s₁ s')
    (closed : s₁.heap.Closed region)
    (starts : headLinks (storeHeads P who fingerprint heads) ⊆ region)
    (first : s₁.heap.first (l2Head who.cpu fingerprint) = some entry) :
    s'.reachable heads ⊆ insert entry (s₁.heap.Targets region) := by
  obtain ⟨old, mid, found, removal, added, _⟩ := inL3.heap_cases
  have inside : ∀ o ∈ old, .next o ∈ region := by
    rintro o ⟨⟩
    obtain ⟨l, path, designates⟩ := found.some.1
    exact closed.next_mem ⟨l, closed.leads (starts ⟨_, .inl rfl, rfl⟩) path, designates⟩
  refine (targets_of_l3Pushed (removal.closed_keep closed inside) starts added
    fun k leads => ?_).trans (Set.insert_subset_insert (removal.targets_keep inside))
  rcases removal.read (.head (l2Head who.cpu fingerprint)) with same | ⟨o, removed, _, via⟩
  · exact .inl (Option.some.inj (first.symm.trans (same.symm.trans leads))).symm
  · -- the removal went through the L2 head, which now leads behind the removed entry
    cases removal with
    | none => cases removed
    | some gone =>
        obtain rfl := Option.some.inj removed
        exact .inr ⟨.next _, inside _ rfl, gone.next_self.trans (via.symm.trans leads)⟩

theorem l2Head_not_mem_storeHeads :
    l2Head who.cpu fingerprint ∉ storeHeads P who fingerprint heads := by
  rintro (same | ⟨_, other⟩)
  · exact l3Head_ne_l2Head same.symm
  · exact other rfl

/-- After the L2 removal, from a region it leaves closed. -/
theorem Insertion.reachable_of_closed
    (insertion : Insertion P who fingerprint bytes len mm entry kvmalloc s s₀ s₁ s')
    (wellFormed : WellFormed s) (added : Pushed mid entry (l2Head who.cpu fingerprint) s₁.heap)
    (closed : mid.Closed region) (starts : headLinks (storeHeads P who fingerprint heads) ⊆ region)
    (within : region ⊆ s.heap.Reached (headLinks (storeHeads P who fingerprint heads))) :
    s'.reachable heads ⊆ insert entry (mid.Targets region) := by
  have headOut : .head (l2Head who.cpu fingerprint) ∉ region :=
    fun member => head_not_mem_reached l2Head_not_mem_storeHeads (within member)
  have nextOut : .next entry ∉ region :=
    fun member => next_not_mem_reached (wellFormed.unread insertion.fresh) (within member)
  have closed' := closed.pushed_outside added headOut nextOut
  exact (insertion.inL3.targets_l3 closed' starts added.read_head).trans
    (Set.insert_subset_insert (targets_pushed_outside added headOut nextOut))

/-- An entry on an L2 chain that is replaced through a sole link is gone. -/
theorem Insertion.not_reachable_l2
    (insertion : Insertion P who fingerprint bytes len mm entry kvmalloc s s₀ s₁ s')
    (wellFormed : WellFormed s) {m : Node} (spares : s.heap.Spares s.heap.Rooted m)
    (inL2 : s.heap.Finds (s.sameKey fingerprint mm) (.head (l2Head who.cpu fingerprint)) (some m))
    (sole : s.heap.SoleLink
      (s.heap.Reached (headLinks (storeHeads P who fingerprint heads))) m) :
    m ∉ s'.reachable heads := by
  intro member
  obtain ⟨old, mid, found, removal, added, _⟩ := insertion.l2_cases wellFormed
  obtain rfl := found.unique inL2
  cases removal with
  | some gone =>
      have without := (Heap.closed_reached _).unlinked_spared gone sole
        (spares.mono State.reached_subset_rooted)
      rcases insertion.reachable_of_closed wellFormed added without headLinks_subset_diff
        Set.sdiff_subset member with rfl | ⟨l, inside, designates⟩
      · obtain ⟨l, _, designates⟩ := inL2.some.1
        exact wellFormed.unread insertion.fresh l designates
      · exact not_read_of_closed without inside designates

/-- So is an entry on the L3 chain, when there is none on the L2 chain. -/
theorem Insertion.not_reachable_l3
    (insertion : Insertion P who fingerprint bytes len mm entry kvmalloc s s₀ s₁ s')
    (wellFormed : WellFormed s) {m : Node}
    (notL2 : s.heap.Finds (s.sameKey fingerprint mm) (.head (l2Head who.cpu fingerprint)) none)
    (inL3 : s.heap.Finds (s.sameKey fingerprint mm) (.head (l3Head P who.cpu fingerprint)) (some m))
    (sole : s.heap.SoleLink
      (s.heap.Reached (headLinks (storeHeads P who fingerprint heads))) m) :
    m ∉ s'.reachable heads := by
  intro member
  obtain ⟨old, mid, found, removal, added, _⟩ := insertion.l2_cases wellFormed
  obtain ⟨old', mid', found', removal', added', _⟩ := insertion.inL3.heap_cases
  have foundMid := insertion.found_l3 wellFormed removal added found'
  obtain rfl := found.unique notL2
  cases removal with
  | none =>
      rw [← insertion.heap] at foundMid
      obtain rfl := (insertion.toAllocation.finds wellFormed insertion.inL2.entry_eq
        foundMid).unique inL3
      let region : Set (Link Head Node) :=
        s.heap.Reached (headLinks (storeHeads P who fingerprint heads))
      have headOut : .head (l2Head who.cpu fingerprint) ∉ region :=
        head_not_mem_reached l2Head_not_mem_storeHeads
      have nextOut : .next entry ∉ region :=
        next_not_mem_reached (wellFormed.unread insertion.fresh)
      have notNew : m ≠ entry := by
        rintro rfl
        obtain ⟨l, _, designates⟩ := inL3.some.1
        exact wellFormed.unread insertion.fresh l designates
      have notFirst : s.heap.first (l2Head who.cpu fingerprint) ≠ some m := by
        intro first
        have rejected := notL2.rejects (.of_read first)
        rw [inL3.some.2] at rejected
        cases rejected
      have sole' := SoleLink.pushed_outside sole added headOut nextOut notFirst notNew
      have closed : s₁.heap.Closed region :=
        (Heap.closed_reached _).pushed_outside added headOut nextOut
      obtain ⟨j, path, designates⟩ := found'.some.1
      have onChain : j ∈ region := closed.leads (Heap.subset_reached _ ⟨_, .inl rfl, rfl⟩) path
      cases removal' with
      | @some _ l _ gone =>
          have without := closed.unlinked_sole gone (closed onChain designates) sole'
          -- the removal went through a link of the region, so the L2 head stays
          obtain rfl : l = j := by
            have via := sole' j onChain designates
            rw [gone.named] at via
            exact Pprev.link.inj via
          have overwritten : ∀ k, mid'.first (l2Head who.cpu fingerprint) = some k →
              k = entry ∨ k ∈ mid'.Targets (region \ {.next m}) := by
            intro k leads
            have same := gone.read_other (ne_of_mem_of_not_mem onChain headOut).symm
            exact .inl (Option.some.inj (added.read_head.symm.trans (same.symm.trans leads))).symm
          rcases targets_of_l3Pushed without headLinks_subset_diff added' overwritten member with
            same | ⟨l, inside, designates⟩
          · exact notNew same
          · exact not_read_of_closed without inside designates

/-- A store adds its entry, and takes out the one it replaces through a sole link. -/
theorem Insertion.reachable
    (insertion : Insertion P who fingerprint bytes len mm entry kvmalloc s s₀ s₁ s')
    (wellFormed : WellFormed s)
    (spares : ∀ o, s.Displaced P who fingerprint mm o → s.heap.Spares s.heap.Rooted o) :
    s'.reachable heads ⊆ insert entry (s.remaining P who fingerprint mm heads) := by
  obtain ⟨old, mid, found, removal, added, _⟩ := insertion.l2_cases wellFormed
  have spared : ∀ o ∈ old, s.heap.Spares
      (s.heap.Reached (headLinks (storeHeads P who fingerprint heads))) o := by
    rintro o ⟨⟩
    exact (spares o (.inL2 found)).mono State.reached_subset_rooted
  obtain ⟨closedMid, within⟩ := removal.spares (Heap.closed_reached _) spared
  intro m member
  rcases insertion.reachable_of_closed wellFormed added closedMid (Heap.subset_reached _)
    Set.Subset.rfl member with rfl | target
  · exact .inl rfl
  refine .inr ⟨within target, ?_⟩
  rintro ⟨inL2 | ⟨notL2, inL3⟩, sole⟩
  · exact insertion.not_reachable_l2 wellFormed (spares m (.inL2 inL2)) inL2 sole member
  · exact insertion.not_reachable_l3 wellFormed notL2 inL3 sole member

/-- A table the store does not insert into gets no entry more. -/
theorem Insertion.reachable_other
    (insertion : Insertion P who fingerprint bytes len mm entry kvmalloc s s₀ s₁ s')
    (wellFormed : WellFormed s)
    (spares : ∀ o, s.Displaced P who fingerprint mm o → s.heap.Spares s.heap.Rooted o)
    (notL2 : l2Head who.cpu fingerprint ∉ heads) (notL3 : l3Head P who.cpu fingerprint ∉ heads) :
    s'.reachable heads ⊆ s.reachable heads := by
  obtain ⟨old, mid, found, removal, added, _⟩ := insertion.l2_cases wellFormed
  obtain ⟨old', mid', found', removal', added', _⟩ := insertion.inL3.heap_cases
  obtain ⟨displaced, displaced'⟩ := insertion.displaced wellFormed found removal
    (insertion.found_l3 wellFormed removal added found')
  let region : Set (Link Head Node) := s.heap.Reached (headLinks heads)
  have closed : s.heap.Closed region := Heap.closed_reached _
  have headOut : .head (l2Head who.cpu fingerprint) ∉ region := head_not_mem_reached notL2
  have headOut' : .head (l3Head P who.cpu fingerprint) ∉ region := head_not_mem_reached notL3
  have nextOut : .next entry ∉ region := next_not_mem_reached (wellFormed.unread insertion.fresh)
  -- the second removal spares the region as well after the first one
  have spared' : ∀ o ∈ old', s₁.heap.Spares region o := by
    intro o removed
    have before := spares o (displaced' o removed)
    have inside := Heap.closed_rooted.next_mem (displaced' o removed).rooted.1
    have between : mid.Spares s.heap.Rooted o := by
      cases removal with
      | none => exact before
      | some gone => exact before.unlinked (spares _ (displaced _ rfl)) gone inside
    exact (between.mono State.reached_subset_rooted).pushed_outside added headOut nextOut
  obtain ⟨closedMid, within⟩ := removal.spares closed fun o removed =>
    (spares o (displaced o removed)).mono State.reached_subset_rooted
  obtain ⟨closedMid', within'⟩ :=
    removal'.spares (closedMid.pushed_outside added headOut nextOut) spared'
  have starts : headLinks heads ⊆ region := Heap.subset_reached _
  have reached := (closedMid'.pushed_outside added' headOut' nextOut).reached starts
  calc s'.reachable heads
    _ ⊆ s'.heap.Targets region := Heap.Targets.mono reached
    _ ⊆ mid'.Targets region := targets_pushed_outside added' headOut' nextOut
    _ ⊆ s₁.heap.Targets region := within'
    _ ⊆ mid.Targets region := targets_pushed_outside added headOut nextOut
    _ ⊆ s.reachable heads := within

end Store

/-! ## Lookups and invalidations -/

section Lookup

variable {P : Platform} {who : Caller} {fingerprint mm start stop : U64} {fuel : Nat}
  {result : Option Node} {s s' : State}

section Promotion

variable {n : Node} {l : Link Head Node} {mid : Heap Head Node} {heads : Set Head}

/-- A promotion into a table adds the entry. -/
theorem reachable_promoted (spares : s.heap.Spares s.heap.Rooted n)
    (gone : Unlinked s.heap n l mid) (added : Pushed mid n (l2Head who.cpu fingerprint) s'.heap)
    (own : l2Head who.cpu fingerprint ∈ heads) :
    s'.reachable heads ⊆ insert n (s.reachable heads) := by
  obtain ⟨closed, within⟩ := (Heap.closed_reached (headLinks heads)).unlinked_spares gone
    (spares.mono State.reached_subset_rooted)
  have inside : .head (l2Head who.cpu fingerprint) ∈ s.heap.Reached (headLinks heads) :=
    Heap.subset_reached _ ⟨_, own, rfl⟩
  have reached := (closed.pushed added inside).reached
    ((Heap.subset_reached _).trans (Set.subset_insert _ _))
  calc s'.reachable heads
    _ ⊆ s'.heap.Targets (insert (.next n) (s.heap.Reached (headLinks heads))) :=
        Heap.Targets.mono reached
    _ ⊆ insert n (mid.Targets (s.heap.Reached (headLinks heads))) := targets_pushed added inside
    _ ⊆ insert n (s.reachable heads) := Set.insert_subset_insert within

/-- A promotion into another table takes the entry out, through a sole link. -/
theorem reachable_promoted_sole (spares : s.heap.Spares s.heap.Rooted n)
    (gone : Unlinked s.heap n l mid) (added : Pushed mid n (l2Head who.cpu fingerprint) s'.heap)
    (other : l2Head who.cpu fingerprint ∉ heads)
    (sole : s.heap.SoleLink (s.heap.Reached (headLinks heads)) n) :
    s'.reachable heads ⊆ s.reachable heads := by
  let region : Set (Link Head Node) := s.heap.Reached (headLinks heads)
  have closed : s.heap.Closed region := Heap.closed_reached _
  have spared : s.heap.Spares region n := spares.mono State.reached_subset_rooted
  have without := closed.unlinked_spared gone sole spared
  have nextOut : .next n ∉ region \ {.next n} := fun member => member.2 rfl
  have headOut : .head (l2Head who.cpu fingerprint) ∉ region \ {.next n} :=
    fun member => head_not_mem_reached other member.1
  have reached := (without.pushed_outside added headOut nextOut).reached headLinks_subset_diff
  calc s'.reachable heads
    _ ⊆ s'.heap.Targets (region \ {.next n}) := Heap.Targets.mono reached
    _ ⊆ mid.Targets (region \ {.next n}) := targets_pushed_outside added headOut nextOut
    _ ⊆ mid.Targets region := Heap.Targets.mono Set.sdiff_subset
    _ ⊆ s.reachable heads := (closed.unlinked_spares gone spared).2

/-- An entry that stays on the chains of a table joins them to the L2 chain behind it. -/
theorem reachable_promoted_joined (gone : Unlinked s.heap n l mid)
    (added : Pushed mid n (l2Head who.cpu fingerprint) s'.heap) (target : n ∈ s.reachable heads) :
    s'.reachable heads ⊆ s.reachable heads ∪ s.reachable {l2Head who.cpu fingerprint} := by
  let wider : Set (Link Head Node) :=
    s.heap.Reached (headLinks (insert (l2Head who.cpu fingerprint) heads))
  have closed : s.heap.Closed wider := Heap.closed_reached _
  have more : s.heap.Reached (headLinks heads) ⊆ wider := Heap.reached_mono fun l ⟨h, isHead, same⟩ =>
    ⟨h, .inr isHead, same⟩
  have inside : .next n ∈ wider := closed.next_mem (Heap.Targets.mono more target)
  have head : .head (l2Head who.cpu fingerprint) ∈ wider :=
    Heap.subset_reached _ ⟨_, .inl rfl, rfl⟩
  have starts : headLinks heads ⊆ insert (.next n) wider :=
    (Heap.subset_reached _).trans (more.trans (Set.subset_insert _ _))
  have reached := ((closed.unlinked gone inside).pushed added head).reached starts
  have split : s.heap.Targets wider ⊆
      s.reachable heads ∪ s.reachable {l2Head who.cpu fingerprint} := by
    rintro k ⟨i, ⟨_, ⟨h, same | isHead, rfl⟩, path⟩, leads⟩
    · exact .inr ⟨i, ⟨_, ⟨h, same, rfl⟩, path⟩, leads⟩
    · exact .inl ⟨i, ⟨_, ⟨h, isHead, rfl⟩, path⟩, leads⟩
  intro k member
  rcases targets_pushed added head (Heap.Targets.mono reached member) with rfl | before
  · exact .inl target
  · exact split (targets_unlinked gone inside before)

end Promotion

/-- A promotion that fits leaves every table within its capacity. -/
theorem LookupReturns.bounded (returns : LookupReturns P who fingerprint mm s result s')
    (room : ∀ n, s.Promotes P who fingerprint mm n → s.PromotionRoom who fingerprint n)
    (table : Table) (bounded : (s.reachable table.heads).encard ≤ table.capacity) :
    (s'.reachable table.heads).encard ≤ table.capacity := by
  rcases returns.heap_cases with same | ⟨n, l, mid, _, promotes, gone, added⟩
  · rwa [State.reachable, same]
  obtain ⟨spares, joins, others⟩ := room n promotes
  by_cases own : l2Head who.cpu fingerprint ∈ table.heads
  · exact (Set.encard_le_encard (reachable_promoted spares gone added own)).trans (joins table own)
  by_cases sole : s.heap.SoleLink (s.heap.Reached (headLinks table.heads)) n
  · exact (Set.encard_le_encard (reachable_promoted_sole spares gone added own sole)).trans bounded
  · have target : n ∈ s.reachable table.heads := by
      by_contra off
      exact sole fun j member designates => absurd ⟨j, member, designates⟩ off
    exact (Set.encard_le_encard (reachable_promoted_joined gone added target)).trans
      ((others table own).resolve_left sole)

/-- A sparing sweep adds no entry to any table. -/
theorem State.SparesOthers.reachable (spares : s.SparesOthers P who.cpu mm)
    (ran : invalidateRange P fuel who mm start stop s = .ok s') (heads : Set Head) :
    s'.reachable heads ⊆ s.reachable heads := by
  let region : Set (Link Head Node) := s.heap.Reached (headLinks heads)
  have after := spares.rule
    (fun t => t.heap.Closed region ∧ t.heap.Targets region ⊆ s.heap.Targets region)
    (fun _ spared holds swept => by
      obtain ⟨l, gone⟩ := swept.heap
      obtain ⟨closed, within⟩ :=
        holds.1.unlinked_spares gone (spared.mono State.reached_subset_rooted)
      exact ⟨closed, within.trans holds.2⟩)
    (fun same holds => same.heap ▸ holds) ⟨Heap.closed_reached _, Set.Subset.rfl⟩ ran
  obtain ⟨_, closed, within⟩ := after
  exact (Heap.Targets.mono (closed.reached (Heap.subset_reached _))).trans within

end Lookup

/-! ## Runs -/

theorem State.reachable_initial (heads : Set Head) : State.initial.reachable heads = ∅ := by
  apply Set.eq_empty_of_forall_notMem
  rintro n ⟨l, _, designates⟩
  simp [State.initial] at designates

theorem Bounded.initial : Bounded .initial where
  entries table := by simp [State.reachable_initial]
  slots _ _ := Nat.zero_le _

/-- A call that fits keeps the bounds. -/
theorem Bounded.step {P : Platform} {s s' : State} (bounded : Bounded s)
    (wellFormed : WellFormed s) {event : Event} (room : KeepsRoom P s event.who event.call)
    (step : CacheStep P s event s') : Bounded s' := by
  cases step with
  | @store who fingerprint data len mm kzalloc kvmalloc status _ fresh _ returns =>
      refine ⟨fun table => ?_, fun socket slot => ?_⟩
      · rcases returns.cases wellFormed fresh with
          ⟨_, sameHeap, _⟩ | ⟨_, accepted, bytes, entry, s₀, s₁, rfl, rfl, insertion⟩
        · rw [State.reachable, sameHeap]
          exact bounded.entries table
        · obtain ⟨_, spares, fits⟩ := room accepted
          by_cases gains : l2Head who.cpu fingerprint ∈ table.heads ∨
              l3Head P who.cpu fingerprint ∈ table.heads
          · calc (s'.reachable table.heads).encard
              _ ≤ (insert entry (s.remaining P who fingerprint mm table.heads)).encard :=
                  Set.encard_le_encard (insertion.reachable wellFormed spares)
              _ ≤ (s.remaining P who fingerprint mm table.heads).encard + 1 :=
                  Set.encard_insert_le _ _
              _ ≤ table.capacity := Order.add_one_le_of_lt (fits table gains)
          · obtain ⟨notL2, notL3⟩ := not_or.mp gains
            exact (Set.encard_le_encard
              (insertion.reachable_other wellFormed spares notL2 notL3)).trans
              (bounded.entries table)
      · rcases returns.slot_cases with same | ⟨rfl, _, bytes, filled, rfl, fills⟩
        · rw [same.sizes]
          exact bounded.slots socket slot
        · rw [fills.sizes]
          split
          · exact (room returns.storeAccepted).slot
          · exact bounded.slots socket slot
  | lookup returns =>
      refine ⟨fun table => returns.bounded room table (bounded.entries table), ?_⟩
      rw [returns.sameSlots.sizes]
      exact bounded.slots
  | @invalidate who mm start stop fuel _ ran =>
      have spares : s.SparesOthers P who.cpu mm := room
      refine ⟨fun table => ?_, fun socket slot => ?_⟩
      · exact (Set.encard_le_encard (spares.reachable ran table.heads)).trans
          (bounded.entries table)
      · rw [(invalidateRange_freesSlots ran).sizes]
        split
        · exact Nat.zero_le _
        · exact bounded.slots socket slot

/-- A callback adds no entry to any table, and touches no slot. -/
theorem Bounded.freed {s : State} (bounded : Bounded s) (n : Node) :
    Bounded (s.freeEntryRcu n) where
  entries table := by
    have within : (s.freeEntryRcu n).reachable table.heads ⊆ s.reachable table.heads := by
      have closed : s.heap.Closed (s.heap.Reached (headLinks table.heads)) :=
        Heap.closed_reached _
      have reached := (closed.clear (n := n)).reached (Heap.subset_reached _)
      exact (Heap.Targets.mono reached).trans Heap.targets_clear
    exact (Set.encard_le_encard within).trans (bounded.entries table)
  slots := bounded.slots

end Kcr
