import Kcr.Hlist.Region

/-!
# Chains that avoid nodes

The chains of some heads should never hold a bad node, such as one that was handed over
for reclamation. A removal may write into a link of these chains although the node is not
on them, and an insertion of a node that some chain still holds joins the chains of
another head to it. What keeps the bad nodes away is stated here for one removal followed
by one insertion: the node moves to another list, or a new node takes its place.
-/

namespace Kcr.Hlist.Heap

variable {H N : Type} {heap heap' mid : Heap H N}

/-- The heads of a set, as links. -/
def headLinks (heads : Set H) : Set (Link H N) := {l | ∃ h ∈ heads, l = .head h}

/-- No chain of these heads holds a bad node. -/
def Avoids (heap : Heap H N) (heads : Set H) (bad : Set N) : Prop :=
  ∀ n ∈ heap.Targets (heap.Reached (headLinks heads)), n ∉ bad

/-- Removing the node splices nothing bad into the chains of these heads: one of them
holds the node, or the removal does not change their pointers, or neither a bad node nor
the node itself is behind it. -/
def Splices (heap : Heap H N) (heads : Set H) (bad : Set N) (n : N) : Prop :=
  n ∈ heap.Targets (heap.Reached (headLinks heads)) ∨
    heap.Spares (heap.Reached (headLinks heads)) n ∨
    ∀ m, heap.OnChain (.next n) m → m ∉ bad ∧ m ≠ n

theorem Avoids.onChain {heads : Set H} {bad : Set N} (avoids : heap.Avoids heads bad) {h : H}
    (member : h ∈ heads) {n : N} (visited : heap.OnChain (.head h) n) : n ∉ bad :=
  avoids n (mem_targets_of_onChain visited ⟨h, member, rfl⟩)

theorem Avoids.mono {heads more : Set H} {bad : Set N} (avoids : heap.Avoids more bad)
    (subset : heads ⊆ more) : heap.Avoids heads bad := by
  have starts : (headLinks heads : Set (Link H N)) ⊆ headLinks more := by
    rintro l ⟨h, member, rfl⟩
    exact ⟨h, subset member, rfl⟩
  exact fun n target => avoids n (Targets.mono (reached_mono starts) target)

/-- With all heads: no rooted node is bad. -/
theorem avoids_univ {bad : Set N} :
    heap.Avoids Set.univ bad ↔ ∀ n ∈ heap.Targets heap.Rooted, n ∉ bad := by
  have same : (headLinks Set.univ : Set (Link H N)) = Set.range .head := by
    ext l
    simp [headLinks, eq_comm]
  rw [Avoids, Rooted, same]

theorem next_not_mem_headLinks {heads : Set H} {n : N} :
    (.next n : Link H N) ∉ headLinks heads := by
  rintro ⟨h, _, same⟩
  cases same

/-- What the heads and the node's `next` lead to is on the chains or behind the node. -/
theorem reached_insert_next {heads : Set H} {n : N} :
    heap.Reached (insert (.next n) (headLinks heads)) ⊆
      heap.Reached (headLinks heads) ∪ heap.Reached {.next n} := by
  rintro l ⟨start, rfl | isHead, path⟩
  · exact .inr ⟨.next n, rfl, path⟩
  · exact .inl ⟨start, isHead, path⟩

/-- A closed region around the heads that excludes the removed node and all bad ones. -/
structure Excludes (heap mid : Heap H N) (heads : Set H) (bad : Set N) (n : N)
    (region : Set (Link H N)) : Prop where
  starts : headLinks heads ⊆ region
  within : region ⊆ heap.Reached (insert (.next n) (headLinks heads))
  closed : mid.Closed region
  next : .next n ∉ region
  clean : ∀ m ∈ mid.Targets region, m ∉ bad ∧ m ≠ n

section Stores

variable [DecidableEq H] [DecidableEq N] {heads : Set H} {bad : Set N} {n k : N} {h : H}
  {l : Link H N}

/-- Removing a node through the sole link on the chains. -/
theorem Avoids.unlinked (avoids : heap.Avoids heads bad) (gone : Unlinked heap n l mid)
    (sole : heap.SoleLink (heap.Reached (headLinks heads)) n)
    (splices : heap.Splices heads bad n) : ∃ region, Excludes heap mid heads bad n region := by
  have outside : headLinks heads ⊆ heap.Reached (headLinks heads) \ {.next n} :=
    fun m isHead => ⟨subset_reached _ isHead, fun same =>
      next_not_mem_headLinks (same ▸ isHead : (.next n : Link H N) ∈ headLinks heads)⟩
  have within : heap.Reached (headLinks heads) \ {.next n} ⊆
      heap.Reached (insert (.next n) (headLinks heads)) :=
    fun m member => reached_mono (Set.subset_insert _ _) member.1
  rcases splices with target | spares | behind
  · have inside := (closed_reached (headLinks heads)).next_mem target
    have closed := (closed_reached (headLinks heads)).unlinked_sole gone inside sole
    refine ⟨_, outside, within, closed, fun member => member.2 rfl, fun m read => ⟨?_, ?_⟩⟩
    · exact avoids m (targets_unlinked gone inside (Targets.mono Set.sdiff_subset read))
    · rintro rfl
      obtain ⟨j, member, designates⟩ := read
      exact not_read_of_closed closed member designates
  · have closed := (closed_reached (headLinks heads)).unlinked_spared gone sole spares
    refine ⟨_, outside, within, closed, fun member => member.2 rfl, fun m read => ⟨?_, ?_⟩⟩
    · obtain ⟨j, member, designates⟩ := read
      by_cases atLink : j = l
      · subst atLink
        rw [gone.read_named] at designates
        rcases spares j member.1 gone.named with leads | ⟨_, last⟩
        · exact avoids m ⟨.next n, closed_reached _ member.1 leads, designates⟩
        · rw [last] at designates
          cases designates
      · exact avoids m ⟨j, member.1, (gone.read_other atLink).symm.trans designates⟩
    · rintro rfl
      obtain ⟨j, member, designates⟩ := read
      exact not_read_of_closed closed member designates
  · -- what is behind the node joins the chains; the node is not among it
    have inside : .next n ∈ heap.Reached (insert (.next n) (headLinks heads)) :=
      subset_reached _ (.inl rfl)
    have sole' : heap.SoleLink (heap.Reached (insert (.next n) (headLinks heads))) n := by
      intro m member designates
      rcases reached_insert_next member with onChain | ⟨_, rfl, path⟩
      · exact sole m onChain designates
      · have visited : heap.OnChain (.next n) n := ⟨m, path, designates⟩
        exact absurd rfl (behind n visited).2
    have closed := (closed_reached _).unlinked_sole gone inside sole'
    refine ⟨heap.Reached (insert (.next n) (headLinks heads)) \ {.next n},
      fun m isHead => ⟨subset_reached _ (.inr isHead), (outside isHead).2⟩, Set.sdiff_subset, closed, fun member => member.2 rfl, fun m read => ⟨?_, ?_⟩⟩
    · obtain ⟨j, member, designates⟩ :=
        targets_unlinked gone inside (Targets.mono Set.sdiff_subset read)
      rcases reached_insert_next member with onChain | ⟨_, rfl, path⟩
      · exact avoids m ⟨j, onChain, designates⟩
      · exact (behind m ⟨j, path, designates⟩).1
    · rintro rfl
      obtain ⟨j, member, designates⟩ := read
      exact not_read_of_closed closed member designates

/-- Inserting a good node keeps a region clean. -/
theorem avoids_of_pushed {region : Set (Link H N)} (closed : mid.Closed region)
    (starts : headLinks heads ⊆ region) (clean : ∀ m ∈ mid.Targets region, m ∉ bad)
    (added : Pushed mid k h heap') (good : k ∉ bad)
    (place : .head h ∈ region ∨ .next k ∉ region) : heap'.Avoids heads bad := by
  by_cases inside : .head h ∈ region
  · have reached := (closed.pushed added inside).reached
      (starts.trans (Set.subset_insert (.next k) region))
    intro m target
    rcases targets_pushed added inside (Targets.mono reached target) with rfl | before
    · exact good
    · exact clean m before
  · have next := place.resolve_left inside
    have reached := (closed.pushed_outside added inside next).reached starts
    exact fun m target =>
      clean m (targets_pushed_outside added inside next (Targets.mono reached target))

/-- Moving a good node to the front of a list: the removal splices nothing bad in, and
takes the node off the chains or the list it joins has no bad node. -/
theorem Avoids.moved (avoids : heap.Avoids heads bad) (gone : Unlinked heap n l mid)
    (added : Pushed mid n h heap') (good : n ∉ bad) (splices : heap.Splices heads bad n)
    (attaches : heap.SoleLink (heap.Reached (headLinks heads)) n ∨ heap.Avoids {h} bad) :
    heap'.Avoids heads bad := by
  by_cases sole : heap.SoleLink (heap.Reached (headLinks heads)) n
  · obtain ⟨region, starts, _, closed, next, clean⟩ := avoids.unlinked gone sole splices
    exact avoids_of_pushed closed starts (fun m target => (clean m target).1) added good
      (.inr next)
  · have target : n ∈ heap.Targets (heap.Reached (headLinks heads)) := by
      by_contra off
      exact sole fun m member designates => absurd ⟨m, member, designates⟩ off
    have joined := attaches.resolve_left sole
    -- everything reached from these heads and the one the node joins
    let starts : Set (Link H N) := insert (.head h) (headLinks heads)
    have more : heap.Reached (headLinks heads) ⊆ heap.Reached starts :=
      reached_mono (Set.subset_insert _ _)
    have inside := more ((closed_reached (headLinks heads)).next_mem target)
    refine avoids_of_pushed ((closed_reached starts).unlinked gone inside)
      ((Set.subset_insert _ _).trans (subset_reached starts)) (fun m read => ?_) added good
      (.inl (subset_reached _ (.inl rfl)))
    obtain ⟨j, ⟨start, isStart, path⟩, designates⟩ := targets_unlinked gone inside read
    rcases isStart with rfl | isHead
    · exact joined m ⟨j, ⟨_, ⟨h, rfl, rfl⟩, path⟩, designates⟩
    · exact avoids m ⟨j, ⟨start, isHead, path⟩, designates⟩

/-- Replacing a node by a new one, which makes the old one bad. -/
theorem Avoids.replaced (avoids : heap.Avoids heads bad) {old : Option N}
    (removal : Removal heap old mid) (added : Pushed mid k h heap') {bad' : Set N}
    (worse : ∀ m ∈ bad', m ∈ bad ∨ m ∈ old) (good : k ∉ bad')
    (sole : ∀ o ∈ old, heap.SoleLink (heap.Reached (headLinks heads)) o)
    (splices : ∀ o ∈ old, heap.Splices heads bad o) (distinct : k ∉ old)
    (unread : ∀ j, heap.read j = some k → ∃ g, j = .head g ∧ g ∉ heads) :
    heap'.Avoids heads bad' := by
  have away : ∀ {starts : Set (Link H N)}, .next k ∉ starts →
      (∀ g, .head g ∈ starts → g ∈ heads) → .next k ∉ heap.Reached starts := by
    intro starts notStart isHead reached
    obtain ⟨j, member, designates⟩ := mem_targets_of_next reached notStart
    obtain ⟨g, rfl, outside⟩ := unread j designates
    exact outside (isHead g (head_mem_of_reached member))
  have ofHead : ∀ g, (.head g : Link H N) ∈ headLinks heads → g ∈ heads := by
    rintro g ⟨_, member, same⟩
    exact Link.head.inj same ▸ member
  cases removal with
  | none =>
      refine avoids_of_pushed (closed_reached (headLinks heads)) (subset_reached _)
        (fun m target isBad => ?_) added good (.inr (away next_not_mem_headLinks ofHead))
      exact avoids m target ((worse m isBad).resolve_right nofun)
  | @some o l _ gone =>
      obtain ⟨region, starts, within, closed, next, clean⟩ :=
        avoids.unlinked gone (sole o rfl) (splices o rfl)
      refine avoids_of_pushed closed starts (fun m target isBad => ?_) added good
        (.inr fun member => away ?_ ?_ (within member))
      · rcases worse m isBad with before | isOld
        · exact (clean m target).1 before
        · exact (clean m target).2 (Option.some.inj isOld).symm
      · rintro (same | isHead)
        · exact distinct (Link.next.inj same ▸ rfl)
        · exact next_not_mem_headLinks isHead
      · rintro g (same | isHead)
        · cases same
        · exact ofHead g isHead

/-! ## A removal and an insertion together -/

/-- A link that leads to a node afterwards: the head, to the inserted node, or one that
got its pointer from a link that led there before. -/
theorem read_of_pushed {old : Option N} {x : N} {m : Link H N} (removal : Removal heap old mid)
    (added : Pushed mid k h heap') (designates : heap'.read m = some x) :
    m = .head h ∧ x = k ∨ ∃ j, heap.read j = some x ∧
      (j = m ∨ (∃ o ∈ old, j = .next o) ∨ m = .next k ∧ j = .head h) := by
  have before : ∀ {i}, mid.read i = some x →
      heap.read i = some x ∨ ∃ o ∈ old, heap.read (.next o) = some x := by
    intro i designates
    rcases removal.read i with same | ⟨o, removed, _, via⟩
    · exact .inl (same.symm.trans designates)
    · exact .inr ⟨o, removed, via.symm.trans designates⟩
  rw [added.read] at designates
  split at designates
  · next isHead => exact .inl ⟨isHead, (Option.some.inj designates).symm⟩
  · split at designates
    · next isNext =>
      rcases before (i := .head h) designates with same | ⟨o, removed, via⟩
      · exact .inr ⟨_, same, .inr (.inr ⟨isNext, rfl⟩)⟩
      · exact .inr ⟨_, via, .inr (.inl ⟨o, removed, rfl⟩)⟩
    · rcases before designates with same | ⟨o, removed, via⟩
      · exact .inr ⟨m, same, .inl rfl⟩
      · exact .inr ⟨_, via, .inr (.inl ⟨o, removed, rfl⟩)⟩

/-- Only the removed node is poisoned, unless it is inserted again. -/
theorem pprev_of_pushed {old : Option N} {m : N} (removal : Removal heap old mid)
    (added : Pushed mid k h heap') (poisoned : heap'.pprev m = .poison) :
    heap.pprev m = .poison ∨ m ∈ old ∧ m ≠ k := by
  rw [added.pprev] at poisoned
  split at poisoned
  · cases poisoned
  · split at poisoned
    · cases poisoned
    · next other =>
      cases removal with
      | none => exact .inl poisoned
      | @some o l _ gone =>
          rw [gone.pprev] at poisoned
          split at poisoned
          · next same => exact .inr ⟨same ▸ rfl, other⟩
          · split at poisoned
            · cases poisoned
            · exact .inl poisoned

end Stores

end Kcr.Hlist.Heap
