import Kcr.Cache.Reachable

/-!
# What a store replaces

A store removes the first entry with its key from the L2 bucket, then from the L3
bucket, and puts the new entry at the head of both. The new entry has one `next`
field: the L3 insertion overwrites what the L2 insertion left there, so whatever the
L2 head alone led to is dropped. The links that stay reachable are those reached from
the other heads, and those behind the removed entries, which the removals splice in.
When each removed entry's `pprev` names the only one of these links that leads to it,
nothing reachable leads to it afterwards.
-/

namespace Kcr

open Hlist

section Rivals

variable (P : Platform) (who : Caller) (fingerprint mm : U64) (s : State)

/-- The entries with the key on the two chains a store walks. -/
def State.rivals : Set Node :=
  {o | s.sameKey fingerprint mm o = true ∧
    (s.heap.OnChain (.head (l2Head who.cpu fingerprint)) o ∨
      s.heap.OnChain (.head (l3Head P who.cpu fingerprint)) o)}

/-- The links from which a store's removals keep links reachable: all heads but the L2
head it overwrites, and what follows the rivals. -/
def State.keptStarts : Set (Link Head Node) :=
  {l | (∃ h, h ≠ l2Head who.cpu fingerprint ∧ l = .head h) ∨
    ∃ o ∈ s.rivals P who fingerprint mm, l = .next o}

def State.kept : Set (Link Head Node) := s.heap.Reached (s.keptStarts P who fingerprint mm)

/-- Each rival's `pprev` names the only kept link that leads to it. -/
def State.SoleRivals : Prop :=
  ∀ o ∈ s.rivals P who fingerprint mm, s.heap.SoleLink (s.kept P who fingerprint mm) o

end Rivals

/-- The empty caches hold no rivals. -/
theorem State.soleRivals_initial (P : Platform) (who : Caller) (fingerprint mm : U64) :
    State.initial.SoleRivals P who fingerprint mm := by
  rintro o ⟨_, ⟨l, _, designates⟩ | ⟨l, _, designates⟩⟩ <;>
    simp [State.initial] at designates

/-- Rivals are rooted. -/
theorem State.rivals_subset_rooted {P : Platform} {who : Caller} {fingerprint mm : U64}
    {s : State} : s.rivals P who fingerprint mm ⊆ s.heap.Targets s.heap.Rooted := by
  rintro o ⟨_, onL2 | onL3⟩
  · exact Heap.mem_targets_of_onChain onL2 ⟨_, rfl⟩
  · exact Heap.mem_targets_of_onChain onL3 ⟨_, rfl⟩

/-- And so is everything kept. -/
theorem State.kept_subset_rooted {P : Platform} {who : Caller} {fingerprint mm : U64}
    {s : State} :
    s.kept P who fingerprint mm ⊆ s.heap.Rooted := by
  apply Heap.reached_subset_rooted
  rintro l (⟨h, _, rfl⟩ | ⟨o, rival, rfl⟩)
  · exact Heap.head_mem_rooted h
  · exact Heap.closed_rooted.next_mem (State.rivals_subset_rooted rival)

/-- The effect of a store on the rooted links: it retired `removed`, and every rooted
entry is the new one or was kept and has not been removed; the L2 head leads to the new
one. -/
structure Replaces (P : Platform) (who : Caller) (fingerprint mm : U64) (entry : Node)
    (s s' : State) (removed : List Node) : Prop where
  head : s'.heap.first (l2Head who.cpu fingerprint) = some entry
  retired : s'.retired = s.retired ++ removed
  nodup : removed.Nodup
  rival : ∀ o ∈ removed, o ∈ s.rivals P who fingerprint mm
  complete : removed = [] → s.rivals P who fingerprint mm = ∅
  targets : ∀ n ∈ s'.heap.Targets s'.heap.Rooted, n = entry ∨
    n ∈ s.heap.Targets (s.kept P who fingerprint mm) ∧ n ∉ removed
  linked : ∀ n, n ∉ removed → (n = entry ∨ ∃ l, s.heap.pprev n = .link l) →
    ∃ l, s'.heap.pprev n = .link l

section Stages

variable {P : Platform} {who : Caller} {fingerprint : U64} {entry : Node} {s s₁ s' : State}

theorem l3Head_ne_l2Head : l3Head P who.cpu fingerprint ≠ l2Head who.cpu fingerprint := nofun

/-- The L2 head and the new entry's `next` are not kept. -/
theorem State.not_mem_kept (P : Platform) (who : Caller) (fingerprint mm : U64) (unread : ∀ l, s.heap.read l ≠ some entry) :
    .head (l2Head who.cpu fingerprint) ∉ s.kept P who fingerprint mm ∧
      .next entry ∉ s.kept P who fingerprint mm := by
  have notStart : .next entry ∉ s.keptStarts P who fingerprint mm := by
    rintro (⟨h, _, same⟩ | ⟨o, ⟨_, onChain⟩, same⟩)
    · cases same
    · obtain rfl := Link.next.inj same
      rcases onChain with ⟨l, _, designates⟩ | ⟨l, _, designates⟩ <;> exact unread l designates
  refine ⟨fun reached => ?_, fun reached => ?_⟩
  · obtain ⟨h, other, same⟩ | ⟨o, _, same⟩ := Heap.head_mem_of_reached reached
    · exact other (Link.head.inj same).symm
    · cases same
  · obtain ⟨l, _, designates⟩ := Heap.mem_targets_of_next reached notStart
    exact unread l designates

/-- After the L2 insertion: the kept links without the removed entry's `next` are closed,
lead to no removed entry, and still have sole links to the other rivals. -/
structure Stage (P : Platform) (who : Caller) (fingerprint mm : U64) (entry : Node)
    (s s₁ : State) (old : Option Node) : Prop where
  head : s₁.heap.first (l2Head who.cpu fingerprint) = some entry
  retired : s₁.retired = s.retired ++ old.toList
  rival : ∀ o ∈ old, o ∈ s.rivals P who fingerprint mm
  closed : s₁.heap.Closed (s.kept P who fingerprint mm \ Heap.nexts old)
  targets : s₁.heap.Targets (s.kept P who fingerprint mm \ Heap.nexts old) ⊆
    s.heap.Targets (s.kept P who fingerprint mm)
  gone : ∀ o ∈ old, o ∉ s₁.heap.Targets (s.kept P who fingerprint mm \ Heap.nexts old)
  sole : ∀ o ∈ s.rivals P who fingerprint mm,
    o ∈ s₁.heap.Targets (s.kept P who fingerprint mm \ Heap.nexts old) →
    s₁.heap.SoleLink (s.kept P who fingerprint mm \ Heap.nexts old) o
  linked : ∀ n, n ∉ old → (n = entry ∨ ∃ l, s.heap.pprev n = .link l) →
    ∃ l, s₁.heap.pprev n = .link l
  onL3 : ∀ n, s₁.heap.OnChain (.head (l3Head P who.cpu fingerprint)) n →
    s.heap.OnChain (.head (l2Head who.cpu fingerprint)) n ∨
      s.heap.OnChain (.head (l3Head P who.cpu fingerprint)) n
  missed : old = none → ∀ o ∈ s.rivals P who fingerprint mm,
    s₁.heap.OnChain (.head (l3Head P who.cpu fingerprint)) o

/-- The L2 removal adds to an L3 chain what followed the removed entry. -/
theorem ReplaceReturns.onChain_l3 (returns :
    ReplaceReturns (l2Head who.cpu fingerprint) entry fingerprint s s₁)
    (unread : ∀ l, s.heap.read l ≠ some entry) {n : Node}
    (onL3 : s₁.heap.OnChain (.head (l3Head P who.cpu fingerprint)) n) :
    s.heap.OnChain (.head (l2Head who.cpu fingerprint)) n ∨
      s.heap.OnChain (.head (l3Head P who.cpu fingerprint)) n := by
  obtain ⟨old, mid, found, removal, added, _⟩ := returns.heap_cases
  have onL2 : ∀ {o}, o ∈ old → s.heap.OnChain (.head (l2Head who.cpu fingerprint)) o := by
    rintro o ⟨⟩
    exact found.some.1
  let starts : Set (Link Head Node) :=
    insert (.head (l3Head P who.cpu fingerprint)) (Heap.nexts old)
  have inside : ∀ o ∈ old, .next o ∈ s.heap.Reached starts :=
    fun o removed => Heap.subset_reached _ (.inr ⟨o, removed, rfl⟩)
  have headOut : .head (l2Head who.cpu fingerprint) ∉ s.heap.Reached starts := by
    intro reached
    obtain same | ⟨o, _, same⟩ := Heap.head_mem_of_reached reached <;> cases same
  have notStart : .next entry ∉ starts := by
    rintro (same | ⟨o, removed, same⟩)
    · cases same
    · obtain rfl := Link.next.inj same
      obtain ⟨l, _, designates⟩ := onL2 removed
      exact unread l designates
  have nextOut : .next entry ∉ s.heap.Reached starts := by
    intro reached
    obtain ⟨l, _, designates⟩ := Heap.mem_targets_of_next reached notStart
    exact unread l designates
  have closed := (removal.closed_keep (Heap.closed_reached _) inside).pushed_outside added headOut
    nextOut
  have reach := closed.reached_singleton (Heap.subset_reached _ (.inl rfl))
  obtain ⟨l, ⟨start, isStart, path⟩, designates⟩ := removal.targets_keep inside
    (Heap.targets_pushed_outside added headOut nextOut
      (Heap.Targets.mono reach (Heap.mem_targets_of_onChain onL3 rfl)))
  rcases isStart with rfl | ⟨o, removed, rfl⟩
  · exact .inr ⟨l, path, designates⟩
  · exact .inl ⟨l, (onL2 removed).leads.trans path, designates⟩

/-- Without a removal an L3 chain stays as it is. -/
theorem onChain_l3_pushed (unread : ∀ l, s.heap.read l ≠ some entry)
    (added : Heap.Pushed s.heap entry (l2Head who.cpu fingerprint) s₁.heap) {n : Node}
    (onL3 : s.heap.OnChain (.head (l3Head P who.cpu fingerprint)) n) :
    s₁.heap.OnChain (.head (l3Head P who.cpu fingerprint)) n := by
  obtain ⟨headOut, nextOut⟩ := State.not_mem_kept P who fingerprint (s.entry entry).mm unread
  have unchanged : ∀ k, s.heap.Leads (.head (l3Head P who.cpu fingerprint)) k →
      s₁.heap.read k = s.heap.read k := by
    intro k before
    have member : k ∈ s.kept P who fingerprint (s.entry entry).mm :=
      ⟨_, .inl ⟨_, l3Head_ne_l2Head, rfl⟩, before⟩
    exact added.read_other (ne_of_mem_of_not_mem member headOut)
      (ne_of_mem_of_not_mem member nextOut)
  obtain ⟨l, path, designates⟩ := onL3
  exact ⟨l, path.congr unchanged, (unchanged l path).trans designates⟩

/-- A rival that the L2 removal leaves in the kept links does not become the first entry
of the L2 chain. -/
theorem State.SoleRivals.not_first {mm : U64} {old : Option Node} {mid : Heap Head Node} {o : Node}
    (sole : s.SoleRivals P who fingerprint mm)
    (found : s.heap.Finds (s.sameKey fingerprint mm) (.head (l2Head who.cpu fingerprint)) old)
    (removal : Heap.Removal s.heap old mid)
    (inside : ∀ n ∈ old, .next n ∈ s.kept P who fingerprint mm)
    (unread : ∀ l, s.heap.read l ≠ some entry)
    (isRival : o ∈ s.rivals P who fingerprint mm) (other : o ∉ old)
    (target : o ∈ mid.Targets (s.kept P who fingerprint mm \ Heap.nexts old)) :
    mid.first (l2Head who.cpu fingerprint) ≠ some o := by
  intro first
  rcases removal.read (.head (l2Head who.cpu fingerprint)) with kept | ⟨n, removed, named, via⟩
  · -- it was first before, so the search would have stopped at it
    have here := Heap.Finds.here (kept.symm.trans first) isRival.1
    exact other (found.unique here ▸ rfl)
  · -- it came after the removed entry, whose `next` is gone from the region
    have soleMid := removal.soleLink inside other (sole o isRival)
    obtain ⟨l, member, designates⟩ := target
    cases removal with
    | none => simp at removed
    | @some m _ _ gone =>
        obtain rfl : m = n := Option.some.inj removed
        rw [gone.named] at named
        obtain rfl := Pprev.link.inj named
        have distinct : o ≠ m := fun same => other (by rw [same]; rfl)
        have atLink := soleMid l member designates
        rw [gone.pprev, if_neg distinct, if_pos (via.symm.trans first)] at atLink
        obtain ⟨headOut, _⟩ := State.not_mem_kept P who fingerprint mm unread
        exact headOut (Pprev.link.inj atLink ▸ member.1)

/-- The first insertion of a store. -/
theorem ReplaceReturns.stage (returns :
    ReplaceReturns (l2Head who.cpu fingerprint) entry fingerprint s s₁)
    (unread : ∀ l, s.heap.read l ≠ some entry)
    (sole : s.SoleRivals P who fingerprint (s.entry entry).mm) :
    ∃ old, Stage P who fingerprint (s.entry entry).mm entry s s₁ old := by
  obtain ⟨old, mid, found, removal, added, retired⟩ := returns.heap_cases
  have closedKept : s.heap.Closed (s.kept P who fingerprint (s.entry entry).mm) :=
    Heap.closed_reached _
  obtain ⟨headOut, nextOut⟩ :=
    State.not_mem_kept P who fingerprint (s.entry entry).mm unread
  have rival : ∀ o ∈ old, o ∈ s.rivals P who fingerprint (s.entry entry).mm := by
    rintro o ⟨⟩
    exact ⟨found.some.2, .inl found.some.1⟩
  have inside : ∀ o ∈ old, .next o ∈ s.kept P who fingerprint (s.entry entry).mm :=
    fun o removed => Heap.subset_reached _ (.inr ⟨o, rival o removed, rfl⟩)
  have soleOld := fun o removed => sole o (rival o removed)
  have headOut' : .head (l2Head who.cpu fingerprint) ∉
      s.kept P who fingerprint (s.entry entry).mm \ Heap.nexts old := fun member => headOut member.1
  have nextOut' : .next entry ∉ s.kept P who fingerprint (s.entry entry).mm \ Heap.nexts old :=
    fun member => nextOut member.1
  have same := Heap.targets_pushed_outside added headOut' nextOut'
  refine ⟨old, added.read_head, retired, rival, ?_, ?_, ?_, ?_, ?_,
    fun n => returns.onChain_l3 unread, ?_⟩
  · exact (removal.closed closedKept inside soleOld).pushed_outside added headOut' nextOut'
  · exact same.trans (removal.targets inside)
  · exact fun o removed target => removal.not_target closedKept inside soleOld removed (same target)
  · intro o isRival target
    have other : o ∉ old := fun removed =>
      removal.not_target closedKept inside soleOld removed (same target)
    have notNew : o ≠ entry := by
      rintro rfl
      rcases isRival.2 with ⟨l, _, designates⟩ | ⟨l, _, designates⟩ <;> exact unread l designates
    exact (removal.soleLink inside other (sole o isRival)).pushed_outside added headOut' nextOut'
      (sole.not_first found removal inside unread isRival other (same target)) notNew
  · intro n other linked
    exact added.linked (linked.imp id (removal.linked other))
  · rintro rfl o ⟨sameKey, onL2 | onL3⟩
    · rw [found.rejects onL2] at sameKey
      cases sameKey
    · cases removal
      exact onChain_l3_pushed unread added onL3

/-- The entry the L3 search finds is a rival, and kept by the L2 insertion. -/
theorem Stage.found {old old' : Option Node} (inL2 :
    ReplaceReturns (l2Head who.cpu fingerprint) entry fingerprint s s₁)
    (stage : Stage P who fingerprint (s.entry entry).mm entry s s₁ old)
    (found : s₁.heap.Finds (s₁.sameKey fingerprint (s₁.entry entry).mm)
      (.head (l3Head P who.cpu fingerprint)) old') :
    ∀ o ∈ old', o ∈ s.rivals P who fingerprint (s.entry entry).mm ∧
      o ∈ s₁.heap.Targets (s.kept P who fingerprint (s.entry entry).mm \ Heap.nexts old) := by
  rintro o ⟨⟩
  have sameKey := found.some.2
  rw [State.sameKey, inL2.entry_eq] at sameKey
  obtain ⟨l, path, designates⟩ := found.some.1
  have start : .head (l3Head P who.cpu fingerprint) ∈
      s.kept P who fingerprint (s.entry entry).mm \ Heap.nexts old :=
    ⟨Heap.subset_reached _ (.inl ⟨_, l3Head_ne_l2Head, rfl⟩), Heap.head_not_mem_nexts⟩
  exact ⟨⟨sameKey, stage.onL3 o found.some.1⟩, l, stage.closed.leads start path, designates⟩

/-- Both insertions: what a store that returns 0 does to the rooted links. -/
theorem replaces_of_insertions
    (inL2 : ReplaceReturns (l2Head who.cpu fingerprint) entry fingerprint s s₁)
    (inL3 : ReplaceReturns (l3Head P who.cpu fingerprint) entry fingerprint s₁ s')
    (unread : ∀ l, s.heap.read l ≠ some entry)
    (sole : s.SoleRivals P who fingerprint (s.entry entry).mm) :
    ∃ removed, Replaces P who fingerprint (s.entry entry).mm entry s s' removed := by
  obtain ⟨old, stage⟩ := inL2.stage unread sole
  obtain ⟨old', mid, found, removal, added, retired⟩ := inL3.heap_cases
  obtain ⟨headOut, nextOut⟩ :=
    State.not_mem_kept P who fingerprint (s.entry entry).mm unread
  have headL3 : .head (l3Head P who.cpu fingerprint) ∈
      s.kept P who fingerprint (s.entry entry).mm \ Heap.nexts old :=
    ⟨Heap.subset_reached _ (.inl ⟨_, l3Head_ne_l2Head, rfl⟩), Heap.head_not_mem_nexts⟩
  have rival := fun o removed => (stage.found inL2 found o removed).1
  have target := fun o removed => (stage.found inL2 found o removed).2
  have inside := fun o removed => stage.closed.next_mem (target o removed)
  have soleLink := fun o removed => stage.sole o (rival o removed) (target o removed)
  have headL3' : .head (l3Head P who.cpu fingerprint) ∈
      (s.kept P who fingerprint (s.entry entry).mm \ Heap.nexts old) \ Heap.nexts old' :=
    ⟨headL3, Heap.head_not_mem_nexts⟩
  have head : s'.heap.first (l2Head who.cpu fingerprint) = some entry := by
    have outside : .head (l2Head who.cpu fingerprint) ≠
        (.head (l3Head P who.cpu fingerprint) : Link Head Node) :=
      fun same => l3Head_ne_l2Head (Link.head.inj same).symm
    have pushed := added.read_other outside nofun
    rcases removal.read (.head (l2Head who.cpu fingerprint)) with same | ⟨o, removed, named, _⟩
    · exact pushed.trans (same.trans stage.head)
    · obtain ⟨l, member, designates⟩ := target o removed
      have viaL := soleLink o removed l member designates
      rw [named] at viaL
      exact absurd (Pprev.link.inj viaL ▸ member).1 headOut
  have closed := ((removal.closed stage.closed inside soleLink).pushed added headL3').adjoin
    (l := .head (l2Head who.cpu fingerprint)) (fun n designates => by
      obtain rfl := Option.some.inj (head.symm.trans designates)
      exact .inl rfl)
  have rooted := closed.rooted fun h => by
    by_cases own : h = l2Head who.cpu fingerprint
    · exact .inl (own ▸ rfl)
    · exact .inr (.inr ⟨⟨Heap.subset_reached _ (.inl ⟨h, own, rfl⟩), Heap.head_not_mem_nexts⟩,
        Heap.head_not_mem_nexts⟩)
  refine ⟨old.toList ++ old'.toList, head, ?_, ?_, ?_, ?_, ?_, ?_⟩
  · rw [retired, stage.retired, List.append_assoc]
  · have single : ∀ found : Option Node, found.toList.Nodup := by
      intro found
      cases found <;> simp
    refine List.nodup_append.mpr ⟨single old, single old', ?_⟩
    rintro o earlier _ later rfl
    exact stage.gone o (Option.mem_toList.mp earlier) (target o (Option.mem_toList.mp later))
  · intro o member
    rcases List.mem_append.mp member with earlier | later
    · exact stage.rival o (Option.mem_toList.mp earlier)
    · exact rival o (Option.mem_toList.mp later)
  · intro none
    obtain ⟨noneL2, noneL3⟩ := List.append_eq_nil_iff.mp none
    rw [Option.toList_eq_nil_iff] at noneL2 noneL3
    refine Set.eq_empty_of_forall_notMem fun o isRival => ?_
    have rejected := (noneL3 ▸ found).rejects (stage.missed noneL2 o isRival)
    rw [State.sameKey, inL2.entry_eq] at rejected
    exact absurd isRival.1 (by rw [State.sameKey, rejected]; exact nofun)
  · rintro n ⟨l, member, designates⟩
    rcases rooted member with rfl | member
    · exact .inl (Option.some.inj (head.symm.trans designates)).symm
    · refine (Heap.targets_pushed added headL3' ⟨l, member, designates⟩).imp id fun kept => ?_
      have before := removal.targets inside kept
      refine ⟨stage.targets before, fun removed => ?_⟩
      rcases List.mem_append.mp removed with earlier | later
      · exact stage.gone n (Option.mem_toList.mp earlier) before
      · exact removal.not_target stage.closed inside soleLink (Option.mem_toList.mp later) kept
  · intro n other linked
    simp only [List.mem_append, Option.mem_toList, not_or] at other
    exact added.linked (.inr (removal.linked other.2 (stage.linked n other.1 linked)))

end Stages

section Insertion

variable {P : Platform} {who : Caller} {fingerprint : U64} {bytes : Nat → U8} {len : U32}
  {mm : U64} {entry : Node} {kvmalloc : U64} {s s₀ s₁ s' : State}

/-- Nothing leads to an entry that is not allocated. -/
theorem WellFormed.unread (wellFormed : WellFormed s) (fresh : entry ∉ s.live)
    (l : Link Head Node) : s.heap.read l ≠ some entry :=
  fun designates => fresh (wellFormed.confined.read designates)

namespace Allocation

/-- Allocating the entry does not change who its rivals are. -/
theorem rivals_eq (allocation : Allocation P who fingerprint bytes len mm entry kvmalloc s s₀)
    (wellFormed : WellFormed s) :
    s₀.rivals P who fingerprint mm = s.rivals P who fingerprint mm := by
  have same : ∀ {h o}, s.heap.OnChain (.head h) o →
      s₀.sameKey fingerprint mm o = s.sameKey fingerprint mm o := by
    intro h o onChain
    simp only [State.sameKey, allocation.entry_of_live (wellFormed.confined.onChain onChain)]
  ext o
  simp only [State.rivals, allocation.heap, Set.mem_ofPred_eq]
  constructor
  · rintro ⟨sameKey, onL2 | onL3⟩
    · exact ⟨same onL2 ▸ sameKey, .inl onL2⟩
    · exact ⟨same onL3 ▸ sameKey, .inr onL3⟩
  · rintro ⟨sameKey, onL2 | onL3⟩
    · exact ⟨(same onL2).symm ▸ sameKey, .inl onL2⟩
    · exact ⟨(same onL3).symm ▸ sameKey, .inr onL3⟩

/-- A search of a store's insertions, as if before the allocation. -/
theorem finds (allocation : Allocation P who fingerprint bytes len mm entry kvmalloc s s₀)
    (wellFormed : WellFormed s) {t : State} (same : t.entry = s₀.entry) {l : Link Head Node}
    {result : Option Node} (found : s₀.heap.Finds (t.sameKey fingerprint mm) l result) :
    s.heap.Finds (s.sameKey fingerprint mm) l result := by
  rw [allocation.heap] at found
  refine found.test fun n onChain => ?_
  rw [State.sameKey, State.sameKey, same,
    allocation.entry_of_live (wellFormed.confined.onChain onChain)]

theorem kept_eq (allocation : Allocation P who fingerprint bytes len mm entry kvmalloc s s₀)
    (wellFormed : WellFormed s) :
    s₀.kept P who fingerprint mm = s.kept P who fingerprint mm := by
  simp only [State.kept, State.keptStarts, allocation.rivals_eq wellFormed, allocation.heap]

theorem soleRivals (allocation : Allocation P who fingerprint bytes len mm entry kvmalloc s s₀)
    (wellFormed : WellFormed s) (sole : s.SoleRivals P who fingerprint mm) :
    s₀.SoleRivals P who fingerprint (s₀.entry entry).mm := by
  rw [allocation.key.2.1]
  unfold State.SoleRivals
  rw [allocation.rivals_eq wellFormed, allocation.kept_eq wellFormed, allocation.heap]
  exact sole

end Allocation

/-- What a successful store does to the rooted links. -/
theorem Insertion.replaces
    (insertion : Insertion P who fingerprint bytes len mm entry kvmalloc s s₀ s₁ s')
    (wellFormed : WellFormed s) (sole : s.SoleRivals P who fingerprint mm) :
    ∃ removed, Replaces P who fingerprint mm entry s s' removed := by
  have allocation := insertion.toAllocation
  obtain ⟨removed, effect⟩ := replaces_of_insertions insertion.inL2 insertion.inL3
    (fun l => by rw [insertion.heap]; exact wellFormed.unread insertion.fresh l)
    (allocation.soleRivals wellFormed sole)
  rw [allocation.key.2.1] at effect
  have rivals := allocation.rivals_eq wellFormed
  have kept := allocation.kept_eq wellFormed
  exact ⟨removed, effect.head, insertion.retired ▸ effect.retired, effect.nodup, rivals ▸ effect.rival,
    rivals ▸ effect.complete, kept ▸ insertion.heap ▸ effect.targets,
    insertion.heap ▸ effect.linked⟩

/-! ## What a store retires -/

/-- The entries a store may retire: the first one with its key on the L2 chain, and the
first one on the L3 chain, or behind the L2 one where its `pprev` names a link of the L3
chain. -/
inductive State.Displaced (P : Platform) (who : Caller) (fingerprint mm : U64) (s : State)
    (o : Node) : Prop where
  | inL2 (found : s.heap.Finds (s.sameKey fingerprint mm)
      (.head (l2Head who.cpu fingerprint)) (some o))
  | inL3 (found : s.heap.Finds (s.sameKey fingerprint mm)
      (.head (l3Head P who.cpu fingerprint)) (some o))
  | behind {old l}
      (found : s.heap.Finds (s.sameKey fingerprint mm)
        (.head (l2Head who.cpu fingerprint)) (some old))
      (named : s.heap.pprev old = .link l)
      (path : s.heap.Leads (.head (l3Head P who.cpu fingerprint)) l)
      (next : s.heap.Finds (s.sameKey fingerprint mm) (.next old) (some o))

/-- They are rooted and have the key. -/
theorem State.Displaced.rooted {o : Node} (displaced : s.Displaced P who fingerprint mm o) :
    o ∈ s.heap.Targets s.heap.Rooted ∧ s.sameKey fingerprint mm o = true := by
  cases displaced with
  | inL2 found | inL3 found =>
      exact ⟨Heap.mem_targets_of_onChain found.some.1 ⟨_, rfl⟩, found.some.2⟩
  | behind found _ _ next =>
      have onChain := next.some.1.of_leads found.some.1.leads
      exact ⟨Heap.mem_targets_of_onChain onChain ⟨_, rfl⟩, next.some.2⟩

/-- The L2 insertion, as if before the allocation. -/
theorem Insertion.l2_cases
    (insertion : Insertion P who fingerprint bytes len mm entry kvmalloc s s₀ s₁ s')
    (wellFormed : WellFormed s) :
    ∃ old mid,
      s.heap.Finds (s.sameKey fingerprint mm) (.head (l2Head who.cpu fingerprint)) old ∧
      Heap.Removal s.heap old mid ∧
      Heap.Pushed mid entry (l2Head who.cpu fingerprint) s₁.heap ∧
      s₁.retired = s.retired ++ old.toList := by
  obtain ⟨old, mid, found, removal, added, retired⟩ := insertion.inL2.heap_cases
  rw [insertion.key.2.1] at found
  exact ⟨old, mid, insertion.toAllocation.finds wellFormed rfl found, insertion.heap ▸ removal,
    added, insertion.retired ▸ retired⟩

/-- No link leads to the new entry before the L2 insertion. -/
theorem Insertion.unread
    (insertion : Insertion P who fingerprint bytes len mm entry kvmalloc s s₀ s₁ s')
    (wellFormed : WellFormed s) {old : Option Node} {mid : Heap Head Node}
    (removal : Heap.Removal s.heap old mid) (l : Link Head Node) : mid.read l ≠ some entry := by
  cases removal with
  | none => exact wellFormed.unread insertion.fresh l
  | some gone => exact fun designates =>
      insertion.fresh ((wellFormed.confined.unlinked gone).read designates)

/-- The search of the L3 insertion, as if before the L2 insertion. -/
theorem Insertion.found_l3
    (insertion : Insertion P who fingerprint bytes len mm entry kvmalloc s s₀ s₁ s')
    (wellFormed : WellFormed s) {old old' : Option Node} {mid : Heap Head Node}
    (removal : Heap.Removal s.heap old mid)
    (added : Heap.Pushed mid entry (l2Head who.cpu fingerprint) s₁.heap)
    (found : s₁.heap.Finds (s₁.sameKey fingerprint (s₁.entry entry).mm)
      (.head (l3Head P who.cpu fingerprint)) old') :
    mid.Finds (s₁.sameKey fingerprint mm) (.head (l3Head P who.cpu fingerprint)) old' := by
  rw [insertion.inL2.entry_eq, insertion.key.2.1] at found
  exact added.finds_other (insertion.unread wellFormed removal) l3Head_ne_l2Head found

/-- What the two searches of a store find is displaced. -/
theorem Insertion.displaced
    (insertion : Insertion P who fingerprint bytes len mm entry kvmalloc s s₀ s₁ s')
    (wellFormed : WellFormed s) {old old' : Option Node} {mid : Heap Head Node}
    (found : s.heap.Finds (s.sameKey fingerprint mm) (.head (l2Head who.cpu fingerprint)) old)
    (removal : Heap.Removal s.heap old mid)
    (foundMid : mid.Finds (s₁.sameKey fingerprint mm) (.head (l3Head P who.cpu fingerprint)) old') :
    (∀ o ∈ old, s.Displaced P who fingerprint mm o) ∧
      ∀ o ∈ old', s.Displaced P who fingerprint mm o := by
  have before : ∀ {l result}, s.heap.Finds (s₁.sameKey fingerprint mm) l result →
      s.heap.Finds (s.sameKey fingerprint mm) l result := by
    intro l result search
    rw [← insertion.heap] at search
    exact insertion.toAllocation.finds wellFormed insertion.inL2.entry_eq search
  constructor
  · rintro o ⟨⟩
    exact .inL2 found
  · rintro o ⟨⟩
    cases removal with
    | none => exact .inL3 (before foundMid)
    | some gone =>
        rcases foundMid.of_unlinked gone with same | ⟨path, next⟩
        · exact .inL3 (before same)
        · exact .behind found gone.named path (before next)

/-- A store that inserts retires such entries only. -/
theorem Insertion.retires
    (insertion : Insertion P who fingerprint bytes len mm entry kvmalloc s s₀ s₁ s')
    (wellFormed : WellFormed s) :
    ∃ removed, s'.retired = s.retired ++ removed ∧
      ∀ o ∈ removed, s.Displaced P who fingerprint mm o := by
  obtain ⟨old, mid, found, removal, added, retired⟩ := insertion.l2_cases wellFormed
  obtain ⟨old', mid', found', _, _, retired'⟩ := insertion.inL3.heap_cases
  obtain ⟨inL2, inL3⟩ := insertion.displaced wellFormed found removal
    (insertion.found_l3 wellFormed removal added found')
  refine ⟨old.toList ++ old'.toList, ?_, fun o member => ?_⟩
  · rw [retired', retired, List.append_assoc]
  · rcases List.mem_append.mp member with first | second
    · exact inL2 o (Option.mem_toList.mp first)
    · exact inL3 o (Option.mem_toList.mp second)

end Insertion

end Kcr
