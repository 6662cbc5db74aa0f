import Kcr.Hlist.Chain
import Mathlib.Order.BooleanAlgebra.Set
import Mathlib.Order.SetNotation

/-!
# Regions under removal and insertion

A removal copies the pointer of one link of a closed region into another link, so
the region stays closed. When `pprev` names the only link of the region that leads
to the removed node, the node's own `next` field leaves the region too: the node
can no longer be visited. These two facts, and their counterparts for an
insertion, are how unreachability is proved in what follows.
-/

namespace Kcr.Hlist.Heap

variable {H N : Type} {heap heap' : Heap H N}

/-- Within the region, only the link that `pprev` names leads to the node. -/
def SoleLink (heap : Heap H N) (region : Set (Link H N)) (n : N) : Prop :=
  ∀ l ∈ region, heap.read l = some n → heap.pprev n = .link l

theorem SoleLink.mono {region more : Set (Link H N)} {n : N} (sole : heap.SoleLink more n)
    (subset : region ⊆ more) : heap.SoleLink region n :=
  fun l member designates => sole l (subset member) designates

/-- Removing the node changes no other pointer of the region: the link `pprev` names is
outside, or leads to the node, or is null like the node's own. -/
def Spares (heap : Heap H N) (region : Set (Link H N)) (n : N) : Prop :=
  ∀ l ∈ region, heap.pprev n = .link l →
    heap.read l = some n ∨ heap.read l = none ∧ heap.next n = none

theorem Spares.mono {region more : Set (Link H N)} {n : N} (spares : heap.Spares more n)
    (subset : region ⊆ more) : heap.Spares region n :=
  fun l member named => spares l (subset member) named

/-- A closed region without a node's `next` has no link to the node. -/
theorem not_read_of_closed {region : Set (Link H N)} {n : N}
    (closed : heap.Closed (region \ {.next n})) {m : Link H N}
    (member : m ∈ region \ {.next n}) : heap.read m ≠ some n :=
  fun designates => (closed member designates).2 rfl

/-- A link whose target is already in the region may join it. -/
theorem Closed.adjoin {region : Set (Link H N)} (closed : heap.Closed region) {l : Link H N}
    (target : ∀ n, heap.read l = some n → .next n ∈ region) :
    heap.Closed (insert l region) := by
  intro m member k designates
  rcases member with rfl | member
  · exact .inr (target k designates)
  · exact .inr (closed member designates)

/-! ## Allocated nodes -/

/-- Only nodes of `live` occur in links and in the `pprev` of nodes, the others are
zeroed, and a node some link leads to has had its `pprev` set. -/
structure Confined (heap : Heap H N) (live : Set N) : Prop where
  read : ∀ {l n}, heap.read l = some n → n ∈ live
  named : ∀ {n m}, heap.pprev n = .link (.next m) → m ∈ live
  zeroed : ∀ {n}, n ∉ live → heap.next n = none ∧ heap.pprev n = .null
  linked : ∀ {l n}, heap.read l = some n → heap.pprev n ≠ .null

theorem confined_empty (live : Set N) : (empty : Heap H N).Confined live where
  read designates := by simp at designates
  named same := by simp [empty] at same
  zeroed _ := ⟨rfl, rfl⟩
  linked designates := by simp at designates

theorem Confined.mono {live : Set N} (confined : heap.Confined live) {more : Set N} (subset : live ⊆ more) :
    heap.Confined more where
  read designates := subset (confined.read designates)
  named same := subset (confined.named same)
  zeroed outside := confined.zeroed fun inside => outside (subset inside)
  linked := confined.linked

/-- An entry some walk visits is allocated. -/
theorem Confined.onChain {live : Set N} (confined : heap.Confined live) {l : Link H N} {n : N}
    (visited : heap.OnChain l n) : n ∈ live := by
  obtain ⟨m, _, designates⟩ := visited
  exact confined.read designates

/-- The `next` fields of the nodes removed. -/
def nexts (old : Option N) : Set (Link H N) := {l | ∃ n ∈ old, l = .next n}

@[simp] theorem nexts_none : (nexts none : Set (Link H N)) = ∅ := by
  simp [nexts]

@[simp] theorem nexts_some (n : N) : (nexts (some n) : Set (Link H N)) = {.next n} := by
  simp [nexts]

theorem head_not_mem_nexts {h : H} {old : Option N} : .head h ∉ (nexts old : Set (Link H N)) := by
  rintro ⟨n, _, same⟩
  cases same

section Stores

variable [DecidableEq H] [DecidableEq N]

/-! ## Removal -/

theorem Unlinked.read_named {n : N} {l : Link H N} (gone : Unlinked heap n l heap') :
    heap'.read l = heap.next n := by
  rw [gone.read, if_pos rfl]

theorem Unlinked.read_other {n : N} {l m : Link H N} (gone : Unlinked heap n l heap')
    (other : m ≠ l) : heap'.read m = heap.read m := by
  rw [gone.read, if_neg other]

/-- A removed node keeps its successor. -/
theorem Unlinked.next_self {n : N} {l : Link H N} (gone : Unlinked heap n l heap') :
    heap'.next n = heap.next n := by
  have read := gone.read (.next n)
  rw [read_next, read_next, ite_self] at read
  exact read

/-- Removal keeps every closed region that holds the removed node's `next`. -/
theorem Closed.unlinked {region : Set (Link H N)} (closed : heap.Closed region) {n : N}
    {l : Link H N} (gone : Unlinked heap n l heap') (inside : .next n ∈ region) :
    heap'.Closed region := by
  intro m member k designates
  rw [gone.read] at designates
  split at designates
  · exact closed inside designates
  · exact closed member designates

/-- Removal leads to no new node. -/
theorem targets_unlinked {region : Set (Link H N)} {n : N} {l : Link H N}
    (gone : Unlinked heap n l heap') (inside : .next n ∈ region) :
    heap'.Targets region ⊆ heap.Targets region := by
  rintro k ⟨m, member, designates⟩
  rw [gone.read] at designates
  split at designates
  · exact ⟨.next n, inside, designates⟩
  · exact ⟨m, member, designates⟩

/-- A removed node is the only one whose `pprev` names no link any more. -/
theorem Unlinked.linked {n k : N} {l : Link H N} (gone : Unlinked heap n l heap') (other : k ≠ n)
    (linked : ∃ m, heap.pprev k = .link m) : ∃ m, heap'.pprev k = .link m := by
  rw [gone.pprev, if_neg other]
  split
  · exact ⟨l, rfl⟩
  · exact linked

/-- The link a removal went through is reached as before. -/
theorem Unlinked.reached {starts : Set (Link H N)} {n : N} {l : Link H N}
    (gone : Unlinked heap n l heap') (member : l ∈ heap.Reached starts) :
    l ∈ heap'.Reached starts := by
  obtain ⟨m, start, path⟩ := member
  exact ⟨m, start, path.congr_until fun k other => gone.read_other other⟩

/-- Removal through the sole link takes the removed node's `next` out of the region. -/
theorem Closed.unlinked_sole {region : Set (Link H N)} (closed : heap.Closed region) {n : N}
    {l : Link H N} (gone : Unlinked heap n l heap') (inside : .next n ∈ region)
    (sole : heap.SoleLink region n) : heap'.Closed (region \ {.next n}) := by
  have named : ∀ m ∈ region, heap.read m = some n → m = l := by
    intro m member designates
    have via := sole m member designates
    rw [gone.named] at via
    exact (Pprev.link.inj via).symm
  rintro m ⟨member, notNext⟩ k designates
  refine ⟨closed.unlinked gone inside member designates, ?_⟩
  rintro same
  obtain rfl : k = n := Link.next.inj same
  by_cases atLink : m = l
  · subst atLink
    rw [gone.read_named] at designates
    exact notNext (named (.next k) inside designates).symm
  · rw [gone.read_other atLink] at designates
    exact atLink (named m member designates)

/-- Nothing in the region leads to a node removed through its sole link. -/
theorem not_mem_targets_unlinked {region : Set (Link H N)} (closed : heap.Closed region) {n : N}
    {l : Link H N} (gone : Unlinked heap n l heap') (inside : .next n ∈ region)
    (sole : heap.SoleLink region n) : n ∉ heap'.Targets (region \ {.next n}) := by
  rintro ⟨m, member, designates⟩
  exact not_read_of_closed (closed.unlinked_sole gone inside sole) member designates

/-- The other nodes keep their sole links. -/
theorem SoleLink.unlinked {region : Set (Link H N)} {n k : N} {l : Link H N}
    (soleK : heap.SoleLink region k) (gone : Unlinked heap n l heap') (inside : .next n ∈ region)
    (other : k ≠ n) : heap'.SoleLink (region \ {.next n}) k := by
  rintro m ⟨member, notNext⟩ designates
  rw [gone.pprev, if_neg other]
  by_cases successor : heap.next n = some k
  · rw [if_pos successor]
    by_cases atLink : m = l
    · rw [atLink]
    · -- the region had two links to the successor: its sole link was the removed node's
      rw [gone.read_other atLink] at designates
      have viaM := soleK m member designates
      rw [soleK (.next n) inside successor] at viaM
      exact absurd (Pprev.link.inj viaM).symm notNext
  · rw [if_neg successor]
    by_cases atLink : m = l
    · rw [atLink, gone.read_named] at designates
      exact absurd designates successor
    · rw [gone.read_other atLink] at designates
      exact soleK m member designates

/-- Removal through a link that leads to the node leaves all other links reached. -/
theorem Unlinked.reached_other {starts : Set (Link H N)} {n : N} {l m : Link H N}
    (gone : Unlinked heap n l heap') (leads : heap.read l = some n)
    (member : l ∈ heap.Reached starts) (reached : m ∈ heap.Reached starts) :
    m = .next n ∨ m ∈ heap'.Reached starts := by
  obtain ⟨start, isStart, path⟩ := reached
  induction path with
  | refl => exact .inr (subset_reached _ isStart)
  | @tail m _ before step ih =>
      obtain ⟨k, designates, rfl⟩ := step
      rcases ih with atRemoved | kept
      · -- behind the removed node: the link it was removed through now leads there
        subst atRemoved
        exact .inr (closed_reached _ (gone.reached member) (gone.read_named.trans designates))
      · by_cases atLink : m = l
        · subst atLink
          exact .inl (Option.some.inj (designates.symm.trans leads) ▸ rfl)
        · exact .inr (closed_reached _ kept ((gone.read_other atLink).trans designates))

/-- And all other nodes. -/
theorem Unlinked.targets_other {starts : Set (Link H N)} {n k : N} {l : Link H N}
    (gone : Unlinked heap n l heap') (leads : heap.read l = some n)
    (member : l ∈ heap.Reached starts) (target : k ∈ heap.Targets (heap.Reached starts))
    (other : k ≠ n) : k ∈ heap'.Targets (heap'.Reached starts) := by
  obtain ⟨m, reached, designates⟩ := target
  rcases gone.reached_other leads member reached with rfl | kept
  · exact ⟨l, gone.reached member, gone.read_named.trans designates⟩
  · refine ⟨m, kept, (gone.read_other ?_).trans designates⟩
    rintro rfl
    exact other (Option.some.inj (designates.symm.trans leads))

/-- A removal through a link outside a region does not touch it. -/
theorem Closed.unlinked_outside {region : Set (Link H N)} (closed : heap.Closed region) {n : N}
    {l : Link H N} (gone : Unlinked heap n l heap') (outside : l ∉ region) :
    heap'.Closed region := by
  intro m member k designates
  rw [gone.read_other (ne_of_mem_of_not_mem member outside)] at designates
  exact closed member designates

/-- After a removal a chain visits what it did, or what was behind the removed node. -/
theorem Unlinked.onChain {n k : N} {l m : Link H N} (gone : Unlinked heap n l heap')
    (visited : heap'.OnChain m k) : heap.OnChain m k ∨ heap.OnChain (.next n) k := by
  have closed : heap.Closed (heap.Reached {m, .next n}) := closed_reached _
  have inside : .next n ∈ heap.Reached {m, .next n} := subset_reached _ (.inr rfl)
  have keeps := (closed.unlinked gone inside).reached_singleton (subset_reached _ (.inl rfl))
  obtain ⟨j, ⟨start, isStart, path⟩, designates⟩ := targets_unlinked gone inside
    (Targets.mono keeps (mem_targets_singleton.mpr visited))
  rcases isStart with rfl | rfl
  · exact .inl ⟨j, path, designates⟩
  · exact .inr ⟨j, path, designates⟩

/-- A sparing removal leaves the others sparing. -/
theorem Spares.unlinked {region : Set (Link H N)} {n k : N} {l : Link H N}
    (sparesK : heap.Spares region k) (spares : heap.Spares region n)
    (gone : Unlinked heap n l heap') (inside : .next k ∈ region) : heap'.Spares region k := by
  intro m member named
  rw [gone.pprev] at named
  split at named
  · cases named
  · next other =>
    split at named
    · next successor =>
      obtain rfl := Pprev.link.inj named
      exact .inl (gone.read_named.trans successor)
    · rcases sparesK m member named with leads | ⟨null, last⟩
      · by_cases atLink : m = l
        · subst atLink
          rcases spares m member gone.named with leadsN | ⟨null, _⟩
          · exact absurd (Option.some.inj (leads.symm.trans leadsN)) other
          · rw [null] at leads
            cases leads
        · exact .inl ((gone.read_other atLink).trans leads)
      · right
        -- a null pointer of the region is only overwritten by another null
        have stays : ∀ {j}, j ∈ region → heap.read j = none → heap'.read j = none := by
          intro j inside null
          by_cases atLink : j = l
          · subst atLink
            rcases spares j inside gone.named with leads | ⟨_, last⟩
            · rw [null] at leads
              cases leads
            · exact gone.read_named.trans last
          · exact (gone.read_other atLink).trans null
        exact ⟨stays member null, stays inside last⟩

/-- A sparing removal keeps a region closed, and takes the node out of it where `pprev`
names the sole link to it. -/
theorem Closed.unlinked_spared {region : Set (Link H N)} (closed : heap.Closed region) {n : N}
    {l : Link H N} (gone : Unlinked heap n l heap') (sole : heap.SoleLink region n)
    (spares : heap.Spares region n) : heap'.Closed (region \ {.next n}) := by
  rintro m ⟨member, notNext⟩ k designates
  by_cases atLink : m = l
  · subst atLink
    rw [gone.read_named] at designates
    rcases spares m member gone.named with leads | ⟨_, last⟩
    · have inside := closed member leads
      refine ⟨closed inside designates, ?_⟩
      rintro same
      obtain rfl : k = n := Link.next.inj same
      -- the node would follow itself, through a second link
      have via := sole (.next k) inside designates
      rw [gone.named] at via
      exact notNext (Pprev.link.inj via)
    · rw [last] at designates
      cases designates
  · rw [gone.read_other atLink] at designates
    refine ⟨closed member designates, ?_⟩
    rintro same
    obtain rfl : k = n := Link.next.inj same
    have via := sole m member designates
    rw [gone.named] at via
    exact atLink (Pprev.link.inj via).symm

/-- A sparing removal keeps a region closed and leads to no new node. -/
theorem Closed.unlinked_spares {region : Set (Link H N)} (closed : heap.Closed region) {n : N}
    {l : Link H N} (gone : Unlinked heap n l heap') (spares : heap.Spares region n) :
    heap'.Closed region ∧ heap'.Targets region ⊆ heap.Targets region := by
  have before : ∀ m ∈ region, ∀ k, heap'.read m = some k →
      ∃ j ∈ region, heap.read j = some k := by
    intro m member k designates
    by_cases atLink : m = l
    · subst atLink
      rw [gone.read_named] at designates
      rcases spares m member gone.named with leads | ⟨_, last⟩
      · exact ⟨.next n, closed member leads, designates⟩
      · rw [last] at designates
        cases designates
    · exact ⟨m, member, (gone.read_other atLink).symm.trans designates⟩
  refine ⟨fun m member k designates => ?_, ?_⟩
  · obtain ⟨j, inside, same⟩ := before m member k designates
    exact closed inside same
  · rintro k ⟨m, member, designates⟩
    exact before m member k designates

/-- A sparing removal does not change searches that stop at another node or at none. -/
theorem Finds.unlinked {region : Set (Link H N)} (closed : heap.Closed region) {n : N}
    {l : Link H N} (spares : heap.Spares region n) (gone : Unlinked heap n l heap')
    {accepts : N → Bool} {m : Link H N} (member : m ∈ region) {result : Option N}
    (other : n ∉ result) (found : heap.Finds accepts m result) :
    heap'.Finds accepts m result := by
  refine found.induct (motive := fun m result => m ∈ region → n ∉ result →
    heap'.Finds accepts m result) ?_ ?_ ?_ member other
  · intro m null member _
    by_cases atLink : m = l
    · subst atLink
      rcases spares m member gone.named with leads | ⟨_, last⟩
      · rw [null] at leads
        cases leads
      · exact .ends (gone.read_named.trans last)
    · exact .ends ((gone.read_other atLink).trans null)
  · intro m k designates accepted member other
    refine .here ((gone.read_other ?_).trans designates) accepted
    rintro rfl
    rcases spares m member gone.named with leads | ⟨null, _⟩
    · exact other (leads.symm.trans designates).symm
    · rw [null] at designates
      cases designates
  · intro m k result designates rejects _ ih member other
    have rest := ih (closed member designates) other
    by_cases atLink : m = l
    · subst atLink
      rcases spares m member gone.named with leads | ⟨null, _⟩
      · -- the search goes on where it would have gone behind the removed node
        obtain rfl : n = k := Option.some.inj (leads.symm.trans designates)
        have same : heap'.read m = heap'.read (.next n) :=
          gone.read_named.trans gone.next_self.symm
        exact rest.of_read same
      · rw [null] at designates
        cases designates
    · exact .later ((gone.read_other atLink).trans designates) rejects rest

/-- A search after a removal goes the way it went before, or comes to the link that was
written and goes on behind the removed node. -/
theorem Finds.of_unlinked {n : N} {l m : Link H N} (gone : Unlinked heap n l heap')
    {accepts : N → Bool} {result : Option N} (found : heap'.Finds accepts m result) :
    heap.Finds accepts m result ∨ heap.Leads m l ∧ heap.Finds accepts (.next n) result := by
  refine found.induct (motive := fun m result => heap.Finds accepts m result ∨
    heap.Leads m l ∧ heap.Finds accepts (.next n) result) ?_ ?_ ?_
  · intro m null
    by_cases atLink : m = l
    · subst atLink
      exact .inr ⟨.refl m, .ends (gone.read_named.symm.trans null)⟩
    · exact .inl (.ends ((gone.read_other atLink).symm.trans null))
  · intro m k designates accepted
    by_cases atLink : m = l
    · subst atLink
      exact .inr ⟨.refl m, .here (gone.read_named.symm.trans designates) accepted⟩
    · exact .inl (.here ((gone.read_other atLink).symm.trans designates) accepted)
  · intro m k result designates rejected _ ih
    by_cases atLink : m = l
    · subst atLink
      refine .inr ⟨.refl m, ?_⟩
      rcases ih with rest | ⟨_, behind⟩
      · exact .later (gone.read_named.symm.trans designates) rejected rest
      · exact behind
    · have before : heap.read m = Option.some k := (gone.read_other atLink).symm.trans designates
      rcases ih with rest | ⟨path, behind⟩
      · exact .inl (.later before rejected rest)
      · exact .inr ⟨((Leads.refl m).snoc before).trans path, behind⟩

/-- A sparing removal keeps the other nodes on their chains. -/
theorem OnChain.unlinked {region : Set (Link H N)} (closed : heap.Closed region) {n k : N}
    {l m : Link H N} (spares : heap.Spares region n) (gone : Unlinked heap n l heap')
    (member : m ∈ region) (other : k ≠ n) (visited : heap.OnChain m k) : heap'.OnChain m k := by
  refine visited.induct (motive := fun m => m ∈ region → heap'.OnChain m k) ?_ ?_ member
  · intro m designates member
    refine .of_read ((gone.read_other ?_).trans designates)
    rintro rfl
    rcases spares m member gone.named with leads | ⟨null, _⟩
    · exact other (Option.some.inj (designates.symm.trans leads))
    · rw [null] at designates
      cases designates
  · intro m j designates _ ih member
    have rest := ih (closed member designates)
    by_cases atLink : m = l
    · subst atLink
      rcases spares m member gone.named with leads | ⟨null, _⟩
      · obtain rfl : n = j := Option.some.inj (leads.symm.trans designates)
        have same : heap'.read m = heap'.read (.next n) :=
          gone.read_named.trans gone.next_self.symm
        exact rest.of_same same
      · rw [null] at designates
        cases designates
    · exact .of_next ((gone.read_other atLink).trans designates) rest

/-! ## A removal that may find nothing to remove -/

/-- What a search for a node to remove leaves: nothing was found, or what was found
has been removed. -/
inductive Removal (heap : Heap H N) : Option N → Heap H N → Prop where
  | none : Removal heap none heap
  | some {n l heap'} (gone : Unlinked heap n l heap') : Removal heap (some n) heap'

namespace Removal

variable {old : Option N} {region : Set (Link H N)}

theorem closed (removal : Removal heap old heap') (closed : heap.Closed region)
    (inside : ∀ n ∈ old, .next n ∈ region) (sole : ∀ n ∈ old, heap.SoleLink region n) :
    heap'.Closed (region \ nexts old) := by
  cases removal with
  | none => simpa using closed
  | some gone => simpa using closed.unlinked_sole gone (inside _ rfl) (sole _ rfl)

theorem closed_keep (removal : Removal heap old heap') (closed : heap.Closed region)
    (inside : ∀ n ∈ old, .next n ∈ region) : heap'.Closed region := by
  cases removal with
  | none => exact closed
  | some gone => exact closed.unlinked gone (inside _ rfl)

theorem targets_keep (removal : Removal heap old heap') (inside : ∀ n ∈ old, .next n ∈ region) :
    heap'.Targets region ⊆ heap.Targets region := by
  cases removal with
  | none => exact Set.Subset.rfl
  | some gone => exact targets_unlinked gone (inside _ rfl)

theorem spares (removal : Removal heap old heap') (closed : heap.Closed region)
    (spares : ∀ n ∈ old, heap.Spares region n) :
    heap'.Closed region ∧ heap'.Targets region ⊆ heap.Targets region := by
  cases removal with
  | none => exact ⟨closed, Set.Subset.rfl⟩
  | some gone => exact closed.unlinked_spares gone (spares _ rfl)

theorem targets (removal : Removal heap old heap') (inside : ∀ n ∈ old, .next n ∈ region) :
    heap'.Targets (region \ nexts old) ⊆ heap.Targets region :=
  (Targets.mono Set.sdiff_subset).trans (removal.targets_keep inside)

theorem not_target (removal : Removal heap old heap') (closed : heap.Closed region)
    (inside : ∀ n ∈ old, .next n ∈ region) (sole : ∀ n ∈ old, heap.SoleLink region n) {n : N}
    (removed : n ∈ old) : n ∉ heap'.Targets (region \ nexts old) := by
  cases removal with
  | none => simp at removed
  | some gone =>
      obtain rfl := Option.some.inj removed
      simpa using not_mem_targets_unlinked closed gone (inside _ rfl) (sole _ rfl)

theorem soleLink (removal : Removal heap old heap') (inside : ∀ n ∈ old, .next n ∈ region)
    {k : N} (other : k ∉ old) (sole : heap.SoleLink region k) :
    heap'.SoleLink (region \ nexts old) k := by
  cases removal with
  | none => simpa using sole
  | some gone =>
      have distinct : k ≠ _ := fun same => other (same ▸ rfl)
      simpa using sole.unlinked gone (inside _ rfl) distinct

theorem linked (removal : Removal heap old heap') {k : N} (other : k ∉ old)
    (linked : ∃ m, heap.pprev k = .link m) : ∃ m, heap'.pprev k = .link m := by
  cases removal with
  | none => exact linked
  | some gone => exact gone.linked (fun same => other (same ▸ rfl)) linked

theorem onChain (removal : Removal heap old heap') (closed : heap.Closed region)
    (spares : ∀ n ∈ old, heap.Spares region n) {m : Link H N} (member : m ∈ region) {k : N}
    (other : k ∉ old) (visited : heap.OnChain m k) : heap'.OnChain m k := by
  cases removal with
  | none => exact visited
  | some gone => exact visited.unlinked closed (spares _ rfl) gone member fun same => other (same ▸ rfl)

/-- A link keeps its pointer, or the removal went through it. -/
theorem read (removal : Removal heap old heap') (m : Link H N) :
    heap'.read m = heap.read m ∨
      ∃ n ∈ old, heap.pprev n = .link m ∧ heap'.read m = heap.next n := by
  cases removal with
  | none => exact .inl rfl
  | @some n l _ gone =>
      by_cases atLink : m = l
      · exact .inr ⟨n, rfl, atLink ▸ gone.named, atLink ▸ gone.read_named⟩
      · exact .inl (gone.read_other atLink)

end Removal

/-! ## Insertion -/

theorem Pushed.read_head {n : N} {h : H} (added : Pushed heap n h heap') :
    heap'.first h = some n := by
  have read := added.read (.head h)
  rwa [if_pos rfl] at read

theorem Pushed.read_next {n : N} {h : H} (added : Pushed heap n h heap') :
    heap'.next n = heap.first h := by
  have read := added.read (.next n)
  rwa [if_neg nofun, if_pos rfl] at read

theorem Pushed.read_other {n : N} {h : H} (added : Pushed heap n h heap') {m : Link H N}
    (notHead : m ≠ .head h) (notNext : m ≠ .next n) : heap'.read m = heap.read m := by
  rw [added.read, if_neg notHead, if_neg notNext]

/-- Insertion extends a closed region that holds the head by the new node's `next`. -/
theorem Closed.pushed {region : Set (Link H N)} (closed : heap.Closed region) {n : N} {h : H}
    (added : Pushed heap n h heap') (inside : .head h ∈ region) :
    heap'.Closed (insert (.next n) region) := by
  intro m member k designates
  rw [added.read] at designates
  split at designates
  · exact .inl (by rw [Option.some.inj designates])
  · split at designates
    · exact .inr (closed inside designates)
    · next notNext => exact .inr (closed (member.resolve_left notNext) designates)

/-- Insertion elsewhere does not touch a region. -/
theorem Closed.pushed_outside {region : Set (Link H N)} (closed : heap.Closed region) {n : N}
    {h : H} (added : Pushed heap n h heap') (head : .head h ∉ region)
    (next : .next n ∉ region) : heap'.Closed region := by
  intro m member k designates
  rw [added.read_other (ne_of_mem_of_not_mem member head)
    (ne_of_mem_of_not_mem member next)] at designates
  exact closed member designates

/-- Insertion adds the new node to those a region with the head leads to. -/
theorem targets_pushed {region : Set (Link H N)} {n : N} {h : H} (added : Pushed heap n h heap')
    (inside : .head h ∈ region) :
    heap'.Targets (insert (.next n) region) ⊆ insert n (heap.Targets region) := by
  rintro k ⟨m, member, designates⟩
  rw [added.read] at designates
  split at designates
  · exact .inl (Option.some.inj designates).symm
  · split at designates
    · exact .inr ⟨.head h, inside, designates⟩
    · next notNext => exact .inr ⟨m, member.resolve_left notNext, designates⟩

theorem targets_pushed_outside {region : Set (Link H N)} {n : N} {h : H}
    (added : Pushed heap n h heap') (head : .head h ∉ region) (next : .next n ∉ region) :
    heap'.Targets region ⊆ heap.Targets region := by
  rintro k ⟨m, member, designates⟩
  rw [added.read_other (ne_of_mem_of_not_mem member head)
    (ne_of_mem_of_not_mem member next)] at designates
  exact ⟨m, member, designates⟩

/-- Insertion elsewhere leaves a node that does not become second its sole link. -/
theorem SoleLink.pushed_outside {region : Set (Link H N)} {n k : N} {h : H}
    (sole : heap.SoleLink region k) (added : Pushed heap n h heap') (head : .head h ∉ region)
    (next : .next n ∉ region) (notFirst : heap.first h ≠ some k) (other : k ≠ n) :
    heap'.SoleLink region k := by
  intro l member designates
  rw [added.read_other (ne_of_mem_of_not_mem member head)
    (ne_of_mem_of_not_mem member next)] at designates
  rw [added.pprev, if_neg notFirst, if_neg other]
  exact sole l member designates

/-- Insertion elsewhere leaves removals sparing. -/
theorem Spares.pushed_outside {region : Set (Link H N)} {n k : N} {h : H}
    (spares : heap.Spares region k) (added : Pushed heap n h heap') (head : .head h ∉ region)
    (next : .next n ∉ region) : heap'.Spares region k := by
  intro l member named
  rw [added.pprev] at named
  split at named
  · exact absurd (Pprev.link.inj named ▸ member) next
  · split at named
    · exact absurd (Pprev.link.inj named ▸ member) head
    · next other =>
      have same := added.read_other (ne_of_mem_of_not_mem member head)
        (ne_of_mem_of_not_mem member next)
      have onward : heap'.next k = heap.next k :=
        added.read_other (m := .next k) nofun fun same => other (Link.next.inj same)
      rw [same, onward]
      exact spares l member named

/-- The chains of other heads do not visit a node that was new. -/
theorem Pushed.onChain_other {n k : N} {h : H} {m : Link H N} (added : Pushed heap n h heap')
    (unread : ∀ l, heap.read l ≠ some n) (notHead : m ≠ .head h) (notNext : m ≠ .next n)
    (visited : heap'.OnChain m k) : heap.OnChain m k := by
  have closed : heap.Closed (heap.Reached {m}) := closed_reached _
  have head : .head h ∉ heap.Reached {m} := fun reached => notHead (head_mem_of_reached reached).symm
  have next : .next n ∉ heap.Reached {m} := by
    intro reached
    obtain ⟨l, _, designates⟩ := mem_targets_of_next reached (fun same => notNext same.symm)
    exact unread l designates
  have keeps := (closed.pushed_outside added head next).reached (subset_reached {m})
  exact mem_targets_singleton.mp (targets_pushed_outside added head next
    (Targets.mono keeps (mem_targets_singleton.mpr visited)))

/-- And searches from them find what they found before. -/
theorem Pushed.finds_other {n : N} {h g : H} (added : Pushed heap n h heap')
    (unread : ∀ l, heap.read l ≠ some n) (other : g ≠ h) {accepts : N → Bool} {result : Option N}
    (found : heap'.Finds accepts (.head g) result) : heap.Finds accepts (.head g) result := by
  have closed : heap.Closed (heap.Reached {.head g}) := closed_reached _
  have head : .head h ∉ heap.Reached {.head g} := by
    intro reached
    have start : Link.head h ∈ ({.head g} : Set (Link H N)) := head_mem_of_reached reached
    exact other (Link.head.inj (Set.mem_singleton_iff.mp start)).symm
  have next : .next n ∉ heap.Reached {.head g} := by
    intro reached
    obtain ⟨l, _, designates⟩ := mem_targets_of_next reached nofun
    exact unread l designates
  refine found.congr (closed.pushed_outside added head next) (fun m inside _ => ?_)
    (subset_reached _ rfl) fun _ _ => nofun
  exact (added.read_other (ne_of_mem_of_not_mem inside head)
    (ne_of_mem_of_not_mem inside next)).symm

/-- An insertion keeps the chains that did not hold the new node. -/
theorem OnChain.pushed {region : Set (Link H N)} (closed : heap.Closed region) {n k : N} {h : H}
    {m : Link H N} (added : Pushed heap n h heap') (next : .next n ∉ region) (member : m ∈ region)
    (visited : heap.OnChain m k) : heap'.OnChain m k := by
  refine visited.induct (motive := fun m => m ∈ region → heap'.OnChain m k) ?_ ?_ member
  · intro m designates member
    by_cases isHead : m = .head h
    · subst isHead
      exact .of_next added.read_head (.of_read (added.read_next.trans designates))
    · exact .of_read ((added.read_other isHead (ne_of_mem_of_not_mem member next)).trans designates)
  · intro m j designates _ ih member
    have rest := ih (closed member designates)
    by_cases isHead : m = .head h
    · subst isHead
      exact .of_next added.read_head (.of_next (added.read_next.trans designates) rest)
    · exact .of_next
        ((added.read_other isHead (ne_of_mem_of_not_mem member next)).trans designates) rest

/-- After an insertion the new node's `pprev` names a link, and so do those that did. -/
theorem Pushed.linked {n k : N} {h : H} (added : Pushed heap n h heap')
    (linked : k = n ∨ ∃ m, heap.pprev k = .link m) : ∃ m, heap'.pprev k = .link m := by
  rw [added.pprev]
  split
  · exact ⟨.next n, rfl⟩
  · split
    · exact ⟨.head h, rfl⟩
    · next other => exact linked.resolve_left other

/-! ## Moving a node to another list -/

/-- Moving a node to a head outside a region, by a removal that spares the region and
takes the node out of it, keeps what searches of the region find. -/
theorem Finds.moved {region : Set (Link H N)} (closed : heap.Closed region) {n : N}
    {l : Link H N} {mid : Heap H N} {h : H} (sole : heap.SoleLink region n)
    (spares : heap.Spares region n) (gone : Unlinked heap n l mid)
    (added : Pushed mid n h heap') (outside : .head h ∉ region) {accepts : N → Bool}
    {m : Link H N} (member : m ∈ region) (start : m ≠ .next n) {result : Option N}
    (other : n ∉ result) (found : heap.Finds accepts m result)
    (elsewhere : ∀ k ∈ result, m ≠ .next k) : heap'.Finds accepts m result := by
  have foundMid := found.unlinked closed spares gone member other
  refine foundMid.congr (closed.unlinked_spared gone sole spares) (fun k inside _ => ?_)
    ⟨member, start⟩ elsewhere
  exact added.read_other (ne_of_mem_of_not_mem inside.1 outside) inside.2

/-- Moving the node a search stops at, by a removal through a link outside the region. -/
theorem Finds.moved_self {region : Set (Link H N)} (closed : heap.Closed region) {n : N}
    {l : Link H N} {mid : Heap H N} {h : H} (gone : Unlinked heap n l mid)
    (apart : l ∉ region) (added : Pushed mid n h heap') (outside : .head h ∉ region)
    {accepts : N → Bool} {m : Link H N} (member : m ∈ region) (start : m ≠ .next n)
    (found : heap.Finds accepts m (Option.some n)) :
    heap'.Finds accepts m (Option.some n) := by
  refine found.congr closed (fun k inside notNext => ?_) member ?_
  · rw [added.read_other (ne_of_mem_of_not_mem inside outside) (notNext n rfl),
      gone.read_other (ne_of_mem_of_not_mem inside apart)]
  · rintro _ ⟨⟩
    exact start

/-- Moving a node in the same way keeps the other nodes on the chains of the region. -/
theorem OnChain.moved {region : Set (Link H N)} (closed : heap.Closed region) {n k : N}
    {l m : Link H N} {mid : Heap H N} {h : H} (sole : heap.SoleLink region n)
    (spares : heap.Spares region n) (gone : Unlinked heap n l mid)
    (added : Pushed mid n h heap') (outside : .head h ∉ region) (member : m ∈ region)
    (start : m ≠ .next n) (other : k ≠ n) (visited : heap.OnChain m k) : heap'.OnChain m k := by
  refine (visited.unlinked closed spares gone member other).congr
    (closed.unlinked_spared gone sole spares) (fun j inside => ?_) ⟨member, start⟩
  exact added.read_other (ne_of_mem_of_not_mem inside.1 outside) inside.2

/-- Moving a node does not touch chains up to nodes that are not behind it. -/
theorem OnChain.moved_before {region : Set (Link H N)} (closed : heap.Closed region) {n k : N}
    {l m : Link H N} {mid : Heap H N} {h : H} (spares : heap.Spares region n)
    (gone : Unlinked heap n l mid) (added : Pushed mid n h heap') (member : m ∈ region)
    (notHead : m ≠ .head h) (other : k ≠ n) (before : ¬ heap.OnChain (.next n) k)
    (visited : heap.OnChain m k) : heap'.OnChain m k := by
  have unchanged : ∀ {m j}, m ∈ region → m ≠ .head h → heap.OnChain m k →
      heap.read m = Option.some j → j ≠ n → heap'.read m = Option.some j := by
    intro m j member notHead visited designates distinct
    have notNext : m ≠ .next n := by
      rintro rfl
      exact before visited
    rw [added.read_other notHead notNext, gone.read_other, designates]
    rintro rfl
    rcases spares m member gone.named with leads | ⟨null, _⟩
    · exact distinct (Option.some.inj (designates.symm.trans leads))
    · rw [null] at designates
      cases designates
  refine visited.induct (motive := fun m => m ∈ region → m ≠ .head h → heap'.OnChain m k)
    ?_ ?_ member notHead
  · exact fun designates member notHead =>
      .of_read (unchanged member notHead (.of_read designates) designates other)
  · intro m j designates rest ih member notHead
    have distinct : j ≠ n := by
      rintro rfl
      exact before rest
    exact .of_next (unchanged member notHead (.of_next designates rest) designates distinct)
      (ih (closed member designates) nofun)

namespace Confined

variable {live : Set N}

/-- Removing a node that was never linked does not succeed. -/
theorem mem_of_unlinked (confined : heap.Confined live) {n : N} {l : Link H N}
    (gone : Unlinked heap n l heap') : n ∈ live := by
  by_contra outside
  have null := (confined.zeroed outside).2
  rw [gone.named] at null
  cases null

theorem unlinked (confined : heap.Confined live) {n : N} {l : Link H N}
    (gone : Unlinked heap n l heap') : heap'.Confined live := by
  have nLive := confined.mem_of_unlinked gone
  have read' : ∀ {m k}, heap'.read m = some k → k ∈ live ∧ heap.pprev k ≠ .null := by
    intro m k designates
    rw [gone.read] at designates
    split at designates
    · have viaNext : heap.read (.next n) = some k := designates
      exact ⟨confined.read viaNext, confined.linked viaNext⟩
    · exact ⟨confined.read designates, confined.linked designates⟩
  refine ⟨fun designates => (read' designates).1, ?_, ?_, ?_⟩
  · intro k m same
    rw [gone.pprev] at same
    split at same
    · cases same
    · split at same
      · exact confined.named (gone.named.trans same)
      · exact confined.named same
  · intro k outside
    have notNode : k ≠ n := fun same => outside (same ▸ nLive)
    have notSuccessor : heap.next n ≠ some k := fun same =>
      outside (confined.read (l := .next n) same)
    obtain ⟨nextNone, pprevNull⟩ := confined.zeroed outside
    constructor
    · have read := gone.read (.next k)
      rw [read_next, read_next] at read
      rw [read]
      split
      · next atLink =>
        exact absurd (confined.named (gone.named.trans (congrArg _ atLink.symm))) outside
      · exact nextNone
    · rw [gone.pprev, if_neg notNode, if_neg notSuccessor]
      exact pprevNull
  · intro m k designates
    rw [gone.pprev]
    split
    · exact nofun
    · split
      · exact nofun
      · exact (read' designates).2

theorem pushed (confined : heap.Confined live) {n : N} {h : H} (nLive : n ∈ live)
    (added : Pushed heap n h heap') : heap'.Confined live := by
  refine ⟨?_, ?_, ?_, ?_⟩
  · intro m k designates
    rw [added.read] at designates
    split at designates
    · exact Option.some.inj designates ▸ nLive
    · split at designates
      · exact confined.read (l := .head h) designates
      · exact confined.read designates
  · intro k m same
    rw [added.pprev] at same
    split at same
    · obtain rfl : n = m := Link.next.inj (Pprev.link.inj same)
      exact nLive
    · split at same
      · cases same
      · exact confined.named same
  · intro k outside
    have notNode : k ≠ n := fun same => outside (same ▸ nLive)
    have notFirst : heap.first h ≠ some k := fun same =>
      outside (confined.read (l := .head h) same)
    obtain ⟨nextNone, pprevNull⟩ := confined.zeroed outside
    constructor
    · have read := added.read_other (m := .next k) nofun
        (fun same => notNode (Link.next.inj same))
      exact read.trans nextNone
    · rw [added.pprev, if_neg notFirst, if_neg notNode]
      exact pprevNull
  · intro m k designates
    rw [added.pprev]
    split
    · exact nofun
    · next notFirst =>
      split
      · exact nofun
      · next notNode =>
        rw [added.read] at designates
        split at designates
        · exact absurd (Option.some.inj designates).symm notNode
        · split at designates
          · exact absurd designates notFirst
          · exact confined.linked designates

end Confined

end Stores

end Kcr.Hlist.Heap
