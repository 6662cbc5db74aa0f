import Kcr.Hlist.Region

/-!
# Coloured heaps

A colouring of heads and nodes that every pointer respects splits a heap into parts
that no operation mixes: a walk from a head stays in the head's colour, and removing
or inserting a node edits links of the node's colour only, however stale its `pprev`
is. `restrict` keeps one colour; it commutes with the operations on that colour and
absorbs those on the others.
-/

namespace Kcr.Hlist

variable {H N C : Type}

/-- The colour of a link is that of its head or of its node. -/
def Link.colour (head : H → C) (node : N → C) : Link H N → C
  | .head h => head h
  | .next n => node n

@[simp] theorem Link.colour_head (head : H → C) (node : N → C) (h : H) :
    (Link.head h).colour head node = head h := rfl

@[simp] theorem Link.colour_next (head : H → C) (node : N → C) (n : N) :
    (Link.next n).colour head node = node n := rfl

namespace Heap

variable {heap heap' : Heap H N} {head : H → C} {node : N → C}

/-- Pointers join places of one colour. -/
structure Coloured (heap : Heap H N) (head : H → C) (node : N → C) : Prop where
  read : ∀ {l n}, heap.read l = some n → node n = l.colour head node
  named : ∀ {n l}, heap.pprev n = .link l → l.colour head node = node n

namespace Coloured

theorem empty : (Heap.empty : Heap H N).Coloured head node where
  read designates := by simp at designates
  named same := by simp [Heap.empty] at same

/-- Recolouring nodes that are not allocated. -/
theorem recolour (coloured : heap.Coloured head node) {live : Set N}
    (confined : heap.Confined live) {node' : N → C} (same : ∀ n ∈ live, node' n = node n) :
    heap.Coloured head node' := by
  have allocated : ∀ {n}, heap.next n ≠ none ∨ heap.pprev n ≠ .null → n ∈ live := by
    intro n linked
    by_contra outside
    have zeroed := confined.zeroed outside
    rcases linked with hasNext | hasPprev
    · exact hasNext zeroed.1
    · exact hasPprev zeroed.2
  have link : ∀ {l : Link H N} {c}, (∀ n, l = .next n → n ∈ live) →
      l.colour head node = c → l.colour head node' = c := by
    intro l c inside colour
    cases l with
    | head h => exact colour
    | next n => exact (same n (inside n rfl)).trans colour
  refine ⟨fun {l n} designates => ?_, fun {n l} points => ?_⟩
  · rw [same n (confined.read designates)]
    refine (link ?_ (coloured.read designates).symm).symm
    rintro m rfl
    refine allocated (.inl fun ends => ?_)
    rw [read_next, ends] at designates
    cases designates
  · have nLive : n ∈ live := allocated (.inr (by rw [points]; exact nofun))
    rw [same n nLive]
    refine link ?_ (coloured.named points)
    rintro m rfl
    exact confined.named points

/-- A walk stays in the colour it starts in. -/
theorem leads (coloured : heap.Coloured head node) {l m : Link H N} (path : heap.Leads l m) :
    m.colour head node = l.colour head node := by
  induction path with
  | refl => rfl
  | tail _ step ih =>
      obtain ⟨n, designates, rfl⟩ := step
      exact (coloured.read designates).trans ih

theorem onChain (coloured : heap.Coloured head node) {l : Link H N} {n : N}
    (visited : heap.OnChain l n) : node n = l.colour head node := by
  obtain ⟨m, path, designates⟩ := visited
  exact (coloured.read designates).trans (coloured.leads path)

variable [DecidableEq H] [DecidableEq N]

theorem unlinked (coloured : heap.Coloured head node) {n : N} {l : Link H N}
    (gone : Unlinked heap n l heap') : heap'.Coloured head node := by
  have place := coloured.named gone.named
  have successor : ∀ {m}, heap.next n = some m → node m = node n :=
    fun designates => coloured.read (l := .next n) designates
  refine ⟨fun {m k} designates => ?_, fun {k m} points => ?_⟩
  · rw [gone.read] at designates
    split at designates
    · next atLink => rw [atLink, place, successor designates]
    · exact coloured.read designates
  · rw [gone.pprev] at points
    split at points
    · cases points
    · split at points
      · next designates =>
        obtain rfl := Pprev.link.inj points
        rw [place, successor designates]
      · exact coloured.named points

theorem pushed (coloured : heap.Coloured head node) {n : N} {h : H}
    (added : Pushed heap n h heap') (same : head h = node n) : heap'.Coloured head node := by
  have first : ∀ {m}, heap.first h = some m → node m = node n :=
    fun designates => (coloured.read (l := .head h) designates).trans same
  refine ⟨fun {m k} designates => ?_, fun {k m} points => ?_⟩
  · rw [added.read] at designates
    split at designates
    · next atHead =>
      obtain rfl := Option.some.inj designates
      rw [atHead, Link.colour_head, same]
    · split at designates
      · next atNext => rw [atNext, first designates, Link.colour_next]
      · exact coloured.read designates
  · rw [added.pprev] at points
    split at points
    · next designates =>
      obtain rfl := Pprev.link.inj points
      rw [first designates, Link.colour_next]
    · split at points
      · next isNode =>
        obtain rfl := Pprev.link.inj points
        rw [isNode, Link.colour_head, same]
      · exact coloured.named points

end Coloured

/-! ## Restriction to one colour -/

section Restrict

variable [DecidableEq C] {c : C}

/-- The heap without the heads and nodes of other colours. -/
def restrict (heap : Heap H N) (head : H → C) (node : N → C) (c : C) : Heap H N where
  first h := if head h = c then heap.first h else none
  next n := if node n = c then heap.next n else none
  pprev n := if node n = c then heap.pprev n else .null

theorem read_restrict (l : Link H N) : (heap.restrict head node c).read l =
    if l.colour head node = c then heap.read l else none := by
  cases l <;> rfl

@[simp] theorem restrict_empty : (Heap.empty : Heap H N).restrict head node c = .empty := by
  simp [restrict, Heap.empty]

/-- Recolouring unallocated nodes does not change the restriction. -/
theorem restrict_congr {live : Set N} (confined : heap.Confined live) {node' : N → C}
    (same : ∀ n ∈ live, node' n = node n) :
    heap.restrict head node' c = heap.restrict head node c := by
  have agree : ∀ {A : Type} (field : N → A) (zero : A), (∀ n, n ∉ live → field n = zero) →
      (fun n => if node' n = c then field n else zero) =
        fun n => if node n = c then field n else zero := by
    intro A field zero outside
    funext n
    by_cases inside : n ∈ live
    · rw [same n inside]
    · rw [outside n inside, ite_self, ite_self]
  unfold restrict
  rw [agree heap.next none fun n outside => (confined.zeroed outside).1,
    agree heap.pprev .null fun n outside => (confined.zeroed outside).2]

/-- The restriction mentions nodes of the kept colour only. -/
theorem Confined.restrict {live : Set N} (confined : heap.Confined live)
    (coloured : heap.Coloured head node) :
    (heap.restrict head node c).Confined {n | n ∈ live ∧ node n = c} := by
  refine ⟨fun {l n} designates => ?_, fun {n m} points => ?_, fun {n} outside => ?_,
    fun {l n} designates => ?_⟩
  · rw [read_restrict] at designates
    split at designates
    · next kept => exact ⟨confined.read designates, (coloured.read designates).trans kept⟩
    · cases designates
  · simp only [Heap.restrict] at points
    split at points
    · next kept => exact ⟨confined.named points, (coloured.named points).trans kept⟩
    · cases points
  · simp only [Heap.restrict]
    split
    · next kept => exact confined.zeroed fun inside => outside ⟨inside, kept⟩
    · exact ⟨rfl, rfl⟩
  · rw [read_restrict] at designates
    split at designates
    · next kept =>
      have nKept : node n = c := (coloured.read designates).trans kept
      simpa [Heap.restrict, nKept] using confined.linked designates
    · cases designates

/-- A search from the kept colour runs as before, when the tests agree on its entries. -/
theorem findEntry_restrict (coloured : heap.Coloured head node) {accepts accepts' : N → Bool}
    (same : ∀ {l n}, heap.read l = some n → node n = c → accepts' n = accepts n)
    {l : Link H N} (kept : l.colour head node = c) (fuel : Nat) :
    (heap.restrict head node c).findEntry accepts' fuel ((heap.restrict head node c).read l) =
      heap.findEntry accepts fuel (heap.read l) := by
  induction fuel generalizing l with
  | zero =>
      rw [read_restrict, if_pos kept]
      cases heap.read l <;> rfl
  | succ fuel ih =>
      rw [read_restrict, if_pos kept]
      cases designates : heap.read l with
      | none => rfl
      | some n =>
          have nKept : node n = c := (coloured.read designates).trans kept
          have rest : (heap.restrict head node c).findEntry accepts' fuel
              ((heap.restrict head node c).next n) = heap.findEntry accepts fuel (heap.next n) :=
            ih (l := .next n) nKept
          rw [findEntry, findEntry, same designates nKept, rest]

theorem Finds.restrict (coloured : heap.Coloured head node) {accepts accepts' : N → Bool}
    (same : ∀ {l n}, heap.read l = Option.some n → node n = c → accepts' n = accepts n)
    {l : Link H N} (kept : l.colour head node = c) {result : Option N}
    (found : heap.Finds accepts l result) :
    (heap.restrict head node c).Finds accepts' l result := by
  obtain ⟨fuel, returned⟩ := found
  exact ⟨fuel, (findEntry_restrict coloured same kept fuel).trans returned⟩

variable [DecidableEq N]

theorem restrict_setPprev {n : N} (kept : node n = c) (value : Pprev H N) :
    (heap.setPprev n value).restrict head node c =
      (heap.restrict head node c).setPprev n value := by
  simp only [setPprev, restrict, Heap.mk.injEq, true_and]
  funext k
  by_cases same : k = n
  · subst same
    simpa using fun other => absurd kept other
  · simp [same]

theorem restrict_setPprev_other {n : N} (dropped : node n ≠ c) (value : Pprev H N) :
    (heap.setPprev n value).restrict head node c = heap.restrict head node c := by
  simp only [setPprev, restrict, Heap.mk.injEq, true_and]
  funext k
  by_cases same : k = n
  · subst same
    rw [if_neg dropped, if_neg dropped]
  · simp [same]

variable [DecidableEq H]

/-- Writing into a link of the kept colour. -/
theorem restrict_write {l : Link H N} (kept : l.colour head node = c) (value : Option N) :
    (heap.write l value).restrict head node c = (heap.restrict head node c).write l value := by
  cases l with
  | head h =>
      simp only [write, restrict, Heap.mk.injEq, and_self, and_true]
      funext k
      by_cases same : k = h
      · subst same
        simpa using fun other => absurd kept other
      · simp [same]
  | next n =>
      simp only [write, restrict, Heap.mk.injEq, and_true, true_and]
      funext k
      by_cases same : k = n
      · subst same
        simpa using fun other => absurd kept other
      · simp [same]

/-- Writing into a link of another colour. -/
theorem restrict_write_other {l : Link H N} (dropped : l.colour head node ≠ c)
    (value : Option N) :
    (heap.write l value).restrict head node c = heap.restrict head node c := by
  cases l with
  | head h =>
      simp only [write, restrict, Heap.mk.injEq, and_self, and_true]
      funext k
      by_cases same : k = h
      · subst same
        have other : head k ≠ c := dropped
        rw [if_neg other, if_neg other]
      · simp [same]
  | next n =>
      simp only [write, restrict, Heap.mk.injEq, and_true, true_and]
      funext k
      by_cases same : k = n
      · subst same
        have other : node k ≠ c := dropped
        rw [if_neg other, if_neg other]
      · simp [same]

/-- Removing a node of the kept colour. -/
theorem restrict_del (coloured : heap.Coloured head node) {n : N} (kept : node n = c)
    (removed : heap.hlistDelRcu n = .ok heap') :
    (heap.restrict head node c).hlistDelRcu n = .ok (heap'.restrict head node c) := by
  unfold hlistDelRcu at removed ⊢
  have pprev : (heap.restrict head node c).pprev n = heap.pprev n := if_pos kept
  have next : (heap.restrict head node c).next n = heap.next n := if_pos kept
  rw [pprev, next]
  split at removed
  · cases removed
  · cases removed
  · next l named =>
    cases removed
    have place : l.colour head node = c := (coloured.named named).trans kept
    cases successor : heap.next n with
    | none => simp only [restrict_setPprev kept, restrict_write place]
    | some m =>
        have mKept : node m = c := (coloured.read (l := .next n) successor).trans kept
        simp only [restrict_setPprev kept, restrict_setPprev mKept, restrict_write place]

/-- Removing a node of another colour. -/
theorem restrict_del_other (coloured : heap.Coloured head node) {n : N} (dropped : node n ≠ c)
    (removed : heap.hlistDelRcu n = .ok heap') :
    heap'.restrict head node c = heap.restrict head node c := by
  unfold hlistDelRcu at removed
  split at removed
  · cases removed
  · cases removed
  · next l named =>
    cases removed
    have place : l.colour head node ≠ c := fun kept => dropped ((coloured.named named).symm.trans kept)
    cases successor : heap.next n with
    | none => simp only [restrict_setPprev_other dropped, restrict_write_other place]
    | some m =>
        have mDropped : node m ≠ c := fun kept =>
          dropped ((coloured.read (l := .next n) successor).symm.trans kept)
        simp only [restrict_setPprev_other dropped, restrict_setPprev_other mDropped,
          restrict_write_other place]

/-- Inserting a node of the kept colour. -/
theorem restrict_add (coloured : heap.Coloured head node) {n : N} {h : H} (kept : node n = c)
    (same : head h = node n) :
    (heap.hlistAddHeadRcu n h).restrict head node c =
      (heap.restrict head node c).hlistAddHeadRcu n h := by
  have place : (Link.head h : Link H N).colour head node = c := same.trans kept
  have next : (Link.next n : Link H N).colour head node = c := kept
  have first : (heap.restrict head node c).first h = heap.first h := if_pos place
  unfold hlistAddHeadRcu
  rw [first]
  cases successor : heap.first h with
  | none => simp only [restrict_setPprev kept, restrict_write place, restrict_write next]
  | some m =>
      have mKept : node m = c := (coloured.read (l := .head h) successor).trans place
      simp only [restrict_setPprev kept, restrict_setPprev mKept, restrict_write place,
        restrict_write next]

/-- Inserting a node of another colour. -/
theorem restrict_add_other (coloured : heap.Coloured head node) {n : N} {h : H}
    (dropped : node n ≠ c) (same : head h = node n) :
    (heap.hlistAddHeadRcu n h).restrict head node c = heap.restrict head node c := by
  have place : (Link.head h : Link H N).colour head node ≠ c := fun kept =>
    dropped (same.symm.trans kept)
  have next : (Link.next n : Link H N).colour head node ≠ c := dropped
  unfold hlistAddHeadRcu
  cases successor : heap.first h with
  | none =>
      simp only [restrict_setPprev_other dropped, restrict_write_other place,
        restrict_write_other next]
  | some m =>
      have mDropped : node m ≠ c := fun kept =>
        place ((coloured.read (l := .head h) successor).symm.trans kept)
      simp only [restrict_setPprev_other dropped, restrict_setPprev_other mDropped,
        restrict_write_other place, restrict_write_other next]

end Restrict

end Heap

end Kcr.Hlist
