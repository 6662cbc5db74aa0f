import Kcr.Hlist.Region

/-!
# What points back at a head

A `pprev` may be stale, and then it names a link that leads elsewhere. For the links that are
heads this does not happen: the node whose `pprev` names a head is the first node of that
head. So a removal changes the head of a list only when it removes the node in front.
-/

namespace Kcr.Hlist.Heap

variable {H N : Type} {heap heap' : Heap H N}

/-- A node whose `pprev` names a head is the first of that head. -/
def Fronted (heap : Heap H N) : Prop :=
  ∀ ⦃n h⦄, heap.pprev n = .link (.head h) → heap.first h = some n

namespace Fronted

theorem empty : (Heap.empty : Heap H N).Fronted := nofun

variable [DecidableEq H] [DecidableEq N] {n : N}

theorem unlinked (fronted : heap.Fronted) {l : Link H N} (gone : Unlinked heap n l heap') :
    heap'.Fronted := by
  intro m h named
  rw [gone.pprev] at named
  split at named
  · cases named
  · next other =>
    split at named
    · next successor =>
      -- the successor inherits the link that the removal wrote
      obtain rfl := Pprev.link.inj named
      exact gone.read_named.trans successor
    · have before := fronted named
      have apart : (.head h) ≠ l := by
        rintro rfl
        exact other (Option.some.inj (before.symm.trans (fronted gone.named)))
      exact (gone.read_other apart).trans before

theorem pushed (fronted : heap.Fronted) {g : H} (added : Pushed heap n g heap') :
    heap'.Fronted := by
  intro m h named
  rw [added.pprev] at named
  split at named
  · cases named
  · next second =>
    split at named
    · next new =>
      obtain rfl : g = h := Link.head.inj (Pprev.link.inj named)
      exact new ▸ added.read_head
    · have before := fronted named
      have apart : h ≠ g := by
        rintro rfl
        exact second before
      exact (added.read_other (fun same => apart (Link.head.inj same)) nofun).trans before

/-- Removing a node keeps the heads that do not lead to it. -/
theorem first_unlinked (fronted : heap.Fronted) {l : Link H N} (gone : Unlinked heap n l heap')
    {h : H} (other : heap.first h ≠ some n) : heap'.first h = heap.first h := by
  refine gone.read_other (m := .head h) ?_
  rintro rfl
  exact other (fronted gone.named)

end Fronted

end Kcr.Hlist.Heap
