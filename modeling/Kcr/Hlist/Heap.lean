import Mathlib.Logic.Function.Basic
import Mathlib.Tactic.Common

/-!
# Intrusive hash lists

An `hlist` node carries `next` and `pprev`: the successor, and the address of
the link that is supposed to lead to the node. That link is either the `first`
field of a list head or the `next` field of another node. Heads and nodes are
arbitrary types here; a node has one `next` and one `pprev` however many heads
lead to it, and nothing forces `pprev` to name a link that leads to the node.

The primitives are the kernel's. Removal writes through `pprev`, so it faults on
a node whose `pprev` is poisoned or was never set, and walks are bounded by fuel
because a chain may be cyclic.
-/

namespace Kcr.Hlist

/-- Why a list operation did not return: the walk outlived its fuel, or a store
went through a poisoned or a null `pprev`. -/
inductive Halt where
  | fuel
  | poison
  | null
deriving DecidableEq, Repr

/-- A place that holds a node pointer. -/
inductive Link (H N : Type) where
  | head (h : H)
  | next (n : N)
deriving DecidableEq, Repr

/-- The `pprev` field: zeroed memory, the poison value, or the address of a link. -/
inductive Pprev (H N : Type) where
  | null
  | poison
  | link (l : Link H N)
deriving DecidableEq, Repr

/-- All list heads and nodes; `none` is the null pointer. -/
structure Heap (H N : Type) where
  first : H → Option N
  next : N → Option N
  pprev : N → Pprev H N

namespace Heap

variable {H N : Type}

/-- Heads initialised by `INIT_HLIST_HEAD`, nodes zeroed. -/
def empty : Heap H N where
  first _ := none
  next _ := none
  pprev _ := .null

/-- The pointer a link holds. -/
def read (heap : Heap H N) : Link H N → Option N
  | .head h => heap.first h
  | .next n => heap.next n

@[simp] theorem read_head (heap : Heap H N) (h : H) : heap.read (.head h) = heap.first h := rfl

@[simp] theorem read_next (heap : Heap H N) (n : N) : heap.read (.next n) = heap.next n := rfl

@[simp] theorem read_empty (l : Link H N) : (empty : Heap H N).read l = none := by
  cases l <;> rfl

/-- Search loop of `hlist_for_each_entry_rcu`: stop at the first accepted entry. -/
def findEntry (heap : Heap H N) (accepts : N → Bool) : Nat → Option N → Except Halt (Option N)
  | _, none => .ok none
  | 0, some _ => .error .fuel
  | fuel + 1, some n =>
      if accepts n then .ok (some n) else heap.findEntry accepts fuel (heap.next n)

section Stores

variable [DecidableEq N]

/-- Store into a node's `pprev`. -/
def setPprev (heap : Heap H N) (n : N) (value : Pprev H N) : Heap H N :=
  { heap with pprev := Function.update heap.pprev n value }

@[simp] theorem read_setPprev (heap : Heap H N) (n : N) (value : Pprev H N) (l : Link H N) :
    (heap.setPprev n value).read l = heap.read l := by
  cases l <;> rfl

@[simp] theorem pprev_setPprev (heap : Heap H N) (n m : N) (value : Pprev H N) :
    (heap.setPprev n value).pprev m = if m = n then value else heap.pprev m := by
  simp [setPprev, Function.update_apply]

variable [DecidableEq H]

/-- Store a pointer into a link. -/
def write (heap : Heap H N) (l : Link H N) (value : Option N) : Heap H N :=
  match l with
  | .head h => { heap with first := Function.update heap.first h value }
  | .next n => { heap with next := Function.update heap.next n value }

@[simp] theorem read_write (heap : Heap H N) (l m : Link H N) (value : Option N) :
    (heap.write l value).read m = if m = l then value else heap.read m := by
  cases l <;> cases m <;> simp [write, read, Function.update_apply]

@[simp] theorem pprev_write (heap : Heap H N) (l : Link H N) (value : Option N) :
    (heap.write l value).pprev = heap.pprev := by
  cases l <;> rfl

/-- `hlist_del_rcu`: `*pprev = next`, give the successor the removed node's
`pprev`, poison the removed node's own. Its `next` stays for concurrent readers. -/
def hlistDelRcu (heap : Heap H N) (n : N) : Except Halt (Heap H N) :=
  match heap.pprev n with
  | .null => .error .null
  | .poison => .error .poison
  | .link l =>
      let next := heap.next n
      let heap := heap.write l next
      let heap := match next with
        | none => heap
        | some m => heap.setPprev m (.link l)
      .ok (heap.setPprev n .poison)

/-- `hlist_add_head_rcu`: link the node in front of the list of head `h`. -/
def hlistAddHeadRcu (heap : Heap H N) (n : N) (h : H) : Heap H N :=
  let first := heap.first h
  let heap := heap.write (.next n) first
  let heap := heap.setPprev n (.link (.head h))
  let heap := heap.write (.head h) (some n)
  match first with
  | none => heap
  | some m => heap.setPprev m (.link (.next n))

/-- What a removal did: `pprev` named the link `l`, and only `l`, the successor's
`pprev` and the node's own `pprev` changed. -/
structure Unlinked (heap : Heap H N) (n : N) (l : Link H N) (heap' : Heap H N) : Prop where
  named : heap.pprev n = .link l
  read : ∀ m, heap'.read m = if m = l then heap.next n else heap.read m
  pprev : ∀ m, heap'.pprev m =
    if m = n then .poison else if heap.next n = some m then .link l else heap.pprev m

/-- A removal that returns went through a link. -/
theorem unlinked_of_del {heap heap' : Heap H N} {n : N}
    (removed : heap.hlistDelRcu n = .ok heap') : ∃ l, Unlinked heap n l heap' := by
  unfold hlistDelRcu at removed
  split at removed
  · cases removed
  · cases removed
  · next l named =>
    cases removed
    refine ⟨l, named, fun m => ?_, fun m => ?_⟩
    · cases successor : heap.next n <;> simp
    · cases successor : heap.next n <;> simp [eq_comm]

/-- A node whose `pprev` names a link can be removed. -/
theorem del_of_link {heap : Heap H N} {n : N} {l : Link H N} (named : heap.pprev n = .link l) :
    ∃ heap', heap.hlistDelRcu n = .ok heap' := by
  unfold hlistDelRcu
  rw [named]
  exact ⟨_, rfl⟩

/-- A removal faults; it does not run out of fuel. -/
theorem del_error {heap : Heap H N} {n : N} {reason : Halt}
    (failed : heap.hlistDelRcu n = .error reason) : reason ≠ .fuel := by
  unfold hlistDelRcu at failed
  split at failed
  · cases failed
    exact nofun
  · cases failed
    exact nofun
  · cases failed

/-- What an insertion did: the head leads to the node, the node to the old first. -/
structure Pushed (heap : Heap H N) (n : N) (h : H) (heap' : Heap H N) : Prop where
  read : ∀ m, heap'.read m =
    if m = .head h then some n else if m = .next n then heap.first h else heap.read m
  pprev : ∀ m, heap'.pprev m = if heap.first h = some m then .link (.next n)
    else if m = n then .link (.head h) else heap.pprev m

theorem pushed_add (heap : Heap H N) (n : N) (h : H) :
    Pushed heap n h (heap.hlistAddHeadRcu n h) := by
  unfold hlistAddHeadRcu
  refine ⟨fun m => ?_, fun m => ?_⟩
  · cases first : heap.first h <;> simp
  · cases first : heap.first h <;> simp [eq_comm]

end Stores

/-- `hlist_for_each_entry_safe`: the successor is read before the body runs, so
the body may remove the entry. `next` reads a node's successor in the state the
body works on. -/
def forEachSafe {S : Type} (next : S → N → Option N) (body : N → S → Except Halt S) :
    Nat → Option N → S → Except Halt S
  | _, none, s => .ok s
  | 0, some _, _ => .error .fuel
  | fuel + 1, some n, s =>
      let tmp := next s n
      match body n s with
      | .error reason => .error reason
      | .ok s => forEachSafe next body fuel tmp s

end Heap

end Kcr.Hlist
