import Kcr.Hlist.Heap
import Kcr.Semantics.Program

/-!
# List primitives, access by access

The kernel's primitives as programs of single loads and stores, over any shared state that a
list heap is a part of. Alone they do what the primitives of the heap do at once.
-/

namespace Kcr

/-- A part of a shared state, with what it takes to read it and to change it. -/
structure View (S V : Type) where
  get : S → V
  set : V → S → S
  get_set : ∀ v s, get (set v s) = v
  set_get : ∀ s, set (get s) s = s
  set_set : ∀ v w s, set v (set w s) = set v s

namespace View

variable {S V L E A : Type} (view : View S V)

def read (f : V → A) : Program S L E A := .read fun s => f (view.get s)

def write (f : V → V) : Program S L E Unit := .write fun s => view.set (f (view.get s)) s

@[simp] theorem run_read (f : V → A) (s : S) :
    (view.read f : Program S L E A).run s = .ok (f (view.get s), s) := rfl

@[simp] theorem run_write (f : V → V) (s : S) :
    (view.write f : Program S L E Unit).run s = .ok ((), view.set (f (view.get s)) s) := rfl

attribute [simp] get_set set_get set_set

end View

namespace Hlist

variable {S H N L : Type} (view : View S (Heap H N))

/-- Search loop of `hlist_for_each_entry_rcu`; the test is made of accesses too. -/
def findEntry (test : N → Program S L Halt Bool) :
    Nat → Option N → Program S L Halt (Option N)
  | _, none => return none
  | 0, some _ => .fault .fuel
  | fuel + 1, some n => do
      if ← test n then return some n
      else
        let next ← view.read fun heap => heap.next n
        findEntry test fuel next

/-- `hlist_for_each_entry_safe`. -/
def forEachSafe (body : N → Program S L Halt Unit) : Nat → Option N → Program S L Halt Unit
  | _, none => return ()
  | 0, some _ => .fault .fuel
  | fuel + 1, some n => do
      let tmp ← view.read fun heap => heap.next n
      body n
      forEachSafe body fuel tmp

variable [DecidableEq H] [DecidableEq N]

/-- `hlist_del_rcu`: load `next` and `pprev`, store through `pprev`, store the successor's
`pprev`, poison the node's own. -/
def hlistDelRcu (n : N) : Program S L Halt Unit := do
  let next ← view.read fun heap => heap.next n
  let pprev ← view.read fun heap => heap.pprev n
  match pprev with
  | .null => .fault .null
  | .poison => .fault .poison
  | .link l => do
      view.write fun heap => heap.write l next
      match next with
      | none => view.write fun heap => heap.setPprev n .poison
      | some m => do
          view.write fun heap => heap.setPprev m (.link l)
          view.write fun heap => heap.setPprev n .poison

/-- `hlist_add_head_rcu`: load the head, store the node's two links, publish the node, store
the old first's `pprev`. -/
def hlistAddHeadRcu (n : N) (h : H) : Program S L Halt Unit := do
  let first ← view.read fun heap => heap.first h
  view.write fun heap => heap.write (.next n) first
  view.write fun heap => heap.setPprev n (.link (.head h))
  view.write fun heap => heap.write (.head h) (some n)
  match first with
  | none => return ()
  | some m => view.write fun heap => heap.setPprev m (.link (.next n))

section Run

variable {view} {s : S}

omit [DecidableEq H] [DecidableEq N] in
/-- Alone a search finds what a search of the heap finds. -/
theorem run_findEntry {test : N → Program S L Halt Bool} {accepts : N → Bool}
    (tests : ∀ n, (test n).run s = .ok (accepts n, s)) (fuel : Nat) (position : Option N) :
    (findEntry view test fuel position).run s =
      ((view.get s).findEntry accepts fuel position).map fun result => (result, s) := by
  induction fuel generalizing position with
  | zero => cases position <;> rfl
  | succ fuel ih =>
      cases position with
      | none => rfl
      | some n =>
          by_cases accepted : accepts n = true
          · simp [findEntry, Heap.findEntry, tests, accepted, Except.map]
          · simp [findEntry, Heap.findEntry, tests, accepted, ih]

omit [DecidableEq H] [DecidableEq N] in
/-- Alone a loop does what the loop over the heap does, if its body does. The memory is the
part of the state that the body changes. -/
theorem run_forEachSafe {M : Type} {on : M → S} {heap : M → Heap H N}
    (seen : ∀ memory, view.get (on memory) = heap memory) {body : N → Program S L Halt Unit}
    {plain : N → M → Except Halt M}
    (bodies : ∀ n memory, (body n).run (on memory) =
      (plain n memory).map fun memory => ((), on memory))
    (fuel : Nat) (position : Option N) (memory : M) :
    (forEachSafe view body fuel position).run (on memory) =
      (Heap.forEachSafe (fun memory n => (heap memory).next n) plain fuel position memory).map
        fun memory => ((), on memory) := by
  induction fuel generalizing position memory with
  | zero => cases position <;> rfl
  | succ fuel ih =>
      cases position with
      | none => rfl
      | some n =>
          cases ran : plain n memory with
          | error reason =>
              simp [forEachSafe, Heap.forEachSafe, bodies, ran, Except.map]
          | ok memory' =>
              simp [forEachSafe, Heap.forEachSafe, bodies, ran, Except.map, seen, ih]

/-- Alone a removal does what a removal from the heap does. -/
theorem run_hlistDelRcu (n : N) :
    (hlistDelRcu view n : Program S L Halt Unit).run s =
      ((view.get s).hlistDelRcu n).map fun heap => ((), view.set heap s) := by
  cases named : (view.get s).pprev n with
  | null => simp [hlistDelRcu, Heap.hlistDelRcu, named, Except.map]
  | poison => simp [hlistDelRcu, Heap.hlistDelRcu, named, Except.map]
  | link l =>
      cases next : (view.get s).next n with
      | none => simp [hlistDelRcu, Heap.hlistDelRcu, named, next, Except.map]
      | some m => simp [hlistDelRcu, Heap.hlistDelRcu, named, next, Except.map]

/-- Alone an insertion does what an insertion into the heap does. -/
theorem run_hlistAddHeadRcu (n : N) (h : H) :
    (hlistAddHeadRcu view n h : Program S L Halt Unit).run s =
      .ok ((), view.set ((view.get s).hlistAddHeadRcu n h) s) := by
  cases first : (view.get s).first h with
  | none => simp [hlistAddHeadRcu, Heap.hlistAddHeadRcu, first]
  | some m => simp [hlistAddHeadRcu, Heap.hlistAddHeadRcu, first]

end Run

end Hlist

end Kcr
