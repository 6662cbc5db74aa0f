import Kcr.Hlist.Accesses
import Kcr.Hlist.Colour
import Kcr.Semantics.RelyGuarantee

/-!
# Lists that many threads edit

A heap keeps its shape if every single store joins places of one colour, even between the
stores of a removal or an insertion that another thread has begun. A protocol that allows such
stores can be followed by every list primitive, under whatever locks or under none.
-/

namespace Kcr.Hlist

variable {H N C : Type}

/-- A place of a colour: a head, or the `next` field of an allocated node. -/
def Link.Within (head : H → C) (node : N → C) (live : Set N) (c : C) (l : Link H N) : Prop :=
  l.colour head node = c ∧ ∀ n, l = .next n → n ∈ live

theorem Link.Within.next {head : H → C} {node : N → C} {live : Set N} {c : C} {n : N}
    (member : n ∈ live ∧ node n = c) : (Link.next n : Link H N).Within head node live c :=
  ⟨member.2, fun _ same => Link.next.inj same ▸ member.1⟩

namespace Heap

variable {heap : Heap H N} {head : H → C} {node : N → C} {live : Set N} {c : C}

/-- Links and `pprev` fields mention allocated nodes only and join places of one colour. -/
structure Shaped (heap : Heap H N) (head : H → C) (node : N → C) (live : Set N) : Prop where
  confined : heap.Confined live
  coloured : heap.Coloured head node

theorem shaped_empty (head : H → C) (node : N → C) (live : Set N) :
    (empty : Heap H N).Shaped head node live := ⟨confined_empty live, .empty⟩

/-- An allocated node of a colour whose `pprev` has been set. -/
def Linked (heap : Heap H N) (node : N → C) (live : Set N) (c : C) (n : N) : Prop :=
  (n ∈ live ∧ node n = c) ∧ heap.pprev n ≠ .null

namespace Shaped

theorem read (shaped : heap.Shaped head node live) {l : Link H N}
    (within : l.Within head node live c) {n : N} (designates : heap.read l = some n) :
    heap.Linked node live c n :=
  ⟨⟨shaped.confined.read designates, (shaped.coloured.read designates).trans within.1⟩,
    shaped.confined.linked designates⟩

theorem named (shaped : heap.Shaped head node live) {n : N}
    (member : n ∈ live ∧ node n = c) {l : Link H N} (named : heap.pprev n = .link l) :
    l.Within head node live c := by
  refine ⟨(shaped.coloured.named named).trans member.2, ?_⟩
  rintro m rfl
  exact shaped.confined.named named

section Stores

variable [DecidableEq N]

/-- A store into a place, of a pointer to a node of its colour. -/
theorem write [DecidableEq H] (shaped : heap.Shaped head node live) {l : Link H N}
    (within : l.Within head node live c) {value : Option N}
    (linked : ∀ n ∈ value, heap.Linked node live c n) :
    (heap.write l value).Shaped head node live := by
  have cases : ∀ {m n}, (heap.write l value).read m = some n →
      heap.Linked node live (m.colour head node) n := by
    intro m n designates
    rw [read_write] at designates
    split at designates
    · next same => exact same ▸ within.1 ▸ linked n designates
    · exact ⟨⟨shaped.confined.read designates, shaped.coloured.read designates⟩,
        shaped.confined.linked designates⟩
  constructor
  · constructor
    · exact fun designates => (cases designates).1.1
    · intro n m named
      rw [pprev_write] at named
      exact shaped.confined.named named
    · intro n outside
      obtain ⟨ends, null⟩ := shaped.confined.zeroed outside
      refine ⟨?_, by rw [pprev_write, null]⟩
      have other : Link.next n ≠ l := fun same => outside (within.2 n same.symm)
      rw [← read_next, read_write, if_neg other]
      exact ends
    · intro m n designates
      rw [pprev_write]
      exact (cases designates).2
  · constructor
    · exact fun designates => (cases designates).1.2
    · intro n m named
      rw [pprev_write] at named
      exact shaped.coloured.named named

/-- A store into the `pprev` field of a node. -/
theorem setPprev (shaped : heap.Shaped head node live) {n : N} (member : n ∈ live ∧ node n = c)
    {value : Pprev H N} (set : value ≠ .null)
    (within : ∀ l, value = .link l → l.Within head node live c) :
    (heap.setPprev n value).Shaped head node live := by
  have cases : ∀ {m l}, (heap.setPprev n value).pprev m = .link l →
      l.Within head node live (node m) ∨ heap.pprev m = .link l := by
    intro m l named
    rw [pprev_setPprev] at named
    split at named
    · next same => exact .inl (same ▸ member.2 ▸ within l named)
    · exact .inr named
  constructor
  · constructor
    · intro m k designates
      rw [read_setPprev] at designates
      exact shaped.confined.read designates
    · intro m k named
      obtain within | before := cases named
      · exact within.2 k rfl
      · exact shaped.confined.named before
    · intro m outside
      obtain ⟨ends, null⟩ := shaped.confined.zeroed outside
      have other : m ≠ n := fun same => outside (same ▸ member.1)
      exact ⟨ends, by rw [pprev_setPprev, if_neg other, null]⟩
    · intro l m designates
      rw [read_setPprev] at designates
      rw [pprev_setPprev]
      split
      · exact set
      · exact shaped.confined.linked designates
  · constructor
    · intro l m designates
      rw [read_setPprev] at designates
      exact shaped.coloured.read designates
    · intro m l named
      obtain within | before := cases named
      · exact within.1
      · exact shaped.coloured.named before

end Stores

end Shaped

end Heap

/-! ## Protocols -/

/-- A protocol over a state that a list heap is a part of. Allocated nodes stay allocated,
keep their colour and, once linked, their `pprev`; stores that keep the heap's shape are
allowed to everyone at any time. -/
structure Lists {T S L : Type} (R : Protocol T S L Halt) (H N C : Type) where
  view : View S (Heap H N)
  head : H → C
  node : S → N → C
  live : S → Set N
  node_set : ∀ heap s, node (view.set heap s) = node s
  live_set : ∀ heap s, live (view.set heap s) = live s
  shaped : ∀ {s}, R.Inv s → (view.get s).Shaped head (node s) (live s)
  kept : ∀ {t held s s' n}, R.Interferes t held s s' → n ∈ live s →
    n ∈ live s' ∧ node s' n = node s n
  linked : ∀ {t held s s' n}, R.Interferes t held s s' → n ∈ live s →
    (view.get s).pprev n ≠ .null → (view.get s').pprev n ≠ .null
  store : ∀ {t held s heap}, R.Inv s → heap.Shaped head (node s) (live s) →
    (∀ n ∈ live s, (view.get s).pprev n ≠ .null → heap.pprev n ≠ .null) →
    R.Inv (view.set heap s) ∧ R.Step t held s (view.set heap s)
  fuel : R.Fault .fuel
  poison : R.Fault .poison

namespace Lists

variable {T S L : Type} {R : Protocol T S L Halt} (D : Lists R H N C) {t : T} {held : Option L}
  {c : C} {n : N}

/-- The node is allocated and has the colour. -/
def Member (c : C) (n : N) (s : S) : Prop := n ∈ D.live s ∧ D.node s n = c

def Linked (c : C) (n : N) (s : S) : Prop :=
  (D.view.get s).Linked (D.node s) (D.live s) c n

/-- The place has the colour. -/
def Within (c : C) (l : Link H N) (s : S) : Prop := l.Within D.head (D.node s) (D.live s) c

/-- A store that the protocol allows. -/
structure Stores (s : S) (heap : Heap H N) : Prop where
  inv : R.Inv s
  shaped : heap.Shaped D.head (D.node s) (D.live s)
  linked : ∀ n ∈ D.live s, (D.view.get s).pprev n ≠ .null → heap.pprev n ≠ .null

/-- An assertion that neither the others nor stores into the heap falsify. -/
structure Carried (t : T) (held : Option L) (P : S → Prop) : Prop where
  stable : R.Stable t held P
  stores : ∀ s heap, D.Stores s heap → P s → P (D.view.set heap s)

variable {D}

theorem Carried.and {P Q : S → Prop} (first : D.Carried t held P) (second : D.Carried t held Q) :
    D.Carried t held fun s => P s ∧ Q s where
  stable := first.stable.and second.stable
  stores s heap stores holds :=
    ⟨first.stores s heap stores holds.1, second.stores s heap stores holds.2⟩

theorem carried_forall {I : Type} {P : I → S → Prop} (each : ∀ i, D.Carried t held (P i)) :
    D.Carried t held fun s => ∀ i, P i s where
  stable := Protocol.stable_forall fun i => (each i).stable
  stores s heap stores holds i := (each i).stores s heap stores (holds i)

theorem carried_imp {p : Prop} {P : S → Prop} (carried : D.Carried t held P) :
    D.Carried t held fun s => p → P s where
  stable s s' moved holds given := carried.stable s s' moved (holds given)
  stores s heap stores holds given := carried.stores s heap stores (holds given)

theorem carried_member : D.Carried t held (D.Member c n) where
  stable := by
    rintro s s' moved ⟨inside, colour⟩
    obtain ⟨inside', same⟩ := D.kept moved inside
    exact ⟨inside', same.trans colour⟩
  stores s heap _ holds := by
    unfold Member
    rw [D.node_set, D.live_set]
    exact holds

theorem carried_linked : D.Carried t held (D.Linked c n) where
  stable := by
    rintro s s' moved ⟨member, set⟩
    exact ⟨carried_member.stable s s' moved member, D.linked moved member.1 set⟩
  stores s heap stores holds := by
    obtain ⟨member, set⟩ := holds
    refine ⟨?_, ?_⟩
    · rw [D.node_set, D.live_set]
      exact member
    · rw [D.view.get_set]
      exact stores.linked n member.1 set

theorem carried_within {l : Link H N} : D.Carried t held (D.Within c l) where
  stable := by
    rintro s s' moved ⟨colour, inside⟩
    cases l with
    | head h => exact ⟨colour, nofun⟩
    | next n =>
        obtain ⟨inside', same⟩ := D.kept moved (inside n rfl)
        exact Link.Within.next ⟨inside', same.trans colour⟩
  stores s heap _ holds := by
    unfold Within
    rw [D.node_set, D.live_set]
    exact holds

theorem carried_linked_mem {position : Option N} :
    D.Carried t held fun s => ∀ n ∈ position, D.Linked c n s :=
  carried_forall fun _ => carried_imp carried_linked

/-- Whatever stays as it is, is a store that the protocol allows. -/
theorem quiet (D : Lists R H N C) {s : S} (inv : R.Inv s) : R.Step t held s s := by
  have step : R.Step t held s (D.view.set (D.view.get s) s) :=
    (D.store inv (D.shaped inv) fun _ _ set => set).2
  rwa [D.view.set_get] at step

section Programs

variable {P Q : S → Prop}

theorem meets_read (D : Lists R H N C) {A : Type} {get : S → A} {mid : A → S → Prop}
    (stable : ∀ result, R.Stable t held (mid result))
    (reads : ∀ s, R.Inv s → P s → mid (get s) s) :
    R.Meets t mid held held P (Program.read get : Program S L Halt A) :=
  .read (fun _ inv => D.quiet inv) stable reads

section Stores

variable [DecidableEq N]

/-- A pointer to a linked node may be stored into any place of its colour. -/
theorem meets_write [DecidableEq H] (carried : D.Carried t held P) {l : Link H N}
    {value : Option N}
    (allowed : ∀ s, Q s → P s ∧ D.Within c l s ∧ ∀ n ∈ value, D.Linked c n s) :
    R.Meets t (fun _ => P) held held Q
      (D.view.write fun heap => heap.write l value : Program S L Halt Unit) := by
  apply Protocol.Meets.write carried.stable
  intro s inv before
  obtain ⟨holds, within, linked⟩ := allowed s before
  have stores : D.Stores s ((D.view.get s).write l value) := by
    refine ⟨inv, (D.shaped inv).write within linked, fun n _ set => ?_⟩
    rw [Heap.pprev_write]
    exact set
  obtain ⟨inv', step⟩ := D.store inv stores.shaped stores.linked
  exact ⟨inv', step, carried.stores s _ stores holds⟩

/-- The `pprev` of an allocated node may be set to any place of its colour, or poisoned. -/
theorem meets_setPprev (carried : D.Carried t held P) {value : Pprev H N} (set : value ≠ .null)
    (allowed : ∀ s, Q s → P s ∧ D.Member c n s ∧ ∀ l, value = .link l → D.Within c l s) :
    R.Meets t (fun _ s => P s ∧ D.Linked c n s) held held Q
      (D.view.write fun heap => heap.setPprev n value : Program S L Halt Unit) := by
  apply Protocol.Meets.write (carried.stable.and carried_linked.stable)
  intro s inv before
  obtain ⟨holds, member, within⟩ := allowed s before
  have stores : D.Stores s ((D.view.get s).setPprev n value) := by
    refine ⟨inv, (D.shaped inv).setPprev member set within, fun m _ named => ?_⟩
    rw [Heap.pprev_setPprev]
    split
    · exact set
    · exact named
  obtain ⟨inv', step⟩ := D.store inv stores.shaped stores.linked
  refine ⟨inv', step, carried.stores s _ stores holds, ?_, ?_⟩
  · rw [D.node_set, D.live_set]
    exact member
  · rw [D.view.get_set, Heap.pprev_setPprev, if_pos rfl]
    exact set

end Stores

/-- A search: the test is made at linked nodes of the colour it starts in. -/
theorem meets_findEntry {test : N → Program S L Halt Bool} {post : Option N → S → Prop}
    (carried : R.Stable t held P)
    (tests : ∀ n, R.Meets t
      (fun accepted s => if accepted = true then post (some n) s else P s ∧ D.Linked c n s)
      held held (fun s => P s ∧ D.Linked c n s) (test n))
    (ends : ∀ s, R.Inv s → P s → post none s) (fuel : Nat) (position : Option N) :
    R.Meets t post held held (fun s => P s ∧ ∀ n ∈ position, D.Linked c n s)
      (findEntry D.view test fuel position) := by
  induction fuel generalizing position with
  | zero =>
      cases position with
      | none => exact .pure fun s inv holds => ends s inv holds.1
      | some n => exact .fault fun _ _ _ => D.fuel
  | succ fuel ih =>
      cases position with
      | none => exact .pure fun s inv holds => ends s inv holds.1
      | some n =>
          have tested := (tests n).weaken fun s _ (holds :
            P s ∧ ∀ m ∈ some n, D.Linked c m s) => ⟨holds.1, holds.2 n rfl⟩
          refine tested.bind fun accepted => ?_
          cases accepted with
          | true => exact .pure fun _ _ holds => holds
          | false =>
              have next : R.Meets t (fun next s => P s ∧ ∀ m ∈ next, D.Linked c m s) held held
                  (fun s => P s ∧ D.Linked c n s)
                  (D.view.read fun heap => heap.next n : Program S L Halt (Option N)) :=
                D.meets_read (fun _ => carried.and carried_linked_mem.stable)
                  fun s inv ⟨holds, linked⟩ =>
                    ⟨holds, fun m same => (D.shaped inv).read (.next linked.1) same⟩
              exact next.bind fun next => ih next

/-- A loop whose body may remove the node it is at, but goes on from the successor read
before. -/
theorem meets_forEachSafe {body : N → Program S L Halt Unit}
    (carried : D.Carried t held P)
    (bodies : ∀ n (next : Option N), R.Meets t
      (fun _ s => P s ∧ ∀ m ∈ next, D.Linked c m s) held held
      (fun s => (P s ∧ ∀ m ∈ next, D.Linked c m s) ∧ D.Linked c n s) (body n))
    (fuel : Nat) (position : Option N) :
    R.Meets t (fun _ => P) held held (fun s => P s ∧ ∀ n ∈ position, D.Linked c n s)
      (forEachSafe D.view body fuel position) := by
  induction fuel generalizing position with
  | zero =>
      cases position with
      | none => exact .pure fun s _ holds => holds.1
      | some n => exact .fault fun _ _ _ => D.fuel
  | succ fuel ih =>
      cases position with
      | none => exact .pure fun s _ holds => holds.1
      | some n =>
          have next : R.Meets t
              (fun next s => (P s ∧ ∀ m ∈ next, D.Linked c m s) ∧ D.Linked c n s) held held
              (fun s => P s ∧ ∀ m ∈ some n, D.Linked c m s)
              (D.view.read fun heap => heap.next n : Program S L Halt (Option N)) := by
            refine D.meets_read
              (fun _ => (carried.stable.and carried_linked_mem.stable).and carried_linked.stable)
              fun s inv ⟨holds, linked⟩ => ?_
            have here := linked n rfl
            exact ⟨⟨holds, fun m same => (D.shaped inv).read (.next here.1) same⟩, here⟩
          refine next.bind fun next => ?_
          exact (bodies n next).bind fun _ => ih next

/-- A removal, of a node that is linked when it begins. -/
theorem meets_hlistDelRcu [DecidableEq H] [DecidableEq N] (carried : D.Carried t held P) :
    R.Meets t (fun _ s => P s ∧ D.Linked c n s) held held (fun s => P s ∧ D.Linked c n s)
      (hlistDelRcu D.view n) := by
  have here : D.Carried t held fun s => P s ∧ D.Linked c n s := carried.and carried_linked
  have next : R.Meets t (fun next s => (P s ∧ D.Linked c n s) ∧ ∀ m ∈ next, D.Linked c m s)
      held held (fun s => P s ∧ D.Linked c n s)
      (D.view.read fun heap => heap.next n : Program S L Halt (Option N)) :=
    D.meets_read (fun _ => here.stable.and carried_linked_mem.stable) fun s inv holds =>
      ⟨holds, fun m same => (D.shaped inv).read (.next holds.2.1) same⟩
  refine next.bind fun next => ?_
  have found : D.Carried t held
      fun s => (P s ∧ D.Linked c n s) ∧ ∀ m ∈ next, D.Linked c m s := here.and carried_linked_mem
  have pprev : R.Meets t
      (fun pprev s => ((P s ∧ D.Linked c n s) ∧ ∀ m ∈ next, D.Linked c m s) ∧
        pprev ≠ .null ∧ ∀ l, pprev = .link l → D.Within c l s)
      held held (fun s => (P s ∧ D.Linked c n s) ∧ ∀ m ∈ next, D.Linked c m s)
      (D.view.read fun heap => heap.pprev n : Program S L Halt (Pprev H N)) := by
    refine D.meets_read (fun pprev => found.stable.and ((Protocol.stable_const _).and
      (Protocol.stable_forall fun l => (carried_imp carried_within).stable)))
      fun s inv holds => ⟨holds, holds.1.2.2, fun l named => ?_⟩
    exact (D.shaped inv).named holds.1.2.1 named
  refine pprev.bind fun pprev => ?_
  cases pprev with
  | null => exact .fault fun s _ holds => absurd rfl holds.2.1
  | poison => exact .fault fun _ _ _ => D.poison
  | link l =>
      have placed : D.Carried t held fun s =>
          ((P s ∧ D.Linked c n s) ∧ ∀ m ∈ next, D.Linked c m s) ∧ D.Within c l s :=
        found.and carried_within
      have unlinks : R.Meets t (fun _ s =>
          ((P s ∧ D.Linked c n s) ∧ ∀ m ∈ next, D.Linked c m s) ∧ D.Within c l s) held held _
          (D.view.write fun heap => heap.write l next : Program S L Halt Unit) :=
        meets_write placed fun s (holds :
          ((P s ∧ D.Linked c n s) ∧ ∀ m ∈ next, D.Linked c m s) ∧ Pprev.link l ≠ .null ∧
            ∀ l', Pprev.link l = .link l' → D.Within c l' s) =>
          ⟨⟨holds.1, holds.2.2 l rfl⟩, holds.2.2 l rfl, holds.1.2⟩
      have poisons : R.Meets t (fun _ s => P s ∧ D.Linked c n s) held held
          (fun s => ((P s ∧ D.Linked c n s) ∧ ∀ m ∈ next, D.Linked c m s) ∧ D.Within c l s)
          (D.view.write fun heap => heap.setPprev n .poison : Program S L Halt Unit) :=
        meets_setPprev carried nofun fun s holds => ⟨holds.1.1.1, holds.1.1.2.1, nofun⟩
      refine unlinks.bind fun _ => ?_
      cases next with
      | none => exact poisons
      | some m =>
          refine .bind (meets_setPprev placed nofun fun s holds => ⟨holds, (holds.1.2 m rfl).1, ?_⟩)
            fun _ => poisons.weaken fun s _ holds => holds.1
          rintro l' ⟨⟩
          exact holds.2

/-- An insertion, of a node of the head's colour. -/
theorem meets_hlistAddHeadRcu [DecidableEq H] [DecidableEq N] {h : H} (same : D.head h = c)
    (carried : D.Carried t held P) :
    R.Meets t (fun _ s => P s ∧ D.Linked c n s) held held (fun s => P s ∧ D.Member c n s)
      (hlistAddHeadRcu D.view n h) := by
  have place : ∀ s, D.Within c (.head h) s := fun s => ⟨same, nofun⟩
  have member : D.Carried t held fun s => P s ∧ D.Member c n s := carried.and carried_member
  have first : R.Meets t (fun first s => (P s ∧ D.Member c n s) ∧ ∀ m ∈ first, D.Linked c m s)
      held held (fun s => P s ∧ D.Member c n s)
      (D.view.read fun heap => heap.first h : Program S L Halt (Option N)) :=
    D.meets_read (fun _ => member.stable.and carried_linked_mem.stable) fun s inv holds =>
      ⟨holds, fun m read => (D.shaped inv).read (place s) read⟩
  refine first.bind fun first => ?_
  have found : D.Carried t held
      fun s => (P s ∧ D.Member c n s) ∧ ∀ m ∈ first, D.Linked c m s :=
    member.and carried_linked_mem
  refine .bind (meets_write found fun s holds => ⟨holds, .next holds.1.2, holds.2⟩) fun _ => ?_
  refine .bind (meets_setPprev found nofun fun s holds => ⟨holds, holds.1.2, ?_⟩) fun _ => ?_
  · rintro l ⟨⟩
    exact place s
  refine .bind (meets_write (found.and carried_linked) fun s holds => ⟨holds, place s, ?_⟩)
    fun _ => ?_
  · rintro m ⟨⟩
    exact holds.2
  cases first with
  | none => exact .pure fun s _ holds => ⟨holds.1.1.1, holds.2⟩
  | some m =>
      have names : R.Meets t (fun _ s => (P s ∧ D.Linked c n s) ∧ D.Linked c m s) held held
          (fun s => ((P s ∧ D.Member c n s) ∧ ∀ k ∈ some m, D.Linked c k s) ∧ D.Linked c n s)
          (D.view.write fun heap => heap.setPprev m (.link (.next n)) :
            Program S L Halt Unit) :=
        meets_setPprev (carried.and carried_linked) nofun fun s holds =>
          ⟨⟨holds.1.1.1, holds.2⟩, (holds.1.2 m rfl).1, fun l named => by
            cases named
            exact .next holds.2.1⟩
      exact names.entails fun _ s _ holds => holds.1

end Programs

end Lists

end Kcr.Hlist
