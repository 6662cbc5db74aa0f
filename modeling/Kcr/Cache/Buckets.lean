import Kcr.Cache.Reachable
import Kcr.Hlist.Colour

/-!
# Colourings that calls respect

A call links entries into the two buckets of its fingerprint and otherwise edits links
between entries of one colour. A colouring in which these two buckets and the stored
entry agree therefore survives the call. The hash class of a call is such a colour: the
socket of its CPU with the fingerprint modulo the number of L2 buckets.
-/

namespace Kcr

open Hlist

/-- The two buckets of a call's fingerprint have one colour, and an entry it stores
has it too. -/
def Event.Respects {C : Type} (P : Platform) (head : Head → C) (node : Node → C)
    (event : Event) : Prop :=
  match event.call with
  | .storeResult fingerprint _ _ _ kzalloc _ =>
      head (l3Head P event.who.cpu fingerprint) = head (l2Head event.who.cpu fingerprint) ∧
        ∀ n ∈ kzalloc, node n = head (l2Head event.who.cpu fingerprint)
  | .lookupUnified fingerprint _ =>
      head (l3Head P event.who.cpu fingerprint) = head (l2Head event.who.cpu fingerprint)
  | .invalidateRange _ _ _ => True

section Coloured

variable {C : Type} {head : Head → C} {node : Node → C} {P : Platform} {s s' : State}

theorem ReplaceReturns.coloured {bucket : Head} {entry : Node} {fingerprint : U64}
    (coloured : s.heap.Coloured head node) (same : head bucket = node entry)
    (returns : ReplaceReturns bucket entry fingerprint s s') : s'.heap.Coloured head node := by
  obtain ⟨old, mid, _, removal, added, _⟩ := returns.heap_cases
  cases removal with
  | none => exact coloured.pushed added same
  | some gone => exact (coloured.unlinked gone).pushed added same

theorem CacheStep.coloured {event : Event} (step : CacheStep P s event s')
    (wellFormed : WellFormed s) (coloured : s.heap.Coloured head node)
    (respects : event.Respects P head node) : s'.heap.Coloured head node := by
  cases step with
  | store fresh _ returns =>
      obtain ⟨buckets, entries⟩ := respects
      rcases returns.cases wellFormed fresh with
        ⟨_, sameHeap, _⟩ | ⟨_, _, bytes, entry, s₀, s₁, rfl, rfl, insertion⟩
      · rw [sameHeap]
        exact coloured
      · rw [← insertion.heap] at coloured
        have same := (entries entry rfl).symm
        exact insertion.inL3.coloured (insertion.inL2.coloured coloured same) (buckets.trans same)
  | lookup returns =>
      have buckets := respects
      rcases returns.heap_cases with same | ⟨n, l, mid, _, ⟨_, found⟩, gone, added⟩
      · rw [same]
        exact coloured
      · exact (coloured.unlinked gone).pushed added
          (buckets.symm.trans (coloured.onChain found.some.1).symm)
  | @invalidate who _ _ _ _ _ ran =>
      refine invalidateRange_rule (fun _ s => s.heap.Coloured head node)
        (fun _ _ _ s => s.heap.Coloured head node) (fun _ holds => holds) ?_
        (fun holds => holds) ?_ coloured ran
      · intro done bucket n t t' count counts holds ran
        rcases sweepEntry_cases counts ran with ⟨_, rfl⟩ | swept
        · exact holds
        · obtain ⟨l, gone⟩ := swept.heap
          exact holds.unlinked gone
      · intro done t slot holds
        rw [(sameLists_freeExtSlot (P.socketIndex who.cpu) slot t).heap]
        exact holds

end Coloured

/-! ## Hash classes -/

/-- Socket index and L2 bucket. -/
abbrev HashClass := Nat × Fin kcrL2Entries

/-- The class of a call for a fingerprint on a CPU. -/
def hashClass (P : Platform) (cpu : Nat) (fingerprint : U64) : HashClass :=
  (P.socketIndex cpu, l2Bucket fingerprint)

/-- The class a bucket serves. -/
def Head.hashClass (P : Platform) : Head → HashClass
  | .l2 cpu bucket => (P.socketIndex cpu, bucket)
  | .l3 socket bucket => (socket, ⟨bucket.val % kcrL2Entries, Nat.mod_lt _ (by decide)⟩)

theorem hashClass_l2Head (P : Platform) (cpu : Nat) (fingerprint : U64) :
    (l2Head cpu fingerprint).hashClass P = hashClass P cpu fingerprint := rfl

/-- The L3 bucket of a fingerprint serves the class of its L2 bucket, since 64 divides 512. -/
theorem hashClass_l3Head (P : Platform) (cpu : Nat) (fingerprint : U64) :
    (l3Head P cpu fingerprint).hashClass P = hashClass P cpu fingerprint := by
  have divides : kcrL2Entries ∣ kcrL3Entries := by decide
  simp only [l3Head, Head.hashClass, hashClass, l2Bucket, l3Bucket, Nat.mod_mod_of_dvd _ divides]

/-- A step keeps the lists within hash classes; an entry it stores gets the class of its
fingerprint and CPU. -/
theorem CacheStep.recoloured {P : Platform} {s s' : State} {event : Event}
    (step : CacheStep P s event s') (wellFormed : WellFormed s) {colour : Node → HashClass}
    (coloured : s.heap.Coloured (Head.hashClass P) colour) :
    ∃ colour', s'.heap.Coloured (Head.hashClass P) colour' ∧
      (∀ n ∈ s.live, colour' n = colour n) ∧
      ∀ fingerprint mm n, event.Stores fingerprint mm n →
        colour' n = hashClass P event.who.cpu fingerprint := by
  cases step with
  | @store who fingerprint data len mm kzalloc kvmalloc status s' fresh freshBuffer returns =>
      let colour' : Node → HashClass := fun n =>
        if n ∈ kzalloc then hashClass P who.cpu fingerprint else colour n
      have kept : ∀ n ∈ s.live, colour' n = colour n := fun n inside =>
        if_neg fun given => fresh n given inside
      refine ⟨colour', (CacheStep.store fresh freshBuffer returns).coloured wellFormed
        (coloured.recolour wellFormed.confined kept)
        ⟨hashClass_l3Head .., fun n given => if_pos given⟩, kept, ?_⟩
      rintro fingerprint mm n ⟨_, _, _, call, _⟩
      cases call
      exact if_pos rfl
  | lookup returns =>
      refine ⟨colour, (CacheStep.lookup returns).coloured wellFormed coloured
        (hashClass_l3Head ..), fun _ _ => rfl, ?_⟩
      rintro fingerprint mm n ⟨_, _, _, call, _⟩
      cases call
  | invalidate ran =>
      refine ⟨colour, (CacheStep.invalidate ran).coloured wellFormed coloured trivial,
        fun _ _ => rfl, ?_⟩
      rintro fingerprint mm n ⟨_, _, _, call, _⟩
      cases call

/-- The lists do not mix hash classes, and an entry has the class of the store that created
it. -/
theorem storedClass_of_run {P : Platform} {events : List Event} {s : State}
    (run : (cache P).Run events s) :
    ∃ colour, s.heap.Coloured (Head.hashClass P) colour ∧
      ∀ event ∈ events, ∀ fingerprint mm n, event.Stores fingerprint mm n →
        colour n = hashClass P event.who.cpu fingerprint := by
  apply run.invariant (fun events (s : State) =>
    ∃ colour, s.heap.Coloured (Head.hashClass P) colour ∧
      ∀ event ∈ events, ∀ fingerprint mm n, event.Stores fingerprint mm n →
        colour n = hashClass P event.who.cpu fingerprint)
  · rintro s rfl
    exact ⟨fun _ => (0, 0), .empty, nofun⟩
  · rintro events s event s' prior ⟨colour, coloured, classes⟩ transition
    obtain ⟨colour', coloured', kept, own⟩ :=
      (cacheStep_iff.mp transition).recoloured (.run prior) coloured
    refine ⟨colour', coloured', fun store member fingerprint mm n stores => ?_⟩
    obtain earlier | last := List.mem_append.mp member
    · rw [kept n (live_of_stores prior earlier stores)]
      exact classes store earlier fingerprint mm n stores
    · obtain rfl := List.mem_singleton.mp last
      exact own fingerprint mm n stores

/-- The lists of the caches do not mix hash classes. -/
theorem coloured_of_run {P : Platform} {events : List Event} {s : State}
    (run : (cache P).Run events s) :
    ∃ colour, s.heap.Coloured (Head.hashClass P) colour := by
  obtain ⟨colour, coloured, _⟩ := storedClass_of_run run
  exact ⟨colour, coloured⟩

/-- An entry on a bucket's chain was stored by a call of the bucket's class. -/
theorem stored_of_onChain {P : Platform} {events : List Event} {s : State}
    (run : (cache P).Run events s) {h : Head} {n : Node}
    (visited : s.heap.OnChain (.head h) n) :
    ∃ store ∈ events, store.Stores (s.entry n).fingerprint (s.entry n).mm n ∧
      hashClass P store.who.cpu (s.entry n).fingerprint = h.hashClass P := by
  obtain ⟨colour, coloured, classes⟩ := storedClass_of_run run
  obtain ⟨before, store, after, _, rfl, _, _, stores, _⟩ :=
    created run ((WellFormed.run run).confined.onChain visited)
  have member : store ∈ before ++ store :: after := by simp
  refine ⟨store, member, stores, ?_⟩
  exact (classes store member _ _ n stores).symm.trans (coloured.onChain visited)

/-- What the chains of both tiers hold: the fingerprints of an L2 bucket's entries have its
index as residue, those of an L3 bucket's entries the residue of its index, and all were
stored from a CPU of the bucket's socket. -/
theorem residue_of_run {P : Platform} {events : List Event} {s : State}
    (run : (cache P).Run events s) :
    (∀ cpu (bucket : Fin kcrL2Entries) n, s.heap.OnChain (.head (.l2 cpu bucket)) n →
      (s.entry n).fingerprint.toNat % kcrL2Entries = bucket ∧
      ∃ store ∈ events, store.Stores (s.entry n).fingerprint (s.entry n).mm n ∧
        P.socketIndex store.who.cpu = P.socketIndex cpu) ∧
    ∀ socket (bucket : Fin kcrL3Entries) n, s.heap.OnChain (.head (.l3 socket bucket)) n →
      (s.entry n).fingerprint.toNat % kcrL2Entries = bucket % kcrL2Entries ∧
      ∃ store ∈ events, store.Stores (s.entry n).fingerprint (s.entry n).mm n ∧
        P.socketIndex store.who.cpu = socket := by
  constructor
  · intro cpu bucket n visited
    obtain ⟨store, member, stores, same⟩ := stored_of_onChain run visited
    obtain ⟨socket, residue⟩ := Prod.mk.inj same
    exact ⟨congrArg Fin.val residue, store, member, stores, socket⟩
  · intro socket bucket n visited
    obtain ⟨store, member, stores, same⟩ := stored_of_onChain run visited
    obtain ⟨socket, residue⟩ := Prod.mk.inj same
    exact ⟨congrArg Fin.val residue, store, member, stores, socket⟩

/-- An entry stored on CPU 0 with fingerprint 69 and promoted on CPU 1. -/
theorem residue_of_run_promoted :
    ∃ s, (cache .oneNode).Run [⟨.on 0 0, .storeByte 69 1 10, .stored 0⟩,
        ⟨.on 1 1, .lookupUnified 69 1, .found (some 10)⟩] s ∧
      s.heap.OnChain (.head (.l2 1 5)) 10 ∧ (s.entry 10).fingerprint.toNat % 64 = 5 := by
  obtain ⟨s, run, replayed⟩ := run_of_replay .oneNode 9
    [⟨.on 0 0, .storeByte 69 1 10, .stored 0⟩, ⟨.on 1 1, .lookupUnified 69 1, .found (some 10)⟩]
    (by decide +kernel)
  have first : s.heap.first (.l2 1 5) = some 10 :=
    observe replayed (fun s => s.heap.first (.l2 1 5)) (by decide +kernel)
  have visited : s.heap.OnChain (.head (.l2 1 5)) 10 := .of_read first
  exact ⟨s, run, visited, ((residue_of_run run).1 1 5 10 visited).1⟩

/-! ## Buckets in use -/

/-- The fingerprint's two buckets are among those listed. -/
def Event.Within (P : Platform) (buckets : List Head) (event : Event) : Prop :=
  match event.call with
  | .storeResult fingerprint _ _ _ _ _ =>
      l2Head event.who.cpu fingerprint ∈ buckets ∧ l3Head P event.who.cpu fingerprint ∈ buckets
  | .lookupUnified fingerprint _ =>
      l2Head event.who.cpu fingerprint ∈ buckets ∧ l3Head P event.who.cpu fingerprint ∈ buckets
  | .invalidateRange _ _ _ => True

instance (P : Platform) (buckets : List Head) (event : Event) :
    Decidable (event.Within P buckets) := by
  unfold Event.Within
  split <;> infer_instance

/-- Only buckets of fingerprints that calls asked for are ever used. -/
theorem first_of_run {P : Platform} {events : List Event} {s : State} {buckets : List Head}
    (run : (cache P).Run events s) (within : ∀ event ∈ events, event.Within P buckets) {h : Head}
    {n : Node} (first : s.heap.first h = some n) : h ∈ buckets := by
  have coloured := run.invariant
    (fun (events : List Event) (s : State) => (∀ event ∈ events, event.Within P buckets) →
      s.heap.Coloured (fun h => decide (h ∈ buckets)) (fun _ => true))
    (by
      rintro s rfl _
      exact .empty)
    (fun {events s event s'} prior ih transition within => by
      have own := within event (by simp)
      refine (cacheStep_iff.mp transition).coloured (.run prior)
        (ih fun e member => within e (by simp [member])) ?_
      unfold Event.Within at own
      unfold Event.Respects
      split at own <;> simp_all) within
  have same := coloured.read (l := .head h) first
  simpa using same.symm

/-- A check over the buckets in use and the allocated entries: `pprev` names the only
link of all that leads to the entry. -/
theorem soleLink_of_run {P : Platform} {events : List Event} {s : State} (buckets : List Head)
    (run : (cache P).Run events s) (within : ∀ event ∈ events, event.Within P buckets)
    {region : Set (Link Head Node)} {n : Node}
    (heads : ∀ h ∈ buckets, .head h ∈ region → s.heap.first h = some n →
      s.heap.pprev n = .link (.head h))
    (nodes : ∀ m ∈ s.live, s.heap.next m = some n → s.heap.pprev n = .link (.next m)) :
    s.heap.SoleLink region n := by
  intro l member designates
  cases l with
  | head h => exact heads h (first_of_run run within designates) member designates
  | next m =>
      refine nodes m ?_ designates
      by_contra outside
      have zeroed := (WellFormed.run run).confined.zeroed outside
      rw [Heap.read_next, zeroed.1] at designates
      cases designates

end Kcr
