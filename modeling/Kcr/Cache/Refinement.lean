import Kcr.Cache.Reclamation
import Kcr.Cache.Termination
import Kcr.Cache.Visibility

/-!
# The two tiers as one map

On one CPU the two tiers should answer like the map with a time to live that the stores
specify. Everything reachable is current, so a lookup cannot answer wrongly; it misses an
entry when the chains of its two buckets have lost it. A store drops what only the L2
head it overwrites led to, and a promotion what lay behind the promoted entry on an L3
chain that still leads to it. When neither loses an unexpired entry, every lookup
answers as the map does.
-/

namespace Kcr

open Hlist

/-! ## The specification -/

/-- Non-decreasing ticks, fewer than 2^63 after the start. -/
def Timely (start : U64) (ticks : List U64) : Prop :=
  ticks.Pairwise (fun earlier later => (earlier - start).toNat ≤ (later - start).toNat) ∧
    ∀ tick ∈ ticks, (tick - start).toNat < 2 ^ 63

/-- The time to live, in ticks. -/
def Platform.ttl (P : Platform) : Nat := (P.msecsToJiffies 1000).toNat

/-- The next lookup returns, with the answer and with nothing else. -/
structure Answers (P : Platform) (s : State) (who : Caller) (fingerprint mm : U64)
    (answer : Option Node) : Prop where
  returns : ∃ s', (cache P).Step s ⟨who, .lookupUnified fingerprint mm, .found answer⟩ s'
  only : ∀ result s',
    (cache P).Step s ⟨who, .lookupUnified fingerprint mm, .found result⟩ s' → result = answer

/-- A lookup, or a store of 1 to 64 bytes whose allocation succeeds. -/
def Call.Plain : Call → Prop
  | .storeResult _ data len _ kzalloc _ =>
      data.isSome ∧ 1 ≤ len.toNat ∧ len.toNat ≤ kcrResultSizeMax ∧ kzalloc.isSome
  | .lookupUnified _ _ => True
  | .invalidateRange _ _ _ => False

/-- After plain calls on one CPU, every lookup answers like the map the stores specify. -/
def RefinesTtlMap (P : Platform) : Prop :=
  ∀ ⦃events s⦄, (cache P).Run events s → ∀ start who fingerprint mm,
    (∀ event ∈ events, event.who.cpu = who.cpu ∧ event.call.Plain) →
    Timely start (events.map (fun event => event.who.jiffies) ++ [who.jiffies]) →
    Answers P s who fingerprint mm
      ((specified start events).get (fingerprint, mm) P.ttl (who.jiffies - start).toNat)

/-- One more tick: it is not before the others and within the span. -/
theorem timely_concat {start : U64} {ticks : List U64} {last : U64} :
    Timely start (ticks ++ [last]) ↔ Timely start ticks ∧
      (∀ tick ∈ ticks, (tick - start).toNat ≤ (last - start).toNat) ∧
      (last - start).toNat < 2 ^ 63 := by
  simp only [Timely, List.pairwise_append, List.mem_append, List.mem_singleton]
  constructor
  · rintro ⟨⟨ordered, _, before⟩, bounded⟩
    exact ⟨⟨ordered, fun tick member => bounded tick (.inl member)⟩,
      fun tick member => before tick member last rfl, bounded last (.inr rfl)⟩
  · rintro ⟨⟨ordered, bounded⟩, before, lastBounded⟩
    refine ⟨⟨ordered, List.pairwise_singleton _ _, ?_⟩, ?_⟩
    · rintro tick member _ rfl
      exact before tick member
    · rintro tick (member | rfl)
      · exact bounded tick member
      · exact lastBounded

/-- Ticks passed between two points of a timely run. -/
theorem toNat_sub_sub {start earlier later : U64}
    (ordered : (earlier - start).toNat ≤ (later - start).toNat) :
    (later - earlier).toNat = (later - start).toNat - (earlier - start).toNat := by
  bv_omega

/-- The code's test of the time to live, in ticks since the start. -/
theorem unexpired_iff {P : Platform} {start stored now : U64}
    (ordered : (stored - start).toNat ≤ (now - start).toNat)
    (bounded : (now - start).toNat < 2 ^ 63) :
    timeBefore now (stored + P.msecsToJiffies 1000) = true ↔
      (now - start).toNat - (stored - start).toNat < P.ttl := by
  have passed := toNat_sub_sub ordered
  rw [timeBefore_add (by omega) (P.ttlBound.trans (by decide)), passed]
  rfl

/-! ## Calls that lose nothing -/

/-- The entry has not expired. -/
def State.Unexpired (s : State) (jiffies : U64) (n : Node) : Prop :=
  timeBefore jiffies (s.entry n).expiryJiffies = true

theorem State.accepts_iff {s : State} {fingerprint mm jiffies : U64} {n : Node} :
    s.accepts fingerprint mm jiffies n = true ↔
      s.sameKey fingerprint mm n = true ∧ s.Unexpired jiffies n := by
  simp [State.accepts, State.sameKey, State.Unexpired, and_assoc]

/-- An entry stored by then that has not expired later has not expired now. -/
theorem State.Unexpired.earlier {P : Platform} {s : State} {n : Node} {stored start earlier later : U64}
    (expiry : (s.entry n).expiryJiffies = stored + P.msecsToJiffies 1000)
    (before : (stored - start).toNat ≤ (earlier - start).toNat)
    (ordered : (earlier - start).toNat ≤ (later - start).toNat)
    (bounded : (later - start).toNat < 2 ^ 63) (unexpired : s.Unexpired later n) :
    s.Unexpired earlier n := by
  unfold State.Unexpired at unexpired ⊢
  rw [expiry, unexpired_iff (by omega) bounded] at unexpired
  rw [expiry, unexpired_iff before (by omega)]
  omega

/-- The same in a run whose events have all happened by then. -/
theorem unexpired_of_later {P : Platform} {events : List Event} {s : State}
    (run : (cache P).Run events s) {n : Node} (inside : n ∈ s.live) {start earlier later : U64}
    (after : ∀ event ∈ events, event.tick start ≤ (earlier - start).toNat)
    (ordered : (earlier - start).toNat ≤ (later - start).toNat)
    (bounded : (later - start).toNat < 2 ^ 63) (unexpired : s.Unexpired later n) :
    s.Unexpired earlier n := by
  obtain ⟨before, store, rest, _, rfl, _, _, _, expiry⟩ := created run inside
  exact unexpired.earlier expiry (after store (by simp)) ordered bounded

/-- The entry is on the chain of its L2 or of its L3 bucket. -/
def State.Held (P : Platform) (cpu : Nat) (s : State) (n : Node) : Prop :=
  s.heap.OnChain (.head (l2Head cpu (s.entry n).fingerprint)) n ∨
    s.heap.OnChain (.head (l3Head P cpu (s.entry n).fingerprint)) n

/-- A store finds all copies of what it replaces, overwrites no kept link that leads
elsewhere, and each unexpired entry of another key on the L2 chain is also on the chain of
the store's L3 bucket or of its own. -/
structure State.StoreKeeps (P : Platform) (who : Caller) (fingerprint mm : U64) (s : State) :
    Prop where
  replaceable : s.Replaceable P who fingerprint mm
  spares : ∀ o ∈ s.rivals P who fingerprint mm, s.heap.Spares (s.kept P who fingerprint mm) o
  held : ∀ n, s.heap.OnChain (.head (l2Head who.cpu fingerprint)) n →
    s.Unexpired who.jiffies n → s.key n ≠ (fingerprint, mm) →
    s.heap.OnChain (.head (l3Head P who.cpu fingerprint)) n ∨
      s.heap.OnChain (.head (l3Head P who.cpu (s.entry n).fingerprint)) n

/-- A promotion overwrites no rooted link that leads elsewhere, and each unexpired entry
behind the promoted one in the chain of its own L3 bucket is also on the L2 chain, or that
chain leads to the promoted entry through the link its `pprev` names only. -/
structure State.PromotionKeeps (P : Platform) (who : Caller) (fingerprint : U64) (s : State)
    (o : Node) : Prop where
  spares : s.heap.Spares s.heap.Rooted o
  held : ∀ n, s.heap.OnChain (.next o) n →
    s.heap.OnChain (.head (l3Head P who.cpu (s.entry n).fingerprint)) n →
    s.Unexpired who.jiffies n →
    s.heap.OnChain (.head (l2Head who.cpu fingerprint)) n ∨
      s.heap.SoleLink
        (s.heap.Reached {.head (l3Head P who.cpu (s.entry n).fingerprint)}) o

/-- The guard: the call loses no unexpired entry. -/
def Keeps (P : Platform) (s : State) (who : Caller) : Call → Prop
  | .storeResult fingerprint data len mm kzalloc kvmalloc =>
      StoreAccepted P who data len kzalloc kvmalloc s → s.StoreKeeps P who fingerprint mm
  | .lookupUnified fingerprint mm =>
      ∀ o, s.Promotes P who fingerprint mm o → s.PromotionKeeps P who fingerprint o
  | .invalidateRange _ _ _ => True

section Guards

variable {P : Platform} {s : State} {who : Caller} {call : Call}

theorem Keeps.findsCopies (keeps : Keeps P s who call) : FindsCopies P s who call := by
  cases call with
  | storeResult => exact fun accepted => (keeps accepted).replaceable
  | lookupUnified | invalidateRange => trivial

theorem Keeps.soleRemovals (keeps : Keeps P s who call) (walks : call.Walks) :
    SoleRemovals P s who call := by
  cases call with
  | storeResult => exact fun accepted => (keeps accepted).replaceable.sole
  | lookupUnified => trivial
  | invalidateRange => cases walks

/-- A sparing removal is an untangled one: on a chain that ends, no link behind the entry
leads to it or is null while the entry has a successor. -/
theorem not_behind_of_spares {heap : Heap Head Node} {region : Set (Link Head Node)} {o k : Node}
    (spares : heap.Spares region o) (inside : .next k ∈ region) (ends : heap.Ends (.next o))
    (behind : heap.OnChain (.next o) k) : heap.pprev o ≠ .link (.next k) := by
  intro named
  rcases spares _ inside named with leads | ⟨_, last⟩
  · exact ends.not_onChain_next ⟨_, behind.leads, leads⟩
  · exact Heap.not_onChain_of_none (l := .next o) last behind

theorem Keeps.untangled {m : TtlMap (U64 × U64) Node} (keeps : Keeps P s who call)
    (ends : s.Ends) (current : s.Current m) : Untangled P s who call := by
  cases call with
  | invalidateRange => trivial
  | lookupUnified fingerprint mm =>
      intro o promotes k behind
      have inside : .next k ∈ s.heap.Rooted := ⟨_, ⟨_, rfl⟩,
        promotes.found.some.1.leads.trans behind.leads⟩
      exact not_behind_of_spares (keeps o promotes).spares inside
        (ends.next promotes.found.some.1) behind
  | storeResult fingerprint data len mm =>
      intro accepted o rival o' rival' k behind named
      -- the two are one entry, since both are current
      obtain rfl : o = o' := current.unique (State.rivals_subset_rooted rival)
        (State.rivals_subset_rooted rival')
        ((State.sameKey_iff.mp rival.1).trans (State.sameKey_iff.mp rival'.1).symm)
      have inside : .next k ∈ s.kept P who fingerprint mm :=
        ⟨_, .inr ⟨o, rival, rfl⟩, behind.leads⟩
      have finite : s.heap.Ends (.next o) := rival.2.elim ends.next ends.next
      exact absurd named
        (not_behind_of_spares ((keeps accepted).spares o rival) inside finite behind)

end Guards

/-! ## Stores -/

section Store

variable {P : Platform} {who : Caller} {fingerprint : U64} {entry : Node} {s s₁ s' : State}

/-- What stays on the chains when an entry is inserted in both tiers: entries of other
keys, except on the chain of the L2 head, which continues like the L3 chain. -/
structure InsertionKeeps (P : Platform) (who : Caller) (fingerprint mm : U64) (entry : Node)
    (s s' : State) : Prop where
  other : ∀ {h n}, h ≠ l2Head who.cpu fingerprint → s.key n ≠ (fingerprint, mm) →
    s.heap.OnChain (.head h) n → s'.heap.OnChain (.head h) n
  own : ∀ {n}, s.key n ≠ (fingerprint, mm) →
    s.heap.OnChain (.head (l3Head P who.cpu fingerprint)) n →
    s'.heap.OnChain (.head (l2Head who.cpu fingerprint)) n
  entry : s'.heap.OnChain (.head (l2Head who.cpu fingerprint)) entry

/-- Entries of other keys stay on the other chains when an entry is inserted in L2. -/
theorem ReplaceReturns.keeps_l2
    (inL2 : ReplaceReturns (l2Head who.cpu fingerprint) entry fingerprint s s₁)
    (unread : ∀ l, s.heap.read l ≠ some entry)
    (sole : s.SoleRivals P who fingerprint (s.entry entry).mm)
    (spares : ∀ o ∈ s.rivals P who fingerprint (s.entry entry).mm,
      s.heap.Spares (s.kept P who fingerprint (s.entry entry).mm) o)
    {h : Head} {n : Node} (other : h ≠ l2Head who.cpu fingerprint)
    (otherKey : s.key n ≠ (fingerprint, (s.entry entry).mm)) (visited : s.heap.OnChain (.head h) n) :
    s₁.heap.OnChain (.head h) n := by
  obtain ⟨headOut, nextOut⟩ :=
    State.not_mem_kept P who fingerprint (s.entry entry).mm unread
  obtain ⟨old, mid, found, removal, added, _⟩ := inL2.heap_cases
  have headIn : .head h ∈ s.kept P who fingerprint (s.entry entry).mm :=
    Heap.subset_reached _ (.inl ⟨_, other, rfl⟩)
  have rival : ∀ o ∈ old, o ∈ s.rivals P who fingerprint (s.entry entry).mm := by
    rintro o ⟨⟩
    exact ⟨found.some.2, .inl found.some.1⟩
  have inside : ∀ o ∈ old, .next o ∈ s.kept P who fingerprint (s.entry entry).mm :=
    fun o removed => Heap.subset_reached _ (.inr ⟨o, rival o removed, rfl⟩)
  have notRemoved : n ∉ old := fun removed =>
    otherKey (State.sameKey_iff.mp (rival n removed).1)
  have onMid := removal.onChain (Heap.closed_reached _)
    (fun o removed => spares o (rival o removed)) headIn notRemoved visited
  refine onMid.congr (removal.closed (Heap.closed_reached _) inside
    fun o removed => sole o (rival o removed)) (fun m member => ?_) ⟨headIn, Heap.head_not_mem_nexts⟩
  exact added.read_other (ne_of_mem_of_not_mem member.1 headOut)
    (ne_of_mem_of_not_mem member.1 nextOut)

theorem insertionKeeps
    (inL2 : ReplaceReturns (l2Head who.cpu fingerprint) entry fingerprint s s₁)
    (inL3 : ReplaceReturns (l3Head P who.cpu fingerprint) entry fingerprint s₁ s')
    (unread : ∀ l, s.heap.read l ≠ some entry)
    (sole : s.SoleRivals P who fingerprint (s.entry entry).mm)
    (spares : ∀ o ∈ s.rivals P who fingerprint (s.entry entry).mm,
      s.heap.Spares (s.kept P who fingerprint (s.entry entry).mm) o) :
    InsertionKeeps P who fingerprint (s.entry entry).mm entry s s' := by
  obtain ⟨_, nextOut⟩ :=
    State.not_mem_kept P who fingerprint (s.entry entry).mm unread
  have headIn : ∀ {h}, h ≠ l2Head who.cpu fingerprint →
      .head h ∈ s.kept P who fingerprint (s.entry entry).mm := fun other =>
    Heap.subset_reached _ (.inl ⟨_, other, rfl⟩)
  obtain ⟨old, stage⟩ := inL2.stage unread sole
  obtain ⟨old', mid, found, removal, added, _⟩ := inL3.heap_cases
  have rival := fun o removed => (stage.found inL2 found o removed).1
  have target := fun o removed => (stage.found inL2 found o removed).2
  have inside := fun o removed => stage.closed.next_mem (target o removed)
  have soleLink := fun o removed => stage.sole o (rival o removed) (target o removed)
  -- a link of the region leads to the removed entry, and `pprev` names it
  have sparesOld : ∀ o ∈ old', s₁.heap.Spares
      (s.kept P who fingerprint (s.entry entry).mm \ Heap.nexts old) o := by
    intro o removed m _ named
    obtain ⟨l, member, designates⟩ := target o removed
    have via := soleLink o removed l member designates
    rw [named] at via
    exact .inl (Pprev.link.inj via ▸ designates)
  have closedMid := removal.closed stage.closed inside soleLink
  have onMid : ∀ {h n}, h ≠ l2Head who.cpu fingerprint →
      s.key n ≠ (fingerprint, (s.entry entry).mm) →
      s.heap.OnChain (.head h) n → mid.OnChain (.head h) n := by
    intro h n other otherKey visited
    refine removal.onChain stage.closed sparesOld ⟨headIn other, Heap.head_not_mem_nexts⟩ ?_
      (inL2.keeps_l2 unread sole spares other otherKey visited)
    exact fun removed => otherKey (State.sameKey_iff.mp (rival n removed).1)
  have nextOutMid : .next entry ∉
      (s.kept P who fingerprint (s.entry entry).mm \ Heap.nexts old) \ Heap.nexts old' :=
    fun member => nextOut member.1.1
  obtain ⟨_, replaces⟩ := replaces_of_insertions inL2 inL3 unread sole
  have headIn' : ∀ {h}, h ≠ l2Head who.cpu fingerprint → .head h ∈
      (s.kept P who fingerprint (s.entry entry).mm \ Heap.nexts old) \ Heap.nexts old' :=
    fun other => ⟨⟨headIn other, Heap.head_not_mem_nexts⟩, Heap.head_not_mem_nexts⟩
  have others : ∀ {h n}, h ≠ l2Head who.cpu fingerprint →
      s.key n ≠ (fingerprint, (s.entry entry).mm) →
      s.heap.OnChain (.head h) n → s'.heap.OnChain (.head h) n := fun other otherKey visited =>
    (onMid other otherKey visited).pushed closedMid added nextOutMid (headIn' other)
  refine ⟨others, fun otherKey visited => ?_, .of_read replaces.head⟩
  -- behind the new entry the L2 chain goes on like the L3 chain
  rcases (others l3Head_ne_l2Head otherKey visited).cases added.read_head with rfl | rest
  · obtain ⟨l, _, designates⟩ := visited
    exact absurd designates (unread l)
  · exact .of_next replaces.head rest

variable {bytes : Nat → U8} {len : U32} {mm : U64} {kvmalloc : U64} {s₀ : State} {n : Node}

/-- What a successful store keeps on the chains. -/
theorem Insertion.keeps
    (insertion : Insertion P who fingerprint bytes len mm entry kvmalloc s s₀ s₁ s')
    (wellFormed : WellFormed s) (keeps : s.StoreKeeps P who fingerprint mm) :
    InsertionKeeps P who fingerprint mm entry s s' := by
  have allocation := insertion.toAllocation
  have spares : ∀ o ∈ s₀.rivals P who fingerprint (s₀.entry entry).mm,
      s₀.heap.Spares (s₀.kept P who fingerprint (s₀.entry entry).mm) o := by
    rw [allocation.key.2.1, allocation.rivals_eq wellFormed, allocation.kept_eq wellFormed,
      allocation.heap]
    exact keeps.spares
  have effect := insertionKeeps insertion.inL2 insertion.inL3
    (fun l => by rw [insertion.heap]; exact wellFormed.unread insertion.fresh l)
    (allocation.soleRivals wellFormed keeps.replaceable.sole) spares
  rw [allocation.key.2.1] at effect
  have sameKey : ∀ {h n}, s.heap.OnChain (.head h) n → s₀.key n = s.key n := by
    intro h n visited
    unfold State.key
    rw [allocation.entry_of_live (wellFormed.confined.onChain visited)]
  refine ⟨fun other otherKey visited => ?_, fun otherKey visited => ?_, effect.entry⟩
  · exact effect.other other (sameKey visited ▸ otherKey) (insertion.heap ▸ visited)
  · exact effect.own (sameKey visited ▸ otherKey) (insertion.heap ▸ visited)

/-- A store holds the new entry. -/
theorem Insertion.held_entry
    (insertion : Insertion P who fingerprint bytes len mm entry kvmalloc s s₀ s₁ s')
    (wellFormed : WellFormed s) (keeps : s.StoreKeeps P who fingerprint mm) :
    s'.Held P who.cpu entry := by
  have own : (s'.entry entry).fingerprint = fingerprint := by
    rw [insertion.entry_eq, insertion.key.1]
  unfold State.Held
  rw [own]
  exact .inl (insertion.keeps wellFormed keeps).entry

/-- It holds the unexpired entries of other keys that were held. -/
theorem Insertion.held
    (insertion : Insertion P who fingerprint bytes len mm entry kvmalloc s s₀ s₁ s')
    (wellFormed : WellFormed s) (keeps : s.StoreKeeps P who fingerprint mm) (inside : n ∈ s.live)
    (unexpired : s.Unexpired who.jiffies n) (otherKey : s.key n ≠ (fingerprint, mm))
    (held : s.Held P who.cpu n) : s'.Held P who.cpu n := by
  have effect := insertion.keeps wellFormed keeps
  have same : s'.entry n = s.entry n := by
    rw [insertion.entry_eq, insertion.entry_of_live inside]
  unfold State.Held at held ⊢
  rw [same]
  rcases held with onL2 | onL3
  · by_cases bucket : l2Head who.cpu (s.entry n).fingerprint = l2Head who.cpu fingerprint
    · rw [bucket] at onL2 ⊢
      rcases keeps.held n onL2 unexpired otherKey with shared | own
      · exact .inl (effect.own otherKey shared)
      · exact .inr (effect.other (by simp [l3Head, l2Head]) otherKey own)
    · exact .inl (effect.other bucket otherKey onL2)
  · exact .inr (effect.other (by simp [l3Head, l2Head]) otherKey onL3)

end Store

/-! ## Lookups -/

section Lookup

variable {P : Platform} {who : Caller} {fingerprint mm : U64} {s s' : State} {n : Node}

/-- A lookup whose promotion loses nothing holds the unexpired entries that were held. -/
theorem LookupReturns.held {events : List Event} {result : Option Node}
    (returns : LookupReturns P who fingerprint mm s result s') (run : (cache P).Run events s)
    (ends : s.Ends) (keeps : Keeps P s who (.lookupUnified fingerprint mm))
    (unexpired : s.Unexpired who.jiffies n) (held : s.Held P who.cpu n) :
    s'.Held P who.cpu n := by
  unfold State.Held at held ⊢
  rw [returns.entry]
  rcases returns.heap_cases with same | ⟨o, l, mid, _, promotes, gone, added⟩
  · rw [same]
    exact held
  obtain ⟨spares, heldBehind⟩ := keeps o promotes
  obtain ⟨colour, coloured⟩ := coloured_of_run run
  have headIn : ∀ h, .head h ∈ s.heap.Rooted := Heap.head_mem_rooted
  by_cases moved : n = o
  · -- the promoted entry is now the first of its L2 bucket
    subst moved
    have accepted := promotes.found.some.2
    simp only [State.accepts, Bool.and_eq_true, beq_iff_eq] at accepted
    rw [accepted.1.1]
    exact .inl (.of_read added.read_head)
  have absent : .next o ∉ mid.Reached {.head (l2Head who.cpu fingerprint)} := by
    intro reached
    have onMid := Heap.mem_targets_singleton.mp (Heap.mem_targets_of_next reached (by simp))
    rcases gone.onChain onMid with onL2 | behind
    · have rejected := promotes.missed.rejects onL2
      rw [promotes.found.some.2] at rejected
      cases rejected
    · exact (ends.next promotes.found.some.1).not_onChain_next behind
  have onL2 : s.heap.OnChain (.head (l2Head who.cpu fingerprint)) n →
      s'.heap.OnChain (.head (l2Head who.cpu fingerprint)) n := fun visited =>
    (visited.unlinked Heap.closed_rooted spares gone (headIn _) moved).pushed
      (Heap.closed_reached _) added absent (Heap.subset_reached _ rfl)
  have before : ∀ {h}, h ≠ l2Head who.cpu fingerprint → ¬ s.heap.OnChain (.next o) n →
      s.heap.OnChain (.head h) n → s'.heap.OnChain (.head h) n := by
    intro h other notBehind visited
    exact visited.moved_before Heap.closed_rooted spares gone added (headIn h)
      (fun same => other (Link.head.inj same)) moved notBehind
  have bucket : ∀ {h : Head}, h.hashClass P = hashClass P who.cpu (s.entry n).fingerprint →
      s.heap.OnChain (.head h) n → s.heap.OnChain (.next o) n →
      l2Head who.cpu (s.entry n).fingerprint = l2Head who.cpu fingerprint := by
    intro h place visited behind
    have one : colour n = hashClass P who.cpu (s.entry n).fingerprint :=
      (coloured.onChain visited).trans place
    have two : colour n = hashClass P who.cpu fingerprint :=
      (coloured.onChain behind).trans
        ((coloured.onChain promotes.found.some.1).trans (hashClass_l3Head ..))
    exact congrArg (Head.l2 who.cpu) (Prod.mk.inj (one.symm.trans two)).2
  by_cases behind : s.heap.OnChain (.next o) n
  · rcases held with visited | visited
    · have same := bucket (hashClass_l2Head ..) visited behind
      rw [same] at visited ⊢
      exact .inl (onL2 visited)
    · rcases heldBehind n behind visited unexpired with shared | sole
      · rw [bucket (hashClass_l3Head ..) visited behind]
        exact .inl (onL2 shared)
      · have reached := Heap.closed_rooted.reached_singleton
          (headIn (l3Head P who.cpu (s.entry n).fingerprint))
        refine .inr (visited.moved (Heap.closed_reached _) sole
          (fun m member => spares m (reached member)) gone added ?_ (Heap.subset_reached _ rfl)
          (by simp) moved)
        intro isReached
        cases Set.mem_singleton_iff.mp (Heap.head_mem_of_reached isReached)
  · rcases held with visited | visited
    · by_cases same : l2Head who.cpu (s.entry n).fingerprint = l2Head who.cpu fingerprint
      · rw [same] at visited ⊢
        exact .inl (onL2 visited)
      · exact .inl (before same behind visited)
    · exact .inr (before (by simp [l3Head, l2Head]) behind visited)

end Lookup

/-! ## Runs -/

/-- The invariant: everything that can be reached is current and can be removed, all
chains end, and an entry the map binds is held until it expires. -/
structure State.Refines (P : Platform) (cpu : Nat) (start : U64) (events : List Event)
    (s : State) : Prop where
  current : s.Current (specified start events)
  reclaims : Reclaims s
  ends : s.Ends
  held : ∀ fingerprint mm n tick, specified start events (fingerprint, mm) = some (n, tick) →
    ∀ now, (∀ event ∈ events, event.tick start ≤ (now - start).toNat) →
      (now - start).toNat < 2 ^ 63 → s.Unexpired now n → s.Held P cpu n

namespace State.Refines

variable {P : Platform} {cpu : Nat} {start : U64} {events : List Event} {s s' : State}

theorem initial : State.Refines P cpu start [] .initial where
  current := .initial
  reclaims := .initial
  ends _ := .of_none rfl
  held _ _ _ _ bound := by cases bound

theorem step (refines : s.Refines P cpu start events) (run : (cache P).Run events s)
    {event : Event} (onCpu : event.who.cpu = cpu) (walks : event.call.Walks)
    (keeps : Keeps P s event.who event.call)
    (ordered : ∀ earlier ∈ events, earlier.tick start ≤ event.tick start)
    (step : CacheStep P s event s') : s'.Refines P cpu start (events ++ [event]) := by
  have wellFormed := WellFormed.run run
  have untangled := keeps.untangled refines.ends refines.current
  refine ⟨?_, refines.reclaims.step wellFormed (keeps.soleRemovals walks) step,
    refines.ends.step wellFormed walks untangled step, ?_⟩
  · rw [specified_concat]
    exact refines.current.step wellFormed start keeps.findsCopies step
  · intro fingerprint mm n tick bound now after bounded unexpired
    subst onCpu
    rw [specified_concat] at bound
    have eventBefore : event.tick start ≤ (now - start).toNat := after event (by simp)
    rcases event.record_cases start (specified start events) fingerprint mm with
      ⟨m, stores, isBound⟩ | ⟨notStored, unchanged⟩
    · -- the entry just stored
      obtain ⟨rfl, _⟩ := Prod.mk.inj (Option.some.inj (isBound.symm.trans bound))
      obtain ⟨_, _, _, call, outcome⟩ := stores
      cases step with
      | lookup | invalidate => cases call
      | store fresh _ returns =>
          cases call
          cases outcome
          obtain ⟨error, _⟩ | ⟨_, accepted, bytes, entry, s₀, s₁, _, given, insertion⟩ :=
            returns.cases wellFormed fresh
          · exact absurd rfl error
          · obtain rfl := Option.some.inj given
            exact insertion.held_entry wellFormed (keeps accepted)
    · -- an entry bound before
      rw [unchanged] at bound
      obtain ⟨inside, key, _⟩ := specified_of_run run bound
      have same := (step.keeps wellFormed inside).2
      have unexpiredNow : s.Unexpired now n := by
        unfold State.Unexpired at unexpired ⊢
        rwa [same] at unexpired
      have unexpiredThen : s.Unexpired event.who.jiffies n :=
        unexpired_of_later run inside ordered eventBefore bounded unexpiredNow
      have held := refines.held fingerprint mm n tick bound now
        (fun earlier member => after earlier (by simp [member])) bounded unexpiredNow
      cases step with
      | invalidate => cases walks
      | lookup returns => exact returns.held run refines.ends keeps unexpiredThen held
      | store fresh _ returns =>
          rcases returns.cases wellFormed fresh with
            ⟨_, sameHeap, _⟩ | ⟨rfl, accepted, bytes, entry, s₀, s₁, rfl, rfl, insertion⟩
          · unfold State.Held at held ⊢
            rw [same, sameHeap]
            exact held
          · refine insertion.held wellFormed (keeps accepted) inside unexpiredThen ?_ held
            rintro own
            obtain ⟨rfl, rfl⟩ := Prod.mk.inj (key.symm.trans own)
            exact notStored entry ⟨_, _, _, rfl, rfl⟩

/-- In such a state the next lookup answers as the map does. -/
theorem answers (refines : s.Refines P cpu start events) (run : (cache P).Run events s)
    {who : Caller} (onCpu : who.cpu = cpu)
    (after : ∀ event ∈ events, event.tick start ≤ (who.jiffies - start).toNat)
    (bounded : (who.jiffies - start).toNat < 2 ^ 63) (fingerprint mm : U64) :
    Answers P s who fingerprint mm
      ((specified start events).get (fingerprint, mm) P.ttl (who.jiffies - start).toNat) := by
  subst onCpu
  have expires : ∀ {n tick}, specified start events (fingerprint, mm) = some (n, tick) →
      s.key n = (fingerprint, mm) ∧
        (s.Unexpired who.jiffies n ↔ (who.jiffies - start).toNat - tick < P.ttl) := by
    intro n tick bound
    obtain ⟨_, key, store, member, rfl, expiry⟩ := specified_of_run run bound
    have stored : (store.who.jiffies - start).toNat ≤ (who.jiffies - start).toNat :=
      after store member
    unfold State.Unexpired
    rw [expiry]
    exact ⟨key, unexpired_iff stored bounded⟩
  have accepts : ∀ {n}, s.accepts fingerprint mm who.jiffies n = true ↔
      s.key n = (fingerprint, mm) ∧ s.Unexpired who.jiffies n := by
    intro n
    rw [State.accepts_iff, State.sameKey_iff]
  -- what a search accepts is the bound entry
  have hit : ∀ {h n}, s.heap.Finds (s.accepts fingerprint mm who.jiffies) (.head h) (some n) →
      (specified start events).get (fingerprint, mm) P.ttl (who.jiffies - start).toNat =
        some n := by
    intro h n found
    obtain ⟨key, unexpired⟩ := accepts.mp found.some.2
    obtain ⟨tick, bound⟩ :=
      refines.current n (Heap.mem_targets_of_onChain found.some.1 ⟨_, rfl⟩)
    rw [key] at bound
    exact TtlMap.get_of_fresh bound ((expires bound).2.mp unexpired)
  have returns : ∃ s', LookupReturns P who fingerprint mm s
      ((specified start events).get (fingerprint, mm) P.ttl (who.jiffies - start).toNat) s' := by
    obtain ⟨inL2, search⟩ := (refines.ends (l2Head who.cpu fingerprint)).finds
      (s.accepts fingerprint mm who.jiffies)
    obtain ⟨inL3, searchL3⟩ := (refines.ends (l3Head P who.cpu fingerprint)).finds
      (s.accepts fingerprint mm who.jiffies)
    cases inL2 with
    | some n =>
        rw [hit search]
        exact ⟨_, .l2Hit search⟩
    | none =>
        cases inL3 with
        | some n =>
            obtain ⟨heap, removed⟩ := refines.reclaims.removable searchL3
            rw [hit searchL3]
            exact ⟨_, .l3Hit search searchL3 removed⟩
        | none =>
            -- an unexpired bound entry would be on one of the two chains
            have expired : ∀ n tick, specified start events (fingerprint, mm) = some (n, tick) →
                P.ttl ≤ (who.jiffies - start).toNat - tick := by
              intro n tick bound
              by_contra fresh
              obtain ⟨key, iff⟩ := expires bound
              have unexpired := iff.mpr (Nat.lt_of_not_le fresh)
              have accepted := accepts.mpr ⟨key, unexpired⟩
              have held := refines.held fingerprint mm n tick bound who.jiffies after bounded
                unexpired
              unfold State.Held at held
              rw [(Prod.mk.inj key).1] at held
              rcases held with onL2 | onL3
              · rw [search.rejects onL2] at accepted
                cases accepted
              · rw [searchL3.rejects onL3] at accepted
                cases accepted
            rw [TtlMap.get_eq_none expired]
            exact ⟨_, .miss search searchL3⟩
  obtain ⟨s', returns⟩ := returns
  refine ⟨⟨s', cacheStep_iff.mpr (.lookup returns)⟩, fun result s'' step => ?_⟩
  obtain ⟨_⟩ | ⟨other⟩ := cacheStep_iff.mp step
  exact other.unique returns

end State.Refines

/-- After stores and lookups on one CPU none of which loses an unexpired entry, every
lookup answers like the map the stores specify. -/
theorem answers_of_keeps {P : Platform} {events : List Event} {s : State}
    (run : ((cache P).guarded fun s event => Keeps P s event.who event.call).Run events s)
    (start : U64) (who : Caller) (fingerprint mm : U64)
    (calls : ∀ event ∈ events, event.who.cpu = who.cpu ∧ event.call.Walks)
    (timely : Timely start (events.map (fun event => event.who.jiffies) ++ [who.jiffies])) :
    Answers P s who fingerprint mm
      ((specified start events).get (fingerprint, mm) P.ttl (who.jiffies - start).toNat) := by
  obtain ⟨timelyEvents, before, bounded⟩ := timely_concat.mp timely
  have refines : s.Refines P who.cpu start events := by
    refine TransitionSystem.Run.invariant (fun events (s : State) =>
      (∀ event ∈ events, event.who.cpu = who.cpu ∧ event.call.Walks) →
      Timely start (events.map fun event => event.who.jiffies) →
      s.Refines P who.cpu start events) ?_ ?_ run calls timelyEvents
    · rintro s rfl _ _
      exact .initial
    · intro events s event s' prior ih transition calls timely
      rw [List.map_append, List.map_cons, List.map_nil] at timely
      obtain ⟨timely, ordered, _⟩ := timely_concat.mp timely
      obtain ⟨onCpu, walks⟩ := calls event (by simp)
      have earlier := ih (fun e member => calls e (by simp [member])) timely
      exact earlier.step prior.unguard onCpu walks transition.2
        (fun e member => ordered _ (List.mem_map_of_mem member))
        (cacheStep_iff.mp transition.1)
  exact refines.answers run.unguard rfl (fun e member => before _ (List.mem_map_of_mem member))
    bounded fingerprint mm

/-- Two keys with common buckets, one of them expired. -/
theorem answers_of_keeps_second :
    ∃ s, (cache .oneNode).Run [⟨.on 0 0, .storeByte 0 1 10, .stored 0⟩,
        ⟨.on 0 1, .storeByte 512 1 11, .stored 0⟩] s ∧
      Answers .oneNode s (.on 0 1000) 0 1 none ∧
      Answers .oneNode s (.on 0 1000) 512 1 (some 11) := by
  obtain ⟨s₁, before, replayed⟩ := run_of_replay .oneNode 9
    ([] ++ [⟨.on 0 0, .storeByte 0 1 10, .stored 0⟩]) (by decide +kernel)
  have live : s₁.live = [10] := observe replayed State.live (by decide +kernel)
  have key : s₁.key 10 = (0, 1) := observe replayed (fun s => s.key 10) (by decide +kernel)
  have first : s₁.heap.first (.l3 0 0) = some 10 :=
    observe replayed (fun s => s.heap.first (.l3 0 0)) (by decide +kernel)
  have later : (replay .oneNode 9 [⟨.on 0 1, .storeByte 512 1 11, .stored 0⟩] s₁).isSome = true :=
    observe replayed (fun s => (replay .oneNode 9
      [⟨.on 0 1, .storeByte 512 1 11, .stored 0⟩] s).isSome) (by decide +kernel)
  obtain ⟨s, second⟩ := Option.isSome_iff_exists.mp later
  obtain ⟨s₀, start, store⟩ := before.last
  obtain rfl : s₀ = .initial := start.of_nil
  have only : ∀ {l n}, s₁.heap.read l = some n → n = 10 := by
    intro l n designates
    have inside : n ∈ s₁.live := (WellFormed.run before).confined.read designates
    simpa [live] using inside
  have keepsFirst : Keeps .oneNode .initial (.on 0 0) (.storeByte 0 1 10) := by
    refine fun _ => ⟨State.replaceable_initial _ _ _ _, ?_, ?_⟩
    · rintro o ⟨_, ⟨l, _, designates⟩ | ⟨l, _, designates⟩⟩ <;>
        simp [State.initial] at designates
    · rintro n ⟨l, _, designates⟩
      simp [State.initial] at designates
  have noRival : ∀ {l n}, s₁.heap.read l = some n → s₁.key n ≠ (512, 1) := by
    intro l n designates
    rw [only designates, key]
    decide
  have keepsSecond : Keeps .oneNode s₁ (.on 0 1) (.storeByte 512 1 11) := by
    have none : ∀ o, o ∉ s₁.rivals .oneNode (.on 0 1) 512 1 := by
      rintro o ⟨sameKey, ⟨l, _, designates⟩ | ⟨l, _, designates⟩⟩ <;>
        exact noRival designates (State.sameKey_iff.mp sameKey)
    refine fun _ => ⟨⟨fun o rival => absurd rival (none o), ?_⟩,
      fun o rival => absurd rival (none o), ?_⟩
    · rintro n ⟨l, _, designates⟩ own
      exact absurd own (noRival designates)
    · rintro n ⟨l, _, designates⟩ _ _
      obtain rfl := only designates
      exact .inl (.of_read first)
  have answers := fun fingerprint => answers_of_keeps
    ((start.guard_nil.guard_step store keepsFirst).guard_step (step_of_replay second) keepsSecond)
    0 (.on 0 1000) fingerprint 1 (by simp [Call.Walks, Call.storeByte, Caller.on])
    (by simp [Timely, Caller.on])
  exact ⟨s, before.step (step_of_replay second), answers 0, answers 512⟩

/-- Three keys in one L2 bucket: promoting the second cuts off the first one in L3, since
the second one's `pprev` names a link of the third. -/
theorem not_refinesTtlMap : ¬ RefinesTtlMap .oneNode := by
  intro refines
  obtain ⟨s', run, _⟩ := run_of_replay .oneNode 9
    ([⟨.on 0 0, .storeByte 0 1 10, .stored 0⟩, ⟨.on 0 0, .storeByte 64 1 11, .stored 0⟩,
      ⟨.on 0 0, .storeByte 512 1 12, .stored 0⟩,
      ⟨.on 0 0, .lookupUnified 64 1, .found (some 11)⟩] ++
      [⟨.on 0 0, .lookupUnified 0 1, .found none⟩]) (by decide +kernel)
  obtain ⟨s, before, missed⟩ := run.last
  have answers := refines before 0 (.on 0 0) 0 1
    (by simp [Call.Plain, Call.storeByte, Caller.on, kcrResultSizeMax])
    (by simp [Timely, Caller.on])
  have lost := answers.only none s' missed
  exact absurd lost (by decide)

end Kcr
