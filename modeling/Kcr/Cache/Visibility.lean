import Kcr.Cache.Buckets
import Kcr.Cache.Replacement
import Kcr.Semantics.TtlMap

/-!
# Which entry a key stands for

The successful stores of a run specify a map with a time to live. A store supersedes the
earlier entry with its key when it can find all reachable copies: every one is on the two
chains it walks, and its `pprev` names the only kept link that leads to it. Then all that
the chains lead to is current, and no lookup returns a superseded entry.
-/

namespace Kcr

open Hlist

/-! ## The map a run specifies -/

/-- Ticks are counted from the start of a run. -/
def Event.tick (start : U64) (event : Event) : Nat := (event.who.jiffies - start).toNat

/-- A successful store binds its key to the new entry. -/
def Event.record (start : U64) (event : Event) (m : TtlMap (U64 × U64) Node) :
    TtlMap (U64 × U64) Node :=
  if event.outcome = .stored 0 then
    match event.call with
    | .storeResult fingerprint _ _ mm (some entry) _ =>
        m.put (fingerprint, mm) entry (event.tick start)
    | _ => m
  else m

def specified (start : U64) (events : List Event) : TtlMap (U64 × U64) Node :=
  events.foldl (fun m event => event.record start m) .empty

theorem specified_concat (start : U64) (events : List Event) (event : Event) :
    specified start (events ++ [event]) = event.record start (specified start events) := by
  simp [specified]

/-- The key an entry was stored under. -/
def State.key (s : State) (n : Node) : U64 × U64 := ((s.entry n).fingerprint, (s.entry n).mm)

theorem State.sameKey_iff {s : State} {fingerprint mm : U64} {n : Node} :
    s.sameKey fingerprint mm n = true ↔ s.key n = (fingerprint, mm) := by
  simp [State.sameKey, State.key]

section Record

variable {start : U64} {event : Event} {m : TtlMap (U64 × U64) Node} {fingerprint mm : U64}
  {n : Node}

theorem Event.Stores.record (stores : event.Stores fingerprint mm n) :
    event.record start m = m.put (fingerprint, mm) n (event.tick start) := by
  obtain ⟨data, len, kvmalloc, call, outcome⟩ := stores
  unfold Event.record
  rw [if_pos outcome, call]

/-- An event binds a key to the entry it stores under it, or leaves the key alone. -/
theorem Event.record_cases (start : U64) (event : Event) (m : TtlMap (U64 × U64) Node)
    (fingerprint mm : U64) :
    (∃ n, event.Stores fingerprint mm n ∧
      event.record start m (fingerprint, mm) = some (n, event.tick start)) ∨
    (∀ n, ¬ event.Stores fingerprint mm n) ∧
      event.record start m (fingerprint, mm) = m (fingerprint, mm) := by
  by_cases stored : ∃ n, event.Stores fingerprint mm n
  · obtain ⟨n, stores⟩ := stored
    exact .inl ⟨n, stores, by rw [stores.record]; exact TtlMap.put_same⟩
  · refine .inr ⟨not_exists.mp stored, ?_⟩
    unfold Event.record
    split
    · next outcome =>
      cases call : event.call with
      | lookupUnified | invalidateRange => rfl
      | storeResult fingerprint' data len mm' kzalloc kvmalloc =>
          cases kzalloc with
          | none => rfl
          | some entry =>
              refine TtlMap.put_other fun same => stored ⟨entry, ?_⟩
              obtain ⟨rfl, rfl⟩ := Prod.mk.inj same
              exact ⟨data, len, kvmalloc, call, outcome⟩
    · rfl

end Record

/-- A step stores at an address that was not allocated. -/
theorem CacheStep.not_live_of_stores {P : Platform} {s s' : State} {event : Event}
    (step : CacheStep P s event s') {fingerprint mm : U64} {n : Node}
    (stores : event.Stores fingerprint mm n) : n ∉ s.live := by
  obtain ⟨data, len, kvmalloc, call, _⟩ := stores
  cases step with
  | lookup | invalidate => cases call
  | store fresh =>
      cases call
      exact fresh n rfl

/-- The entry a key is bound to is allocated, has the key, and expires a time to live
after the store that bound it. -/
theorem specified_of_run {P : Platform} {start : U64} {events : List Event} {s : State}
    (run : (cache P).Run events s) {fingerprint mm : U64} {n : Node} {tick : Nat}
    (bound : specified start events (fingerprint, mm) = some (n, tick)) :
    n ∈ s.live ∧ s.key n = (fingerprint, mm) ∧ ∃ store ∈ events, tick = store.tick start ∧
      (s.entry n).expiryJiffies = store.who.jiffies + P.msecsToJiffies 1000 := by
  refine run.invariant (fun (events : List Event) (s : State) => ∀ n tick,
    specified start events (fingerprint, mm) = some (n, tick) →
      n ∈ s.live ∧ s.key n = (fingerprint, mm) ∧ ∃ store ∈ events, tick = store.tick start ∧
        (s.entry n).expiryJiffies = store.who.jiffies + P.msecsToJiffies 1000) ?_ ?_ n tick bound
  · intro s _ n tick bound
    cases bound
  · intro events s event s' prior ih transition n tick bound
    have wellFormed := WellFormed.run prior
    have step := cacheStep_iff.mp transition
    rw [specified_concat] at bound
    rcases event.record_cases start (specified start events) fingerprint mm with
      ⟨m, stores, isBound⟩ | ⟨_, unchanged⟩
    · obtain ⟨rfl, rfl⟩ := Prod.mk.inj (Option.some.inj (isBound.symm.trans bound))
      have inside := live_of_stores (prior.step transition) (by simp) stores
      obtain ⟨again, expiry⟩ := step.allocates wellFormed (step.not_live_of_stores stores) inside
      obtain ⟨_, _, _, call, _⟩ := stores
      obtain ⟨_, _, _, call', _⟩ := again
      rw [call] at call'
      cases call'
      exact ⟨inside, rfl, event, by simp, rfl, expiry⟩
    · obtain ⟨inside, key, store, member, same, expiry⟩ := ih n tick (unchanged ▸ bound)
      obtain ⟨inside', kept⟩ := step.keeps wellFormed inside
      refine ⟨inside', ?_, store, by simp [member], same, ?_⟩
      · unfold State.key
        rw [kept]
        exact key
      · rw [kept]
        exact expiry

/-! ## Superseded entries -/

/-- The entry was stored under the key, and a later store of the same key succeeded. -/
def Superseded (events : List Event) (fingerprint mm : U64) (n : Node) : Prop :=
  ∃ before store after, events = before ++ store :: after ∧ store.Stores fingerprint mm n ∧
    ∃ later ∈ after, ∃ k, later.Stores fingerprint mm k

/-- Replacement is visible to every CPU of a socket: after complete stores and lookups on
CPUs with one socket index, no lookup on such a CPU returns a superseded entry. -/
def ReplacementVisible (P : Platform) : Prop :=
  ∀ ⦃events s s' who fingerprint mm n⦄, (cache P).Run events s →
    (∀ event ∈ events, event.call.Walks ∧
      P.socketIndex event.who.cpu = P.socketIndex who.cpu) →
    (cache P).Step s ⟨who, .lookupUnified fingerprint mm, .found (some n)⟩ s' →
    ¬ Superseded events fingerprint mm n

/-- The entry a key is bound to has not been superseded. -/
theorem not_superseded_of_specified {P : Platform} {start : U64} {events : List Event} {s : State}
    (run : (cache P).Run events s) {fingerprint mm : U64} {n : Node} {tick : Nat}
    (bound : specified start events (fingerprint, mm) = some (n, tick)) :
    ¬ Superseded events fingerprint mm n := by
  refine run.invariant (fun (events : List Event) _ => ∀ tick,
    specified start events (fingerprint, mm) = some (n, tick) →
      ¬ Superseded events fingerprint mm n) ?_ ?_ tick bound
  · intro s _ tick bound
    cases bound
  · rintro events s event s' prior ih transition tick bound
      ⟨before, store, after, split, stores, later, member, k, laterStores⟩
    rcases List.eq_nil_or_concat after with rfl | ⟨after, last, rfl⟩
    · cases member
    · rw [List.concat_eq_append, ← List.cons_append, ← List.append_assoc] at split
      obtain ⟨rfl, same⟩ := List.append_inj' split rfl
      obtain rfl : event = last := by simpa using same
      rw [specified_concat] at bound
      rcases event.record_cases start (specified start _) fingerprint mm with
        ⟨m, eventStores, isBound⟩ | ⟨notStored, unchanged⟩
      · -- the last event would have stored the entry a second time
        obtain ⟨rfl, _⟩ := Prod.mk.inj (Option.some.inj (isBound.symm.trans bound))
        have live := live_of_stores prior (by simp) stores
        exact (cacheStep_iff.mp transition).not_live_of_stores eventStores live
      · refine ih tick (unchanged ▸ bound) ⟨before, store, after, rfl, stores, later, ?_, k,
          laterStores⟩
        rw [List.concat_eq_append, List.mem_append, List.mem_singleton] at member
        exact member.resolve_right fun same => notStored k (same ▸ laterStores)

/-! ## Stores that find all copies -/

/-- Every rooted entry with the key is on a chain the store walks, designated by a sole
kept link. -/
structure State.Replaceable (P : Platform) (who : Caller) (fingerprint mm : U64) (s : State) :
    Prop where
  sole : s.SoleRivals P who fingerprint mm
  rival : ∀ n ∈ s.heap.Targets s.heap.Rooted, s.key n = (fingerprint, mm) →
    n ∈ s.rivals P who fingerprint mm

/-- The empty caches hold nothing to replace. -/
theorem State.replaceable_initial (P : Platform) (who : Caller) (fingerprint mm : U64) :
    State.initial.Replaceable P who fingerprint mm where
  sole := State.soleRivals_initial P who fingerprint mm
  rival := by
    rintro n ⟨l, _, designates⟩
    simp [State.initial] at designates

/-- A store that succeeds finds all copies of the entry it replaces. -/
def FindsCopies (P : Platform) (s : State) (who : Caller) : Call → Prop
  | .storeResult fingerprint data len mm kzalloc kvmalloc =>
      StoreAccepted P who data len kzalloc kvmalloc s → s.Replaceable P who fingerprint mm
  | _ => True

/-- The invariant: a rooted entry is the one its key is bound to. -/
def State.Current (s : State) (m : TtlMap (U64 × U64) Node) : Prop :=
  ∀ n ∈ s.heap.Targets s.heap.Rooted, ∃ tick, m (s.key n) = some (n, tick)

namespace State.Current

variable {P : Platform} {s s' : State} {m : TtlMap (U64 × U64) Node}

theorem initial : State.Current .initial m := by
  rintro n ⟨l, _, designates⟩
  simp [State.initial] at designates

/-- Two rooted entries with one key are the same. -/
theorem unique (current : s.Current m) {n k : Node} (nRooted : n ∈ s.heap.Targets s.heap.Rooted)
    (kRooted : k ∈ s.heap.Targets s.heap.Rooted) (same : s.key n = s.key k) : n = k := by
  obtain ⟨_, nBound⟩ := current n nRooted
  obtain ⟨_, kBound⟩ := current k kRooted
  rw [same, kBound] at nBound
  exact (Prod.mk.inj (Option.some.inj nBound)).1.symm

/-- Nothing becomes rooted, and entries keep their contents. -/
theorem mono (current : s.Current m) (wellFormed : WellFormed s)
    (rooted : s'.heap.Targets s'.heap.Rooted ⊆ s.heap.Targets s.heap.Rooted)
    (kept : ∀ n ∈ s.live, s'.entry n = s.entry n) : s'.Current m := by
  intro n target
  obtain ⟨l, member, designates⟩ := rooted target
  have same : s'.key n = s.key n := by
    unfold State.key
    rw [kept n (wellFormed.confined.read designates)]
  rw [same]
  exact current n ⟨l, member, designates⟩

section Store

variable {who : Caller} {fingerprint : U64} {bytes : Nat → U8} {len : U32} {mm : U64}
  {entry : Node} {kvmalloc : U64} {s₀ s₁ : State}

/-- After a store, a rooted entry is the new one or has another key. -/
theorem targets_rooted (current : s.Current m) (wellFormed : WellFormed s)
    (replaceable : s.Replaceable P who fingerprint mm)
    (insertion : Insertion P who fingerprint bytes len mm entry kvmalloc s s₀ s₁ s') {n : Node}
    (target : n ∈ s'.heap.Targets s'.heap.Rooted) :
    n = entry ∨ n ∈ s.heap.Targets s.heap.Rooted ∧ s.key n ≠ (fingerprint, mm) := by
  obtain ⟨removed, replaces⟩ := insertion.replaces wellFormed replaceable.sole
  refine (replaces.targets n target).imp id fun ⟨kept, notRemoved⟩ => ?_
  have rooted := Heap.Targets.mono State.kept_subset_rooted kept
  refine ⟨rooted, fun own => ?_⟩
  have rival := replaceable.rival n rooted own
  cases removed with
  | nil =>
      rw [replaces.complete rfl] at rival
      exact rival
  | cons o _ =>
      have oRival := replaces.rival o (by simp)
      have oOwn := State.sameKey_iff.mp oRival.1
      obtain rfl := current.unique rooted (State.rivals_subset_rooted oRival) (own.trans oOwn.symm)
      exact notRemoved (by simp)

theorem store (current : s.Current m) (wellFormed : WellFormed s)
    (replaceable : s.Replaceable P who fingerprint mm)
    (insertion : Insertion P who fingerprint bytes len mm entry kvmalloc s s₀ s₁ s')
    (tick : Nat) : s'.Current (m.put (fingerprint, mm) entry tick) := by
  intro n target
  rcases current.targets_rooted wellFormed replaceable insertion target with rfl | ⟨rooted, other⟩
  · have own : s'.key n = (fingerprint, mm) := by
      unfold State.key
      rw [insertion.entry_eq, insertion.key.1, insertion.key.2.1]
    exact ⟨tick, by rw [own, TtlMap.put_same]⟩
  · obtain ⟨l, member, designates⟩ := rooted
    have same : s'.key n = s.key n := by
      unfold State.key
      rw [insertion.entry_eq, insertion.entry_of_live (wellFormed.confined.read designates)]
    rw [same, TtlMap.put_other other]
    exact current n ⟨l, member, designates⟩

end Store

theorem step (current : s.Current m) (wellFormed : WellFormed s) {event : Event} (start : U64)
    (findsCopies : FindsCopies P s event.who event.call) (step : CacheStep P s event s') :
    s'.Current (event.record start m) := by
  cases step with
  | store fresh _ returns =>
      rcases returns.cases wellFormed fresh with
        ⟨error, sameHeap, _, _, kept⟩ | ⟨rfl, accepted, bytes, entry, s₀, s₁, rfl, rfl, insertion⟩
      · unfold Event.record
        rw [if_neg fun same => error (Outcome.stored.inj same)]
        exact current.mono wellFormed (by rw [sameHeap]) kept
      · exact current.store wellFormed (findsCopies accepted) insertion _
  | lookup returns =>
      refine current.mono wellFormed (fun n => returns.targets_rooted) fun n _ => ?_
      rw [returns.entry]
  | invalidate ran =>
      obtain ⟨closed, within⟩ := targets_of_invalidateRange ran Heap.closed_rooted
        fun h _ => Heap.head_mem_rooted h
      exact current.mono wellFormed
        ((Heap.Targets.mono (closed.rooted Heap.head_mem_rooted)).trans within)
        fun n inside => ((CacheStep.invalidate ran).keeps wellFormed inside).2

/-- Runs whose stores find all copies only lead to current entries. -/
theorem run {events : List Event} (start : U64)
    (run : ((cache P).guarded fun s event => FindsCopies P s event.who event.call).Run events s) :
    s.Current (specified start events) := by
  refine TransitionSystem.Run.invariant
    (fun events (s : State) => s.Current (specified start events) ∧ WellFormed s) ?_ ?_ run |>.1
  · rintro s rfl
    exact ⟨.initial, .initial⟩
  · rintro events s event s' _ ⟨current, wellFormed⟩ ⟨transition, findsCopies⟩
    have step := cacheStep_iff.mp transition
    rw [specified_concat]
    exact ⟨current.step wellFormed start findsCopies step, wellFormed.step step⟩

end State.Current

/-- What a lookup returns has the key asked for. -/
theorem LookupReturns.key {P : Platform} {who : Caller} {fingerprint mm : U64} {n : Node}
    {s s' : State} (returns : LookupReturns P who fingerprint mm s (some n) s') :
    s.key n = (fingerprint, mm) := by
  have accepted := returns.accepted
  simp only [State.accepts, Bool.and_eq_true, beq_iff_eq] at accepted
  rw [State.key, accepted.1.1, accepted.1.2]

/-- After a run whose stores find all copies no lookup returns a superseded entry. -/
theorem not_superseded_of_findsCopies {P : Platform} {events : List Event} {s s' : State}
    {who : Caller} {fingerprint mm : U64} {n : Node}
    (run : ((cache P).guarded fun s event => FindsCopies P s event.who event.call).Run events s)
    (hit : (cache P).Step s ⟨who, .lookupUnified fingerprint mm, .found (some n)⟩ s') :
    ¬ Superseded events fingerprint mm n := by
  obtain ⟨_⟩ | ⟨returns⟩ := cacheStep_iff.mp hit
  obtain ⟨tick, bound⟩ := State.Current.run 0#64 run n returns.rooted
  rw [returns.key] at bound
  exact not_superseded_of_specified run.unguard bound

/-- A store that replaces an entry stored on the same CPU. -/
theorem not_superseded_of_findsCopies_second :
    ∃ s s', (cache .oneNode).Run [⟨.on 0 0, .storeByte 0 1 10, .stored 0⟩,
        ⟨.on 0 1, .storeByte 0 1 11, .stored 0⟩] s ∧
      (cache .oneNode).Step s ⟨.on 1 2, .lookupUnified 0 1, .found (some 11)⟩ s' ∧
      ¬ Superseded [⟨.on 0 0, .storeByte 0 1 10, .stored 0⟩,
        ⟨.on 0 1, .storeByte 0 1 11, .stored 0⟩] 0 1 11 := by
  obtain ⟨s₁, before, replayed⟩ := run_of_replay .oneNode 9
    ([] ++ [⟨.on 0 0, .storeByte 0 1 10, .stored 0⟩]) (by decide +kernel)
  have live : s₁.live = [10] := observe replayed State.live (by decide +kernel)
  have named : s₁.heap.pprev 10 = .link (.head (.l3 0 0)) :=
    observe replayed (fun s => s.heap.pprev 10) (by decide +kernel)
  have links : [s₁.heap.first (.l3 0 0), s₁.heap.next 10] = [some 10, none] :=
    observe replayed (fun s => [s.heap.first (.l3 0 0), s.heap.next 10]) (by decide +kernel)
  have key : s₁.key 10 = (0, 1) := observe replayed (fun s => s.key 10) (by decide +kernel)
  have later : (replay .oneNode 9 [⟨.on 0 1, .storeByte 0 1 11, .stored 0⟩,
      ⟨.on 1 2, .lookupUnified 0 1, .found (some 11)⟩] s₁).isSome = true :=
    observe replayed (fun s => (replay .oneNode 9 [⟨.on 0 1, .storeByte 0 1 11, .stored 0⟩,
      ⟨.on 1 2, .lookupUnified 0 1, .found (some 11)⟩] s).isSome) (by decide +kernel)
  simp only [List.cons.injEq, and_true] at links
  obtain ⟨s', both⟩ := Option.isSome_iff_exists.mp later
  obtain ⟨s, store, rest⟩ := replay_cons both
  obtain ⟨s₀, start, first⟩ := before.last
  obtain rfl : s₀ = .initial := start.of_nil
  have only : ∀ {l n}, s₁.heap.read l = some n → n = 10 := by
    intro l n designates
    have inside : n ∈ s₁.live := (WellFormed.run before).confined.read designates
    simpa [live] using inside
  have findsFirst : FindsCopies .oneNode .initial (.on 0 0) (.storeByte 0 1 10) :=
    fun _ => State.replaceable_initial _ _ _ _
  have findsSecond : FindsCopies .oneNode s₁ (.on 0 1) (.storeByte 0 1 11) := by
    refine fun _ => ⟨?_, ?_⟩
    · rintro o ⟨_, onChain⟩
      obtain rfl : o = 10 := by
        rcases onChain with ⟨l, _, designates⟩ | ⟨l, _, designates⟩ <;> exact only designates
      refine soleLink_of_run [.l2 0 0, .l3 0 0] before (by decide) ?_ ?_
      · intro h isBucket kept _
        rcases List.mem_cons.mp isBucket with rfl | isL3
        · exact absurd kept (State.not_mem_kept _ _ _ _ fun l designates =>
            absurd (only designates) (by decide : (11 : Node) ≠ 10)).1
        · obtain rfl := List.mem_singleton.mp isL3
          exact named
      · rw [live]
        simp [links]
    · rintro n ⟨l, _, designates⟩ _
      obtain rfl := only designates
      exact ⟨State.sameKey_iff.mpr key, .inr (.of_read links.1)⟩
  exact ⟨s, s', before.step store, step_of_replay rest, not_superseded_of_findsCopies
    ((start.guard_nil.guard_step first findsFirst).guard_step store findsSecond)
    (step_of_replay rest)⟩

/-- A store on one CPU leaves the entry in another CPU's L2 bucket. -/
theorem not_replacementVisible : ¬ ReplacementVisible .oneNode := by
  intro visible
  obtain ⟨s', run, _⟩ := run_of_replay .oneNode 9
    ([⟨.on 0 0, .storeByte 0 1 10, .stored 0⟩, ⟨.on 1 1, .storeByte 0 1 11, .stored 0⟩] ++
      [⟨.on 0 2, .lookupUnified 0 1, .found (some 10)⟩]) (by decide +kernel)
  obtain ⟨s, before, hit⟩ := run.last
  refine visible before ?_ hit ?_
  · simp [Call.Walks, Call.storeByte, Platform.socketIndex, Platform.oneNode]
  · exact ⟨[], _, _, rfl, ⟨_, _, _, rfl, rfl⟩, _, List.mem_singleton_self _, 11, _, _, _, rfl, rfl⟩

end Kcr
