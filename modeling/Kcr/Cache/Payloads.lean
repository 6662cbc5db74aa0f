import Kcr.Cache.Buckets
import Kcr.Cache.Slots
import Kcr.Cache.Sweep

/-!
# External payloads

An entry stored with a large result names a buffer, which a slot of the storing CPU's
socket owns. A store never touches a buffer in use. An invalidation frees every buffer
of its socket, also those of entries it cannot reach or that belong to other memory
spaces: such an entry stays reachable and its `ext_data` dangles.
-/

namespace Kcr

open Hlist

/-- A slot of the socket holds the entry's `ext_data`. -/
def State.Occupies (s : State) (socket : Nat) (n : Node) : Prop :=
  ∃ slot, s.extSlots socket slot ≠ 0#64 ∧ s.extSlots socket slot = (s.entry n).payload.extData

/-- The entry's `ext_data` is in a slot of its size, is not freed and holds the data. -/
structure State.Holds (P : Platform) (s : State) (n : Node) (data : Nat → U8) (len : U32) :
    Prop where
  pointer : (s.entry n).payload.extData ≠ 0#64
  size : (s.entry n).payload.extSize = len
  slot : ∃ socket < P.numSockets, ∃ slot,
    s.extSlots socket slot = (s.entry n).payload.extData ∧ s.extSlotSize socket slot = len
  buffer : s.buffers (s.entry n).payload.extData = some ((List.range len.toNat).map data)

/-- The event is a successful `store_result` of this data that created entry `n`. -/
def Event.StoresData (event : Event) (data : Nat → U8) (len : U32) (n : Node) : Prop :=
  ∃ fingerprint mm kvmalloc,
    event.call = .storeResult fingerprint (some data) len mm (some n) kvmalloc ∧
    event.outcome = .stored 0

/-- What a lookup can return, if stored with a large result, has its payload. -/
def NoDangling (P : Platform) (events : List Event) (s : State) : Prop :=
  ∀ store ∈ events, ∀ data len n, store.StoresData data len n → kcrResultSizeMax < len.toNat →
    ∀ who fingerprint mm t,
      (cache P).Step s ⟨who, .lookupUnified fingerprint mm, .found (some n)⟩ t →
      s.Holds P n data len

/-- An invalidation empties the slots of its socket, so it must remove every reachable
entry that occupies one: the entry belongs to the memory space, is reachable on swept
chains only, and the removals go through sole links. -/
def FreesOwn (P : Platform) (s : State) (who : Caller) : Call → Prop
  | .invalidateRange mm _ _ => ∀ n ∈ s.heap.Targets s.heap.Rooted,
      s.Occupies (P.socketIndex who.cpu) n →
      (s.entry n).mm = mm ∧ n ∈ s.heap.Targets (s.swept P who.cpu) ∧ s.SoleSwept P who.cpu mm
  | _ => True

theorem Event.StoresData.stores {event : Event} {data : Nat → U8} {len : U32} {n : Node}
    (stores : event.StoresData data len n) : ∃ fingerprint mm, event.Stores fingerprint mm n := by
  obtain ⟨fingerprint, mm, kvmalloc, call, outcome⟩ := stores
  exact ⟨fingerprint, mm, _, _, _, call, outcome⟩

theorem Platform.socketIndex_lt (P : Platform) (cpu : Nat) : P.socketIndex cpu < P.numSockets := by
  simp only [Platform.socketIndex]
  split
  · exact P.numSocketsPos
  · next inside => exact Nat.lt_of_not_ge inside

namespace State.Holds

variable {P : Platform} {s s' : State} {n : Node} {data : Nat → U8} {len : U32} {socket : Nat}

theorem same (holds : s.Holds P n data len) (slots : SameSlots s s')
    (entry : s'.entry n = s.entry n) : s'.Holds P n data len := by
  refine ⟨?_, ?_, ?_, ?_⟩ <;> rw [entry]
  · exact holds.pointer
  · exact holds.size
  · rw [slots.slots, slots.sizes]
    exact holds.slot
  · rw [slots.buffers]
    exact holds.buffer

/-- A new buffer goes elsewhere. -/
theorem fills (holds : s.Holds P n data len) {slot : Fin kcrExtSlots} {kvmalloc : U64}
    {size : U32} {bytes : Nat → U8} (fills : FillsSlot socket slot kvmalloc size bytes s s')
    (unused : s.buffers kvmalloc = none) (entry : s'.entry n = s.entry n) :
    s'.Holds P n data len := by
  have apart : (s.entry n).payload.extData ≠ kvmalloc := by
    intro same
    have buffer := holds.buffer
    rw [same, unused] at buffer
    cases buffer
  refine ⟨?_, ?_, ?_, ?_⟩ <;> rw [entry]
  · exact holds.pointer
  · exact holds.size
  · obtain ⟨k, bound, j, pointer, size⟩ := holds.slot
    have other : ¬ (k = socket ∧ j = slot) := by
      rintro ⟨rfl, rfl⟩
      exact holds.pointer (pointer.symm.trans fills.free)
    refine ⟨k, bound, j, ?_, ?_⟩
    · rw [fills.slots, if_neg other, pointer]
    · rw [fills.sizes, if_neg other, size]
  · rw [fills.buffers, if_neg apart]
    exact holds.buffer

/-- Freeing a socket's slots leaves the payloads in other sockets. -/
theorem frees (holds : s.Holds P n data len)
    (frees : FreesSlots socket (List.finRange kcrExtSlots) s s')
    (elsewhere : ¬ s.Occupies socket n) (entry : s'.entry n = s.entry n) :
    s'.Holds P n data len := by
  refine ⟨?_, ?_, ?_, ?_⟩ <;> rw [entry]
  · exact holds.pointer
  · exact holds.size
  · obtain ⟨k, bound, j, pointer, size⟩ := holds.slot
    have other : k ≠ socket := by
      rintro rfl
      exact elsewhere ⟨j, pointer ▸ holds.pointer, pointer⟩
    refine ⟨k, bound, j, ?_, ?_⟩
    · rw [frees.slots, if_neg fun here => other here.1, pointer]
    · rw [frees.sizes, if_neg fun here => other here.1, size]
  · rw [frees.kept _ fun j _ taken same => elsewhere ⟨j, taken, same⟩]
    exact holds.buffer

/-- The slot and buffer of a new entry. -/
theorem stored {who : Caller} {fingerprint mm kvmalloc : U64} {s₀ s₁ : State}
    (insertion : Insertion P who fingerprint data len mm n kvmalloc s s₀ s₁ s')
    (long : kcrResultSizeMax < len.toNat) {slot : Fin kcrExtSlots}
    (fills : FillsSlot (P.socketIndex who.cpu) slot kvmalloc len data s s') :
    s'.Holds P n data len := by
  obtain ⟨pointer, size, _⟩ := insertion.filled.external long
  rw [← insertion.entry_eq] at pointer size
  refine ⟨pointer ▸ fills.got, size, ?_, ?_⟩ <;> rw [pointer]
  · exact ⟨_, P.socketIndex_lt who.cpu, slot, by rw [fills.slots, if_pos ⟨rfl, rfl⟩],
      by rw [fills.sizes, if_pos ⟨rfl, rfl⟩]⟩
  · rw [fills.buffers, if_pos rfl]

end State.Holds

/-- The invariant: reachable entries that were stored with a large result have it. -/
def Backed (P : Platform) (events : List Event) (s : State) : Prop :=
  ∀ store ∈ events, ∀ data len n, store.StoresData data len n → kcrResultSizeMax < len.toNat →
    n ∈ s.heap.Targets s.heap.Rooted → s.Holds P n data len

section Runs

variable {P : Platform} {events : List Event} {s s' : State} {event : Event}

/-- An entry that stays reachable keeps its payload. -/
theorem State.Holds.step {n : Node} {data : Nat → U8} {len : U32} (holds : s.Holds P n data len)
    (wellFormed : WellFormed s) (inside : n ∈ s.live) (own : FreesOwn P s event.who event.call)
    (step : CacheStep P s event s') (rooted : n ∈ s.heap.Targets s.heap.Rooted)
    (rooted' : n ∈ s'.heap.Targets s'.heap.Rooted) : s'.Holds P n data len := by
  have entry := (step.keeps wellFormed inside).2
  cases step with
  | lookup returns => exact holds.same returns.sameSlots entry
  | store _ freshBuffer returns =>
      rcases returns.slot_cases with same | ⟨_, _, bytes, slot, _, fills⟩
      · exact holds.same same entry
      · exact holds.fills fills (freshBuffer fills.got) entry
  | @invalidate who mm _ _ _ _ ran =>
      refine holds.frees (invalidateRange_freesSlots ran) (fun occupies => ?_) entry
      obtain ⟨ownMm, covered, sole⟩ := own n rooted occupies
      exact sole.removes ownMm (fun _ => covered) ran rooted'

/-- An entry just stored with a large result has it. -/
theorem CacheStep.holds {n : Node} {data : Nat → U8} {len : U32} (step : CacheStep P s event s')
    (wellFormed : WellFormed s) (stores : event.StoresData data len n)
    (long : kcrResultSizeMax < len.toNat) : s'.Holds P n data len := by
  obtain ⟨fingerprint, mm, kvmalloc, call, outcome⟩ := stores
  cases step with
  | lookup | invalidate => cases call
  | store fresh _ returns =>
      cases call
      cases outcome
      obtain ⟨slot, fills⟩ := returns.fillsSlot long
      obtain ⟨error, _⟩ | ⟨_, _, bytes, entry, s₀, s₁, given, allocated, insertion⟩ :=
        returns.cases wellFormed fresh
      · exact absurd rfl error
      · cases given
        cases allocated
        exact .stored insertion long fills

/-- The invariant along a run whose invalidations free what they remove. -/
theorem Backed.run
    (run : ((cache P).guarded fun s event => FreesOwn P s event.who event.call).Run events s) :
    Backed P events s := by
  apply run.invariant (fun events (s : State) => Backed P events s)
  · intro s _ store member
    cases member
  · rintro events s event s' prior backed ⟨transition, own⟩ store member data len n stores long
      rooted'
    have wellFormed := WellFormed.run prior.unguard
    have step := cacheStep_iff.mp transition
    rcases List.mem_append.mp member with earlier | last
    · obtain ⟨fingerprint, mm, stored⟩ := stores.stores
      have inside := live_of_stores prior.unguard earlier stored
      have rooted := (step.targets_rooted wellFormed rooted').resolve_right (absurd inside)
      have holds := backed store earlier data len n stores long rooted
      exact holds.step wellFormed inside own step rooted rooted'
    · obtain rfl := List.mem_singleton.mp last
      exact step.holds wellFormed stores long

/-- When every invalidation removes the reachable entries whose slots it empties, lookups
return no dangling payload. -/
theorem noDangling_of_freesOwn
    (run : ((cache P).guarded fun s event => FreesOwn P s event.who event.call).Run events s) :
    NoDangling P events s := by
  intro store member data len n stores long who fingerprint mm t hit
  obtain ⟨_⟩ | ⟨returns⟩ := cacheStep_iff.mp hit
  exact Backed.run run store member data len n stores long returns.rooted

end Runs

/-- A large entry moves to CPU 1, where an entry of another memory space comes before it. The
invalidation there removes it through the one link that leads to it and frees its slot. -/
theorem noDangling_of_freesOwn_swept :
    ∃ s, (cache .oneNode).Run ([⟨.on 0 0, .storeLarge 5 1 10 1000, .stored 0⟩,
        ⟨.on 1 1, .lookupUnified 5 1, .found (some 10)⟩,
        ⟨.on 0 2, .storeByte 69 2 11, .stored 0⟩,
        ⟨.on 1 3, .lookupUnified 69 2, .found (some 11)⟩] ++
        [⟨.on 1 4, .invalidateRange 1 0 0, .invalidated⟩]) s ∧
      s.retired = [10] ∧ s.buffers 1000 = none ∧
      NoDangling .oneNode ([⟨.on 0 0, .storeLarge 5 1 10 1000, .stored 0⟩,
        ⟨.on 1 1, .lookupUnified 5 1, .found (some 10)⟩,
        ⟨.on 0 2, .storeByte 69 2 11, .stored 0⟩,
        ⟨.on 1 3, .lookupUnified 69 2, .found (some 11)⟩] ++
        [⟨.on 1 4, .invalidateRange 1 0 0, .invalidated⟩]) s := by
  obtain ⟨t, before, replayed⟩ := run_of_replay .oneNode 9
    [⟨.on 0 0, .storeLarge 5 1 10 1000, .stored 0⟩,
      ⟨.on 1 1, .lookupUnified 5 1, .found (some 10)⟩,
      ⟨.on 0 2, .storeByte 69 2 11, .stored 0⟩,
      ⟨.on 1 3, .lookupUnified 69 2, .found (some 11)⟩] (by decide +kernel)
  have wellFormed := WellFormed.run before
  have live : t.live = [11, 10] := observe replayed State.live (by decide +kernel)
  have heads : [.l2 0 5, .l2 1 5, .l3 0 5, .l3 0 69].map t.heap.first =
      [some 11, some 11, none, none] :=
    observe replayed (fun s => [.l2 0 5, .l2 1 5, .l3 0 5, .l3 0 69].map s.heap.first)
      (by decide +kernel)
  have nodes : (t.heap.next 11, t.heap.next 10, t.heap.pprev 10) =
      (some 10, none, .link (.next 11)) :=
    observe replayed (fun s => (s.heap.next 11, s.heap.next 10, s.heap.pprev 10))
      (by decide +kernel)
  have entries : ((t.entry 10).mm, (t.entry 11).mm, (t.entry 11).payload.extData) =
      (1#64, 2#64, 0#64) :=
    observe replayed (fun s => ((s.entry 10).mm, (s.entry 11).mm, (s.entry 11).payload.extData))
      (by decide +kernel)
  have swept : (replay .oneNode 9 [⟨.on 1 4, .invalidateRange 1 0 0, .invalidated⟩] t).map
      (fun s => (s.retired, s.buffers 1000)) = some ([10], none) :=
    observe replayed (fun s => (replay .oneNode 9
      [⟨.on 1 4, .invalidateRange 1 0 0, .invalidated⟩] s).map fun s => (s.retired, s.buffers 1000))
      (by decide +kernel)
  obtain ⟨s, swept, seen⟩ := Option.map_eq_some_iff.mp swept
  obtain ⟨retired, freed⟩ := Prod.mk.inj seen
  simp only [List.map_cons, List.map_nil, List.cons.injEq, and_true, Prod.mk.injEq] at heads nodes entries
  have either : ∀ {l n}, t.heap.read l = some n → n = 11 ∨ n = 10 := by
    intro l n designates
    have inside := wellFormed.confined.read designates
    simpa [live] using inside
  have owned : FreesOwn .oneNode t (.on 1 4) (.invalidateRange 1 0 0) := by
    rintro n ⟨l, _, designates⟩ ⟨slot, taken, own⟩
    obtain rfl | rfl := either designates
    · exact absurd (own.trans entries.2.2) taken
    · have onChain : t.heap.OnChain (.head (.l2 1 5)) 10 :=
        .of_next heads.2.1 (.of_read nodes.1)
      have start : .head (.l2 1 5) ∈ sweptLinks .oneNode 1 := ⟨_, by decide, rfl⟩
      refine ⟨entries.1, Heap.mem_targets_of_onChain onChain start, ?_⟩
      rintro k ⟨l, _, designates⟩ space
      obtain rfl | rfl := either designates
      · exact absurd (entries.2.1.symm.trans space) (by decide)
      · refine soleLink_of_run [.l2 0 5, .l2 1 5, .l3 0 5, .l3 0 69] before (by decide) ?_ ?_
        · simp [heads]
        · simp [live, nodes]
  have start : (cache .oneNode).Run [] .initial := .initial rfl
  have prior : ((cache .oneNode).guarded fun s event =>
      FreesOwn .oneNode s event.who event.call).Run _ t :=
    start.guard_nil.guard_steps (steps_of_replay replayed)
      (by simp [FreesOwn, Call.storeLarge, Call.storeByte])
  have run := prior.guard_step (step_of_replay swept) owned
  exact ⟨s, run.unguard, retired, freed, noDangling_of_freesOwn run⟩

/-- An invalidation for another memory space frees the buffer of an entry that lookups
still return. -/
theorem not_noDangling :
    ¬ ∀ events s, (cache .oneNode).Run events s → NoDangling .oneNode events s := by
  intro safe
  obtain ⟨t, run, replayed⟩ := run_of_replay .oneNode 9
    ([⟨.on 0 0, .storeLarge 5 1 10 1000, .stored 0⟩,
      ⟨.on 0 1, .invalidateRange 2 0 0, .invalidated⟩] ++
      [⟨.on 0 2, .lookupUnified 5 1, .found (some 10)⟩]) (by decide +kernel)
  have freed : t.buffers (t.entry 10).payload.extData = none :=
    observe replayed (fun s => s.buffers (s.entry 10).payload.extData) (by decide +kernel)
  obtain ⟨s, before, hit⟩ := run.last
  have holds := safe _ s before _ List.mem_cons_self _ 65 10 ⟨_, _, _, rfl, rfl⟩ (by decide) _ _ _ t
    hit
  obtain ⟨_⟩ | ⟨returns⟩ := cacheStep_iff.mp hit
  have buffer := holds.buffer
  rw [← returns.buffers, ← returns.entry, freed] at buffer
  cases buffer

end Kcr
