import Kcr.Cache.Callbacks
import Kcr.Cache.Payloads
import Kcr.Cache.Reclamation

/-!
# Owners of external slots

A slot belongs to the entry whose `ext_data` it holds. When the entry is retired nothing
but an invalidation on its socket empties the slot: the callback frees the entry alone.
An invalidation retires entries of its own socket only and empties all of its slots, so
what leaks is the slot of an entry that a store retires.
-/

namespace Kcr

open Hlist

/-- The slot holds the entry's `ext_data`, and the entry has not been retired. -/
structure State.Owns (s : State) (n : Node) (socket : Nat) (slot : Fin kcrExtSlots) : Prop where
  live : n ∈ s.live
  current : n ∉ s.retired
  pointer : (s.entry n).payload.extData = s.extSlots socket slot

/-- Every taken slot has an owner, and a store that is refused for lack of a slot finds as
many owners as there are slots. -/
structure NoLeak (P : Platform) (s : State) : Prop where
  owned : ∀ socket slot, s.extSlots socket slot ≠ 0#64 → ∃ n, s.Owns n socket slot
  refused : ∀ who fingerprint data len mm n kvmalloc t, kcrResultSizeMax < len.toNat →
    kvmalloc ≠ 0#64 →
    (cache P).Step s
      ⟨who, .storeResult fingerprint (some data) len mm (some n) kvmalloc, .stored (-enomem)⟩ t →
    ∃ owner : Fin kcrExtSlots → Node, Function.Injective owner ∧
      ∀ slot, s.Owns (owner slot) (P.socketIndex who.cpu) slot

/-- The entries a store may retire own no slot. -/
def SparesOwners (P : Platform) (s : State) (who : Caller) : Call → Prop
  | .storeResult fingerprint data len mm kzalloc kvmalloc =>
      StoreAccepted P who data len kzalloc kvmalloc s →
        ∀ o, s.Displaced P who fingerprint mm o → ∀ socket, ¬ s.Occupies socket o
  | _ => True

/-- The heads an invalidation sweeps serve its socket. -/
theorem socket_of_sweptHeads {P : Platform} {cpu : Nat} {bucket : Head}
    (member : bucket ∈ sweptHeads P cpu) : (bucket.hashClass P).1 = P.socketIndex cpu := by
  rcases List.mem_append.mp member with inL2 | inL3
  · obtain ⟨i, _, rfl⟩ := List.mem_map.mp inL2
    rfl
  · obtain ⟨i, _, rfl⟩ := List.mem_map.mp inL3
    rfl

/-- The entries an invalidation sweeps are of its socket. -/
theorem socket_of_swept {P : Platform} {cpu : Nat} {s : State} {n : Node}
    {colour : Node → HashClass} (coloured : s.heap.Coloured (Head.hashClass P) colour)
    (swept : n ∈ s.heap.Targets (s.swept P cpu)) : (colour n).1 = P.socketIndex cpu := by
  obtain ⟨l, ⟨_, ⟨bucket, member, rfl⟩, path⟩, designates⟩ := swept
  rw [coloured.read designates, coloured.leads path]
  exact socket_of_sweptHeads member

/-- The invariant: every taken slot has an owner that was stored on its socket. -/
structure Owned (P : Platform) (colour : Node → HashClass) (s : State) : Prop where
  coloured : s.heap.Coloured (Head.hashClass P) colour
  owner : ∀ socket slot, s.extSlots socket slot ≠ 0#64 →
    ∃ n, s.Owns n socket slot ∧ (colour n).1 = socket

section Step

variable {P : Platform} {s s' : State} {event : Event} {n : Node} {socket : Nat}
  {slot : Fin kcrExtSlots} {colour : Node → HashClass}

/-- The owner of a slot that stays taken is not retired. -/
theorem State.Owns.not_retired (owns : s.Owns n socket slot) (wellFormed : WellFormed s)
    (coloured : s.heap.Coloured (Head.hashClass P) colour) (place : (colour n).1 = socket)
    (spares : SparesOwners P s event.who event.call) (step : CacheStep P s event s')
    (taken : s'.extSlots socket slot ≠ 0#64)
    (same : s'.extSlots socket slot = s.extSlots socket slot) : n ∉ s'.retired := by
  intro retired
  obtain ⟨removed, appended, mayRetire⟩ := step.retires wellFormed
  rw [appended] at retired
  have now := (List.mem_append.mp retired).resolve_left owns.current
  cases step with
  | lookup => exact mayRetire n now
  | store =>
      obtain ⟨accepted, displaced⟩ := mayRetire n now
      exact spares accepted n displaced socket ⟨slot, same ▸ taken, owns.pointer.symm⟩
  | invalidate ran =>
      have here := socket_of_swept coloured (mayRetire n now).1
      -- every slot of the entry's socket has been emptied
      apply taken
      rw [(invalidateRange_freesSlots ran).slots, if_pos]
      exact ⟨place.symm.trans here, List.mem_finRange slot⟩

theorem State.Owns.step (owns : s.Owns n socket slot) (wellFormed : WellFormed s)
    (step : CacheStep P s event s') (current : n ∉ s'.retired)
    (same : s'.extSlots socket slot = s.extSlots socket slot) : s'.Owns n socket slot := by
  obtain ⟨live, entry⟩ := step.keeps wellFormed owns.live
  exact ⟨live, current, by rw [entry, same, owns.pointer]⟩

/-- A new entry owns the slot that was filled for it. -/
theorem State.Owns.stored {who : Caller} {fingerprint mm kvmalloc : U64} {bytes : Nat → U8}
    {len : U32} {s₀ s₁ : State}
    (insertion : Insertion P who fingerprint bytes len mm n kvmalloc s s₀ s₁ s')
    (wellFormed : WellFormed s) (long : kcrResultSizeMax < len.toNat)
    (fills : FillsSlot socket slot kvmalloc len bytes s s') : s'.Owns n socket slot := by
  refine ⟨insertion.live_eq ▸ List.mem_cons_self, fun retired => ?_, ?_⟩
  · obtain ⟨removed, appended, displaced⟩ := insertion.retires wellFormed
    rw [appended] at retired
    obtain earlier | now := List.mem_append.mp retired
    · exact insertion.fresh (wellFormed.retired n earlier)
    · obtain ⟨l, _, designates⟩ := (displaced n now).rooted.1
      exact wellFormed.unread insertion.fresh l designates
  · rw [insertion.entry_eq, (insertion.filled.external long).1, fills.slots, if_pos ⟨rfl, rfl⟩]

/-- A step whose store retires no owner keeps the invariant. -/
theorem Owned.step (owned : Owned P colour s) (wellFormed : WellFormed s)
    (spares : SparesOwners P s event.who event.call) (step : CacheStep P s event s') :
    ∃ colour', Owned P colour' s' := by
  obtain ⟨colour', coloured', kept, new⟩ := step.recoloured wellFormed owned.coloured
  refine ⟨colour', coloured', fun socket slot taken => ?_⟩
  have keeps : s'.extSlots socket slot = s.extSlots socket slot →
      ∃ n, s'.Owns n socket slot ∧ (colour' n).1 = socket := by
    intro same
    obtain ⟨n, owns, place⟩ := owned.owner socket slot (same ▸ taken)
    have current := owns.not_retired wellFormed owned.coloured place spares step taken same
    exact ⟨n, owns.step wellFormed step current same, kept n owns.live ▸ place⟩
  cases step with
  | lookup returns => exact keeps (by rw [returns.sameSlots.slots])
  | invalidate ran =>
      have slots := (invalidateRange_freesSlots ran).slots socket slot
      split at slots
      · exact absurd slots taken
      · exact keeps slots
  | @store who fingerprint data len mm kzalloc kvmalloc status s' fresh _ returns =>
      rcases returns.slot_cases with same | ⟨rfl, long, bytes, slot', rfl, fills⟩
      · exact keeps (by rw [same.slots])
      · obtain ⟨error, _⟩ | ⟨_, _, bytes, entry, s₀, s₁, given, rfl, insertion⟩ :=
          returns.cases wellFormed fresh
        · exact absurd rfl error
        · obtain rfl := Option.some.inj given
          by_cases here : socket = P.socketIndex who.cpu ∧ slot = slot'
          · obtain ⟨rfl, rfl⟩ := here
            refine ⟨entry, .stored insertion wellFormed long fills, ?_⟩
            rw [new fingerprint mm entry ⟨_, _, _, rfl, rfl⟩]
            rfl
          · exact keeps (by rw [fills.slots, if_neg here])

end Step

section Runs

variable {P : Platform} {events : List RcuEvent} {s : State}

/-- Distinct slots have distinct owners. -/
theorem NoLeak.of_owned {colour : Node → HashClass} (owned : Owned P colour s)
    (table : SlotTable s) : NoLeak P s := by
  refine ⟨fun socket slot taken => ?_, ?_⟩
  · obtain ⟨n, owns, _⟩ := owned.owner socket slot taken
    exact ⟨n, owns⟩
  · intro who fingerprint data len mm n kvmalloc t long got refused
    obtain ⟨_, _, returns⟩ := cacheStep_iff.mp refused
    have full : ∀ slot, s.extSlots (P.socketIndex who.cpu) slot ≠ 0#64 := by
      generalize code : (-enomem : Int) = status at returns
      cases returns with
      | invalid | stored => exact absurd code (by decide)
      | noEntry _ _ failed => cases failed
      | noBuffer _ _ _ _ failed => exact State.freeExtSlot_none (failed.resolve_right got)
    choose owner owns _ using fun slot => owned.owner _ slot (full slot)
    refine ⟨owner, fun slot slot' same => ?_, owns⟩
    have pointers : s.extSlots (P.socketIndex who.cpu) slot =
        s.extSlots (P.socketIndex who.cpu) slot' := by
      rw [← (owns slot).pointer, ← (owns slot').pointer, same]
    exact (table.distinct _ slot _ slot' (full slot) pointers).2

/-- A callback frees an entry that owns nothing. -/
theorem Owned.freed {colour : Node → HashClass} (owned : Owned P colour s) {n : Node}
    (retired : n ∈ s.retired) : Owned P colour (s.freeEntryRcu n) := by
  refine ⟨owned.coloured.clear, fun socket slot taken => ?_⟩
  obtain ⟨m, owns, place⟩ := owned.owner socket slot taken
  have other : m ≠ n := fun same => owns.current (same ▸ retired)
  refine ⟨m, ⟨(List.mem_erase_of_ne other).mpr owns.live, ?_, ?_⟩, place⟩
  · exact fun member => owns.current (List.mem_of_mem_erase member)
  · rw [State.freeEntryRcu_entry other]
    exact owns.pointer

/-- In orderly runs in which no store retires the owner of a slot, no slot leaks. -/
theorem noLeak_of_sparesOwners (run : (orderly P (SparesOwners P)).Run events s) : NoLeak P s := by
  obtain ⟨_, ⟨_, owned⟩, table⟩ := orderly_invariant
    (fun _ s => (∃ colour, Owned P colour s) ∧ SlotTable s)
    ⟨⟨fun _ => (0, 0), .empty, fun _ _ taken => absurd rfl taken⟩, .initial⟩
    (fun wellFormed ⟨⟨_, owned⟩, table⟩ spares step =>
      ⟨owned.step wellFormed spares step, table.step step⟩)
    (fun _ ⟨⟨colour, owned⟩, table⟩ retired _ =>
      ⟨⟨colour, owned.freed retired⟩, table.same ⟨rfl, rfl, rfl⟩⟩) run
  exact .of_owned owned table

end Runs

/-- An entry is replaced and freed, and a large store gets its memory. -/
theorem noLeak_of_sparesOwners_reused :
    ∃ s, (reclaiming .oneNode).Run [.call ⟨.on 0 0, .storeByte 5 1 10, .stored 0⟩,
        .call ⟨.on 0 1, .storeByte 5 1 11, .stored 0⟩, .freeEntryRcu 10,
        .call ⟨.on 0 2, .storeLarge 6 1 10 1000, .stored 0⟩] s ∧
      s.extSlots 0 0 = 1000#64 ∧ NoLeak .oneNode s := by
  obtain ⟨s₁, s₂, two⟩ := twoStores_run
  have empty : s₁.extSlots = fun _ _ => 0#64 := observe two.stored State.extSlots rfl
  have filled : (replay .oneNode 9 [⟨.on 0 2, .storeLarge 6 1 10 1000, .stored 0⟩]
      (s₂.freeEntryRcu 10)).map (fun s => s.extSlots 0 0) = some 1000#64 :=
    observe two.both (fun s => (replay .oneNode 9
      [⟨.on 0 2, .storeLarge 6 1 10 1000, .stored 0⟩] (s.freeEntryRcu 10)).map
        fun s => s.extSlots 0 0) (by decide +kernel)
  obtain ⟨s, reused, slot⟩ := Option.map_eq_some_iff.mp filled
  have first : SparesOwners .oneNode .initial (.on 0 0) (.storeByte 5 1 10) := by
    rintro _ o displaced
    obtain ⟨l, _, designates⟩ := displaced.rooted.1
    simp [State.initial] at designates
  have second : SparesOwners .oneNode s₁ (.on 0 1) (.storeByte 5 1 11) := by
    rintro _ o _ socket ⟨slot, taken, _⟩
    exact taken (by rw [empty])
  have prior : (orderly .oneNode (SparesOwners .oneNode)).Run twoStores (s₂.freeEntryRcu 10) :=
    two.run first fun _ => second
  have third : SparesOwners .oneNode (s₂.freeEntryRcu 10) (.on 0 2) (.storeLarge 6 1 10 1000) := by
    rintro _ o displaced
    obtain ⟨⟨l, _, designates⟩, sameKey⟩ := displaced.rooted
    exact absurd sameKey (two.not_sameKey (.orderly prior) designates (by decide))
  have run := orderly_call prior (step_of_replay reused) third
  exact ⟨s, run.unguard, slot, noLeak_of_sparesOwners run⟩

/-- A second large store for the same key leaves the first one's slot taken. -/
theorem not_noLeak : ¬ ∀ events s, (cache .oneNode).Run events s → NoLeak .oneNode s := by
  intro safe
  obtain ⟨s, run, replayed⟩ := run_of_replay .oneNode 9
    [⟨.on 0 0, .storeLarge 5 1 10 1000, .stored 0⟩,
      ⟨.on 0 1, .storeLarge 5 1 11 2000, .stored 0⟩] (by decide +kernel)
  have live : s.live = [11, 10] := observe replayed State.live (by decide +kernel)
  have retired : s.retired = [10] := observe replayed State.retired (by decide +kernel)
  have slot : s.extSlots 0 0 = 1000#64 :=
    observe replayed (fun s => s.extSlots 0 0) (by decide +kernel)
  have pointer : (s.entry 11).payload.extData = 2000#64 :=
    observe replayed (fun s => (s.entry 11).payload.extData) (by decide +kernel)
  obtain ⟨n, inside, current, same⟩ := (safe _ s run).owned 0 0 (by rw [slot]; decide)
  rw [live] at inside
  rw [retired] at current
  simp only [List.mem_cons, List.not_mem_nil, or_false] at inside current
  obtain rfl := inside.resolve_right current
  rw [pointer, slot] at same
  exact absurd same (by decide)

end Kcr
