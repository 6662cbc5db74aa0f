import Kcr.Cache.Reachable

/-!
# External slots

The two slot arrays of a socket and the buffers they hold. A call leaves them alone, fills
one free slot with a new buffer, or frees everything a socket holds. The table invariant
ties the arrays to the allocated buffers: each buffer is in exactly one slot, whose size
is its length.
-/

namespace Kcr

open Hlist

/-! ## What a call does to slots -/

structure SameSlots (s s' : State) : Prop where
  slots : s'.extSlots = s.extSlots
  sizes : s'.extSlotSize = s.extSlotSize
  buffers : s'.buffers = s.buffers

/-- A new buffer goes into a free slot. -/
structure FillsSlot (socket : Nat) (slot : Fin kcrExtSlots) (kvmalloc : U64) (len : U32)
    (data : Nat → U8) (s s' : State) : Prop where
  free : s.extSlots socket slot = 0#64
  got : kvmalloc ≠ 0#64
  slots : ∀ k j, s'.extSlots k j = if k = socket ∧ j = slot then kvmalloc else s.extSlots k j
  sizes : ∀ k j, s'.extSlotSize k j = if k = socket ∧ j = slot then len else s.extSlotSize k j
  buffers : ∀ a, s'.buffers a =
    if a = kvmalloc then some ((List.range len.toNat).map data) else s.buffers a

/-- The slots listed are emptied and what they held is freed. -/
structure FreesSlots (socket : Nat) (freed : List (Fin kcrExtSlots)) (s s' : State) : Prop where
  slots : ∀ k j, s'.extSlots k j = if k = socket ∧ j ∈ freed then 0#64 else s.extSlots k j
  sizes : ∀ k j, s'.extSlotSize k j =
    if k = socket ∧ j ∈ freed ∧ s.extSlots k j ≠ 0#64 then 0#32 else s.extSlotSize k j
  released : ∀ j ∈ freed, s.extSlots socket j ≠ 0#64 → s'.buffers (s.extSlots socket j) = none
  kept : ∀ a, (∀ j ∈ freed, s.extSlots socket j ≠ 0#64 → s.extSlots socket j ≠ a) →
    s'.buffers a = s.buffers a

theorem SameSlots.refl (s : State) : SameSlots s s := ⟨rfl, rfl, rfl⟩

theorem SameSlots.trans {s s' s'' : State} (one : SameSlots s s') (two : SameSlots s' s'') :
    SameSlots s s'' :=
  ⟨two.slots.trans one.slots, two.sizes.trans one.sizes, two.buffers.trans one.buffers⟩

section Effects

variable {P : Platform} {who : Caller} {fingerprint mm start stop : U64} {bytes : Nat → U8}
  {data : Option (Nat → U8)} {len : U32} {kzalloc : Option Node} {n entry : Node}
  {kvmalloc : U64} {fuel : Nat} {status : Int} {s s₀ s' : State}

theorem LookupReturns.sameSlots {result : Option Node}
    (returns : LookupReturns P who fingerprint mm s result s') : SameSlots s s' := by
  cases returns <;> exact ⟨rfl, rfl, rfl⟩

theorem ReplaceReturns.sameSlots {bucket : Head}
    (returns : ReplaceReturns bucket entry fingerprint s s') : SameSlots s s' := by
  cases returns <;> exact ⟨rfl, rfl, rfl⟩

/-- The slot the search returns is empty. -/
theorem State.freeExtSlot_empty {socket : Nat} {slot : Fin kcrExtSlots}
    (free : s.freeExtSlot socket = some slot) : s.extSlots socket slot = 0#64 := by
  simpa using List.find?_some free

/-- A search without result has seen every slot taken. -/
theorem State.freeExtSlot_none {socket : Nat} (none : s.freeExtSlot socket = none)
    (slot : Fin kcrExtSlots) : s.extSlots socket slot ≠ 0#64 := by
  have taken := List.find?_eq_none.mp none slot (List.mem_finRange slot)
  simpa using taken

theorem storeExternal_fillsSlot {slot : Fin kcrExtSlots}
    (free : s.freeExtSlot (P.socketIndex who.cpu) = some slot) (got : kvmalloc ≠ 0#64) :
    FillsSlot (P.socketIndex who.cpu) slot kvmalloc len bytes s
      (storeExternal P who entry bytes len kvmalloc s).2 := by
  simp only [storeExternal, free, if_neg got]
  refine ⟨State.freeExtSlot_empty free, got, fun k j => ?_, fun k j => ?_, fun a => ?_⟩
  · by_cases here : k = P.socketIndex who.cpu
    · by_cases same : j = slot <;> simp [here, same]
    · simp [here]
  · by_cases here : k = P.socketIndex who.cpu
    · by_cases same : j = slot <;> simp [here, same]
    · simp [here]
  · by_cases here : a = kvmalloc <;> simp [here]

/-- Preparing an external entry fills a slot of the caller's socket. -/
theorem Prepares.fillsSlot (prepared : Prepares P who fingerprint bytes len mm entry kvmalloc s s₀)
    (long : len.toNat > kcrResultSizeMax) :
    ∃ slot, FillsSlot (P.socketIndex who.cpu) slot kvmalloc len bytes s s₀ := by
  cases prepared with
  | inline short => exact absurd long (Nat.not_lt.mpr short)
  | @external slot _ free got =>
      let allocated := (s.kzalloc entry).setEntry entry (initEntry P who fingerprint mm .zeroed)
      have free' : allocated.freeExtSlot (P.socketIndex who.cpu) = some slot := free
      obtain ⟨empty, _, slots, sizes, buffers⟩ : FillsSlot (P.socketIndex who.cpu) slot kvmalloc len
        bytes allocated (storeExternal P who entry bytes len kvmalloc allocated).2 :=
          storeExternal_fillsSlot free' got
      exact ⟨slot, empty, got, slots, sizes, buffers⟩

theorem Prepares.sameSlots (prepared : Prepares P who fingerprint bytes len mm entry kvmalloc s s₀)
    (short : len.toNat ≤ kcrResultSizeMax) : SameSlots s s₀ := by
  cases prepared with
  | inline => exact ⟨rfl, rfl, rfl⟩
  | external long => exact absurd long (Nat.not_lt.mpr short)

/-- A store that succeeds with a large result fills one slot. -/
theorem StoreReturns.fillsSlot (returns :
    StoreReturns P who fingerprint (some bytes) len mm (some entry) kvmalloc s 0 s')
    (long : len.toNat > kcrResultSizeMax) :
    ∃ slot, FillsSlot (P.socketIndex who.cpu) slot kvmalloc len bytes s s' := by
  generalize zero : (0 : Int) = status at returns
  cases returns with
  | invalid | noEntry | noBuffer => exact absurd zero (by decide)
  | @stored bytes' entry' s₀ s₁ _ given _ allocated prepared inL2 inL3 =>
      obtain rfl := Option.some.inj given
      obtain rfl := Option.some.inj allocated
      obtain ⟨slot, fills⟩ := prepared.fillsSlot long
      have same := inL2.sameSlots.trans inL3.sameSlots
      refine ⟨slot, fills.free, fills.got, ?_, ?_, ?_⟩
      · rw [same.slots]
        exact fills.slots
      · rw [same.sizes]
        exact fills.sizes
      · rw [same.buffers]
        exact fills.buffers

/-- Any other store leaves the slots alone; a failed allocation writes a null pointer into
a slot that held one. -/
theorem StoreReturns.sameSlots (returns :
    StoreReturns P who fingerprint data len mm kzalloc kvmalloc s status s')
    (other : status ≠ 0 ∨ len.toNat ≤ kcrResultSizeMax) : SameSlots s s' := by
  cases returns with
  | invalid | noEntry => exact .refl s
  | @stored bytes entry s₀ s₁ _ given _ allocated prepared inL2 inL3 =>
      have short := other.resolve_left fun nonzero => nonzero rfl
      exact ((prepared.sameSlots short).trans inL2.sameSlots).trans inL3.sameSlots
  | @noBuffer bytes entry given _ allocated long failed =>
      cases free : s.freeExtSlot (P.socketIndex who.cpu) with
      | none =>
          have free' : ((s.kzalloc entry).setEntry entry
              (initEntry P who fingerprint mm .zeroed)).freeExtSlot (P.socketIndex who.cpu) =
              none := free
          simp only [storeExternal, free']
          exact ⟨rfl, rfl, rfl⟩
      | some slot =>
          have free' : ((s.kzalloc entry).setEntry entry
              (initEntry P who fingerprint mm .zeroed)).freeExtSlot (P.socketIndex who.cpu) =
              some slot := free
          have null : kvmalloc = 0#64 := failed.resolve_left (by simp [free])
          have empty := State.freeExtSlot_empty free
          simp only [storeExternal, free', null, ↓reduceIte]
          refine ⟨?_, rfl, rfl⟩
          simp only [State.kfree, State.setEntry, State.kzalloc, ← empty, Function.update_eq_self]

/-- A store leaves the slots alone, or succeeds with a large result and fills one. -/
theorem StoreReturns.slot_cases (returns :
    StoreReturns P who fingerprint data len mm kzalloc kvmalloc s status s') :
    SameSlots s s' ∨ status = 0 ∧ kcrResultSizeMax < len.toNat ∧ ∃ bytes slot,
      data = some bytes ∧ FillsSlot (P.socketIndex who.cpu) slot kvmalloc len bytes s s' := by
  by_cases other : status ≠ 0 ∨ len.toNat ≤ kcrResultSizeMax
  · exact .inl (returns.sameSlots other)
  · obtain ⟨zero, long⟩ := not_or.mp other
    obtain rfl := not_not.mp zero
    obtain ⟨given, _, allocated, _⟩ := returns.storeAccepted
    obtain ⟨bytes, rfl⟩ := Option.isSome_iff_exists.mp given
    obtain ⟨entry, rfl⟩ := Option.isSome_iff_exists.mp allocated
    obtain ⟨slot, fills⟩ := returns.fillsSlot (Nat.lt_of_not_le long)
    exact .inr ⟨rfl, Nat.lt_of_not_le long, bytes, slot, rfl, fills⟩

/-- One iteration of the slot loop. -/
theorem freesSlots_one (socket : Nat) (slot : Fin kcrExtSlots) (s : State) :
    FreesSlots socket [slot] s (freeExtSlot socket slot s) := by
  by_cases empty : s.extSlots socket slot = 0#64
  · simp only [freeExtSlot, if_pos empty]
    refine ⟨fun k j => ?_, fun k j => ?_, fun j member held => ?_, fun _ _ => rfl⟩
    · split
      · next here =>
        obtain ⟨rfl, member⟩ := here
        rw [List.mem_singleton.mp member, empty]
      · rfl
    · rw [if_neg]
      rintro ⟨rfl, member, held⟩
      exact held (List.mem_singleton.mp member ▸ empty)
    · exact absurd (List.mem_singleton.mp member ▸ empty) held
  · simp only [freeExtSlot, if_neg empty]
    refine ⟨fun k j => ?_, fun k j => ?_, fun j member held => ?_, fun a apart => ?_⟩
    · by_cases here : k = socket
      · by_cases same : j = slot <;> simp [here, same]
      · simp [here]
    · by_cases here : k = socket
      · by_cases same : j = slot <;> simp [here, same, empty]
      · simp [here]
    · simp [List.mem_singleton.mp member]
    · exact Function.update_of_ne (apart slot (by simp) empty).symm _ _

theorem FreesSlots.trans {socket : Nat} {slot : Fin kcrExtSlots} {freed : List (Fin kcrExtSlots)}
    {s'' : State} (one : FreesSlots socket [slot] s s') (rest : FreesSlots socket freed s' s'') :
    FreesSlots socket (slot :: freed) s s'' := by
  have before : ∀ {j}, s'.extSlots socket j ≠ 0#64 → s'.extSlots socket j = s.extSlots socket j := by
    intro j held
    rw [one.slots] at held ⊢
    split at held
    · exact absurd rfl held
    · next other => rw [if_neg other]
  refine ⟨fun k j => ?_, fun k j => ?_, fun j member held => ?_, fun a apart => ?_⟩
  · rw [rest.slots, one.slots]
    grind
  · rw [rest.sizes, one.sizes, one.slots]
    grind
  · by_cases later : ∃ i ∈ freed, s'.extSlots socket i = s.extSlots socket j
    · obtain ⟨i, inside, same⟩ := later
      have still := rest.released i inside (by rw [same]; exact held)
      rwa [same] at still
    · rw [rest.kept _ fun i inside _ same => later ⟨i, inside, same⟩]
      rcases List.mem_cons.mp member with rfl | inside
      · exact one.released j (by simp) held
      · -- the slot is among the rest but was emptied, so it is the first one
        by_cases first : j = slot
        · exact first ▸ one.released slot (by simp) (first ▸ held)
        · refine absurd ⟨j, inside, ?_⟩ later
          rw [one.slots, if_neg (by simp [first])]
  · rw [rest.kept, one.kept]
    · intro j member held
      exact apart j (List.mem_cons.mpr (.inl (List.mem_singleton.mp member))) held
    · intro j inside held
      rw [before held]
      exact apart j (List.mem_cons_of_mem _ inside) (before held ▸ held)

theorem freesSlots_fold (socket : Nat) (freed : List (Fin kcrExtSlots)) (s : State) :
    FreesSlots socket freed s (freed.foldl (fun s slot => freeExtSlot socket slot s) s) := by
  induction freed generalizing s with
  | nil => exact ⟨by simp, by simp, by simp, fun _ _ => rfl⟩
  | cons slot freed ih => exact (freesSlots_one socket slot s).trans (ih _)

/-- An invalidation frees all slots of the caller's socket, whoever owns them. -/
theorem invalidateRange_freesSlots
    (ran : invalidateRange P fuel who mm start stop s = .ok s') :
    FreesSlots (P.socketIndex who.cpu) (List.finRange kcrExtSlots) s s' := by
  have sweeps : ∀ {count buckets t t'}, SweepCount P who.cpu count → SameSlots s t →
      sweepBuckets fuel mm count buckets t = .ok t' → SameSlots s t' := by
    intro count buckets t t' counts same swept
    refine @sweepBuckets_rule _ _ _ _ _ (fun _ t => SameSlots s t) (fun _ _ _ t => SameSlots s t)
      _ ∅ (fun _ holds => holds) ?_ (fun holds => holds) same swept
    intro done bucket n t t' holds ran
    rcases sweepEntry_cases counts ran with ⟨_, rfl⟩ | gone
    · exact holds
    · exact holds.trans ⟨gone.extSlots, gone.extSlotSize, gone.buffers⟩
  simp only [invalidateRange, bind, Except.bind, pure, Except.pure] at ran
  split at ran
  · cases ran
  · next s₁ sweptL2 =>
    split at ran
    · cases ran
    · next s₂ sweptL3 =>
      obtain rfl := Except.ok.inj ran
      have same := sweeps .l3 (sweeps .l2 (.refl s) sweptL2) sweptL3
      obtain ⟨slots, sizes, released, kept⟩ :=
        freesSlots_fold (P.socketIndex who.cpu) (List.finRange kcrExtSlots) s₂
      rw [same.slots] at slots sizes released kept
      rw [same.sizes] at sizes
      rw [same.buffers] at kept
      exact ⟨slots, sizes, released, kept⟩

end Effects

/-- The slot effect of a step. -/
inductive SlotChange (s s' : State) : Prop where
  | same (same : SameSlots s s')
  | fills {socket slot kvmalloc len data} (fills : FillsSlot socket slot kvmalloc len data s s')
      (long : len.toNat > kcrResultSizeMax) (unused : s.buffers kvmalloc = none)
  | frees {socket} (frees : FreesSlots socket (List.finRange kcrExtSlots) s s')

theorem CacheStep.slotChange {P : Platform} {event : Event} {s s' : State}
    (step : CacheStep P s event s') : SlotChange s s' := by
  cases step with
  | lookup returns => exact .same returns.sameSlots
  | invalidate ran => exact .frees (invalidateRange_freesSlots ran)
  | store _ freshBuffer returns =>
      rcases returns.slot_cases with same | ⟨_, long, bytes, slot, _, fills⟩
      · exact .same same
      · exact .fills fills long (freshBuffer fills.got)

/-! ## The table invariant -/

/-- An empty slot has size zero; a taken one holds an allocated buffer of its size, too
large for the entry; no two slots hold the same buffer and every buffer is in a slot. -/
structure SlotTable (s : State) : Prop where
  empty : ∀ k j, s.extSlots k j = 0#64 → s.extSlotSize k j = 0#32
  held : ∀ k j, s.extSlots k j ≠ 0#64 → ∃ bytes, s.buffers (s.extSlots k j) = some bytes ∧
    (s.extSlotSize k j).toNat = bytes.length ∧ kcrResultSizeMax < bytes.length
  distinct : ∀ k j k' j', s.extSlots k j ≠ 0#64 → s.extSlots k j = s.extSlots k' j' →
    k = k' ∧ j = j'
  placed : ∀ a, s.buffers a ≠ none → a ≠ 0#64 ∧ ∃ k j, s.extSlots k j = a

namespace SlotTable

variable {s s' : State}

theorem initial : SlotTable .initial where
  empty _ _ _ := rfl
  held _ _ taken := absurd rfl taken
  distinct _ _ _ _ taken := absurd rfl taken
  placed _ allocated := absurd rfl allocated

/-- A taken slot does not hold an address that is not allocated. -/
theorem slot_ne (table : SlotTable s) {a : U64} (got : a ≠ 0#64) (unused : s.buffers a = none)
    (k : Nat) (j : Fin kcrExtSlots) : s.extSlots k j ≠ a := by
  rintro rfl
  obtain ⟨bytes, allocated, _⟩ := table.held k j got
  rw [unused] at allocated
  cases allocated

theorem same (table : SlotTable s) (same : SameSlots s s') : SlotTable s' := by
  refine ⟨?_, ?_, ?_, ?_⟩ <;> simp only [same.slots, same.sizes, same.buffers]
  · exact table.empty
  · exact table.held
  · exact table.distinct
  · exact table.placed

theorem fills (table : SlotTable s) {socket : Nat} {slot : Fin kcrExtSlots} {kvmalloc : U64}
    {len : U32} {data : Nat → U8} (fills : FillsSlot socket slot kvmalloc len data s s')
    (long : len.toNat > kcrResultSizeMax) (unused : s.buffers kvmalloc = none) :
    SlotTable s' := by
  have apart := table.slot_ne fills.got unused
  refine ⟨fun k j none => ?_, fun k j taken => ?_, fun k j k' j' taken same => ?_,
    fun a allocated => ?_⟩
  · rw [fills.slots] at none
    split at none
    · exact absurd none fills.got
    · next other => rw [fills.sizes, if_neg other, table.empty k j none]
  · rw [fills.slots] at taken ⊢
    rw [fills.sizes]
    split
    · next here =>
      rw [fills.buffers, if_pos rfl]
      exact ⟨_, rfl, by simp, by simpa using long⟩
    · next other =>
      rw [if_neg other] at taken
      rw [fills.buffers, if_neg (apart k j)]
      exact table.held k j taken
  · rw [fills.slots] at taken
    rw [fills.slots, fills.slots] at same
    split at same
    · next here =>
      split at same
      · next here' => exact ⟨here.1.trans here'.1.symm, here.2.trans here'.2.symm⟩
      · exact absurd same.symm (apart k' j')
    · next other =>
      rw [if_neg other] at taken
      split at same
      · exact absurd same (apart k j)
      · exact table.distinct k j k' j' taken same
  · rw [fills.buffers] at allocated
    split at allocated
    · next here => exact ⟨here ▸ fills.got, socket, slot, by rw [fills.slots, if_pos ⟨rfl, rfl⟩, here]⟩
    · obtain ⟨nonzero, k, j, same⟩ := table.placed a allocated
      refine ⟨nonzero, k, j, ?_⟩
      rw [fills.slots, if_neg, same]
      rintro ⟨rfl, rfl⟩
      exact nonzero (same.symm.trans fills.free)

theorem frees (table : SlotTable s) {socket : Nat}
    (frees : FreesSlots socket (List.finRange kcrExtSlots) s s') : SlotTable s' := by
  have slots : ∀ k j, s'.extSlots k j = if k = socket then 0#64 else s.extSlots k j := by
    intro k j
    simpa using frees.slots k j
  have kept : ∀ {k j}, k ≠ socket → s.extSlots k j ≠ 0#64 →
      s'.buffers (s.extSlots k j) = s.buffers (s.extSlots k j) := by
    intro k j other taken
    refine frees.kept _ fun i _ held same => other ?_
    exact (table.distinct socket i k j held same).1.symm
  refine ⟨fun k j none => ?_, fun k j taken => ?_, fun k j k' j' taken same => ?_,
    fun a allocated => ?_⟩
  · rw [frees.sizes]
    split
    · rfl
    · next unchanged =>
      apply table.empty k j
      by_contra taken
      rw [slots] at none
      split at none
      · next here => exact unchanged ⟨here, List.mem_finRange j, taken⟩
      · exact taken none
  · rw [slots] at taken ⊢
    split at taken
    · exact absurd rfl taken
    · next other =>
      rw [if_neg other, kept other taken, frees.sizes, if_neg (fun here => other here.1)]
      exact table.held k j taken
  · rw [slots] at taken
    rw [slots, slots] at same
    split at taken
    · exact absurd rfl taken
    · next other =>
      rw [if_neg other] at same
      split at same
      · exact absurd same taken
      · exact table.distinct k j k' j' taken same
  · have before : s.buffers a ≠ none := by
      intro freed
      by_cases held : ∃ j, s.extSlots socket j ≠ 0#64 ∧ s.extSlots socket j = a
      · obtain ⟨j, taken, rfl⟩ := held
        exact allocated (frees.released j (List.mem_finRange j) taken)
      · rw [frees.kept a fun j _ taken same => held ⟨j, taken, same⟩] at allocated
        exact allocated freed
    obtain ⟨nonzero, k, j, rfl⟩ := table.placed a before
    refine ⟨nonzero, k, j, ?_⟩
    rw [slots, if_neg]
    rintro rfl
    exact allocated (frees.released j (List.mem_finRange j) nonzero)

theorem step (table : SlotTable s) {P : Platform} {event : Event}
    (step : CacheStep P s event s') : SlotTable s' := by
  cases step.slotChange with
  | same same => exact table.same same
  | fills fills long unused => exact table.fills fills long unused
  | frees frees => exact table.frees frees

theorem run {P : Platform} {events : List Event} (run : (cache P).Run events s) : SlotTable s := by
  apply run.invariant (fun _ (s : State) => SlotTable s)
  · rintro s rfl
    exact .initial
  · intro events s event s' _ table transition
    exact table.step (cacheStep_iff.mp transition)

end SlotTable

end Kcr
