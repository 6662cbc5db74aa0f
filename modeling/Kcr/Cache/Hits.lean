import Kcr.Cache.Reachable

/-!
# What a hit returns

Whatever the lists look like, an entry a lookup returns passed the acceptance test,
so it was stored under the same key and within its time to live. Whether it also
carries the bytes that were stored is decided by the last two assignments of the
inline branch, which clear the external members of the payload union.
-/

namespace Kcr

open Hlist

section Provenance

variable {P : Platform} {events : List Event} {s s' : State} {who : Caller}
  {fingerprint mm : U64} {n : Node}

/-- A lookup that hits returns an allocated entry. -/
theorem LookupReturns.mem_live (wellFormed : WellFormed s)
    (returns : LookupReturns P who fingerprint mm s (some n) s') : n ∈ s.live := by
  rcases returns.visited with onL2 | onL3
  · exact wellFormed.confined.onChain onL2
  · exact wellFormed.confined.onChain onL3

/-- A hit goes back to an earlier successful store with the same key, less than a time
to live ago, and the entry is what that store left. -/
theorem lookupUnified_provenance (run : (cache P).Run events s)
    (hit : (cache P).Step s ⟨who, .lookupUnified fingerprint mm, .found (some n)⟩ s') :
    ∃ before store after s₀, events = before ++ store :: after ∧
      (cache P).Run (before ++ [store]) s₀ ∧ store.Stores fingerprint mm n ∧
      s'.entry n = s₀.entry n ∧
      ((who.jiffies - store.who.jiffies).toNat < 2 ^ 63 →
        (who.jiffies - store.who.jiffies).toNat < (P.msecsToJiffies 1000).toNat) := by
  obtain ⟨_⟩ | ⟨returns⟩ := cacheStep_iff.mp hit
  have inside := returns.mem_live (.run run)
  have accepted := returns.accepted
  obtain ⟨before, store, after, s₀, split, reaches, same, stores, expiry⟩ := created run inside
  simp only [State.accepts, Bool.and_eq_true, beq_iff_eq] at accepted
  obtain ⟨⟨sameFingerprint, sameMm⟩, fresh⟩ := accepted
  rw [sameFingerprint, sameMm] at stores
  refine ⟨before, store, after, s₀, split, reaches, stores, ?_, fun near => ?_⟩
  · rw [returns.entry, same]
  · rw [expiry] at fresh
    have bounded : (P.msecsToJiffies 1000).toNat ≤ 2 ^ 63 := P.ttlBound.trans (by decide)
    exact (timeBefore_add near bounded).mp fresh

end Provenance

/-- A store and a hit nine ticks later. -/
theorem lookupUnified_provenance_storeByte :
    ∃ s s', (cache .oneNode).Step s ⟨.on 0 9, .lookupUnified 5 1, .found (some 10)⟩ s' ∧
      ∃ before store after s₀,
        [⟨.on 0 0, .storeByte 5 1 10, .stored 0⟩] = before ++ store :: after ∧
        (cache .oneNode).Run (before ++ [store]) s₀ ∧ store.Stores 5 1 10 ∧
        s'.entry 10 = s₀.entry 10 ∧
        (((Caller.on 0 9).jiffies - store.who.jiffies).toNat < 2 ^ 63 →
          ((Caller.on 0 9).jiffies - store.who.jiffies).toNat <
            (Platform.oneNode.msecsToJiffies 1000).toNat) := by
  obtain ⟨s', run, _⟩ := run_of_replay .oneNode 9
    ([⟨.on 0 0, .storeByte 5 1 10, .stored 0⟩] ++
      [⟨.on 0 9, .lookupUnified 5 1, .found (some 10)⟩]) (by decide +kernel)
  obtain ⟨s, before, hit⟩ := run.last
  exact ⟨s, s', hit, lookupUnified_provenance before hit⟩

/-! ## Payload -/

/-- The entry carries exactly the stored data: inline and padded with zeros, or in the
buffer at `ext_data`. -/
def State.Carries (s : State) (n : Node) (data : Nat → U8) (len : U32) : Prop :=
  if len.toNat ≤ kcrResultSizeMax then
    ∀ i, (s.entry n).payload i = if i.val < len.toNat then data i.val else 0#8
  else
    (s.entry n).payload.extSize = len ∧
      s.buffers (s.entry n).payload.extData = some ((List.range len.toNat).map data)

/-- Every stored payload comes back: the entry a successful store created carries the
data when the next lookup of its key on the same CPU returns it. -/
def PayloadRoundTrip (P : Platform) : Prop :=
  ∀ ⦃events s s₁ s₂ writer reader fingerprint data len mm n kvmalloc⦄,
    (cache P).Run events s →
    (cache P).Step s
      ⟨writer, .storeResult fingerprint (some data) len mm (some n) kvmalloc, .stored 0⟩ s₁ →
    reader.cpu = writer.cpu →
    (cache P).Step s₁ ⟨reader, .lookupUnified fingerprint mm, .found (some n)⟩ s₂ →
    s₂.Carries n data len

/-- No byte that is stored inline lies under the external members unless it is zero. -/
def SparesExtBytes (data : Nat → U8) (len : U32) : Prop :=
  ∀ i < 12, i < len.toNat → data i = 0#8

/-- Clearing `ext_data` and `ext_size` after the copy zeroes the first twelve bytes. -/
theorem storeInline_payload (data : Nat → U8) (len : U32) (i : Fin kcrResultSizeMax) :
    (storeInline data len .zeroed).payload i =
      if i.val < 12 then 0#8 else if i.val < len.toNat then data i.val else 0#8 := by
  simp only [storeInline, Payload.setExtSize, Payload.setExtData, Payload.memcpyResult,
    Entry.zeroed, BitVec.extractLsb'_zero]
  grind

theorem storeInline_carries (data : Nat → U8) (len : U32) :
    (∀ i, (storeInline data len .zeroed).payload i =
      if i.val < len.toNat then data i.val else 0#8) ↔ SparesExtBytes data len := by
  constructor
  · intro same i early stored
    have byte := same ⟨i, Nat.lt_trans early (by decide)⟩
    rw [storeInline_payload, if_pos early, if_pos stored] at byte
    exact byte.symm
  · intro spared i
    rw [storeInline_payload]
    split
    · next early =>
      split
      · next stored => exact (spared i early stored).symm
      · rfl
    · rfl

/-- The payload comes back exactly when it is external or has zeros where the inline
branch clears the external members. -/
theorem storeResult_carries {P : Platform} {events : List Event} {s s₁ s₂ : State}
    {writer reader : Caller} {fingerprint mm : U64} {data : Nat → U8} {len : U32} {n : Node}
    {kvmalloc : U64} (run : (cache P).Run events s)
    (store : (cache P).Step s
      ⟨writer, .storeResult fingerprint (some data) len mm (some n) kvmalloc, .stored 0⟩ s₁)
    (hit : (cache P).Step s₁ ⟨reader, .lookupUnified fingerprint mm, .found (some n)⟩ s₂) :
    s₂.Carries n data len ↔ len.toNat > kcrResultSizeMax ∨ SparesExtBytes data len := by
  obtain ⟨fresh, _, returns⟩ := cacheStep_iff.mp store
  obtain ⟨_⟩ | ⟨read⟩ := cacheStep_iff.mp hit
  obtain ⟨error, _⟩ | ⟨_, _, bytes, entry, s₀, mid, given, allocated, insertion⟩ :=
    returns.cases (.run run) fresh
  · exact absurd rfl error
  · obtain rfl := Option.some.inj given
    obtain rfl := Option.some.inj allocated
    have entryEq : s₂.entry = s₀.entry := read.entry.trans insertion.entry_eq
    have buffersEq : s₂.buffers = s₀.buffers :=
      read.buffers.trans (insertion.inL3.buffers_eq.trans insertion.inL2.buffers_eq)
    unfold State.Carries
    rw [entryEq, buffersEq]
    split
    · next short =>
      rw [insertion.filled.inline short, storeInline_carries]
      constructor
      · exact .inr
      · rintro (long | spared)
        · exact absurd long (Nat.not_lt.mpr short)
        · exact spared
    · next long =>
      obtain ⟨pointer, size, buffer⟩ := insertion.filled.external (Nat.lt_of_not_le long)
      rw [pointer]
      exact iff_of_true ⟨size, buffer⟩ (.inl (Nat.lt_of_not_le long))

/-- A store of 65 bytes comes back. -/
theorem storeResult_carries_storeLarge :
    ∃ s s₁ s₂, (cache .oneNode).Step s ⟨.on 0 0, .storeLarge 5 1 10 1000, .stored 0⟩ s₁ ∧
      (cache .oneNode).Step s₁ ⟨.on 0 9, .lookupUnified 5 1, .found (some 10)⟩ s₂ ∧
      s₂.Carries 10 (fun _ => 1#8) 65 := by
  obtain ⟨s₂, run, _⟩ := run_of_replay .oneNode 9
    ([] ++ [⟨.on 0 0, .storeLarge 5 1 10 1000, .stored 0⟩] ++
      [⟨.on 0 9, .lookupUnified 5 1, .found (some 10)⟩]) (by decide +kernel)
  obtain ⟨s₁, before, hit⟩ := run.last
  obtain ⟨s, start, store⟩ := before.last
  exact ⟨s, s₁, s₂, store, hit, (storeResult_carries start store hit).mpr (.inl (by decide))⟩

/-- A stored byte 1 comes back as 0. -/
theorem not_payloadRoundTrip : ¬ PayloadRoundTrip .oneNode := by
  intro roundTrip
  obtain ⟨s₂, run, replayed⟩ := run_of_replay .oneNode 9
    ([] ++ [⟨.on 0 0, .storeByte 5 1 10, .stored 0⟩] ++
      [⟨.on 0 9, .lookupUnified 5 1, .found (some 10)⟩]) (by decide +kernel)
  have lost : (s₂.entry 10).payload 0 = 0#8 :=
    observe replayed (fun s => (s.entry 10).payload 0) (by decide +kernel)
  obtain ⟨s₁, before, hit⟩ := run.last
  obtain ⟨s, start, store⟩ := before.last
  have carried : s₂.Carries 10 (fun _ => 1#8) 1 := by
    refine roundTrip start store ?_ hit
    rfl
  have byte := carried 0
  rw [lost] at byte
  exact absurd byte (by decide)

end Kcr
