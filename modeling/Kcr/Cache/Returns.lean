import Kcr.Cache.System
import Kcr.Hlist.Region

/-!
# What a call that returns has done

One relation for each operation lists the ways it returns, free of fuel and of the
order of the statements. Every later proof about an operation is a case analysis
on its relation.
-/

namespace Kcr

open Hlist

/-! ## Fields an operation leaves alone -/

@[simp] theorem State.thisCpuInc_heap (P : Platform) (cpu : Nat) (cache : U64) (c : Counter)
    (s : State) : (s.thisCpuInc P cpu cache c).heap = s.heap := rfl

@[simp] theorem State.thisCpuInc_entry (P : Platform) (cpu : Nat) (cache : U64) (c : Counter)
    (s : State) : (s.thisCpuInc P cpu cache c).entry = s.entry := rfl

@[simp] theorem State.thisCpuInc_live (P : Platform) (cpu : Nat) (cache : U64) (c : Counter)
    (s : State) : (s.thisCpuInc P cpu cache c).live = s.live := rfl

@[simp] theorem State.thisCpuInc_retired (P : Platform) (cpu : Nat) (cache : U64) (c : Counter)
    (s : State) : (s.thisCpuInc P cpu cache c).retired = s.retired := rfl

@[simp] theorem State.thisCpuInc_buffers (P : Platform) (cpu : Nat) (cache : U64) (c : Counter)
    (s : State) : (s.thisCpuInc P cpu cache c).buffers = s.buffers := rfl

@[simp] theorem State.setEntry_self (s : State) (n : Node) (e : Entry) :
    (s.setEntry n e).entry n = e := by
  simp [State.setEntry]

@[simp] theorem State.setEntry_setEntry (s : State) (n : Node) (e f : Entry) :
    (s.setEntry n e).setEntry n f = s.setEntry n f := by
  simp [State.setEntry]

/-! ## Lookup -/

/-- A lookup hits in L2, hits in L3 and promotes, or misses both. -/
inductive LookupReturns (P : Platform) (who : Caller) (fingerprint mm : U64) (s : State) :
    Option Node → State → Prop where
  | l2Hit {n}
      (found : s.heap.Finds (s.accepts fingerprint mm who.jiffies)
        (.head (l2Head who.cpu fingerprint)) (some n)) :
      LookupReturns P who fingerprint mm s (some n)
        (s.thisCpuInc P who.cpu (P.thisCpuPtr who.cpu) .l2Hits)
  | l3Hit {n heap}
      (missed : s.heap.Finds (s.accepts fingerprint mm who.jiffies)
        (.head (l2Head who.cpu fingerprint)) none)
      (found : s.heap.Finds (s.accepts fingerprint mm who.jiffies)
        (.head (l3Head P who.cpu fingerprint)) (some n))
      (removed : s.heap.hlistDelRcu n = .ok heap) :
      LookupReturns P who fingerprint mm s (some n)
        ({ s with heap := heap.hlistAddHeadRcu n (l2Head who.cpu fingerprint) }.thisCpuInc P
          who.cpu (P.thisCpuPtr who.cpu) .l3Hits)
  | miss
      (missed : s.heap.Finds (s.accepts fingerprint mm who.jiffies)
        (.head (l2Head who.cpu fingerprint)) none)
      (missedL3 : s.heap.Finds (s.accepts fingerprint mm who.jiffies)
        (.head (l3Head P who.cpu fingerprint)) none) :
      LookupReturns P who fingerprint mm s none
        (s.thisCpuInc P who.cpu (P.thisCpuPtr who.cpu) .misses)

/-- A lookup promotes the entry: L2 misses and L3 hits. -/
structure State.Promotes (P : Platform) (who : Caller) (fingerprint mm : U64) (s : State)
    (n : Node) : Prop where
  missed : s.heap.Finds (s.accepts fingerprint mm who.jiffies)
    (.head (l2Head who.cpu fingerprint)) none
  found : s.heap.Finds (s.accepts fingerprint mm who.jiffies)
    (.head (l3Head P who.cpu fingerprint)) (some n)

section Lookup

variable {P : Platform} {who : Caller} {fingerprint mm : U64} {s s' : State}
  {result : Option Node}

theorem LookupReturns.of_exec {fuel : Nat}
    (ran : lookupUnified P fuel who fingerprint mm s = .ok (result, s')) :
    LookupReturns P who fingerprint mm s result s' := by
  simp only [lookupUnified, lookupL2, lookupL3, promoteToL2, bind, Except.bind, pure,
    Except.pure] at ran
  cases inL2 : s.heap.findEntry (s.accepts fingerprint mm who.jiffies) fuel
      (s.heap.first (l2Head who.cpu fingerprint)) with
  | error reason => simp [inL2] at ran
  | ok l2 =>
      cases l2 with
      | some n =>
          simp only [inL2, Except.ok.injEq, Prod.mk.injEq] at ran
          obtain ⟨rfl, rfl⟩ := ran
          exact .l2Hit ⟨fuel, inL2⟩
      | none =>
          simp only [inL2] at ran
          cases inL3 : s.heap.findEntry (s.accepts fingerprint mm who.jiffies) fuel
              (s.heap.first (l3Head P who.cpu fingerprint)) with
          | error reason => simp [inL3] at ran
          | ok l3 =>
              cases l3 with
              | none =>
                  simp only [inL3, Except.ok.injEq, Prod.mk.injEq] at ran
                  obtain ⟨rfl, rfl⟩ := ran
                  exact .miss ⟨fuel, inL2⟩ ⟨fuel, inL3⟩
              | some n =>
                  simp only [inL3] at ran
                  cases removed : s.heap.hlistDelRcu n with
                  | error reason => simp [removed] at ran
                  | ok heap =>
                      simp only [removed, Except.ok.injEq, Prod.mk.injEq] at ran
                      obtain ⟨rfl, rfl⟩ := ran
                      exact .l3Hit ⟨fuel, inL2⟩ ⟨fuel, inL3⟩ removed

/-- Every way of returning is one the code takes, with enough fuel. -/
theorem LookupReturns.exec (returns : LookupReturns P who fingerprint mm s result s') :
    ∃ fuel, lookupUnified P fuel who fingerprint mm s = .ok (result, s') := by
  cases returns with
  | l2Hit found =>
      obtain ⟨fuel, found⟩ := found
      refine ⟨fuel, ?_⟩
      rw [Heap.read_head] at found
      simp [lookupUnified, lookupL2, bind, Except.bind, pure, Except.pure, found]
  | @l3Hit n heap missed found removed =>
      obtain ⟨fuel, missed⟩ := missed
      obtain ⟨fuel', found⟩ := found
      have missed := Heap.findEntry_mono (Nat.le_max_left fuel fuel') missed
      have found := Heap.findEntry_mono (Nat.le_max_right fuel fuel') found
      refine ⟨max fuel fuel', ?_⟩
      rw [Heap.read_head] at missed found
      simp [lookupUnified, lookupL2, lookupL3, promoteToL2, bind, Except.bind, pure, Except.pure,
        missed, found, removed]
  | miss missed missedL3 =>
      obtain ⟨fuel, missed⟩ := missed
      obtain ⟨fuel', missedL3⟩ := missedL3
      have missed := Heap.findEntry_mono (Nat.le_max_left fuel fuel') missed
      have missedL3 := Heap.findEntry_mono (Nat.le_max_right fuel fuel') missedL3
      refine ⟨max fuel fuel', ?_⟩
      rw [Heap.read_head] at missed missedL3
      simp [lookupUnified, lookupL2, lookupL3, bind, Except.bind, pure, Except.pure, missed,
        missedL3]

/-- A lookup stops short only when a search does, for lack of fuel, or when its L3 hit
cannot be removed. -/
theorem lookupUnified_error {fuel : Nat} {reason : Halt}
    (failed : lookupUnified P fuel who fingerprint mm s = .error reason) :
    (∃ h, (h = l2Head who.cpu fingerprint ∨ h = l3Head P who.cpu fingerprint) ∧
      s.heap.findEntry (s.accepts fingerprint mm who.jiffies) fuel (s.heap.first h) =
        .error reason) ∨
    ∃ n, s.heap.Finds (s.accepts fingerprint mm who.jiffies)
      (.head (l3Head P who.cpu fingerprint)) (some n) ∧ s.heap.hlistDelRcu n = .error reason := by
  simp only [lookupUnified, lookupL2, lookupL3, promoteToL2, bind, Except.bind, pure,
    Except.pure] at failed
  cases inL2 : s.heap.findEntry (s.accepts fingerprint mm who.jiffies) fuel
      (s.heap.first (l2Head who.cpu fingerprint)) with
  | error other =>
      simp only [inL2, Except.error.injEq] at failed
      exact .inl ⟨_, .inl rfl, failed ▸ inL2⟩
  | ok l2 =>
      cases l2 with
      | some n => simp [inL2] at failed
      | none =>
          simp only [inL2] at failed
          cases inL3 : s.heap.findEntry (s.accepts fingerprint mm who.jiffies) fuel
              (s.heap.first (l3Head P who.cpu fingerprint)) with
          | error other =>
              simp only [inL3, Except.error.injEq] at failed
              exact .inl ⟨_, .inr rfl, failed ▸ inL3⟩
          | ok l3 =>
              cases l3 with
              | none => simp [inL3] at failed
              | some n =>
                  simp only [inL3] at failed
                  cases removed : s.heap.hlistDelRcu n with
                  | ok heap => simp [removed] at failed
                  | error other =>
                      simp only [removed, Except.error.injEq] at failed
                      exact .inr ⟨n, ⟨fuel, inL3⟩, failed ▸ removed⟩

/-- What a lookup returns is determined by the state. -/
theorem LookupReturns.unique {result' : Option Node} {s'' : State}
    (left : LookupReturns P who fingerprint mm s result s')
    (right : LookupReturns P who fingerprint mm s result' s'') : result = result' := by
  cases left with
  | l2Hit found =>
      cases right with
      | l2Hit found' => exact found.unique found'
      | l3Hit missed | miss missed => cases found.unique missed
  | l3Hit missed found =>
      cases right with
      | l2Hit found' => cases missed.unique found'
      | l3Hit _ found' => exact found.unique found'
      | miss _ missed' => exact found.unique missed'
  | miss missed missedL3 =>
      cases right with
      | l2Hit found' => cases missed.unique found'
      | l3Hit _ found' => exact missedL3.unique found'
      | miss => rfl

/-- A lookup returns the same in a state where its searches do and the entry it returns
can still be removed. -/
theorem LookupReturns.transfer {t : State}
    (returns : LookupReturns P who fingerprint mm s result s')
    (finds : ∀ h found, (h = l2Head who.cpu fingerprint ∨ h = l3Head P who.cpu fingerprint) →
      (∀ n ∈ found, result = some n) →
      s.heap.Finds (s.accepts fingerprint mm who.jiffies) (.head h) found →
      t.heap.Finds (t.accepts fingerprint mm who.jiffies) (.head h) found)
    (linked : ∀ n ∈ result, (∃ l, s.heap.pprev n = .link l) → ∃ l, t.heap.pprev n = .link l) :
    ∃ t', LookupReturns P who fingerprint mm t result t' := by
  cases returns with
  | l2Hit found => exact ⟨_, .l2Hit (finds _ _ (.inl rfl) (fun _ => id) found)⟩
  | miss missed missedL3 =>
      exact ⟨_, .miss (finds _ _ (.inl rfl) nofun missed) (finds _ _ (.inr rfl) nofun missedL3)⟩
  | @l3Hit n heap missed found removed =>
      obtain ⟨l, gone⟩ := Heap.unlinked_of_del removed
      obtain ⟨l', named⟩ := linked n rfl ⟨l, gone.named⟩
      obtain ⟨heap', removed'⟩ := Heap.del_of_link named
      exact ⟨_, .l3Hit (finds _ _ (.inl rfl) nofun missed)
        (finds _ _ (.inr rfl) (fun _ => id) found) removed'⟩

/-- A returned entry has the key asked for and has not expired. -/
theorem LookupReturns.accepted {n : Node}
    (returns : LookupReturns P who fingerprint mm s (some n) s') :
    s.accepts fingerprint mm who.jiffies n = true := by
  cases returns with
  | l2Hit found => exact found.some.2
  | l3Hit _ found _ => exact found.some.2

/-- A returned entry is on the L2 or on the L3 chain of its bucket. -/
theorem LookupReturns.visited {n : Node}
    (returns : LookupReturns P who fingerprint mm s (some n) s') :
    s.heap.OnChain (.head (l2Head who.cpu fingerprint)) n ∨
      s.heap.OnChain (.head (l3Head P who.cpu fingerprint)) n := by
  cases returns with
  | l2Hit found => exact .inl found.some.1
  | l3Hit _ found _ => exact .inr found.some.1

/-- A lookup changes the list heap and the statistics only. -/
theorem LookupReturns.entry (returns : LookupReturns P who fingerprint mm s result s') :
    s'.entry = s.entry := by
  cases returns <;> rfl

theorem LookupReturns.live (returns : LookupReturns P who fingerprint mm s result s') :
    s'.live = s.live := by
  cases returns <;> rfl

theorem LookupReturns.retired (returns : LookupReturns P who fingerprint mm s result s') :
    s'.retired = s.retired := by
  cases returns <;> rfl

theorem LookupReturns.buffers (returns : LookupReturns P who fingerprint mm s result s') :
    s'.buffers = s.buffers := by
  cases returns <;> rfl

/-- In terms of the list heap: a lookup leaves it alone, or moves the L3 hit. -/
theorem LookupReturns.heap_cases (returns : LookupReturns P who fingerprint mm s result s') :
    s'.heap = s.heap ∨ ∃ n l mid, result = some n ∧ s.Promotes P who fingerprint mm n ∧
      Heap.Unlinked s.heap n l mid ∧
      Heap.Pushed mid n (l2Head who.cpu fingerprint) s'.heap := by
  cases returns with
  | l2Hit | miss => exact .inl rfl
  | @l3Hit n heap missed found removed =>
      obtain ⟨l, gone⟩ := Heap.unlinked_of_del removed
      exact .inr ⟨n, l, heap, rfl, ⟨missed, found⟩, gone, Heap.pushed_add _ _ _⟩

end Lookup

/-! ## Store -/

/-- An insertion finds no entry with the key in the bucket, or retires the first one. -/
inductive ReplaceReturns (bucket : Head) (entry : Node) (fingerprint : U64) (s : State) :
    State → Prop where
  | inserted
      (missed : s.heap.Finds (s.sameKey fingerprint (s.entry entry).mm) (.head bucket) none) :
      ReplaceReturns bucket entry fingerprint s
        { s with heap := s.heap.hlistAddHeadRcu entry bucket }
  | replaced {old heap}
      (found : s.heap.Finds (s.sameKey fingerprint (s.entry entry).mm) (.head bucket) (some old))
      (removed : s.heap.hlistDelRcu old = .ok heap) :
      ReplaceReturns bucket entry fingerprint s
        { s with heap := heap.hlistAddHeadRcu entry bucket, retired := s.retired ++ [old] }

section Replace

variable {bucket : Head} {entry : Node} {fingerprint : U64} {s s' : State}

theorem ReplaceReturns.of_exec {fuel : Nat}
    (ran : replaceIn fuel bucket entry fingerprint s = .ok s') :
    ReplaceReturns bucket entry fingerprint s s' := by
  simp only [replaceIn, bind, Except.bind, pure, Except.pure] at ran
  cases search : s.heap.findEntry (s.sameKey fingerprint (s.entry entry).mm) fuel
      (s.heap.first bucket) with
  | error reason => simp [search] at ran
  | ok result =>
      cases result with
      | none =>
          simp only [search, Except.ok.injEq] at ran
          subst ran
          exact .inserted ⟨fuel, search⟩
      | some old =>
          simp only [search] at ran
          cases removed : s.heap.hlistDelRcu old with
          | error reason => simp [removed] at ran
          | ok heap =>
              simp only [removed, Except.ok.injEq] at ran
              subst ran
              exact .replaced ⟨fuel, search⟩ removed

/-- The insertion returns with the fuel its search needs, and with any more. -/
theorem ReplaceReturns.exec (returns : ReplaceReturns bucket entry fingerprint s s') :
    ∃ fuel, ∀ more, fuel ≤ more → replaceIn more bucket entry fingerprint s = .ok s' := by
  cases returns with
  | inserted missed =>
      obtain ⟨fuel, missed⟩ := missed
      refine ⟨fuel, fun more enough => ?_⟩
      have missed := Heap.findEntry_mono enough missed
      rw [Heap.read_head] at missed
      simp [replaceIn, bind, Except.bind, pure, Except.pure, missed]
  | replaced found removed =>
      obtain ⟨fuel, found⟩ := found
      refine ⟨fuel, fun more enough => ?_⟩
      have found := Heap.findEntry_mono enough found
      rw [Heap.read_head] at found
      simp [replaceIn, bind, Except.bind, pure, Except.pure, found, removed, State.callRcu]

/-- An insertion stops short only when its search does, for lack of fuel, or when the
entry to replace cannot be removed. -/
theorem replaceIn_error {fuel : Nat} {reason : Halt}
    (failed : replaceIn fuel bucket entry fingerprint s = .error reason) :
    s.heap.findEntry (s.sameKey fingerprint (s.entry entry).mm) fuel (s.heap.first bucket) =
      .error reason ∨
    ∃ old, s.heap.Finds (s.sameKey fingerprint (s.entry entry).mm) (.head bucket) (some old) ∧
      s.heap.hlistDelRcu old = .error reason := by
  simp only [replaceIn, bind, Except.bind, pure, Except.pure] at failed
  cases search : s.heap.findEntry (s.sameKey fingerprint (s.entry entry).mm) fuel
      (s.heap.first bucket) with
  | error other =>
      simp only [search, Except.error.injEq] at failed
      exact .inl (congrArg _ failed)
  | ok result =>
      cases result with
      | none => simp [search] at failed
      | some old =>
          simp only [search] at failed
          cases removed : s.heap.hlistDelRcu old with
          | ok heap => simp [removed] at failed
          | error other =>
              simp only [removed, Except.error.injEq] at failed
              exact .inr ⟨old, ⟨fuel, search⟩, failed ▸ removed⟩

/-- What an insertion does is determined by the state. -/
theorem ReplaceReturns.unique {s'' : State} (left : ReplaceReturns bucket entry fingerprint s s')
    (right : ReplaceReturns bucket entry fingerprint s s'') : s' = s'' := by
  cases left with
  | inserted missed =>
      cases right with
      | inserted => rfl
      | replaced found => cases missed.unique found
  | replaced found removed =>
      cases right with
      | inserted missed => cases found.unique missed
      | replaced found' removed' =>
          cases found.unique found'
          rw [removed] at removed'
          cases removed'
          rfl

theorem ReplaceReturns.entry_eq (returns : ReplaceReturns bucket entry fingerprint s s') :
    s'.entry = s.entry := by
  cases returns <;> rfl

theorem ReplaceReturns.live_eq (returns : ReplaceReturns bucket entry fingerprint s s') :
    s'.live = s.live := by
  cases returns <;> rfl

theorem ReplaceReturns.buffers_eq (returns : ReplaceReturns bucket entry fingerprint s s') :
    s'.buffers = s.buffers := by
  cases returns <;> rfl

/-- In terms of the list heap: a search, the removal of what it found, an insertion. -/
theorem ReplaceReturns.heap_cases (returns : ReplaceReturns bucket entry fingerprint s s') :
    ∃ old mid, s.heap.Finds (s.sameKey fingerprint (s.entry entry).mm) (.head bucket) old ∧
      Heap.Removal s.heap old mid ∧ Heap.Pushed mid entry bucket s'.heap ∧
      s'.retired = s.retired ++ old.toList := by
  cases returns with
  | inserted missed => exact ⟨none, s.heap, missed, .none, Heap.pushed_add _ _ _, by simp⟩
  | @replaced old heap found removed =>
      obtain ⟨l, gone⟩ := Heap.unlinked_of_del removed
      exact ⟨some old, heap, found, .some gone, Heap.pushed_add _ _ _, rfl⟩

end Replace

/-- The state in which `store_result` calls `store_in_l2`: the entry is allocated and
filled, inline or with a slot's new buffer. -/
inductive Prepares (P : Platform) (who : Caller) (fingerprint : U64) (data : Nat → U8)
    (len : U32) (mm : U64) (entry : Node) (kvmalloc : U64) (s : State) : State → Prop where
  | inline (short : len.toNat ≤ kcrResultSizeMax) :
      Prepares P who fingerprint data len mm entry kvmalloc s
        ((s.kzalloc entry).setEntry entry
          (storeInline data len (initEntry P who fingerprint mm .zeroed)))
  | external {slot} (long : len.toNat > kcrResultSizeMax)
      (free : s.freeExtSlot (P.socketIndex who.cpu) = some slot) (allocated : kvmalloc ≠ 0#64) :
      Prepares P who fingerprint data len mm entry kvmalloc s
        (storeExternal P who entry data len kvmalloc
          ((s.kzalloc entry).setEntry entry (initEntry P who fingerprint mm .zeroed))).2

/-- A store rejects its arguments, runs out of memory, or inserts a prepared entry in
both tiers. -/
inductive StoreReturns (P : Platform) (who : Caller) (fingerprint : U64)
    (data : Option (Nat → U8)) (len : U32) (mm : U64) (kzalloc : Option Node) (kvmalloc : U64)
    (s : State) : Int → State → Prop where
  | invalid (bad : data = none ∨ len = 0#32) :
      StoreReturns P who fingerprint data len mm kzalloc kvmalloc s (-einval) s
  | noEntry (given : data ≠ none) (nonempty : len ≠ 0#32) (failed : kzalloc = none) :
      StoreReturns P who fingerprint data len mm kzalloc kvmalloc s (-enomem) s
  | noBuffer {bytes entry} (given : data = some bytes) (nonempty : len ≠ 0#32)
      (allocated : kzalloc = some entry) (long : len.toNat > kcrResultSizeMax)
      (failed : s.freeExtSlot (P.socketIndex who.cpu) = none ∨ kvmalloc = 0#64) :
      StoreReturns P who fingerprint data len mm kzalloc kvmalloc s (-enomem)
        ((storeExternal P who entry bytes len kvmalloc
          ((s.kzalloc entry).setEntry entry
            (initEntry P who fingerprint mm .zeroed))).2.kfree entry)
  | stored {bytes entry s₀ s₁ s₂} (given : data = some bytes) (nonempty : len ≠ 0#32)
      (allocated : kzalloc = some entry)
      (prepared : Prepares P who fingerprint bytes len mm entry kvmalloc s s₀)
      (inL2 : ReplaceReturns (l2Head who.cpu fingerprint) entry fingerprint s₀ s₁)
      (inL3 : ReplaceReturns (l3Head P who.cpu fingerprint) entry fingerprint s₁ s₂) :
      StoreReturns P who fingerprint data len mm kzalloc kvmalloc s 0 s₂

section Store

variable {P : Platform} {who : Caller} {fingerprint : U64} {data : Option (Nat → U8)}
  {bytes : Nat → U8} {len : U32} {mm : U64} {kzalloc : Option Node} {entry : Node}
  {kvmalloc : U64} {s s' : State} {status : Int}

/-- What the large-data branch leaves in the entry's `ext_data`. -/
theorem storeExternal_extData (zero : (s.entry entry).payload.extData = 0#64) :
    ((storeExternal P who entry bytes len kvmalloc s).2.entry entry).payload.extData = 0#64 ↔
      s.freeExtSlot (P.socketIndex who.cpu) = none ∨ kvmalloc = 0#64 := by
  cases slot : s.freeExtSlot (P.socketIndex who.cpu) with
  | none => simpa [storeExternal, slot] using zero
  | some slot' =>
      by_cases failed : kvmalloc = 0#64
      · simpa [storeExternal, slot, failed] using zero
      · simp [storeExternal, slot, failed]

theorem storeExternal_slot :
    (storeExternal P who entry bytes len kvmalloc s).1 =
      s.freeExtSlot (P.socketIndex who.cpu) := by
  cases slot : s.freeExtSlot (P.socketIndex who.cpu) with
  | none => simp [storeExternal, slot]
  | some slot' =>
      by_cases failed : kvmalloc = 0#64 <;> simp [storeExternal, slot, failed]

/-- The large-data branch touches slots, buffers and the new entry only. -/
theorem storeExternal_lists :
    (storeExternal P who entry bytes len kvmalloc s).2.heap = s.heap ∧
      (storeExternal P who entry bytes len kvmalloc s).2.live = s.live ∧
      (storeExternal P who entry bytes len kvmalloc s).2.retired = s.retired ∧
      ∀ n, n ≠ entry →
        (storeExternal P who entry bytes len kvmalloc s).2.entry n = s.entry n := by
  cases slot : s.freeExtSlot (P.socketIndex who.cpu) with
  | none => simp [storeExternal, slot]
  | some slot' =>
      by_cases failed : kvmalloc = 0#64
      · simp [storeExternal, slot, failed]
      · simp +contextual [storeExternal, slot, failed]

theorem storeExternal_filled {slot : Fin kcrExtSlots}
    (free : s.freeExtSlot (P.socketIndex who.cpu) = some slot) (got : kvmalloc ≠ 0#64) :
    (storeExternal P who entry bytes len kvmalloc s).2.entry entry =
        { s.entry entry with
          payload := ((s.entry entry).payload.setExtData kvmalloc).setExtSize len } ∧
      (storeExternal P who entry bytes len kvmalloc s).2.buffers kvmalloc =
        some ((List.range len.toNat).map bytes) := by
  simp [storeExternal, free, got]

/-- The call gets as far as inserting: its arguments are valid and the allocations
it asks for succeed. -/
def StoreAccepted (P : Platform) (who : Caller) (data : Option (Nat → U8)) (len : U32)
    (kzalloc : Option Node) (kvmalloc : U64) (s : State) : Prop :=
  data.isSome = true ∧ len ≠ 0#32 ∧ kzalloc.isSome = true ∧
    (len.toNat ≤ kcrResultSizeMax ∨
      (s.freeExtSlot (P.socketIndex who.cpu)).isSome = true ∧ kvmalloc ≠ 0#64)

theorem StoreReturns.storeAccepted (returns :
    StoreReturns P who fingerprint data len mm kzalloc kvmalloc s 0 s') :
    StoreAccepted P who data len kzalloc kvmalloc s := by
  generalize zero : (0 : Int) = status at returns
  cases returns with
  | invalid | noEntry | noBuffer => exact absurd zero (by decide)
  | stored given nonempty allocated prepared _ _ =>
      subst given allocated
      refine ⟨rfl, nonempty, rfl, ?_⟩
      cases prepared with
      | inline short => exact .inl short
      | external _ free got => exact .inr ⟨by rw [free]; rfl, got⟩

theorem insertions_ok {fuel : Nat} {s₀ : State}
    (ran : insertions P fuel who entry fingerprint s₀ = .ok (status, s')) :
    status = 0 ∧ ∃ s₁, ReplaceReturns (l2Head who.cpu fingerprint) entry fingerprint s₀ s₁ ∧
      ReplaceReturns (l3Head P who.cpu fingerprint) entry fingerprint s₁ s' := by
  simp only [insertions, bind, Except.bind, pure, Except.pure] at ran
  cases inL2 : storeInL2 fuel who entry fingerprint s₀ with
  | error reason => simp [inL2] at ran
  | ok s₁ =>
      rw [inL2] at ran
      cases inL3 : storeInL3 P fuel who entry fingerprint s₁ with
      | error reason => simp [inL3] at ran
      | ok s₂ =>
          simp only [inL3, Except.ok.injEq, Prod.mk.injEq] at ran
          obtain ⟨rfl, rfl⟩ := ran
          exact ⟨rfl, s₁, .of_exec inL2, .of_exec inL3⟩

theorem insertions_error {fuel : Nat} {s₀ : State} {reason : Halt}
    (failed : insertions P fuel who entry fingerprint s₀ = .error reason) :
    replaceIn fuel (l2Head who.cpu fingerprint) entry fingerprint s₀ = .error reason ∨
      ∃ s₁, ReplaceReturns (l2Head who.cpu fingerprint) entry fingerprint s₀ s₁ ∧
        replaceIn fuel (l3Head P who.cpu fingerprint) entry fingerprint s₁ = .error reason := by
  simp only [insertions, bind, Except.bind, pure, Except.pure] at failed
  cases inL2 : storeInL2 fuel who entry fingerprint s₀ with
  | error other =>
      simp only [inL2, Except.error.injEq] at failed
      exact .inl (failed ▸ inL2)
  | ok s₁ =>
      rw [inL2] at failed
      cases inL3 : storeInL3 P fuel who entry fingerprint s₁ with
      | ok s₂ => simp [inL3] at failed
      | error other =>
          simp only [inL3, Except.error.injEq] at failed
          exact .inr ⟨s₁, .of_exec inL2, failed ▸ inL3⟩

/-- A store returns an error at once, or has an entry to insert. -/
theorem prepareResult_cases (P : Platform) (who : Caller) (fingerprint : U64)
    (data : Option (Nat → U8)) (len : U32) (mm : U64) (kzalloc : Option Node) (kvmalloc : U64)
    (s : State) :
    (∃ status s', status ≠ 0 ∧
      StoreReturns P who fingerprint data len mm kzalloc kvmalloc s status s' ∧
      prepareResult P who fingerprint data len mm kzalloc kvmalloc s = (.error status, s')) ∨
    (StoreAccepted P who data len kzalloc kvmalloc s ∧
      ∃ bytes entry s₀, data = some bytes ∧ kzalloc = some entry ∧
        Prepares P who fingerprint bytes len mm entry kvmalloc s s₀ ∧
        prepareResult P who fingerprint data len mm kzalloc kvmalloc s = (.ok entry, s₀)) := by
  cases data with
  | none => exact .inl ⟨_, s, by decide, .invalid (.inl rfl), rfl⟩
  | some bytes =>
      by_cases empty : len = 0#32
      · subst empty
        exact .inl ⟨_, s, by decide, .invalid (.inr rfl), rfl⟩
      · cases kzalloc with
        | none =>
            refine .inl ⟨_, s, by decide, .noEntry nofun empty rfl, ?_⟩
            simp [prepareResult, empty]
        | some entry =>
            have kzeroed : (s.kzalloc entry).entry entry = .zeroed := by simp [State.kzalloc]
            by_cases long : len.toNat > kcrResultSizeMax
            · have zero : (((s.kzalloc entry).setEntry entry
                  (initEntry P who fingerprint mm .zeroed)).entry entry).payload.extData =
                  0#64 := by
                simp [State.setEntry, initEntry, Entry.zeroed]
              by_cases failed : s.freeExtSlot (P.socketIndex who.cpu) = none ∨ kvmalloc = 0#64
              · refine .inl ⟨_, _, by decide, .noBuffer rfl empty rfl long failed, ?_⟩
                simp only [prepareResult, empty, ↓reduceIte, kzeroed, long]
                rw [if_pos (by rw [storeExternal_slot, storeExternal_extData zero]; exact .inr failed)]
              · obtain ⟨hasSlot, got⟩ := not_or.mp failed
                obtain ⟨slot, free⟩ := Option.ne_none_iff_exists'.mp hasSlot
                refine .inr ⟨⟨rfl, empty, rfl, .inr ⟨by rw [free]; rfl, got⟩⟩, bytes, entry, _, rfl,
                  rfl, .external long free got, ?_⟩
                simp only [prepareResult, empty, ↓reduceIte, kzeroed, long]
                rw [if_neg (by
                  rw [storeExternal_slot, storeExternal_extData zero]
                  exact fun either => failed (either.elim .inl id))]
            · have short := Nat.le_of_not_lt long
              refine .inr ⟨⟨rfl, empty, rfl, .inl short⟩, bytes, entry, _, rfl, rfl, .inline short, ?_⟩
              simp only [prepareResult, empty, ↓reduceIte, kzeroed, long, State.setEntry_self,
                State.setEntry_setEntry]

theorem storeResult_cases (P : Platform) (who : Caller) (fingerprint : U64)
    (data : Option (Nat → U8)) (len : U32) (mm : U64) (kzalloc : Option Node) (kvmalloc : U64)
    (s : State) :
    (∃ status s', status ≠ 0 ∧
      StoreReturns P who fingerprint data len mm kzalloc kvmalloc s status s' ∧
      ∀ fuel, storeResult P fuel who fingerprint data len mm kzalloc kvmalloc s =
        .ok (status, s')) ∨
    (StoreAccepted P who data len kzalloc kvmalloc s ∧
      ∃ bytes entry s₀, data = some bytes ∧ kzalloc = some entry ∧
        Prepares P who fingerprint bytes len mm entry kvmalloc s s₀ ∧
        ∀ fuel, storeResult P fuel who fingerprint data len mm kzalloc kvmalloc s =
          insertions P fuel who entry fingerprint s₀) := by
  rcases prepareResult_cases P who fingerprint data len mm kzalloc kvmalloc s with
    ⟨status, s', error, returns, same⟩ | ⟨accepted, bytes, entry, s₀, given, got, prepared, same⟩
  · exact .inl ⟨status, s', error, returns, fun fuel => by rw [storeResult_eq, same]⟩
  · exact .inr ⟨accepted, bytes, entry, s₀, given, got, prepared,
      fun fuel => by rw [storeResult_eq, same]⟩

theorem StoreReturns.of_exec {fuel : Nat}
    (ran : storeResult P fuel who fingerprint data len mm kzalloc kvmalloc s = .ok (status, s')) :
    StoreReturns P who fingerprint data len mm kzalloc kvmalloc s status s' := by
  obtain ⟨status', t, _, returns, same⟩ | ⟨accepted, bytes, entry, s₀, given, got, prepared, same⟩ :=
    storeResult_cases P who fingerprint data len mm kzalloc kvmalloc s
  · rw [same] at ran
    obtain ⟨rfl, rfl⟩ := Prod.mk.inj (Except.ok.inj ran)
    exact returns
  · rw [same] at ran
    obtain ⟨rfl, s₁, inL2, inL3⟩ := insertions_ok ran
    exact .stored given accepted.2.1 got prepared inL2 inL3

/-- Every way of returning is one the code takes, with enough fuel. -/
theorem StoreReturns.exec
    (returns : StoreReturns P who fingerprint data len mm kzalloc kvmalloc s status s') :
    ∃ fuel, storeResult P fuel who fingerprint data len mm kzalloc kvmalloc s =
      .ok (status, s') := by
  have kzeroed : ∀ entry, (s.kzalloc entry).entry entry = .zeroed := by simp [State.kzalloc]
  have zero : ∀ entry, (((s.kzalloc entry).setEntry entry
      (initEntry P who fingerprint mm .zeroed)).entry entry).payload.extData = 0#64 := by
    simp [initEntry, Entry.zeroed]
  cases returns with
  | invalid bad =>
      refine ⟨0, ?_⟩
      cases data with
      | none => rfl
      | some bytes =>
          obtain rfl : len = 0#32 := by simpa using bad
          rfl
  | noEntry given nonempty failed =>
      obtain ⟨bytes, rfl⟩ := Option.ne_none_iff_exists'.mp given
      refine ⟨0, ?_⟩
      simp [storeResult, nonempty, failed, pure, Except.pure]
  | @noBuffer bytes entry given nonempty allocated long failed =>
      subst given allocated
      refine ⟨0, ?_⟩
      simp only [storeResult, nonempty, ↓reduceIte, kzeroed, long]
      rw [if_pos (by rw [storeExternal_slot, storeExternal_extData (zero entry)]; exact .inr failed)]
      rfl
  | @stored bytes entry s₀ s₁ _ given nonempty allocated prepared inL2 inL3 =>
      subst given allocated
      obtain ⟨fuel, ranL2⟩ := inL2.exec
      obtain ⟨fuel', ranL3⟩ := inL3.exec
      have ranL2 : storeInL2 (max fuel fuel') who entry fingerprint s₀ = .ok s₁ :=
        ranL2 _ (Nat.le_max_left _ _)
      have ranL3 : storeInL3 P (max fuel fuel') who entry fingerprint s₁ = .ok s' :=
        ranL3 _ (Nat.le_max_right _ _)
      refine ⟨max fuel fuel', ?_⟩
      simp only [storeResult, nonempty, ↓reduceIte, kzeroed]
      cases prepared with
      | inline short =>
          rw [if_neg (Nat.not_lt.mpr short)]
          simp [ranL2, ranL3, bind, Except.bind, pure, Except.pure]
      | @external slot long free got =>
          have noFailure : ¬(s.freeExtSlot (P.socketIndex who.cpu) = none ∨ kvmalloc = 0#64) := by
            simp [free, got]
          rw [if_pos long, if_neg (by
            rw [storeExternal_slot, storeExternal_extData (zero entry)]
            exact fun either => noFailure (either.elim .inl id))]
          simp [ranL2, ranL3, bind, Except.bind, pure, Except.pure]

/-- Zeroing a node that is not allocated changes nothing. -/
theorem State.kzalloc_heap {n : Node} (confined : s.heap.Confined {n | n ∈ s.live})
    (fresh : n ∉ s.live) : (s.kzalloc n).heap = s.heap := by
  obtain ⟨nextNone, pprevNull⟩ := confined.zeroed fresh
  unfold State.kzalloc Heap.write Heap.setPprev
  simp only [← nextNone, ← pprevNull, Function.update_eq_self]

section Prepared

variable {s₀ : State}

theorem Prepares.heap_eq (prepared : Prepares P who fingerprint bytes len mm entry kvmalloc s s₀) :
    s₀.heap = (s.kzalloc entry).heap := by
  cases prepared with
  | inline => rfl
  | external => exact storeExternal_lists.1

theorem Prepares.live_eq (prepared : Prepares P who fingerprint bytes len mm entry kvmalloc s s₀) :
    s₀.live = entry :: s.live := by
  cases prepared with
  | inline => rfl
  | external => exact storeExternal_lists.2.1

theorem Prepares.retired_eq
    (prepared : Prepares P who fingerprint bytes len mm entry kvmalloc s s₀) :
    s₀.retired = s.retired := by
  cases prepared with
  | inline => rfl
  | external => exact storeExternal_lists.2.2.1

/-- What a prepared state says about entries and buffers: only the new entry differs,
its fields are those `store_result` sets, and its payload is inline or external. -/
structure Filled (P : Platform) (who : Caller) (fingerprint : U64) (data : Nat → U8)
    (len : U32) (mm : U64) (entry : Node) (kvmalloc : U64) (s s₀ : State) : Prop where
  others : ∀ n, n ≠ entry → s₀.entry n = s.entry n
  fields : ∃ payload, s₀.entry entry =
    { initEntry P who fingerprint mm .zeroed with payload := payload }
  inline : len.toNat ≤ kcrResultSizeMax →
    (s₀.entry entry).payload = (storeInline data len .zeroed).payload
  external : len.toNat > kcrResultSizeMax →
    (s₀.entry entry).payload.extData = kvmalloc ∧ (s₀.entry entry).payload.extSize = len ∧
      s₀.buffers kvmalloc = some ((List.range len.toNat).map data)

theorem Prepares.filled (prepared : Prepares P who fingerprint bytes len mm entry kvmalloc s s₀) :
    Filled P who fingerprint bytes len mm entry kvmalloc s s₀ := by
  cases prepared with
  | inline short =>
      refine ⟨fun n other => ?_, ⟨(storeInline bytes len .zeroed).payload, ?_⟩, fun _ => ?_,
        fun long => absurd long (Nat.not_lt.mpr short)⟩
      · simp [State.setEntry, State.kzalloc, other]
      · simp [storeInline, initEntry]
      · simp [storeInline, initEntry]
  | @external slot long free got =>
      have free' : ((s.kzalloc entry).setEntry entry
          (initEntry P who fingerprint mm .zeroed)).freeExtSlot (P.socketIndex who.cpu) =
          some slot := free
      refine ⟨fun n other => ?_, ⟨(Entry.zeroed.payload.setExtData kvmalloc).setExtSize len, ?_⟩,
        fun short => absurd long (Nat.not_lt.mpr short), fun _ => ?_⟩
      · rw [storeExternal_lists.2.2.2 n other]
        simp [State.setEntry, State.kzalloc, other]
      · rw [(storeExternal_filled free' got).1]
        simp [initEntry]
      · rw [(storeExternal_filled free' got).1, (storeExternal_filled free' got).2]
        simp

end Prepared

/-- A store that fails changes neither lists nor allocated entries. -/
theorem StoreReturns.failed (returns :
    StoreReturns P who fingerprint data len mm kzalloc kvmalloc s status s')
    (error : status ≠ 0) (confined : s.heap.Confined {n | n ∈ s.live})
    (fresh : ∀ n ∈ kzalloc, n ∉ s.live) :
    s'.heap = s.heap ∧ s'.live = s.live ∧ s'.retired = s.retired ∧
      ∀ n ∈ s.live, s'.entry n = s.entry n := by
  cases returns with
  | invalid | noEntry => exact ⟨rfl, rfl, rfl, fun _ _ => rfl⟩
  | stored => exact absurd rfl error
  | @noBuffer bytes entry given nonempty allocated long failed =>
      have notLive : entry ∉ s.live := fresh entry allocated
      refine ⟨storeExternal_lists.1.trans (s.kzalloc_heap confined notLive), ?_,
        storeExternal_lists.2.2.1, fun n inside => ?_⟩
      · simp [State.kfree, storeExternal_lists.2.1, State.setEntry, State.kzalloc]
      · have other := ne_of_mem_of_not_mem inside notLive
        exact (storeExternal_lists.2.2.2 n other).trans
          (by simp [State.setEntry, State.kzalloc, other])

end Store

/-! ## Invalidation -/

/-- Two states agree on everything a walk or a removal looks at. -/
structure SameLists (s s' : State) : Prop where
  heap : s'.heap = s.heap
  entry : s'.entry = s.entry
  live : s'.live = s.live
  retired : s'.retired = s.retired

theorem SameLists.refl (s : State) : SameLists s s := ⟨rfl, rfl, rfl, rfl⟩

theorem SameLists.trans {s s' s'' : State} (one : SameLists s s') (two : SameLists s' s'') :
    SameLists s s'' :=
  ⟨two.heap.trans one.heap, two.entry.trans one.entry, two.live.trans one.live,
    two.retired.trans one.retired⟩

theorem sameLists_thisCpuInc (P : Platform) (cpu : Nat) (cache : U64) (counter : Counter)
    (s : State) : SameLists s (s.thisCpuInc P cpu cache counter) :=
  ⟨rfl, rfl, rfl, rfl⟩

/-- Freeing an external slot leaves the lists alone. -/
theorem sameLists_freeExtSlot (socket : Nat) (slot : Fin kcrExtSlots) (s : State) :
    SameLists s (freeExtSlot socket slot s) := by
  unfold freeExtSlot
  split <;> exact ⟨rfl, rfl, rfl, rfl⟩

theorem sameLists_freeExtSlots (socket : Nat) (slots : List (Fin kcrExtSlots)) (s : State) :
    SameLists s (slots.foldl (fun s slot => freeExtSlot socket slot s) s) := by
  induction slots generalizing s with
  | nil => exact .refl s
  | cons slot slots ih => exact (sameLists_freeExtSlot socket slot s).trans (ih _)

/-- The statistics updates of the two sweeps. -/
inductive SweepCount (P : Platform) (cpu : Nat) : (State → State) → Prop where
  | l2 : SweepCount P cpu (State.thisCpuInc P cpu (P.thisCpuPtr cpu) .invalidations)
  | l3 : SweepCount P cpu id

theorem SweepCount.sameLists {P : Platform} {cpu : Nat} {count : State → State}
    (counts : SweepCount P cpu count) (s : State) : SameLists s (count s) := by
  cases counts with
  | l2 => exact sameLists_thisCpuInc ..
  | l3 => exact .refl s

section Invalidate

variable {P : Platform} {who : Caller} {fuel : Nat} {mm start stop : U64}
  {count : State → State} {n : Node} {s s' : State}

/-- What the sweep does to an entry of its memory space: unlink and retire it. -/
structure Swept (mm : U64) (n : Node) (s s' : State) : Prop where
  own : (s.entry n).mm = mm
  heap : ∃ l, Heap.Unlinked s.heap n l s'.heap
  entry : s'.entry = s.entry
  live : s'.live = s.live
  retired : s'.retired = s.retired ++ [n]
  buffers : s'.buffers = s.buffers
  extSlots : s'.extSlots = s.extSlots
  extSlotSize : s'.extSlotSize = s.extSlotSize

/-- The body of the sweep skips entries of other memory spaces. -/
theorem sweepEntry_cases (counts : SweepCount P who.cpu count)
    (ran : sweepEntry mm count n s = .ok s') :
    ((s.entry n).mm ≠ mm ∧ s' = s) ∨ Swept mm n s s' := by
  unfold sweepEntry at ran
  split at ran
  · next own =>
    simp only [bind, Except.bind, pure, Except.pure] at ran
    cases removed : s.heap.hlistDelRcu n with
    | error reason => simp [removed] at ran
    | ok heap =>
        simp only [removed, Except.ok.injEq] at ran
        subst ran
        obtain ⟨l, gone⟩ := Heap.unlinked_of_del removed
        right
        cases counts <;> exact ⟨own, ⟨l, gone⟩, rfl, rfl, rfl, rfl, rfl, rfl⟩
  · next other =>
    simp only [pure, Except.pure, Except.ok.injEq] at ran
    exact .inl ⟨other, ran.symm⟩

/-- The body goes through when the entry's `pprev` names a link. -/
theorem sweepEntry_of_link {l : Link Head Node}
    (named : (s.entry n).mm = mm → s.heap.pprev n = .link l) :
    ∃ s', sweepEntry mm count n s = .ok s' := by
  unfold sweepEntry
  split
  · next own =>
    obtain ⟨heap, removed⟩ := Heap.del_of_link (named own)
    exact ⟨count ({ s with heap := heap }.callRcu n), by rw [removed]; rfl⟩
  · exact ⟨s, rfl⟩

/-- All heads `invalidate_range` sweeps on a CPU. -/
def sweptHeads (P : Platform) (cpu : Nat) : List Head := l2Heads cpu ++ l3Heads P cpu

section Rule

variable (Inv : Set Head → State → Prop) (At : Set Head → Head → Option Node → State → Prop)
  {buckets : List Head} {done : Set Head}

/-- Rule for the loop over buckets. `Inv done` holds between buckets, `done` being
those already swept, and `At done bucket` inside the walk of one. -/
theorem sweepBuckets_rule
    (enter : ∀ {done bucket s}, bucket ∈ buckets → Inv done s →
      At done bucket (s.heap.first bucket) s)
    (step : ∀ {done bucket n s s'}, At done bucket (some n) s →
      sweepEntry mm count n s = .ok s' → At done bucket (s.heap.next n) s')
    (leave : ∀ {done bucket s}, At done bucket none s → Inv (insert bucket done) s)
    (holds : Inv done s) (ran : sweepBuckets fuel mm count buckets s = .ok s') :
    Inv (done ∪ {bucket | bucket ∈ buckets}) s' := by
  induction buckets generalizing done s with
  | nil =>
      obtain rfl : s = s' := by simpa [sweepBuckets] using ran
      simpa using holds
  | cons bucket buckets ih =>
      simp only [sweepBuckets, bind, Except.bind] at ran
      cases swept : sweepBucket fuel mm count bucket s with
      | error reason => simp [swept] at ran
      | ok mid =>
          rw [swept] at ran
          have atEnd : At done bucket none mid :=
            Heap.forEachSafe_rule (At done bucket) step (enter (by simp) holds) swept
          have rest := ih (fun member => enter (by simp [member])) (leave atEnd) ran
          have sets : insert bucket done ∪ {b | b ∈ buckets} =
              done ∪ {b | b ∈ bucket :: buckets} := by
            ext b
            simp only [Set.mem_union, Set.mem_insert_iff, Set.mem_ofPred_eq, List.mem_cons]
            tauto
          rwa [sets] at rest

/-- Rule for `invalidate_range`, over all the heads it sweeps and then over the slots. -/
theorem invalidateRange_rule
    (enter : ∀ {done bucket s}, bucket ∈ sweptHeads P who.cpu → Inv done s →
      At done bucket (s.heap.first bucket) s)
    (step : ∀ {done bucket n s s' count}, SweepCount P who.cpu count →
      At done bucket (some n) s → sweepEntry mm count n s = .ok s' →
      At done bucket (s.heap.next n) s')
    (leave : ∀ {done bucket s}, At done bucket none s → Inv (insert bucket done) s)
    (free : ∀ {done s} (slot : Fin kcrExtSlots), Inv done s →
      Inv done (freeExtSlot (P.socketIndex who.cpu) slot s))
    (holds : Inv ∅ s) (ran : invalidateRange P fuel who mm start stop s = .ok s') :
    Inv {bucket | bucket ∈ sweptHeads P who.cpu} s' := by
  simp only [invalidateRange, bind, Except.bind, pure, Except.pure] at ran
  split at ran
  · cases ran
  · next s₁ sweptL2 =>
    split at ran
    · cases ran
    · next s₂ sweptL3 =>
      obtain rfl := Except.ok.inj ran
      have afterL2 := sweepBuckets_rule Inv At
        (fun member => enter (List.mem_append_left _ member)) (step .l2) leave holds sweptL2
      have afterL3 := sweepBuckets_rule Inv At
        (fun member => enter (List.mem_append_right _ member)) (step .l3) leave afterL2 sweptL3
      have sets : ∅ ∪ {b | b ∈ l2Heads who.cpu} ∪ {b | b ∈ l3Heads P who.cpu} =
          {b | b ∈ sweptHeads P who.cpu} := by
        ext b
        simp [sweptHeads]
      rw [sets] at afterL3
      have slots : ∀ (remaining : List (Fin kcrExtSlots)) (t : State),
          Inv {b | b ∈ sweptHeads P who.cpu} t → Inv {b | b ∈ sweptHeads P who.cpu}
            (remaining.foldl (fun s slot => freeExtSlot (P.socketIndex who.cpu) slot s) t) := by
        intro remaining
        induction remaining with
        | nil => exact fun t holds => holds
        | cons slot remaining ih => exact fun t holds => ih _ (free slot holds)
      exact slots _ _ afterL3

/-- A sweep that only removes entries with a linked `pprev` does not fault. -/
theorem sweepBuckets_safe
    (enter : ∀ {done bucket s}, bucket ∈ buckets → Inv done s →
      At done bucket (s.heap.first bucket) s)
    (linked : ∀ {done bucket n s}, At done bucket (some n) s → (s.entry n).mm = mm →
      ∃ l, s.heap.pprev n = .link l)
    (step : ∀ {done bucket n s s'}, At done bucket (some n) s →
      sweepEntry mm count n s = .ok s' → At done bucket (s.heap.next n) s')
    (leave : ∀ {done bucket s}, At done bucket none s → Inv (insert bucket done) s)
    (holds : Inv done s) {reason : Halt}
    (failed : sweepBuckets fuel mm count buckets s = .error reason) : reason = .fuel := by
  have body : ∀ {done bucket n s}, At done bucket (some n) s →
      ∃ s', sweepEntry mm count n s = .ok s' ∧ At done bucket (s.heap.next n) s' := by
    intro done bucket n s here
    have ran : ∃ s', sweepEntry mm count n s = .ok s' := by
      by_cases own : (s.entry n).mm = mm
      · obtain ⟨l, named⟩ := linked here own
        exact sweepEntry_of_link fun _ => named
      · exact ⟨s, by simp [sweepEntry, own, pure, Except.pure]⟩
    obtain ⟨s', ran⟩ := ran
    exact ⟨s', ran, step here ran⟩
  induction buckets generalizing done s with
  | nil => simp [sweepBuckets] at failed
  | cons bucket buckets ih =>
      simp only [sweepBuckets, bind, Except.bind] at failed
      cases swept : sweepBucket fuel mm count bucket s with
      | error other =>
          rw [swept] at failed
          obtain rfl := Except.error.inj failed
          exact Heap.forEachSafe_safe (At done bucket) body (enter (by simp) holds) swept
      | ok mid =>
          rw [swept] at failed
          have atEnd : At done bucket none mid :=
            Heap.forEachSafe_rule (At done bucket) step (enter (by simp) holds) swept
          exact ih (fun member => enter (by simp [member])) (leave atEnd) failed

theorem invalidateRange_safe
    (enter : ∀ {done bucket s}, bucket ∈ sweptHeads P who.cpu → Inv done s →
      At done bucket (s.heap.first bucket) s)
    (linked : ∀ {done bucket n s}, At done bucket (some n) s → (s.entry n).mm = mm →
      ∃ l, s.heap.pprev n = .link l)
    (step : ∀ {done bucket n s s' count}, SweepCount P who.cpu count →
      At done bucket (some n) s → sweepEntry mm count n s = .ok s' →
      At done bucket (s.heap.next n) s')
    (leave : ∀ {done bucket s}, At done bucket none s → Inv (insert bucket done) s)
    (holds : Inv ∅ s) {reason : Halt}
    (failed : invalidateRange P fuel who mm start stop s = .error reason) : reason = .fuel := by
  simp only [invalidateRange, bind, Except.bind, pure, Except.pure] at failed
  split at failed
  · next other sweptL2 =>
    obtain rfl := Except.error.inj failed
    exact sweepBuckets_safe Inv At (fun member => enter (List.mem_append_left _ member)) linked
      (step .l2) leave holds sweptL2
  · next s₁ sweptL2 =>
    have afterL2 := sweepBuckets_rule Inv At
      (fun member => enter (List.mem_append_left _ member)) (step .l2) leave holds sweptL2
    split at failed
    · next other sweptL3 =>
      obtain rfl := Except.error.inj failed
      exact sweepBuckets_safe Inv At (fun member => enter (List.mem_append_right _ member)) linked
        (step .l3) leave afterL2 sweptL3
    · cases failed

end Rule

end Invalidate

/-! ## Steps -/

/-- The steps of the cache, by entry point. -/
inductive CacheStep (P : Platform) (s : State) : Event → State → Prop where
  | store {who fingerprint data len mm kzalloc kvmalloc status s'}
      (fresh : ∀ n ∈ kzalloc, n ∉ s.live)
      (freshBuffer : kvmalloc ≠ 0#64 → s.buffers kvmalloc = none)
      (returns : StoreReturns P who fingerprint data len mm kzalloc kvmalloc s status s') :
      CacheStep P s
        ⟨who, .storeResult fingerprint data len mm kzalloc kvmalloc, .stored status⟩ s'
  | lookup {who fingerprint mm result s'}
      (returns : LookupReturns P who fingerprint mm s result s') :
      CacheStep P s ⟨who, .lookupUnified fingerprint mm, .found result⟩ s'
  | invalidate {who mm start stop fuel s'}
      (ran : invalidateRange P fuel who mm start stop s = .ok s') :
      CacheStep P s ⟨who, .invalidateRange mm start stop, .invalidated⟩ s'

theorem cacheStep_iff {P : Platform} {s s' : State} {event : Event} :
    (cache P).Step s event s' ↔ CacheStep P s event s' := by
  constructor
  · obtain ⟨who, call, outcome⟩ := event
    rintro ⟨fresh, fuel, ran⟩
    cases call with
    | storeResult fingerprint data len mm kzalloc kvmalloc =>
        simp only [exec, bind, Except.bind, pure, Except.pure] at ran
        split at ran
        · cases ran
        · next result returned =>
          simp only [Except.ok.injEq, Prod.mk.injEq] at ran
          obtain ⟨rfl, rfl⟩ := ran
          exact .store fresh.1 fresh.2 (.of_exec returned)
    | lookupUnified fingerprint mm =>
        simp only [exec, bind, Except.bind, pure, Except.pure] at ran
        split at ran
        · cases ran
        · next result returned =>
          simp only [Except.ok.injEq, Prod.mk.injEq] at ran
          obtain ⟨rfl, rfl⟩ := ran
          exact .lookup (.of_exec returned)
    | invalidateRange mm start stop =>
        simp only [exec, bind, Except.bind, pure, Except.pure] at ran
        split at ran
        · cases ran
        · next result returned =>
          simp only [Except.ok.injEq, Prod.mk.injEq] at ran
          obtain ⟨rfl, rfl⟩ := ran
          exact .invalidate returned
  · intro step
    cases step with
    | store fresh freshBuffer returns =>
        obtain ⟨fuel, ran⟩ := returns.exec
        exact ⟨⟨fresh, freshBuffer⟩, fuel,
          by simp [exec, ran, bind, Except.bind, pure, Except.pure]⟩
    | lookup returns =>
        obtain ⟨fuel, ran⟩ := returns.exec
        exact ⟨trivial, fuel, by simp [exec, ran, bind, Except.bind, pure, Except.pure]⟩
    | @invalidate who mm start stop fuel s' ran =>
        exact ⟨trivial, fuel, by simp [exec, ran, bind, Except.bind, pure, Except.pure]⟩

end Kcr
