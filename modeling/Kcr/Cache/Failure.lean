import Kcr.Cache.Slots

/-!
# Stores that fail

`store_result` returns an error for bad arguments, without an entry, or without a buffer for
a large result. By then no bucket has heard of the entry, and the only slot it wrote got back
the null pointer it held.
-/

namespace Kcr

open Hlist

/-- Two states agree on every bucket, on both slot arrays, on what is allocated and retired,
and on all entries but the one at the address the allocator gave out. -/
structure Unchanged (kzalloc : Option Node) (s s' : State) : Prop extends SameSlots s s' where
  first : s'.heap.first = s.heap.first
  next : ∀ n, n ∉ kzalloc → s'.heap.next n = s.heap.next n
  pprev : ∀ n, n ∉ kzalloc → s'.heap.pprev n = s.heap.pprev n
  entry : ∀ n, n ∉ kzalloc → s'.entry n = s.entry n
  live : s'.live = s.live
  retired : s'.retired = s.retired
  words : s'.words = s.words

/-- `store_result` gets no entry, or a large result finds every slot of the caller's socket
taken or gets no buffer. -/
def OutOfMemory (P : Platform) (who : Caller) (len : U32) (kzalloc : Option Node)
    (kvmalloc : U64) (s : State) : Prop :=
  kzalloc = none ∨ kcrResultSizeMax < len.toNat ∧
    ((∀ slot, s.extSlots (P.socketIndex who.cpu) slot ≠ 0#64) ∨ kvmalloc = 0#64)

section Failure

variable {P : Platform} {who : Caller} {fingerprint mm : U64} {data : Option (Nat → U8)}
  {bytes : Nat → U8} {len : U32} {kzalloc : Option Node} {kvmalloc : U64} {entry : Node}
  {status : Int} {s s' : State}

theorem Unchanged.refl (kzalloc : Option Node) (s : State) : Unchanged kzalloc s s where
  toSameSlots := .refl s
  first := rfl
  next _ _ := rfl
  pprev _ _ := rfl
  entry _ _ := rfl
  live := rfl
  retired := rfl
  words := rfl

/-- The search for a slot has a result as long as one is free. -/
theorem State.freeExtSlot_eq_none {socket : Nat} :
    s.freeExtSlot socket = none ↔ ∀ slot, s.extSlots socket slot ≠ 0#64 := by
  constructor
  · exact State.freeExtSlot_none
  · intro full
    apply List.find?_eq_none.mpr
    intro slot _
    simpa using full slot

theorem storeExternal_words :
    (storeExternal P who entry bytes len kvmalloc s).2.words = s.words := by
  cases slot : s.freeExtSlot (P.socketIndex who.cpu) with
  | none => simp [storeExternal, slot]
  | some slot' => by_cases failed : kvmalloc = 0#64 <;> simp [storeExternal, slot, failed]

/-- A store that fails undoes what it did. -/
theorem StoreReturns.unchanged (returns :
    StoreReturns P who fingerprint data len mm kzalloc kvmalloc s status s')
    (error : status ≠ 0) : Unchanged kzalloc s s' := by
  have slots := returns.sameSlots (.inl error)
  cases returns with
  | invalid | noEntry => exact .refl _ s
  | stored => exact absurd rfl error
  | @noBuffer bytes entry given nonempty allocated long failed =>
      subst allocated
      obtain ⟨heap, live, retired, others⟩ := @storeExternal_lists P who bytes len entry kvmalloc
        ((s.kzalloc entry).setEntry entry (initEntry P who fingerprint mm .zeroed))
      have other : ∀ {n}, n ∉ some entry → n ≠ entry := by
        rintro n apart rfl
        exact apart rfl
      refine ⟨slots, ?_, ?_, ?_, ?_, ?_, retired, storeExternal_words⟩
      · exact (congrArg Heap.first heap).trans rfl
      · intro n apart
        refine (congrArg (fun heap => heap.next n) heap).trans ?_
        exact Function.update_of_ne (other apart) _ _
      · intro n apart
        refine (congrArg (fun heap => heap.pprev n) heap).trans ?_
        exact Function.update_of_ne (other apart) _ _
      · intro n apart
        refine (others n (other apart)).trans ?_
        simp [State.setEntry, State.kzalloc, other apart]
      · refine (congrArg (·.erase entry) live).trans ?_
        simp [State.setEntry, State.kzalloc]

theorem storeAccepted_iff : StoreAccepted P who data len kzalloc kvmalloc s ↔
    ¬ (data = none ∨ len = 0#32) ∧ ¬ OutOfMemory P who len kzalloc kvmalloc s := by
  rw [OutOfMemory, ← State.freeExtSlot_eq_none]
  constructor
  · rintro ⟨given, nonempty, allocated, room⟩
    constructor
    · rintro (null | empty)
      · simp [null] at given
      · exact nonempty empty
    · rintro (failed | ⟨long, failed⟩)
      · simp [failed] at allocated
      · obtain ⟨free, got⟩ := room.resolve_left (Nat.not_le.mpr long)
        obtain full | null := failed
        · simp [full] at free
        · exact got null
  · rintro ⟨valid, memory⟩
    obtain ⟨given, nonempty⟩ := not_or.mp valid
    obtain ⟨allocated, room⟩ := not_or.mp memory
    refine ⟨Option.isSome_iff_ne_none.mpr given, nonempty,
      Option.isSome_iff_ne_none.mpr allocated, ?_⟩
    by_cases short : len.toNat ≤ kcrResultSizeMax
    · exact .inl short
    · obtain ⟨free, got⟩ := not_or.mp fun failed => room ⟨Nat.lt_of_not_le short, failed⟩
      exact .inr ⟨Option.isSome_iff_ne_none.mpr free, got⟩

/-- The status of a store that returns. -/
theorem StoreReturns.status_cases (returns :
    StoreReturns P who fingerprint data len mm kzalloc kvmalloc s status s') :
    status = -einval ∧ (data = none ∨ len = 0#32) ∨
    status = -enomem ∧ ¬ (data = none ∨ len = 0#32) ∧ OutOfMemory P who len kzalloc kvmalloc s ∨
    status = 0 ∧ ¬ (data = none ∨ len = 0#32) ∧ ¬ OutOfMemory P who len kzalloc kvmalloc s := by
  by_cases success : status = 0
  · subst success
    exact .inr (.inr ⟨rfl, storeAccepted_iff.mp returns.storeAccepted⟩)
  · cases returns with
    | invalid bad => exact .inl ⟨rfl, bad⟩
    | noEntry given nonempty failed =>
        exact .inr (.inl ⟨rfl, not_or.mpr ⟨given, nonempty⟩, .inl failed⟩)
    | noBuffer given nonempty _ long failed =>
        rw [State.freeExtSlot_eq_none] at failed
        exact .inr (.inl ⟨rfl, not_or.mpr ⟨by simp [given], nonempty⟩, .inr ⟨long, failed⟩⟩)
    | stored => exact absurd rfl success

/-- A store that is given bad arguments or no memory returns, whatever the lists are. -/
theorem storeResult_returns (fuel : Nat)
    (fails : (data = none ∨ len = 0#32) ∨ OutOfMemory P who len kzalloc kvmalloc s) :
    ∃ status s', storeResult P fuel who fingerprint data len mm kzalloc kvmalloc s =
      .ok (status, s') := by
  obtain ⟨status, s', _, _, same⟩ | ⟨accepted, _⟩ :=
    storeResult_cases P who fingerprint data len mm kzalloc kvmalloc s
  · exact ⟨status, s', same fuel⟩
  · obtain ⟨valid, memory⟩ := storeAccepted_iff.mp accepted
    exact absurd fails (not_or.mpr ⟨valid, memory⟩)

end Failure

/-- The error a store returns is decided by its arguments, the slots of the caller's socket
and the allocators, and a store that returns an error leaves everything as it was. -/
theorem storeResult_fails (P : Platform) (fuel : Nat) (who : Caller) (fingerprint : U64)
    (data : Option (Nat → U8)) (len : U32) (mm : U64) (kzalloc : Option Node) (kvmalloc : U64)
    (s : State) :
    let returns status s' :=
      storeResult P fuel who fingerprint data len mm kzalloc kvmalloc s = .ok (status, s')
    let invalid := data = none ∨ len = 0#32
    ((∃ s', returns (-einval) s') ↔ invalid) ∧
      (¬ invalid → ((∃ s', returns (-enomem) s') ↔ OutOfMemory P who len kzalloc kvmalloc s)) ∧
      (¬ invalid → ¬ OutOfMemory P who len kzalloc kvmalloc s →
        ∀ status s', returns status s' → status = 0) ∧
      ∀ status s', returns status s' → status ≠ 0 → Unchanged kzalloc s s' := by
  intro returns invalid
  have status : ∀ {status s'}, returns status s' →
      status = -einval ∧ invalid ∨
      status = -enomem ∧ ¬ invalid ∧ OutOfMemory P who len kzalloc kvmalloc s ∨
      status = 0 ∧ ¬ invalid ∧ ¬ OutOfMemory P who len kzalloc kvmalloc s :=
    fun ran => (StoreReturns.of_exec ran).status_cases
  refine ⟨⟨?_, fun bad => ?_⟩, fun valid => ⟨?_, fun failed => ?_⟩, ?_, ?_⟩
  · rintro ⟨s', ran⟩
    obtain ⟨_, bad⟩ | ⟨other, _⟩ | ⟨other, _⟩ := status ran
    · exact bad
    · exact absurd other (by decide)
    · exact absurd other (by decide)
  · obtain ⟨_, s', ran⟩ := storeResult_returns fuel (.inl bad)
    obtain ⟨rfl, _⟩ | ⟨_, valid, _⟩ | ⟨_, valid, _⟩ := status ran
    · exact ⟨s', ran⟩
    · exact absurd bad valid
    · exact absurd bad valid
  · rintro ⟨s', ran⟩
    obtain ⟨other, _⟩ | ⟨_, _, failed⟩ | ⟨other, _⟩ := status ran
    · exact absurd other (by decide)
    · exact failed
    · exact absurd other (by decide)
  · obtain ⟨_, s', ran⟩ := storeResult_returns fuel (.inr failed)
    obtain ⟨_, bad⟩ | ⟨rfl, _⟩ | ⟨_, _, memory⟩ := status ran
    · exact absurd bad valid
    · exact ⟨s', ran⟩
    · exact absurd failed memory
  · intro valid memory result s' ran
    obtain ⟨_, bad⟩ | ⟨_, _, failed⟩ | ⟨zero, _⟩ := status ran
    · exact absurd bad valid
    · exact absurd failed memory
    · exact zero
  · intro result s' ran error
    exact (StoreReturns.of_exec ran).unchanged error

end Kcr
