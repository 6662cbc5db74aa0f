import Kcr.Cache.System

/-!
# Notifications of the IOMMU

`kcr_iommu.c`: a registration puts the handler and a memory space into a notifier block, and
the handler turns a write to an address into an invalidation of its page. The blocks play no
other part, so that the caches see calls only, those of the handler among them.
-/

namespace Kcr

open Hlist

abbrev pageSize : U64 := 4096

/-- `PAGE_MASK`. -/
abbrev pageMask : U64 := ~~~(pageSize - 1)

/-- `PAGE_ALIGN`. -/
def pageAlign (a : U64) : U64 := (a + (pageSize - 1)) &&& pageMask

abbrev iommuInvalidateWrite : U64 := 0x100

/-- `struct iommu_notifier_data`, without the range that nothing sets or reads. -/
structure IommuNotifierData where
  notifierCall : Bool
  mm : U64
  aggressiveMode : Bool

/-- The caches, and the notifier blocks by address. A block calls the handler or it is not one
of these. -/
structure Monitored where
  cache : State
  notifiers : U64 → IommuNotifierData

/-- `iommu_invalidate_handler`. -/
def iommuInvalidateHandler (P : Platform) (fuel : Nat) (who : Caller) (n event data : U64)
    (s : Monitored) : Except Halt (Int × Monitored) :=
  if event ≠ iommuInvalidateWrite then return (0, s)
  else do
    let notifierData := s.notifiers n
    let start := data &&& pageMask
    let stop := pageAlign (start + pageSize)
    let cache ← invalidateRange P fuel who notifierData.mm start stop s.cache
    return (0, { s with cache := cache })

/-- `kcr_iommu_init`; zero is a null pointer. -/
def kcrIommuInit (mm notifierData : U64) (s : Monitored) : Int × Monitored :=
  if notifierData = 0#64 ∨ mm = 0#64 then (-einval, s)
  else (0, { s with notifiers := Function.update s.notifiers notifierData ⟨true, mm, true⟩ })

/-- `kcr_iommu_exit`. -/
def kcrIommuExit (_notifierData : U64) (s : Monitored) : Monitored := s

inductive MonitoredEvent where
  | call (event : Event)
  | kcrIommuInit (mm notifierData : U64)
  | kcrIommuExit (notifierData : U64)
  | notify (who : Caller) (n event data : U64)

/-- A block is notified if its handler is set. -/
def execMonitored (P : Platform) (fuel : Nat) (s : Monitored) : MonitoredEvent → Option Monitored
  | .call event => (replay P fuel [event] s.cache).map fun cache => { s with cache := cache }
  | .kcrIommuInit mm notifierData => some (kcrIommuInit mm notifierData s).2
  | .kcrIommuExit notifierData => some (kcrIommuExit notifierData s)
  | .notify who n event data =>
      if (s.notifiers n).notifierCall then
        (iommuInvalidateHandler P fuel who n event data s).toOption.map fun result => result.2
      else none

/-- No block is registered before the first `kcr_iommu_init`. -/
def Monitored.initial : Monitored := ⟨.initial, fun _ => ⟨false, 0, false⟩⟩

/-- Complete calls, and what happens to the notifier blocks. -/
def monitored (P : Platform) : TransitionSystem MonitoredEvent where
  State := Monitored
  Initial s := s = .initial
  Step s event s' := ∃ fuel, execMonitored P fuel s event = some s'

/-! ## Pages -/

/-- The page of an address. -/
def pageOf (a : U64) : U64 := BitVec.ofNat 64 (4096 * (a.toNat / 4096))

theorem and_pageMask (a : U64) : a &&& pageMask = pageOf a := by
  apply BitVec.eq_of_toNat_eq
  have bounded := a.isLt
  have mask : pageMask.toNat = 2 ^ 64 - ((2 ^ 12 - 1) + 1) := rfl
  have shifts : 4096 * (a.toNat / 4096) = (a.toNat >>> 12) <<< 12 := by
    rw [Nat.shiftLeft_eq, Nat.shiftRight_eq_div_pow, Nat.mul_comm]
  have small : 4096 * (a.toNat / 4096) < 2 ^ 64 := by omega
  rw [pageOf, BitVec.toNat_ofNat, Nat.mod_eq_of_lt small, BitVec.toNat_and, mask, shifts]
  apply Nat.eq_of_testBit_eq
  intro i
  rw [Nat.testBit_and, Nat.testBit_two_pow_sub_succ (by decide), Nat.testBit_two_pow_sub_one,
    Nat.testBit_shiftLeft, Nat.testBit_shiftRight]
  by_cases low : i < 12
  · simp [low, Nat.not_le.mpr low]
  · by_cases high : i < 64
    · simp [low, high, Nat.le_of_not_lt low]
    · have above : a.toNat.testBit i = false := Nat.testBit_lt_two_pow
        (bounded.trans_le (Nat.pow_le_pow_right (by decide) (Nat.le_of_not_lt high)))
      simp [low, above, Nat.add_sub_cancel' (Nat.le_of_not_lt low)]

theorem toNat_pageOf (a : U64) : (pageOf a).toNat = 4096 * (a.toNat / 4096) := by
  have bounded := a.isLt
  rw [pageOf, BitVec.toNat_ofNat]
  omega

/-- An aligned address is its own alignment. -/
theorem pageAlign_of_dvd {a : U64} (aligned : 4096 ∣ a.toNat) : pageAlign a = a := by
  have bounded := a.isLt
  have four : (pageSize - 1).toNat = 4095 := rfl
  rw [pageAlign, and_pageMask]
  apply BitVec.eq_of_toNat_eq
  rw [toNat_pageOf, BitVec.toNat_add, four]
  omega

/-- The handler invalidates the page that the address belongs to. -/
theorem page_spec (a : U64) : 4096 ∣ (pageOf a).toNat ∧ (pageOf a).toNat ≤ a.toNat ∧
    a.toNat < (pageOf a).toNat + 4096 ∧ pageAlign (pageOf a + pageSize) = pageOf a + pageSize := by
  have page := toNat_pageOf a
  have size : pageSize.toNat = 4096 := rfl
  refine ⟨⟨_, page⟩, by omega, by omega, pageAlign_of_dvd ?_⟩
  rw [BitVec.toNat_add, size]
  omega

/-! ## Notifications are calls -/

/-- The memory space registered last for each block, and the calls so far. -/
abbrev Shown := (U64 → Option U64) × List Event

/-- What an event shows to one who knows what is registered. -/
def Shown.next (sofar : Shown) : MonitoredEvent → Shown
  | .call event => (sofar.1, sofar.2 ++ [event])
  | .kcrIommuInit mm notifierData =>
      if notifierData = 0#64 ∨ mm = 0#64 then sofar
      else (Function.update sofar.1 notifierData (some mm), sofar.2)
  | .kcrIommuExit _ => sofar
  | .notify who n event data =>
      match sofar.1 n with
      | some mm =>
          if event ≠ iommuInvalidateWrite then sofar
          else (sofar.1, sofar.2 ++
            [⟨who, .invalidateRange mm (pageOf data) (pageOf data + pageSize), .invalidated⟩])
      | none => sofar

def shown (events : List MonitoredEvent) : Shown := events.foldl Shown.next (fun _ => none, [])

/-- The handler ignores other events; a write it turns into an invalidation. -/
theorem iommuInvalidateHandler_cases {P : Platform} {fuel : Nat} {who : Caller}
    {n event data : U64} {s s' : Monitored} {result : Int}
    (ran : iommuInvalidateHandler P fuel who n event data s = .ok (result, s')) :
    event ≠ iommuInvalidateWrite ∧ s' = s ∨
      event = iommuInvalidateWrite ∧ s'.notifiers = s.notifiers ∧
      (cache P).Step s.cache
        ⟨who, .invalidateRange (s.notifiers n).mm (pageOf data) (pageOf data + pageSize),
          .invalidated⟩ s'.cache := by
  unfold iommuInvalidateHandler at ran
  by_cases other : event ≠ iommuInvalidateWrite
  · rw [if_pos other] at ran
    obtain ⟨_, rfl⟩ := Prod.mk.inj (Except.ok.inj ran)
    exact .inl ⟨other, rfl⟩
  · rw [if_neg other] at ran
    simp only [and_pageMask, (page_spec data).2.2.2] at ran
    cases invalidates : invalidateRange P fuel who (s.notifiers n).mm (pageOf data)
        (pageOf data + pageSize) s.cache with
    | error reason =>
        simp only [invalidates, bind, Except.bind] at ran
        cases ran
    | ok state =>
        simp only [invalidates, bind, Except.bind, pure, Except.pure, Except.ok.injEq,
          Prod.mk.injEq] at ran
        obtain ⟨_, rfl⟩ := ran
        refine .inr ⟨not_not.mp other, rfl, trivial, fuel, ?_⟩
        simp only [exec, invalidates, bind, Except.bind]
        rfl

/-- The blocks hold what was registered. -/
def Monitored.Registered (s : Monitored) (registered : U64 → Option U64) : Prop :=
  ∀ n, registered n =
    if (s.notifiers n).notifierCall = true then some (s.notifiers n).mm else none

/-- A write that is notified for a block invalidates its page, in the memory space that was
registered last for the block, whether or not the block has been given up since. All else that
happens to the blocks leaves the caches alone. -/
theorem cache_of_monitored {P : Platform} {events : List MonitoredEvent} {s : Monitored}
    (run : (monitored P).Run events s) :
    (cache P).Run (shown events).2 s.cache ∧ s.Registered (shown events).1 := by
  apply run.invariant (fun events (s : Monitored) =>
    (cache P).Run (shown events).2 s.cache ∧ s.Registered (shown events).1)
  · rintro s rfl
    exact ⟨.initial rfl, fun n => rfl⟩
  · intro events s event s' _ ⟨run, registered⟩ ⟨fuel, ran⟩
    rw [shown, List.foldl_append, ← shown]
    change (cache P).Run ((shown events).next event).2 s'.cache ∧
      s'.Registered ((shown events).next event).1
    cases event with
    | call event =>
        obtain ⟨state, replayed, rfl⟩ := Option.map_eq_some_iff.mp ran
        exact ⟨run.step (step_of_replay replayed), registered⟩
    | kcrIommuInit mm notifierData =>
        obtain rfl := Option.some.inj ran
        unfold kcrIommuInit
        by_cases invalid : notifierData = 0#64 ∨ mm = 0#64
        · rw [Shown.next, if_pos invalid, if_pos invalid]
          exact ⟨run, registered⟩
        · rw [Shown.next, if_neg invalid, if_neg invalid]
          refine ⟨run, fun n => ?_⟩
          by_cases same : n = notifierData
          · simp [same]
          · simpa [same] using registered n
    | kcrIommuExit notifierData =>
        obtain rfl : s = s' := Option.some.inj ran
        exact ⟨run, registered⟩
    | notify who n event data =>
        simp only [execMonitored] at ran
        split at ran
        · next handles =>
          have space : (shown events).1 n = some (s.notifiers n).mm := by
            rw [registered n, if_pos handles]
          cases handled : iommuInvalidateHandler P fuel who n event data s with
          | error reason => simp [handled, Except.toOption] at ran
          | ok result =>
              obtain ⟨status, t⟩ := result
              simp only [handled, Except.toOption, Option.map_some] at ran
              obtain rfl := Option.some.inj ran
              simp only [Shown.next, space]
              obtain ⟨other, rfl⟩ | ⟨write, blocks, calls⟩ := iommuInvalidateHandler_cases handled
              · rw [if_pos other]
                exact ⟨run, registered⟩
              · rw [if_neg (not_not.mpr write)]
                refine ⟨run.step calls, fun m => ?_⟩
                rw [blocks]
                exact registered m
        · cases ran

/-- A store for the registered space, and after `kcr_iommu_exit` a write to address 8200. -/
def lateWrite : List MonitoredEvent :=
  [.kcrIommuInit 1 512, .call ⟨.on 0 0, .storeByte 5 1 10, .stored 0⟩, .kcrIommuExit 512,
    .notify (.on 0 1) 512 iommuInvalidateWrite 8200]

theorem cache_of_monitored_lateWrite : ∃ s, (monitored .oneNode).Run lateWrite s ∧
    (cache .oneNode).Run [⟨.on 0 0, .storeByte 5 1 10, .stored 0⟩,
      ⟨.on 0 1, .invalidateRange 1 8192 12288, .invalidated⟩] s.cache ∧
    s.Registered (shown lateWrite).1 := by
  have computed : (TransitionSystem.execAll (execMonitored .oneNode 9) lateWrite .initial).isSome =
      true := by decide +kernel
  obtain ⟨s, ran⟩ := Option.isSome_iff_exists.mp computed
  have sound : ∀ {s event s'}, execMonitored .oneNode 9 s event = some s' →
      (monitored .oneNode).Step s event s' := fun executed => ⟨9, executed⟩
  have run : (monitored .oneNode).Run lateWrite s :=
    ⟨_, rfl, TransitionSystem.steps_of_execAll sound ran⟩
  exact ⟨s, run, cache_of_monitored run⟩

end Kcr
