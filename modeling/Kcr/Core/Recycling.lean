import Kcr.Cache.Reachable
import Kcr.Core.Operations

/-!
# Recycled memory spaces

An `mm_struct` is an address, and which process occupies it changes: one is freed and
the address is given to the next. The cache sees addresses only, so the incarnations are
kept beside it here, with the one each entry was stored for. The generation an entry
records is the address again and tells no incarnations apart.
-/

namespace Kcr

open Hlist

/-- The caches, the incarnation that occupies each address, and the one each entry was
stored for. -/
structure Tenancy where
  cache : State
  occupant : U64 → Nat
  owner : Node → Nat

inductive TenancyEvent where
  | call (event : Event)
  | recycle (mm : U64)

/-- The entry a successful store creates, with its memory space. -/
def Event.creates (event : Event) : Option (Node × U64) :=
  match event.call, event.outcome with
  | .storeResult _ _ _ mm (some n) _, .stored status => if status = 0 then some (n, mm) else none
  | _, _ => none

/-- A store acts for the incarnation that occupies its memory space. -/
def Tenancy.assign (s : Tenancy) (event : Event) : Node → Nat :=
  match event.creates with
  | some (n, mm) => Function.update s.owner n (s.occupant mm)
  | none => s.owner

/-- Calls, and addresses of memory spaces passing to the next incarnation. -/
def tenancy (P : Platform) : TransitionSystem TenancyEvent where
  State := Tenancy
  Initial s := s.cache = .initial
  Step s event s' :=
    match event with
    | .call event => (cache P).Step s.cache event s'.cache ∧ s'.occupant = s.occupant ∧
        s'.owner = s.assign event
    | .recycle mm => s'.cache = s.cache ∧
        s'.occupant = Function.update s.occupant mm (s.occupant mm + 1) ∧ s'.owner = s.owner

/-- The entry was stored for an incarnation of `mm` that a later one has replaced. -/
structure Tenancy.Outlived (s : Tenancy) (mm : U64) (n : Node) : Prop where
  stored : n ∈ s.cache.live
  space : (s.cache.entry n).mm = mm
  replaced : s.owner n < s.occupant mm

/-- Validation turns down every entry of an earlier incarnation, at every tick. -/
def RecyclingDetected (P : Platform) : Prop :=
  ∀ ⦃events s mm n⦄, (tenancy P).Run events s → s.Outlived mm n →
    ∀ jiffies, validateEntry jiffies (some (s.cache.entry n)) mm = false

/-- The recorded generation is the address of the memory space. -/
def State.Stamped (s : State) : Prop := ∀ n ∈ s.live, (s.entry n).mmGeneration = (s.entry n).mm

section Stamped

variable {P : Platform} {s s' : State}

/-- Every store records the address twice. -/
theorem CacheStep.stamped {event : Event} (step : CacheStep P s event s')
    (wellFormed : WellFormed s) (stamped : s.Stamped) : s'.Stamped := by
  intro n inside
  by_cases earlier : n ∈ s.live
  · rw [(step.keeps wellFormed earlier).2]
    exact stamped n earlier
  · have new := (step.allocates wellFormed earlier inside).1
    cases step with
    | store fresh _ returns =>
        rcases returns.cases wellFormed fresh with
          ⟨_, _, sameLive, _⟩ | ⟨_, _, bytes, entry, s₀, s₁, _, rfl, insertion⟩
        · exact absurd (sameLive ▸ inside) earlier
        · obtain ⟨_, _, _, call, _⟩ := new
          cases call
          obtain ⟨payload, fields⟩ := insertion.filled.fields
          rw [insertion.entry_eq, fields]
          rfl
    | lookup | invalidate =>
        obtain ⟨_, _, _, call, _⟩ := new
        cases call

/-- The calls of a run with recycling are a run of the cache. -/
theorem tenancy_cache {events : List TenancyEvent} {s : Tenancy}
    (run : (tenancy P).Run events s) : ∃ calls, (cache P).Run calls s.cache := by
  refine run.invariant (fun _ (s : Tenancy) => ∃ calls, (cache P).Run calls s.cache) ?_ ?_
  · intro s start
    exact ⟨[], .initial start⟩
  · rintro events s event s' _ ⟨calls, prior⟩ transition
    cases event with
    | call event => exact ⟨calls ++ [event], prior.step transition.1⟩
    | recycle mm => exact ⟨calls, transition.1 ▸ prior⟩

theorem stamped_of_run {events : List Event} (run : (cache P).Run events s) : s.Stamped := by
  apply run.invariant (fun _ (s : State) => s.Stamped)
  · rintro s rfl n inside
    simp [State.initial] at inside
  · intro events s event s' prior stamped transition
    exact (cacheStep_iff.mp transition).stamped (.run prior) stamped

end Stamped

/-- An entry of an earlier incarnation is turned down exactly when its time is up, or when
validation is asked about the null space. -/
theorem validateEntry_recycled {P : Platform} {events : List TenancyEvent} {s : Tenancy}
    {mm : U64} {n : Node} (run : (tenancy P).Run events s) (outlived : s.Outlived mm n)
    (jiffies : U64) : validateEntry jiffies (some (s.cache.entry n)) mm = false ↔
      mm = 0#64 ∨ timeAfter jiffies (s.cache.entry n).expiryJiffies = true := by
  obtain ⟨calls, prior⟩ := tenancy_cache run
  have generation := stamped_of_run prior n outlived.stored
  rw [outlived.space] at generation
  by_cases null : mm = 0#64
  · simp [validateEntry, null]
  · cases late : timeAfter jiffies (s.cache.entry n).expiryJiffies with
    | true => simp [validateEntry, late]
    | false => simp [validateEntry, null, generation, outlived.space, late]

section Example

/-- One store, and the address of its memory space passes on. -/
theorem outlived_storeByte : ∃ s : Tenancy,
    (tenancy .oneNode).Run [.call ⟨.on 0 0, .storeByte 5 1 10, .stored 0⟩, .recycle 1] s ∧
      s.Outlived 1 10 ∧ (s.cache.entry 10).mmGeneration = 1 ∧
      (s.cache.entry 10).expiryJiffies = 1000 := by
  obtain ⟨t, run, replayed⟩ := run_of_replay .oneNode 9
    ([] ++ [⟨.on 0 0, .storeByte 5 1 10, .stored 0⟩]) (by decide +kernel)
  obtain ⟨start, isStart, store⟩ := run.last
  obtain rfl : start = .initial := isStart.of_nil
  have live : t.live = [10] := observe replayed State.live (by decide +kernel)
  have fields : ((t.entry 10).mm, (t.entry 10).mmGeneration, (t.entry 10).expiryJiffies) =
      (1, 1, 1000) :=
    observe replayed (fun s => ((s.entry 10).mm, (s.entry 10).mmGeneration,
      (s.entry 10).expiryJiffies)) (by decide +kernel)
  simp only [Prod.mk.injEq] at fields
  let before : Tenancy := ⟨.initial, fun _ => 0, fun _ => 0⟩
  let stored : Tenancy := ⟨t, fun _ => 0, before.assign ⟨.on 0 0, .storeByte 5 1 10, .stored 0⟩⟩
  let s : Tenancy := ⟨t, Function.update (fun _ => 0) 1 1, stored.owner⟩
  have empty : (tenancy .oneNode).Run [] before := ⟨before, rfl, .refl⟩
  have first : (tenancy .oneNode).Run
      ([] ++ [.call ⟨.on 0 0, .storeByte 5 1 10, .stored 0⟩]) stored :=
    empty.step ⟨store, rfl, rfl⟩
  have second : (tenancy .oneNode).Run
      ([] ++ [.call ⟨.on 0 0, .storeByte 5 1 10, .stored 0⟩] ++ [.recycle 1]) s :=
    first.step ⟨rfl, rfl, rfl⟩
  refine ⟨s, second, ⟨?_, fields.1, ?_⟩, fields.2⟩
  · rw [live]
    exact List.mem_singleton.mpr rfl
  · exact Nat.zero_lt_one

/-- Within the time to live both sides are false. -/
theorem validateEntry_recycled_storeByte : ∃ s : Tenancy, s.Outlived 1 10 ∧
    (validateEntry 9 (some (s.cache.entry 10)) 1 = false ↔
      (1 : U64) = 0#64 ∨ timeAfter 9 (s.cache.entry 10).expiryJiffies = true) := by
  obtain ⟨s, run, outlived, _⟩ := outlived_storeByte
  exact ⟨s, outlived, validateEntry_recycled run outlived 9⟩

/-- The next incarnation is served the entry. -/
theorem not_recyclingDetected : ¬ RecyclingDetected .oneNode := by
  intro detected
  obtain ⟨s, run, outlived, generation, expiry⟩ := outlived_storeByte
  have refused := detected run outlived 9
  simp only [validateEntry, outlived.space, generation, expiry] at refused
  exact absurd refused (by decide)

end Example

end Kcr
