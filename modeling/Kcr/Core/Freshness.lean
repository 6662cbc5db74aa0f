import Kcr.Core.Recycling

/-!
# Two tests of freshness

A search accepts an entry while `time_before(jiffies, expiry)` holds, `validate_entry` rejects
it when `time_after(jiffies, expiry)` does. Before the tick of expiry both let the entry pass
and after it neither does. At that tick neither comparison holds, and half way round the
counter both do, so there one test accepts what the other rejects.
-/

namespace Kcr

open Hlist

/-- The two comparisons of a tick with a deadline are opposite. -/
def Comparable (jiffies expiry : U64) : Prop :=
  jiffies ≠ expiry ∧ (jiffies - expiry).toNat ≠ 2 ^ 63

instance (jiffies expiry : U64) : Decidable (Comparable jiffies expiry) := by
  unfold Comparable
  infer_instance

theorem timeBefore_iff {a b : U64} : timeBefore a b = true ↔ 2 ^ 63 ≤ (a - b).toNat := by
  unfold timeBefore
  rw [decide_eq_true_iff, BitVec.toInt_neg_iff]
  omega

theorem timeAfter_iff {a b : U64} :
    timeAfter a b = true ↔ 0 < (a - b).toNat ∧ (a - b).toNat ≤ 2 ^ 63 := by
  unfold timeAfter
  rw [timeBefore_iff]
  bv_omega

theorem comparable_iff {jiffies expiry : U64} : Comparable jiffies expiry ↔
    (jiffies - expiry).toNat ≠ 0 ∧ (jiffies - expiry).toNat ≠ 2 ^ 63 := by
  have same : jiffies = expiry ↔ (jiffies - expiry).toNat = 0 := by bv_omega
  rw [Comparable, Ne, same]

/-- A tick is before the deadline just when it is not after it, but at the deadline and half
way round. -/
theorem not_timeAfter_eq_timeBefore {jiffies expiry : U64} :
    (!timeAfter jiffies expiry) = timeBefore jiffies expiry ↔ Comparable jiffies expiry := by
  rw [Bool.eq_iff_iff, Bool.not_eq_true', ← Bool.not_eq_true, timeAfter_iff, timeBefore_iff,
    comparable_iff]
  omega

/-- What validation tests of an entry that records the address of its memory space. -/
theorem validateEntry_stamped {entry : Entry} (stamped : entry.mmGeneration = entry.mm)
    {mm : U64} (nonnull : mm ≠ 0#64) (jiffies : U64) :
    validateEntry jiffies (some entry) mm =
      (entry.mm == mm && !timeAfter jiffies entry.expiryJiffies) := by
  by_cases own : entry.mm = mm
  · cases late : timeAfter jiffies entry.expiryJiffies <;>
      simp [validateEntry, nonnull, stamped, own, late]
  · simp [validateEntry, nonnull, stamped, own]

/-- The entry with another time of expiry. -/
def Entry.expiring (entry : Entry) (expiry : U64) : Entry := { entry with expiryJiffies := expiry }

/-- Validation and the searches judge an entry alike: at this tick, with this time of expiry,
for this memory space. -/
def State.Judged (s : State) (n : Node) (mm jiffies expiry : U64) : Prop :=
  validateEntry jiffies (some ((s.entry n).expiring expiry)) mm =
    (s.setEntry n ((s.entry n).expiring expiry)).accepts (s.entry n).fingerprint mm jiffies n

/-- They judge every entry that a store created alike, at every tick. -/
def ChecksAgree (P : Platform) : Prop :=
  ∀ ⦃events s store fingerprint owner n⦄, (cache P).Run events s → store ∈ events →
    store.Stores fingerprint owner n → ∀ mm jiffies expiry, mm ≠ 0#64 →
    s.Judged n mm jiffies expiry

/-- An entry that records the address of its memory space is judged alike but when it belongs
to the space asked for and the comparisons are not opposite. -/
theorem judged_of_stamped {s : State} {n : Node}
    (stamped : (s.entry n).mmGeneration = (s.entry n).mm) {mm : U64} (nonnull : mm ≠ 0#64)
    (jiffies expiry : U64) :
    s.Judged n mm jiffies expiry ↔ (s.entry n).mm = mm → Comparable jiffies expiry := by
  have validated :=
    @validateEntry_stamped ((s.entry n).expiring expiry) stamped mm nonnull jiffies
  have accepted : (s.setEntry n ((s.entry n).expiring expiry)).accepts (s.entry n).fingerprint mm
      jiffies n = ((s.entry n).mm == mm && timeBefore jiffies expiry) := by
    simp [State.accepts, Entry.expiring]
  unfold State.Judged
  rw [validated, accepted, ← not_timeAfter_eq_timeBefore]
  by_cases own : (s.entry n).mm = mm
  · simp [Entry.expiring, own]
  · simp only [Entry.expiring, beq_eq_false_iff_ne.mpr own, Bool.false_and, true_iff]
    exact fun same => absurd same own

/-- Entries that stores created are judged alike unless they belong to the memory space asked
for and the tick is the time of expiry or half way round from it. -/
theorem judged_iff {P : Platform} {events : List Event} {s : State} {store : Event}
    {fingerprint owner : U64} {n : Node} (run : (cache P).Run events s) (member : store ∈ events)
    (stores : store.Stores fingerprint owner n) {mm : U64} (nonnull : mm ≠ 0#64)
    (jiffies expiry : U64) :
    s.Judged n mm jiffies expiry ↔ (s.entry n).mm = mm → Comparable jiffies expiry :=
  judged_of_stamped (stamped_of_run run n (live_of_stores run member stores)) nonnull jiffies
    expiry

/-- A tick before the expiry that the store set. -/
theorem judged_iff_storeByte : ∃ s, (cache .oneNode).Run
    [⟨.on 0 0, .storeByte 5 1 10, .stored 0⟩] s ∧ s.Judged 10 1 9 1000 := by
  obtain ⟨s, run, _⟩ := run_of_replay .oneNode 9
    [⟨.on 0 0, .storeByte 5 1 10, .stored 0⟩] (by decide +kernel)
  refine ⟨s, run, (judged_iff run (List.mem_singleton.mpr rfl) ⟨_, _, _, rfl, rfl⟩
    (by decide) 9 1000).mpr fun _ => ?_⟩
  decide

/-- At the tick of expiry validation still passes the entry that no search accepts. -/
theorem not_checksAgree : ¬ ChecksAgree .oneNode := by
  intro agree
  obtain ⟨s, run, replayed⟩ := run_of_replay .oneNode 9
    [⟨.on 0 0, .storeByte 5 1 10, .stored 0⟩] (by decide +kernel)
  have fields : ((s.entry 10).mm, (s.entry 10).mmGeneration) = (1, 1) :=
    observe replayed (fun s => ((s.entry 10).mm, (s.entry 10).mmGeneration)) (by decide +kernel)
  obtain ⟨space, generation⟩ := Prod.mk.inj fields
  have alike := agree run (List.mem_singleton.mpr rfl) ⟨_, _, _, rfl, rfl⟩ 1 1000 1000 (by decide)
  have opposite := (judged_of_stamped (generation.trans space.symm) (by decide) 1000 1000).mp
    alike space
  exact opposite.1 rfl

end Kcr
