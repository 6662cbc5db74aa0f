import Kcr.Core.Determinism
import Kcr.Semantics.RelyGuarantee
import Mathlib.Data.Finset.Card

/-!
# Learning mode, shared

`verify_deterministic` takes no lock, so that calls for one memory area may interleave access
by access: two may count as one, and what one has found the other overwrites. Even so the
count never gets ahead of the calls, and equal results are never rejected.
-/

namespace Kcr

open Protocol

/-- The metadata, with history variables: the results that calls were begun with, the number
of increments so far, and the threads whose call has not counted yet. -/
structure Learning where
  metadata : VmaMetadata
  begun : List U64
  done : Nat
  pending : Finset Nat

namespace Learning

/-- All results so far are the same. -/
def Uniform (result : U64) (s : Learning) : Prop := ∀ other ∈ s.begun, other = result

def setState (state : VmaState) (s : Learning) : Learning :=
  { s with metadata := { s.metadata with state := state } }

def setFirst (result : U64) (s : Learning) : Learning :=
  { s with metadata := { s.metadata with firstResult := result } }

def setHistory (slot : Fin 4) (result : U64) (s : Learning) : Learning :=
  { s with metadata := { s.metadata with
      resultHistory := Function.update s.metadata.resultHistory slot result } }

def setCount (t : Nat) (count : U32) (s : Learning) : Learning where
  metadata := { s.metadata with executionCount := count }
  begun := s.begun
  done := s.done + 1
  pending := s.pending.erase t

end Learning

abbrev Sampling (A : Type) := Program Learning Empty Empty A

namespace Sampling

/-- The result is recorded and counted. -/
def record (t : Nat) (result : U64) : Sampling Bool := do
  let count ← .read fun s => s.metadata.executionCount
  .write (Learning.setHistory (ringSlot count.toNat) result)
  let count ← .read fun s => s.metadata.executionCount
  .write (Learning.setCount t (count + 1))
  let count ← .read fun s => s.metadata.executionCount
  if count ≥ 100 then do
    .write (Learning.setState .verified)
    return true
  else return true

/-- `verify_deterministic`, access by access. -/
def verifyDeterministic (t : Nat) (result : U64) : Sampling Bool := do
  let state ← .read fun s => s.metadata.state
  match state with
  | .verified => return true
  | .rejected => return false
  | .unverified => do
      let count ← .read fun s => s.metadata.executionCount
      if count = 0 then do
        .write (Learning.setFirst result)
        record t result
      else do
        let first ← .read fun s => s.metadata.firstResult
        if first ≠ result then do
          .write (Learning.setState .rejected)
          return false
        else record t result

theorem run_record (t : Nat) (result : U64) (s : Learning) : (record t result).run s = .ok (true,
    ⟨{ s.metadata with
        state := if s.metadata.executionCount + 1 ≥ 100 then .verified else s.metadata.state
        executionCount := s.metadata.executionCount + 1
        resultHistory := Function.update s.metadata.resultHistory
          (ringSlot s.metadata.executionCount.toNat) result },
      s.begun, s.done + 1, s.pending.erase t⟩) := by
  by_cases full : s.metadata.executionCount + 1 ≥ 100
  · simp only [record, Program.run_bind, Program.run_read, Program.run_write, Learning.setHistory,
      Learning.setCount, if_pos full]
    rfl
  · simp only [record, Program.run_bind, Program.run_read, Program.run_write, Learning.setHistory,
      Learning.setCount, if_neg full]
    rfl

/-- Alone the accesses do what the function does. -/
theorem run_verifyDeterministic (t : Nat) (result : U64) (s : Learning) :
    ∃ answer metadata done pending,
      Kcr.verifyDeterministic (some s.metadata) result = (answer, some metadata) ∧
      (verifyDeterministic t result).run s = .ok (answer, ⟨metadata, s.begun, done, pending⟩) := by
  cases state : s.metadata.state with
  | verified =>
      exact ⟨true, s.metadata, s.done, s.pending, by simp [Kcr.verifyDeterministic, state],
        by simp [verifyDeterministic, state]⟩
  | rejected =>
      exact ⟨false, s.metadata, s.done, s.pending, by simp [Kcr.verifyDeterministic, state],
        by simp [verifyDeterministic, state]⟩
  | unverified =>
      by_cases mismatch : s.metadata.executionCount ≠ 0 ∧ s.metadata.firstResult ≠ result
      · refine ⟨false, { s.metadata with state := .rejected }, s.done, s.pending,
          by simp only [Kcr.verifyDeterministic, state, if_pos mismatch], ?_⟩
        simp only [verifyDeterministic, Program.run_bind, Program.run_read, state,
          if_neg mismatch.1, if_pos mismatch.2]
        rfl
      · refine ⟨true, _, s.done + 1, s.pending.erase t, verifyDeterministic_counts state mismatch, ?_⟩
        by_cases first : s.metadata.executionCount = 0
        · simp only [verifyDeterministic, Program.run_bind, Program.run_read, Program.run_write,
            state, if_pos first, run_record, Learning.setFirst]
        · have same : ¬ s.metadata.firstResult ≠ result := fun differs => mismatch ⟨first, differs⟩
          simp only [verifyDeterministic, Program.run_bind, Program.run_read, state, if_neg first,
            if_neg same, run_record]

end Sampling

/-- Threads that sample one memory area. -/
def learners : Machine Nat U64 Learning Empty Empty Bool where
  initial := ⟨.zeroed, [], 0, ∅⟩
  enter t result s := { s with begun := s.begun ++ [result], pending := insert t s.pending }
  tick s := s
  body := Sampling.verifyDeterministic

/-! ## The protocol -/

namespace Learning

/-- The count is behind the increments, and these are behind the calls; while all results are the
same, nothing speaks against them. -/
structure Sound (result : U64) (s : Learning) : Prop where
  count : s.metadata.executionCount.toNat ≤ s.done
  verified : s.metadata.state = .verified → 100 ≤ s.done
  calls : s.done + s.pending.card ≤ s.begun.length
  accepts : s.Uniform result → s.metadata.state ≠ .rejected ∧
    (s.metadata.executionCount ≠ 0 → s.metadata.firstResult = result)

/-- What the steps of others leave to a thread. -/
structure Spares (result : U64) (t : Nat) (s s' : Learning) : Prop where
  begun : ∀ other ∈ s.begun, other ∈ s'.begun
  done : s.done ≤ s'.done
  pending : t ∈ s.pending → t ∈ s'.pending
  first : s'.Uniform result → s.metadata.firstResult = result → s'.metadata.firstResult = result

theorem Uniform.of_later {result : U64} {s s' : Learning}
    (begun : ∀ other ∈ s.begun, other ∈ s'.begun) (uniform : s'.Uniform result) :
    s.Uniform result :=
  fun other member => uniform other (begun other member)

end Learning

/-- Threads wait for nothing and own nothing but their place among those that have not counted. -/
def sampling (result : U64) : Protocol Nat Learning Empty Empty where
  Inv s := s.Sound result
  Res l _ := l.elim
  Idle _ _ := True
  Step t _ s s' := s'.begun = s.begun ∧ ∀ u, u ≠ t → Learning.Spares result u s s'
  Env s s' := ∀ u, Learning.Spares result u s s'
  Fault reason := reason.elim
  res_step {_ _ l} := l.elim
  res_env {l} := l.elim
  idle_step _ _ _ _ idle := idle
  idle_env _ _ _ idle := idle

section Sampling

variable {result other : U64} {t : Nat} {A B : Learning → Prop}

/-- Nothing that the others do falsifies the assertion. -/
def Learning.Steady (result : U64) (t : Nat) (A : Learning → Prop) : Prop :=
  ∀ s s', Learning.Spares result t s s' → A s → A s'

theorem Learning.Steady.stable (steady : Learning.Steady result t A) :
    (sampling result).Stable t none A := by
  rintro s s' ⟨_, _, env | ⟨u, _, different, _, _, spares⟩⟩ holds
  · exact steady s s' (env t) holds
  · exact steady s s' (spares t (Ne.symm different)) holds

theorem Learning.Spares.refl (s : Learning) : Learning.Spares result t s s :=
  ⟨fun _ member => member, le_rfl, fun waits => waits, fun _ first => first⟩

theorem meets_sample {X : Type} {get : Learning → X} {mid : X → Learning → Prop}
    (steady : ∀ seen, Learning.Steady result t (mid seen))
    (reads : ∀ s, s.Sound result → A s → mid (get s) s) :
    (sampling result).Meets t mid none none A (.read get : Sampling X) :=
  .read (fun s _ => ⟨rfl, fun _ _ => .refl s⟩) (fun seen => (steady seen).stable) reads

theorem meets_update {update : Learning → Learning} (steady : Learning.Steady result t B)
    (moves : ∀ s, s.Sound result → A s → (update s).Sound result ∧
      (update s).begun = s.begun ∧ (∀ u, u ≠ t → Learning.Spares result u s (update s)) ∧
      B (update s)) :
    (sampling result).Meets t (fun _ => B) none none A (.write update : Sampling Unit) := by
  apply Meets.write steady.stable
  intro s inv holds
  obtain ⟨inv', begun, spares, holds'⟩ := moves s inv holds
  exact ⟨inv', ⟨begun, spares⟩, holds'⟩

/-- The call was begun with its result, and has not counted yet. -/
def Sampled (t : Nat) (other : U64) (s : Learning) : Prop := other ∈ s.begun ∧ t ∈ s.pending

theorem steady_sampled : Learning.Steady result t (Sampled t other) :=
  fun _ _ spares holds => ⟨spares.begun _ holds.1, spares.pending holds.2⟩

/-- The baseline is there, unless the results differ anyway. -/
def Based (result : U64) (s : Learning) : Prop :=
  s.Uniform result → s.metadata.firstResult = result

theorem steady_based : Learning.Steady result t (Based result) :=
  fun _ _ spares holds uniform => spares.first uniform (holds (uniform.of_later spares.begun))

/-- The answer is yes, unless the results differ. -/
def Fair (result : U64) (answer : Bool) (s : Learning) : Prop := s.Uniform result → answer = true

theorem meets_record : (sampling result).Meets t (Fair result) none none
    (fun s => Sampled t other s ∧ Based result s) (Sampling.record t other) := by
  have steady : Learning.Steady result t fun s => Sampled t other s ∧ Based result s :=
    fun s s' spares holds =>
      ⟨steady_sampled s s' spares holds.1, steady_based s s' spares holds.2⟩
  refine .bind (meets_sample (fun _ => steady) fun s _ holds => holds) fun slot => ?_
  refine .bind (meets_update steady fun s sound holds => ?_) fun _ => ?_
  · exact ⟨⟨sound.count, sound.verified, sound.calls, sound.accepts⟩, rfl,
      fun _ _ => ⟨fun _ member => member, le_rfl, fun waits => waits, fun _ first => first⟩, holds⟩
  -- What is added to is behind the increments, whatever the others add meanwhile.
  have loads : (sampling result).Meets t
      (fun count s => (Sampled t other s ∧ Based result s) ∧ count.toNat ≤ s.done) none none
      (fun s => Sampled t other s ∧ Based result s)
      (.read fun s => s.metadata.executionCount : Sampling U32) := by
    refine meets_sample (fun count s s' spares holds => ?_) fun s sound holds => ⟨holds, sound.count⟩
    exact ⟨steady s s' spares holds.1, holds.2.trans spares.done⟩
  refine loads.bind fun count => ?_
  have stores : (sampling result).Meets t (fun _ => Based result) none none
      (fun s => (Sampled t other s ∧ Based result s) ∧ count.toNat ≤ s.done)
      (.write (Learning.setCount t (count + 1)) : Sampling Unit) := by
    refine meets_update steady_based fun s sound ⟨⟨⟨_, waits⟩, based⟩, behind⟩ => ?_
    refine ⟨⟨?_, ?_, ?_, ?_⟩, rfl, fun u different => ?_, based⟩
    · have one : (1 : U32).toNat = 1 := rfl
      have wraps := Nat.mod_le (count.toNat + 1) (2 ^ 32)
      simp only [Learning.setCount, BitVec.toNat_add, one]
      omega
    · intro verified
      have before := sound.verified verified
      exact before.trans (Nat.le_succ _)
    · have calls := sound.calls
      have some := Finset.card_pos.mpr ⟨t, waits⟩
      simp only [Learning.setCount, Finset.card_erase_of_mem waits]
      omega
    · exact fun uniform => ⟨(sound.accepts uniform).1, fun _ => based uniform⟩
    · exact ⟨fun _ member => member, Nat.le_succ _,
        fun theirs => Finset.mem_erase.mpr ⟨different, theirs⟩, fun _ first => first⟩
  refine stores.bind fun _ => ?_
  have looks : (sampling result).Meets t
      (fun count s => 100 ≤ count → 100 ≤ s.done) none none
      (Based result) (.read fun s => s.metadata.executionCount : Sampling U32) := by
    refine meets_sample (fun count s s' spares enough full => (enough full).trans spares.done)
      fun s sound _ full => ?_
    have hundred : (100 : U32).toNat = 100 := rfl
    have reached := BitVec.le_def.mp full
    rw [hundred] at reached
    exact reached.trans sound.count
  refine looks.bind fun count => ?_
  by_cases full : count ≥ 100
  · rw [if_pos full]
    have settles : (sampling result).Meets t (fun _ _ => True) none none
        (fun s => 100 ≤ count → 100 ≤ s.done)
        (.write (Learning.setState .verified) : Sampling Unit) := by
      refine meets_update (fun _ _ _ holds => holds) fun s sound enough => ?_
      exact ⟨⟨sound.count, fun _ => enough full, sound.calls,
        fun uniform => ⟨nofun, (sound.accepts uniform).2⟩⟩, rfl,
        fun _ _ => ⟨fun _ member => member, le_rfl, fun waits => waits, fun _ first => first⟩,
        trivial⟩
    exact settles.bind fun _ => .pure fun _ _ _ _ => rfl
  · rw [if_neg full]
    exact .pure fun _ _ _ _ => rfl

/-- What is known of the call after it has read the state. -/
def Compared (result : U64) (t : Nat) (other : U64) (state : VmaState) (s : Learning) : Prop :=
  Sampled t other s ∧ (s.Uniform result → state ≠ .rejected)

theorem steady_compared {state : VmaState} :
    Learning.Steady result t (Compared result t other state) :=
  fun s s' spares holds => ⟨steady_sampled s s' spares holds.1,
    fun uniform => holds.2 (uniform.of_later spares.begun)⟩

theorem meets_verifyDeterministic : (sampling result).Meets t (Fair result) none none
    (Sampled t other) (Sampling.verifyDeterministic t other) := by
  have examines : (sampling result).Meets t (Compared result t other) none none
      (Sampled t other) (.read fun s => s.metadata.state : Sampling VmaState) :=
    meets_sample (fun _ => steady_compared)
      fun s sound holds => ⟨holds, fun uniform => (sound.accepts uniform).1⟩
  refine examines.bind fun state => ?_
  cases state with
  | verified => exact .pure fun _ _ _ _ => rfl
  | rejected => exact .pure fun _ _ holds uniform => absurd rfl (holds.2 uniform)
  | unverified =>
      have counts : (sampling result).Meets t
          (fun count s => Sampled t other s ∧ (count ≠ 0 → Based result s)) none none
          (Compared result t other .unverified)
          (.read fun s => s.metadata.executionCount : Sampling U32) := by
        refine meets_sample (fun count s s' spares holds => ⟨steady_sampled s s' spares holds.1,
          fun some => steady_based s s' spares (holds.2 some)⟩) fun s sound holds => ?_
        exact ⟨holds.1, fun some uniform => (sound.accepts uniform).2 some⟩
      refine counts.bind fun count => ?_
      by_cases initial : count = 0
      · rw [if_pos initial]
        have starts : (sampling result).Meets t (fun _ s => Sampled t other s ∧ Based result s)
            none none (fun s => Sampled t other s ∧ (count ≠ 0 → Based result s))
            (.write (Learning.setFirst other) : Sampling Unit) := by
          refine meets_update (fun s s' spares holds => ⟨steady_sampled s s' spares holds.1,
            steady_based s s' spares holds.2⟩) fun s sound holds => ?_
          have mine : s.Uniform result → other = result := fun uniform => uniform other holds.1.1
          refine ⟨⟨sound.count, sound.verified, sound.calls, fun uniform => ?_⟩, rfl,
            fun _ _ => ?_, holds.1, mine⟩
          · exact ⟨(sound.accepts uniform).1, fun _ => mine uniform⟩
          · exact ⟨fun _ member => member, le_rfl, fun waits => waits, fun uniform _ => mine uniform⟩
        exact starts.bind fun _ => meets_record
      · rw [if_neg initial]
        have compares : (sampling result).Meets t
            (fun first s => (Sampled t other s ∧ Based result s) ∧
              (s.Uniform result → first = result)) none none
            (fun s => Sampled t other s ∧ (count ≠ 0 → Based result s))
            (.read fun s => s.metadata.firstResult : Sampling U64) := by
          refine meets_sample (fun first s s' spares holds => ⟨⟨steady_sampled s s' spares holds.1.1,
            steady_based s s' spares holds.1.2⟩,
            fun uniform => holds.2 (uniform.of_later spares.begun)⟩) fun s _ holds => ?_
          exact ⟨⟨holds.1, holds.2 initial⟩, holds.2 initial⟩
        refine compares.bind fun first => ?_
        by_cases differs : first ≠ other
        · rw [if_pos differs]
          have uneven : ∀ s : Learning, Sampled t other s → (s.Uniform result → first = result) →
              ¬ s.Uniform result := fun s sampled based uniform =>
            differs ((based uniform).trans (uniform other sampled.1).symm)
          have rejects : (sampling result).Meets t (fun _ s => ¬ s.Uniform result) none none
              (fun s => (Sampled t other s ∧ Based result s) ∧ (s.Uniform result → first = result))
              (.write (Learning.setState .rejected) : Sampling Unit) := by
            refine meets_update (fun s s' spares holds uniform =>
              holds (uniform.of_later spares.begun)) fun s sound holds => ?_
            have uneven := uneven s holds.1.1 holds.2
            exact ⟨⟨sound.count, nofun, sound.calls, fun uniform => absurd uniform uneven⟩, rfl,
              fun _ _ => ⟨fun _ member => member, le_rfl, fun waits => waits, fun _ first => first⟩,
              uneven⟩
          exact rejects.bind fun _ => .pure fun s _ uneven uniform => absurd uniform uneven
        · rw [if_neg differs]
          exact meets_record.weaken fun s _ holds => holds.1

end Sampling

/-! ## Results -/

/-- Whatever the result in question, every call meets the protocol. -/
theorem learners_verified (result : U64) :
    (sampling result).Verifies learners fun _ _ _ answer s => Fair result answer s where
  initial := ⟨Nat.zero_le _, nofun, Nat.zero_le _, fun _ => ⟨nofun, fun some => absurd rfl some⟩⟩
  resources l := l.elim
  idle _ := trivial
  tick s sound := ⟨sound, fun _ => .refl s⟩
  enter t call s sound := by
    have begun : ∀ other ∈ s.begun, other ∈ (learners.enter t call s).begun :=
      fun _ member => List.mem_append_left _ member
    refine ⟨⟨sound.count, sound.verified, ?_, fun uniform => sound.accepts (uniform.of_later begun)⟩,
      fun u => ⟨begun, le_rfl, fun waits => Finset.mem_insert_of_mem waits, fun _ first => first⟩⟩
    have calls := sound.calls
    have one := Finset.card_insert_le t s.pending
    simp only [learners, List.length_append, List.length_singleton]
    omega
  body t call start _ _ := ⟨Sampled t call, steady_sampled.stable,
    ⟨List.mem_append_right _ (List.mem_singleton_self call), Finset.mem_insert_self t _⟩,
    meets_verifyDeterministic⟩
  settled _ _ _ _ _ _ _ := trivial

section Results

variable {events : List (ThreadEvent Nat U64 Bool)}
  {c : Threads Nat U64 Learning Empty Empty Bool} {result : U64}

theorem learners_good (result : U64) (run : learners.system.Run events c) :
    Good (sampling result) (fun _ _ _ answer s => Fair result answer s) c :=
  .run (learners_verified result) run

/-- The results of all calls begun. -/
theorem learners_begun (run : learners.system.Run events c) :
    c.shared.begun = events.filterMap ThreadEvent.call := by
  apply run.invariant (fun events (c : Threads Nat U64 Learning Empty Empty Bool) =>
    c.shared.begun = events.filterMap ThreadEvent.call)
  · rintro c rfl
    rfl
  · intro events c event c' prior ih step
    rw [List.filterMap_append, ← ih]
    obtain ⟨quiet, same⟩ | ⟨t, held, rfl, moved⟩ | ⟨t, call, rfl, enters⟩ | ⟨rfl, ticks⟩ :=
      (learners_good 0 prior).shared_cases step
    · simp [same, quiet]
    · simp [moved.1, ThreadEvent.call]
    · simp [enters, ThreadEvent.call, learners]
    · simp [ticks, ThreadEvent.call, learners]

/-- However the calls interleave, the count does not get ahead of them, and an area that is
verified has been sampled a hundred times. -/
theorem calls_of_verified (run : learners.system.Run events c) :
    c.shared.metadata.executionCount.toNat ≤ (events.filterMap ThreadEvent.call).length ∧
      (c.shared.metadata.state = .verified →
        100 ≤ (events.filterMap ThreadEvent.call).length) := by
  have sound : c.shared.Sound 0 := (learners_good 0 run).inv
  have calls := sound.calls
  rw [← learners_begun run]
  refine ⟨sound.count.trans (by omega), fun verified => ?_⟩
  have done := sound.verified verified
  omega

/-- Calls with one result, one after another. -/
def samples (result : U64) (calls : Nat) : List (Machine.Turn Nat U64) :=
  (List.replicate calls (.begins 0 result :: List.replicate 9 (.goes 0))).flatten

theorem calls_of_verified_samples : ∃ events c, learners.system.Run events c ∧
    c.shared.metadata.state = .verified ∧
    c.shared.metadata.executionCount.toNat ≤ (events.filterMap ThreadEvent.call).length ∧
    (c.shared.metadata.state = .verified → 100 ≤ (events.filterMap ThreadEvent.call).length) := by
  have computed : learners.observe (samples 7 100) (fun c => some c.shared.metadata.state) =
      some .verified := by decide +kernel
  obtain ⟨events, c, run, state⟩ := Machine.run_of_observe computed
  exact ⟨events, c, run, Option.some.inj state, calls_of_verified run⟩

/-- However the calls interleave, if all report one result then the area is never rejected and
each of them returns true. -/
theorem accepts_of_uniform (run : learners.system.Run events c)
    (uniform : ∀ other ∈ events.filterMap ThreadEvent.call, other = result) :
    c.shared.metadata.state ≠ .rejected ∧
      ∀ t other answer, ThreadEvent.returns t other answer ∈ events → answer = true := by
  have sound : c.shared.Sound result := (learners_good result run).inv
  rw [← learners_begun run] at uniform
  refine ⟨(sound.accepts uniform).1, ?_⟩
  rw [learners_begun run] at uniform
  apply run.invariant (fun events (_ : Threads Nat U64 Learning Empty Empty Bool) =>
    (∀ other ∈ events.filterMap ThreadEvent.call, other = result) →
      ∀ t other answer, ThreadEvent.returns t other answer ∈ events → answer = true) _ _ uniform
  · exact fun _ _ _ _ _ _ member => absurd member List.not_mem_nil
  · intro events c event c' prior ih step uniform t other answer member
    rw [List.filterMap_append] at uniform
    obtain before | last := List.mem_append.mp member
    · exact ih (fun other earlier => uniform other (List.mem_append_left _ earlier)) t other answer
        before
    · obtain rfl := List.mem_singleton.mp last
      obtain ⟨_, _, fair⟩ := (learners_verified result).returns (prior.step step)
      apply fair
      intro other begun
      rw [learners_begun (prior.step step), List.filterMap_append] at begun
      exact uniform other begun

/-- Two calls that read the count before either writes it. -/
def lostUpdate : List (Machine.Turn Nat U64) :=
  .begins 0 7 :: .begins 1 7 :: List.replicate 6 (.goes 0) ++ List.replicate 8 (.goes 1) ++
    List.replicate 3 (.goes 0)

theorem accepts_of_uniform_lostUpdate : ∃ events c, learners.system.Run events c ∧
    events.filterMap ThreadEvent.call = [7, 7] ∧ c.shared.metadata.executionCount = 1 ∧
    c.shared.metadata.state ≠ .rejected ∧
    ∀ t other answer, ThreadEvent.returns t other answer ∈ events → answer = true := by
  have computed : learners.observe lostUpdate
      (fun c => some (c.shared.begun, c.shared.metadata.executionCount)) = some ([7, 7], 1) := by
    decide +kernel
  obtain ⟨events, c, run, seen⟩ := Machine.run_of_observe computed
  obtain ⟨begun, count⟩ := Prod.mk.inj (Option.some.inj seen)
  have calls : events.filterMap ThreadEvent.call = [7, 7] := (learners_begun run).symm.trans begun
  refine ⟨events, c, run, calls, count, @accepts_of_uniform events c 7 run ?_⟩
  rw [calls]
  simp

end Results

end Kcr
