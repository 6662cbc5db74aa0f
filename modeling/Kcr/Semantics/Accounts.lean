import Kcr.Semantics.Program
import Mathlib.Data.Finsupp.Weight
import Mathlib.Tactic.Abel

/-!
# Accounts of interleaved calls

A measure of the shared state to which every call adds, over all its accesses, what its result
costs. However calls interleave, the measure has gone up by what the calls that are over cost,
and by what the others have spent so far.
-/

namespace Kcr

namespace Program

variable {S L E A B G : Type} [AddCommGroup G] (measure : S → G)

/-- With `spent` before, what the accesses add to the measure comes to the cost of the result. -/
def Spends (cost : A → G) : G → Program S L E A → Prop
  | spent, .ret result => spent = cost result
  | _, .fault _ => True
  | spent, .access update rest =>
      ∀ s, Spends cost (spent + (measure (update s) - measure s)) (rest s)
  | spent, .lock _ rest => Spends cost spent rest
  | spent, .unlock _ rest => Spends cost spent rest

/-- No access adds to the measure. -/
def Quiet (program : Program S L E A) : Prop :=
  ∀ spent, program.Spends measure (fun _ => spent) spent

variable {measure} {spent : G}

namespace Spends

theorem pure {cost : A → G} {result : A} (pays : spent = cost result) :
    (pure result : Program S L E A).Spends measure cost spent := pays

/-- A program and what follows it. -/
theorem bind {between : A → G} {cost : B → G} {program : Program S L E A}
    {next : A → Program S L E B} (first : program.Spends measure between spent)
    (rest : ∀ result, (next result).Spends measure cost (between result)) :
    (program >>= next).Spends measure cost spent := by
  change (program.bind next).Spends measure cost spent
  induction program generalizing spent with
  | ret result =>
      obtain rfl : spent = between result := first
      exact rest result
  | fault reason => trivial
  | access update tail ih => exact fun s => ih s (first s)
  | lock l tail ih => exact ih first
  | unlock l tail ih => exact ih first

theorem write {update : S → S} {d : G} (adds : ∀ s, measure (update s) = measure s + d) :
    (write update : Program S L E Unit).Spends measure (fun _ => spent + d) spent := by
  intro s
  change spent + (measure (update s) - measure s) = spent + d
  rw [adds, add_sub_cancel_left]

end Spends

namespace Quiet

theorem intro {program : Program S L E A}
    (spends : ∀ spent, program.Spends measure (fun _ => spent) spent) : program.Quiet measure := spends

theorem pure (result : A) : (pure result : Program S L E A).Quiet measure := fun _ => rfl

theorem fault (reason : E) : (.fault reason : Program S L E A).Quiet measure := fun _ => trivial

theorem bind {program : Program S L E A} {next : A → Program S L E B}
    (first : program.Quiet measure) (rest : ∀ result, (next result).Quiet measure) :
    (program >>= next).Quiet measure :=
  fun spent => (first spent).bind fun result => rest result spent

/-- What follows a quiet program spends as if it came first. -/
theorem spends {program : Program S L E A} {next : A → Program S L E B} {cost : B → G}
    (first : program.Quiet measure) (rest : ∀ result, (next result).Spends measure cost spent) :
    (program >>= next).Spends measure cost spent :=
  (first spent).bind rest

theorem fetch {update : S → S} (same : ∀ s, measure (update s) = measure s) (get : S → A) :
    (fetch update get : Program S L E A).Quiet measure := by
  intro spent s
  change spent + (measure (update s) - measure s) = spent
  rw [same, sub_self, add_zero]

theorem read (get : S → A) : (read get : Program S L E A).Quiet measure :=
  fetch (fun _ => rfl) get

theorem write {update : S → S} (same : ∀ s, measure (update s) = measure s) :
    (write update : Program S L E Unit).Quiet measure :=
  fetch same fun _ => ()

theorem acquire (l : L) : (acquire l : Program S L E Unit).Quiet measure := fun _ => rfl

theorem release (l : L) : (release l : Program S L E Unit).Quiet measure := fun _ => rfl

end Quiet

end Program

namespace Machine

variable {T C S L E A G : Type} [DecidableEq T] [DecidableEq L] [AddCommGroup G]

/-- Only the accesses of calls add to the measure, and each call adds its cost. -/
structure Accounts (M : Machine T C S L E A) (measure : S → G) (cost : T → C → A → G) : Prop where
  enter : ∀ t call s, measure (M.enter t call s) = measure s
  tick : ∀ s, measure (M.tick s) = measure s
  body : ∀ t call, (M.body t call).Spends measure (cost t call) 0

/-- What the calls that are over have cost. -/
def charges (cost : T → C → A → G) (events : List (ThreadEvent T C A)) : G :=
  ((events.filterMap ThreadEvent.answer).map fun answer =>
    cost answer.1 answer.2.1 answer.2.2).sum

omit [DecidableEq T] in
theorem charges_concat (cost : T → C → A → G) (events : List (ThreadEvent T C A))
    (event : ThreadEvent T C A) :
    charges cost (events ++ [event]) = charges cost events + charges cost [event] := by
  simp [charges, List.filterMap_append]

omit [DecidableEq T] in
theorem charges_of_quiet (cost : T → C → A → G) {event : ThreadEvent T C A}
    (quiet : event.answer = none) : charges cost [event] = 0 := by
  simp [charges, quiet]

omit [DecidableEq T] in
theorem charges_of_returns (cost : T → C → A → G) (t : T) (call : C) (result : A) :
    charges cost [.returns t call result] = cost t call result := by
  simp [charges, ThreadEvent.answer]

variable {M : Machine T C S L E A} {measure : S → G} {cost : T → C → A → G}
  {events : List (ThreadEvent T C A)} {c c' : Threads T C S L E A} {paid : T →₀ G}

/-- The accounts balance, with what each thread has paid in its call. -/
structure Balanced (M : Machine T C S L E A) (measure : S → G) (cost : T → C → A → G)
    (events : List (ThreadEvent T C A)) (c : Threads T C S L E A) (paid : T →₀ G) : Prop where
  idle : ∀ t, c.activity t = none → paid t = 0
  busy : ∀ t activity, c.activity t = some activity →
    activity.program.Spends measure (cost t activity.call) (paid t)
  total : measure c.shared = measure M.initial + charges cost events + paid.degree

omit [DecidableEq L] in
/-- One thread goes on and pays, or has paid and is done. -/
theorem Balanced.update (balanced : Balanced M measure cost events c paid) {t : T} {d : G}
    {own : Option (Activity C S L E A)} {event : ThreadEvent T C A}
    (activities : c'.activity = Function.update c.activity t own)
    (idle : own = none → paid t + d = 0)
    (busy : ∀ activity ∈ own,
      activity.program.Spends measure (cost t activity.call) (paid t + d))
    (pays : measure c'.shared = measure c.shared + charges cost [event] + d) :
    Balanced M measure cost (events ++ [event]) c' (paid + Finsupp.single t d) := by
  have mine : (paid + Finsupp.single t d) t = paid t + d := by simp
  have others : ∀ u, u ≠ t → (paid + Finsupp.single t d) u = paid u := by
    intro u other
    simp [Ne.symm other]
  constructor
  · intro u none
    rw [activities] at none
    by_cases same : u = t
    · subst same
      rw [Function.update_self] at none
      exact mine.trans (idle none)
    · rw [Function.update_of_ne same] at none
      exact (others u same).trans (balanced.idle u none)
  · intro u activity here
    rw [activities] at here
    by_cases same : u = t
    · subst same
      rw [Function.update_self] at here
      rw [mine]
      exact busy activity here
    · rw [Function.update_of_ne same] at here
      rw [others u same]
      exact balanced.busy u activity here
  · rw [pays, balanced.total, charges_concat, map_add, Finsupp.degree_single]
    abel

/-- Every step keeps the accounts balanced. -/
theorem Balanced.step (accounts : M.Accounts measure cost)
    (balanced : Balanced M measure cost events c paid) {event : ThreadEvent T C A}
    (step : M.Moves c event c') :
    ∃ paid, Balanced M measure cost (events ++ [event]) c' paid := by
  cases step with
  | @begins t call idle =>
      refine ⟨_, balanced.update (t := t) (d := 0) rfl (by simp) ?_ ?_⟩
      · rintro activity ⟨⟩
        rw [balanced.idle t idle, add_zero]
        exact accounts.body t call
      · rw [charges_of_quiet cost rfl, accounts.enter, add_zero, add_zero]
  | @access t call start update rest here =>
      have spends := balanced.busy t _ here c.shared
      refine ⟨_, balanced.update (t := t) (d := measure (update c.shared) - measure c.shared) rfl
        (by simp) ?_ ?_⟩
      · rintro activity ⟨⟩
        exact spends
      · rw [charges_of_quiet cost rfl, add_zero, add_sub_cancel]
  | @lock t call start l rest here free =>
      have spends := balanced.busy t _ here
      refine ⟨_, balanced.update (t := t) (d := 0) rfl (by simp) ?_ ?_⟩
      · rintro activity ⟨⟩
        rw [add_zero]
        exact spends
      · rw [charges_of_quiet cost rfl, add_zero, add_zero]
  | @unlock t call start l rest here =>
      have spends := balanced.busy t _ here
      refine ⟨_, balanced.update (t := t) (d := 0) rfl (by simp) ?_ ?_⟩
      · rintro activity ⟨⟩
        rw [add_zero]
        exact spends
      · rw [charges_of_quiet cost rfl, add_zero, add_zero]
  | @returns t call start result here =>
      have paysOff : paid t = cost t call result := balanced.busy t _ here
      refine ⟨_, balanced.update (t := t) (d := -cost t call result) rfl (fun _ => ?_) (by simp) ?_⟩
      · rw [paysOff, add_neg_cancel]
      · rw [charges_of_returns, add_neg_cancel_right]
  | ticks =>
      refine ⟨paid, balanced.idle, balanced.busy, ?_⟩
      rw [accounts.tick, balanced.total, charges_concat, charges_of_quiet cost rfl, add_zero]

/-- In a run the measure is what the calls that are over have cost, with what the threads have
paid that are in a call. -/
theorem balanced_of_run (accounts : M.Accounts measure cost) (run : M.system.Run events c) :
    ∃ paid, Balanced M measure cost events c paid := by
  refine run.invariant (fun events (c : Threads T C S L E A) =>
    ∃ paid, Balanced M measure cost events c paid) ?_ ?_
  · rintro c rfl
    exact ⟨0, fun _ _ => rfl, nofun, by simp [charges]⟩
  · rintro events c event c' _ ⟨paid, balanced⟩ step
    exact balanced.step accounts step

/-- While no call is in progress, the measure is what the calls have cost. -/
theorem measure_of_idle (accounts : M.Accounts measure cost) (run : M.system.Run events c)
    (idle : ∀ t, c.activity t = none) :
    measure c.shared = measure M.initial + charges cost events := by
  obtain ⟨paid, balanced⟩ := balanced_of_run accounts run
  have nothing : paid = 0 := Finsupp.ext fun t => balanced.idle t (idle t)
  rw [balanced.total, nothing, map_zero, add_zero]

end Machine

-- From here on programs are accounted for by the rules, and not by running them.
attribute [irreducible] Program.Spends Program.Quiet

end Kcr
