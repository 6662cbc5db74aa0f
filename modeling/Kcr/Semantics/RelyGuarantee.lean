import Kcr.Semantics.Program

/-!
# Reasoning about threads one at a time

A protocol says what always holds, what each lock protects while it is free, and what a
thread may do to the shared state. A program meets it when each of its accesses keeps to it,
given assertions that the steps of other threads cannot falsify. If all calls of a machine
meet the protocol, what is proved of each call alone holds in every interleaving.
-/

namespace Kcr

/-- The rules that threads agree on. A step belongs to a thread and the lock it holds, if any.
Those who do not hold a lock do not touch what it protects, and between its calls a thread
owns nothing that others could take from it. Some faults may happen and others may not. -/
structure Protocol (T S L E : Type) where
  Inv : S → Prop
  Res : L → S → Prop
  Idle : T → S → Prop
  Step : T → Option L → S → S → Prop
  Env : S → S → Prop
  Fault : E → Prop
  res_step : ∀ {t : T} {held : Option L} {l : L} {s s' : S}, l ∉ held → Inv s → Inv s' →
    Step t held s s' → Res l s → Res l s'
  res_env : ∀ {l : L} {s s' : S}, Inv s → Inv s' → Env s s' → Res l s → Res l s'
  idle_step : ∀ {t u : T} {held : Option L} {s s' : S}, u ≠ t → Inv s → Inv s' →
    Step u held s s' → Idle t s → Idle t s'
  idle_env : ∀ {t : T} {s s' : S}, Inv s → Inv s' → Env s s' → Idle t s → Idle t s'

namespace Protocol

variable {T C S L E A B : Type} (R : Protocol T S L E)

/-- What a thread that holds a lock has to expect of the others. -/
def Interferes (t : T) (held : Option L) (s s' : S) : Prop :=
  R.Inv s ∧ R.Inv s' ∧
    (R.Env s s' ∨ ∃ u mine, u ≠ t ∧ (∀ l ∈ held, l ∉ mine) ∧ R.Step u mine s s')

/-- An assertion that the others do not falsify. -/
def Stable (t : T) (held : Option L) (P : S → Prop) : Prop :=
  ∀ s s', R.Interferes t held s s' → P s → P s'

/-- From a state in which `P` holds, and holding `held`, the program keeps to the protocol,
takes one lock at a time, and returns holding `after` with a result that meets `post`, or
runs into a fault that may happen. -/
def Meets (t : T) (post : A → S → Prop) (after : Option L) :
    Option L → (S → Prop) → Program S L E A → Prop
  | held, P, .ret result => held = after ∧ ∀ s, R.Inv s → P s → post result s
  | _, P, .fault reason => ∀ s, R.Inv s → P s → R.Fault reason
  | held, P, .access update rest => ∀ s, R.Inv s → P s →
      R.Inv (update s) ∧ R.Step t held s (update s) ∧
      ∃ Q, R.Stable t held Q ∧ Q (update s) ∧ Meets t post after held Q (rest s)
  | held, P, .lock l rest => held = none ∧
      ∃ Q, R.Stable t (some l) Q ∧ (∀ s, R.Inv s → R.Res l s → P s → Q s) ∧
        Meets t post after (some l) Q rest
  | held, P, .unlock l rest => held = some l ∧
      ∃ Q, R.Stable t none Q ∧ (∀ s, R.Inv s → P s → R.Res l s ∧ Q s) ∧
        Meets t post after none Q rest

section Rules

variable {R} {t : T} {held after : Option L} {P Q : S → Prop}

theorem Stable.and (first : R.Stable t held P) (second : R.Stable t held Q) :
    R.Stable t held fun s => P s ∧ Q s :=
  fun s s' moved holds => ⟨first s s' moved holds.1, second s s' moved holds.2⟩

theorem stable_const (p : Prop) : R.Stable t held fun _ => p := fun _ _ _ holds => holds

theorem stable_forall {I : Type} {P : I → S → Prop} (each : ∀ i, R.Stable t held (P i)) :
    R.Stable t held fun s => ∀ i, P i s :=
  fun s s' moved holds i => each i s s' moved (holds i)

theorem Meets.weaken {post : A → S → Prop} {program : Program S L E A}
    (meets : R.Meets t post after held Q program) (entails : ∀ s, R.Inv s → P s → Q s) :
    R.Meets t post after held P program := by
  cases program with
  | ret result => exact ⟨meets.1, fun s inv holds => meets.2 s inv (entails s inv holds)⟩
  | fault reason => exact fun s inv holds => meets s inv (entails s inv holds)
  | access update rest => exact fun s inv holds => meets s inv (entails s inv holds)
  | lock l rest =>
      obtain ⟨none, Q', stable, acquired, rest⟩ := meets
      exact ⟨none, Q', stable, fun s inv res holds => acquired s inv res (entails s inv holds), rest⟩
  | unlock l rest =>
      obtain ⟨own, Q', stable, given, rest⟩ := meets
      exact ⟨own, Q', stable, fun s inv holds => given s inv (entails s inv holds), rest⟩

theorem Meets.entails {post post' : A → S → Prop} {program : Program S L E A}
    (meets : R.Meets t post after held P program)
    (entails : ∀ result s, R.Inv s → post result s → post' result s) :
    R.Meets t post' after held P program := by
  induction program generalizing held P with
  | ret result => exact ⟨meets.1, fun s inv holds => entails result s inv (meets.2 s inv holds)⟩
  | fault reason => exact meets
  | access update rest ih =>
      intro s inv holds
      obtain ⟨inv', step, Q, stable, holds', rest⟩ := meets s inv holds
      exact ⟨inv', step, Q, stable, holds', ih s rest⟩
  | lock l rest ih =>
      obtain ⟨none, Q, stable, acquired, rest⟩ := meets
      exact ⟨none, Q, stable, acquired, ih rest⟩
  | unlock l rest ih =>
      obtain ⟨own, Q, stable, given, rest⟩ := meets
      exact ⟨own, Q, stable, given, ih rest⟩

theorem Meets.pure {post : A → S → Prop} {result : A}
    (returns : ∀ s, R.Inv s → P s → post result s) :
    R.Meets t post held held P (pure result : Program S L E A) := ⟨rfl, returns⟩

theorem Meets.fault {post : A → S → Prop} {reason : E}
    (allowed : ∀ s, R.Inv s → P s → R.Fault reason) :
    R.Meets t post after held P (.fault reason : Program S L E A) := allowed

/-- A program and what follows it, through an assertion on its result. -/
theorem Meets.bind {between : Option L} {mid : A → S → Prop} {post : B → S → Prop}
    {program : Program S L E A} {next : A → Program S L E B}
    (first : R.Meets t mid between held P program)
    (rest : ∀ result, R.Meets t post after between (mid result) (next result)) :
    R.Meets t post after held P (program >>= next) := by
  change R.Meets t post after held P (program.bind next)
  induction program generalizing held P with
  | ret result =>
      obtain ⟨rfl, returns⟩ := first
      exact (rest result).weaken returns
  | fault reason => exact first
  | access update tail ih =>
      intro s inv holds
      obtain ⟨inv', step, Q, stable, holds', meets⟩ := first s inv holds
      exact ⟨inv', step, Q, stable, holds', ih s meets⟩
  | lock l tail ih =>
      obtain ⟨none, Q, stable, acquired, meets⟩ := first
      exact ⟨none, Q, stable, acquired, ih meets⟩
  | unlock l tail ih =>
      obtain ⟨own, Q, stable, given, meets⟩ := first
      exact ⟨own, Q, stable, given, ih meets⟩

/-- An access that only reads: the assertion stays, with what was read. -/
theorem Meets.read {get : S → A} {mid : A → S → Prop} (quiet : ∀ s, R.Inv s → R.Step t held s s)
    (stable : ∀ result, R.Stable t held (mid result))
    (reads : ∀ s, R.Inv s → P s → mid (get s) s) :
    R.Meets t mid held held P (Program.read get : Program S L E A) := by
  intro s inv holds
  exact ⟨inv, quiet s inv, mid (get s), stable (get s), reads s inv holds, rfl, fun _ _ seen => seen⟩

theorem Meets.fetch {update : S → S} {get : S → A} {mid : A → S → Prop}
    (stable : ∀ result, R.Stable t held (mid result))
    (moves : ∀ s, R.Inv s → P s →
      R.Inv (update s) ∧ R.Step t held s (update s) ∧ mid (get s) (update s)) :
    R.Meets t mid held held P (Program.fetch update get : Program S L E A) := by
  intro s inv holds
  obtain ⟨inv', step, seen⟩ := moves s inv holds
  exact ⟨inv', step, mid (get s), stable (get s), seen, rfl, fun _ _ seen => seen⟩

theorem Meets.write {update : S → S} {Q : S → Prop} (stable : R.Stable t held Q)
    (moves : ∀ s, R.Inv s → P s → R.Inv (update s) ∧ R.Step t held s (update s) ∧ Q (update s)) :
    R.Meets t (fun _ => Q) held held P (Program.write update : Program S L E Unit) := by
  intro s inv holds
  obtain ⟨inv', step, holds'⟩ := moves s inv holds
  exact ⟨inv', step, Q, stable, holds', rfl, fun _ _ seen => seen⟩

theorem Meets.acquire {l : L} {Q : S → Prop} (stable : R.Stable t (some l) Q)
    (acquired : ∀ s, R.Inv s → R.Res l s → P s → Q s) :
    R.Meets t (fun _ => Q) (some l) none P (Program.acquire l : Program S L E Unit) :=
  ⟨rfl, Q, stable, acquired, rfl, fun _ _ seen => seen⟩

theorem Meets.release {l : L} {Q : S → Prop} (stable : R.Stable t none Q)
    (given : ∀ s, R.Inv s → P s → R.Res l s ∧ Q s) :
    R.Meets t (fun _ => Q) none (some l) P (Program.release l : Program S L E Unit) :=
  ⟨rfl, Q, stable, given, rfl, fun _ _ seen => seen⟩

end Rules

/-- Every call of the machine meets the protocol, and what it returns meets the postcondition,
which may refer to the state the call began in. -/
structure Verifies (M : Machine T C S L E A) (post : T → C → S → A → S → Prop) : Prop where
  initial : R.Inv M.initial
  resources : ∀ l, R.Res l M.initial
  idle : ∀ t, R.Idle t M.initial
  tick : ∀ s, R.Inv s → R.Inv (M.tick s) ∧ R.Env s (M.tick s)
  enter : ∀ t call s, R.Inv s → R.Inv (M.enter t call s) ∧ R.Env s (M.enter t call s)
  body : ∀ t call start, R.Inv start → R.Idle t start →
    ∃ P, R.Stable t none P ∧ P (M.enter t call start) ∧
      R.Meets t (post t call (M.enter t call start)) none none P (M.body t call)
  settled : ∀ t call start result s, R.Inv s → post t call start result s → R.Idle t s

variable {R} [DecidableEq T] [DecidableEq L] {M : Machine T C S L E A}
  {post : T → C → S → A → S → Prop} {c c' : Threads T C S L E A}

/-- Where a thread stands: the lock it holds, and an assertion under which the rest of its
program meets the protocol. -/
def Stands (R : Protocol T S L E) (post : T → C → S → A → S → Prop) (c : Threads T C S L E A)
    (t : T) (activity : Activity C S L E A) : Prop :=
  ∃ held P, (∀ l, c.owner l = some t ↔ l ∈ held) ∧ R.Stable t held P ∧ P c.shared ∧
    R.Meets t (post t activity.call activity.start) none held P activity.program

/-- The invariant of all interleavings. -/
structure Good (R : Protocol T S L E) (post : T → C → S → A → S → Prop)
    (c : Threads T C S L E A) : Prop where
  inv : R.Inv c.shared
  free : ∀ l, c.owner l = none → R.Res l c.shared
  owned : ∀ t l, c.owner l = some t → c.activity t ≠ none
  idle : ∀ t, c.activity t = none → R.Idle t c.shared
  stands : ∀ t activity, c.activity t = some activity → R.Stands post c t activity

omit [DecidableEq T] [DecidableEq L] in
/-- A thread stands where it stood while the others keep to what it expects of them. -/
theorem Stands.later {u : T} {activity : Activity C S L E A} (stands : R.Stands post c u activity)
    (owner : ∀ l, c'.owner l = some u ↔ c.owner l = some u)
    (moved : ∀ held, (∀ l, c.owner l = some u ↔ l ∈ held) →
      R.Interferes u held c.shared c'.shared ∨ c'.shared = c.shared) :
    R.Stands post c' u activity := by
  obtain ⟨held, P, holds, stable, now, meets⟩ := stands
  refine ⟨held, P, fun l => (owner l).trans (holds l), stable, ?_, meets⟩
  obtain interferes | same := moved held holds
  · exact stable _ _ interferes now
  · exact same ▸ now

omit [DecidableEq L] in
/-- In the update of one thread's activity, the others stand where they stood. -/
theorem stands_update {t : T} {own : Option (Activity C S L E A)}
    (activities : c'.activity = Function.update c.activity t own)
    (mine : ∀ activity, own = some activity → R.Stands post c' t activity)
    (others : ∀ u activity, u ≠ t → c.activity u = some activity → R.Stands post c' u activity)
    (u : T) (activity : Activity C S L E A) (here : c'.activity u = some activity) :
    R.Stands post c' u activity := by
  rw [activities] at here
  by_cases same : u = t
  · subst same
    rw [Function.update_self] at here
    exact mine activity here
  · rw [Function.update_of_ne same] at here
    exact others u activity same here

omit [DecidableEq L] in
/-- In the update of one thread's activity, the others are idle if they were. -/
theorem idle_update {t : T} {own : Option (Activity C S L E A)}
    (activities : c'.activity = Function.update c.activity t own)
    (mine : own = none → R.Idle t c'.shared)
    (others : ∀ u, u ≠ t → c.activity u = none → R.Idle u c'.shared) (u : T)
    (idle : c'.activity u = none) : R.Idle u c'.shared := by
  rw [activities] at idle
  by_cases same : u = t
  · subst same
    rw [Function.update_self] at idle
    exact mine idle
  · rw [Function.update_of_ne same] at idle
    exact others u same idle

namespace Good

omit [DecidableEq L] in
/-- A step of a thread on the shared state. -/
theorem access (good : Good R post c) {t : T} {call : C} {start : S} {update : S → S}
    {rest : S → Program S L E A} (here : c.activity t = some ⟨call, start, .access update rest⟩) :
    Good R post
      { c with
        shared := update c.shared
        activity := Function.update c.activity t (some ⟨call, start, rest c.shared⟩) } := by
  obtain ⟨held, P, holds, _, now, meets⟩ := good.stands t _ here
  obtain ⟨inv, step, Q, stable, later, rest⟩ := meets c.shared good.inv now
  constructor
  · exact inv
  · intro l free
    apply R.res_step _ good.inv inv step (good.free l free)
    intro mine
    rw [(holds l).mpr mine] at free
    cases free
  · intro u l owns
    by_cases same : u = t
    · simp [same]
    · simpa [Function.update_of_ne same] using good.owned u l owns
  · refine idle_update rfl (by simp) fun u other idle => ?_
    exact R.idle_step (Ne.symm other) good.inv inv step (good.idle u idle)
  · apply stands_update rfl
    · rintro activity ⟨⟩
      exact ⟨held, Q, holds, stable, later, rest⟩
    · intro u activity other earlier
      refine (good.stands u activity earlier).later (fun l => Iff.rfl) fun held' holds' => ?_
      refine .inl ⟨good.inv, inv, .inr ⟨t, held, Ne.symm other, fun l theirs mine => ?_, step⟩⟩
      have owner := (holds' l).mpr theirs
      rw [(holds l).mpr mine] at owner
      exact other (Option.some.inj owner).symm

/-- An acquisition: the thread gets what the lock protects. -/
theorem lock (good : Good R post c) {t : T} {call : C} {start : S} {l : L}
    {rest : Program S L E A} (here : c.activity t = some ⟨call, start, .lock l rest⟩)
    (free : c.owner l = none) :
    Good R post
      { c with
        owner := Function.update c.owner l (some t)
        activity := Function.update c.activity t (some ⟨call, start, rest⟩) } := by
  obtain ⟨held, P, holds, _, now, rfl, Q, stable, acquired, rest⟩ := good.stands t _ here
  constructor
  · exact good.inv
  · intro l' free'
    by_cases same : l' = l
    · simp [same] at free'
    · exact good.free l' (by simpa [Function.update_of_ne same] using free')
  · intro u l' owns
    by_cases same : u = t
    · simp [same]
    · have before : c.owner l' = some u := by
        by_cases own : l' = l
        · subst own
          simp only [Function.update_self, Option.some.injEq] at owns
          exact absurd owns.symm same
        · simpa [Function.update_of_ne own] using owns
      simpa [Function.update_of_ne same] using good.owned u l' before
  · exact idle_update rfl (by simp) fun u _ idle => good.idle u idle
  · apply stands_update rfl
    · rintro activity ⟨⟩
      refine ⟨some l, Q, fun l' => ?_, stable, acquired _ good.inv (good.free l free) now, rest⟩
      by_cases own : l' = l
      · simp [own]
      · have unheld : c.owner l' ≠ some t := fun owner => by simpa using (holds l').mp owner
        have other : l' ∉ some l := fun same => own (Option.some.inj same).symm
        simpa [Function.update_of_ne own, unheld] using other
    · intro u activity other earlier
      refine (good.stands u activity earlier).later (fun l' => ?_) fun _ _ => .inr rfl
      by_cases own : l' = l
      · simp [own, free, Ne.symm other]
      · simp [Function.update_of_ne own]

/-- A release: what the lock protects is given back. -/
theorem unlock (good : Good R post c) {t : T} {call : C} {start : S} {l : L}
    {rest : Program S L E A} (here : c.activity t = some ⟨call, start, .unlock l rest⟩) :
    Good R post
      { c with
        owner := Function.update c.owner l none
        activity := Function.update c.activity t (some ⟨call, start, rest⟩) } := by
  obtain ⟨held, P, holds, _, now, rfl, Q, stable, given, rest⟩ := good.stands t _ here
  obtain ⟨res, later⟩ := given _ good.inv now
  have mine : c.owner l = some t := (holds l).mpr rfl
  constructor
  · exact good.inv
  · intro l' free
    by_cases same : l' = l
    · exact same ▸ res
    · exact good.free l' (by simpa [Function.update_of_ne same] using free)
  · intro u l' owns
    have other : l' ≠ l := by
      rintro rfl
      simp at owns
    have before : c.owner l' = some u := by simpa [Function.update_of_ne other] using owns
    by_cases same : u = t
    · simp [same]
    · simpa [Function.update_of_ne same] using good.owned u l' before
  · exact idle_update rfl (by simp) fun u _ idle => good.idle u idle
  · apply stands_update rfl
    · rintro activity ⟨⟩
      refine ⟨none, Q, fun l' => ?_, stable, later, rest⟩
      by_cases own : l' = l
      · simp [own]
      · have unheld : c.owner l' ≠ some t := by
          intro owner
          exact own (Option.some.inj ((holds l').mp owner)).symm
        simp [Function.update_of_ne own, unheld]
    · intro u activity other earlier
      refine (good.stands u activity earlier).later (fun l' => ?_) fun _ _ => .inr rfl
      by_cases own : l' = l
      · simp [own, mine, Ne.symm other]
      · simp [Function.update_of_ne own]

omit [DecidableEq L] in
/-- A return: the thread holds no lock. -/
theorem returns (verified : R.Verifies M post) (good : Good R post c) {t : T} {call : C} {start : S} {result : A}
    (here : c.activity t = some ⟨call, start, .ret result⟩) :
    post t call start result c.shared ∧
      Good R post { c with activity := Function.update c.activity t none } := by
  obtain ⟨held, P, holds, _, now, rfl, returns⟩ := good.stands t _ here
  have met := returns _ good.inv now
  refine ⟨met, good.inv, good.free, fun u l owns => ?_, ?_, ?_⟩
  · by_cases same : u = t
    · subst same
      simpa using (holds l).mp owns
    · simpa [Function.update_of_ne same] using good.owned u l owns
  · exact idle_update rfl (fun _ => verified.settled _ _ _ _ _ good.inv met)
      fun u _ idle => good.idle u idle
  · apply stands_update rfl
    · rintro activity ⟨⟩
    · intro u activity _ earlier
      exact (good.stands u activity earlier).later (fun l => Iff.rfl) fun _ _ => .inr rfl

omit [DecidableEq T] [DecidableEq L] in
/-- The environment moves, or a call begins. -/
theorem env (good : Good R post c) {s : S} (inv : R.Inv s) (step : R.Env c.shared s) :
    Good R post { c with shared := s } where
  inv := inv
  free l free := R.res_env good.inv inv step (good.free l free)
  owned := good.owned
  idle t idle := R.idle_env good.inv inv step (good.idle t idle)
  stands u activity earlier :=
    (good.stands u activity earlier).later (fun _ => Iff.rfl) fun _ _ =>
      .inl ⟨good.inv, inv, .inl step⟩

omit [DecidableEq L] in
theorem begins (verified : R.Verifies M post) (good : Good R post c) {t : T} {call : C}
    (idle : c.activity t = none) :
    Good R post
      { c with
        shared := M.enter t call c.shared
        activity := Function.update c.activity t
          (some ⟨call, M.enter t call c.shared, M.body t call⟩) } := by
  obtain ⟨inv, step⟩ := verified.enter t call c.shared good.inv
  obtain ⟨P, stable, now, meets⟩ := verified.body t call c.shared good.inv (good.idle t idle)
  have entered := good.env inv step
  have unowned : ∀ l, c.owner l ≠ some t := fun l owner => good.owned t l owner idle
  refine ⟨inv, entered.free, fun u l owns => ?_, ?_, ?_⟩
  · by_cases same : u = t
    · simp [same]
    · simpa [Function.update_of_ne same] using good.owned u l owns
  · exact idle_update rfl (by simp) fun u _ idle => entered.idle u idle
  · apply stands_update rfl
    · rintro activity ⟨⟩
      exact ⟨none, P, fun l => by simp [unowned l], stable, now, meets⟩
    · intro u activity _ earlier
      exact (entered.stands u activity earlier).later (fun l => Iff.rfl) fun _ _ => .inr rfl

/-- What a step does to the shared state. -/
theorem shared_cases (good : Good R post c) {event : ThreadEvent T C A}
    (step : M.Moves c event c') :
    event.call = none ∧ c'.shared = c.shared ∨
      (∃ t held, event = .moves t ∧ R.Step t held c.shared c'.shared) ∨
      (∃ t call, event = .begins t call ∧ c'.shared = M.enter t call c.shared) ∨
      event = .ticks ∧ c'.shared = M.tick c.shared := by
  cases step with
  | @begins t call idle => exact .inr (.inr (.inl ⟨t, call, rfl, rfl⟩))
  | @access t call start update rest here =>
      obtain ⟨held, P, _, _, now, meets⟩ := good.stands t _ here
      exact .inr (.inl ⟨t, held, rfl, (meets c.shared good.inv now).2.1⟩)
  | lock here free => exact .inl ⟨rfl, rfl⟩
  | unlock here => exact .inl ⟨rfl, rfl⟩
  | returns here => exact .inl ⟨rfl, rfl⟩
  | ticks => exact .inr (.inr (.inr ⟨rfl, rfl⟩))

theorem step (verified : R.Verifies M post) (good : Good R post c)
    {event : ThreadEvent T C A} (step : M.Moves c event c') : Good R post c' := by
  cases step with
  | begins idle => exact good.begins verified idle
  | access here => exact good.access here
  | lock here free => exact good.lock here free
  | unlock here => exact good.unlock here
  | returns here => exact (good.returns verified here).2
  | ticks =>
      obtain ⟨inv, moved⟩ := verified.tick c.shared good.inv
      exact good.env inv moved

theorem steps (verified : R.Verifies M post) (good : Good R post c)
    {events : List (ThreadEvent T C A)} {c' : Threads T C S L E A}
    (steps : M.system.Steps c events c') : Good R post c' :=
  steps.invariant (fun c : Threads T C S L E A => Good R post c)
    (fun good step => good.step verified step) good

theorem run (verified : R.Verifies M post) {events : List (ThreadEvent T C A)}
    {c : Threads T C S L E A} (run : M.system.Run events c) : Good R post c := by
  apply run.invariant (fun _ (c : Threads T C S L E A) => Good R post c)
  · rintro c rfl
    refine ⟨verified.initial, fun l _ => verified.resources l, nofun, fun t _ => verified.idle t, nofun⟩
  · exact fun _ good step => good.step verified step

end Good

/-- A relation that contains what threads and the environment may do, relates the shared states
of a run. -/
theorem Good.later (verified : R.Verifies M post) (Rel : S → S → Prop)
    (refl : ∀ s, Rel s s) (trans : ∀ {s s' s''}, Rel s s' → Rel s' s'' → Rel s s'')
    (step : ∀ {t held s s'}, R.Step t held s s' → Rel s s')
    (env : ∀ {s s'}, R.Env s s' → Rel s s') (good : Good R post c)
    {events : List (ThreadEvent T C A)} {c' : Threads T C S L E A}
    (steps : M.system.Steps c events c') : Rel c.shared c'.shared := by
  have both : Good R post c' ∧ Rel c.shared c'.shared := by
    refine steps.invariant (fun c' : Threads T C S L E A => Good R post c' ∧ Rel c.shared c'.shared)
      ?_ ⟨good, refl _⟩
    intro c₁ event c₂ ⟨good, related⟩ moves
    refine ⟨good.step verified moves, trans related ?_⟩
    obtain ⟨_, same⟩ | ⟨t, held, _, moved⟩ | ⟨t, call, _, enters⟩ | ⟨_, ticks⟩ :=
      good.shared_cases moves
    · exact same ▸ refl _
    · exact step moved
    · exact enters ▸ env (verified.enter t call c₁.shared good.inv).2
    · exact ticks ▸ env (verified.tick c₁.shared good.inv).2
  exact both.2

/-- What a call returns, in any interleaving, meets its postcondition. -/
theorem Verifies.returns (verified : R.Verifies M post) {events : List (ThreadEvent T C A)}
    {t : T} {call : C} {result : A} {c : Threads T C S L E A}
    (run : M.system.Run (events ++ [.returns t call result]) c) :
    ∃ start, M.Began events t call start ∧ post t call start result c.shared := by
  obtain ⟨before, prior, step⟩ := run.last
  cases step with
  | @returns _ _ start _ here =>
      exact ⟨start, Machine.began_of_run prior here, ((Good.run verified prior).returns verified here).1⟩

/-- What is on record for a thread between its calls is accounted for: the others put nothing
there, and what a call has put there is accounted for when it returns. -/
theorem Verifies.accounted (verified : R.Verifies M post) {X : Type} (Record : S → T → X → Prop)
    (Account : List (ThreadEvent T C A) → T → X → Prop)
    (initial : ∀ t x, ¬Record M.initial t x)
    (env : ∀ {s s'} t x, R.Env s s' → Record s' t x → Record s t x)
    (others : ∀ {t held s s'} u x, u ≠ t → R.Step t held s s' → Record s' u x → Record s u x)
    (later : ∀ {events t x} event, Account events t x → Account (events ++ [event]) t x)
    (returns : ∀ {t call start result s} events x, post t call start result s → Record s t x →
      Record start t x ∨ Account (events ++ [.returns t call result]) t x)
    {events : List (ThreadEvent T C A)} (run : M.system.Run events c) {t : T} {x : X}
    (idle : c.activity t = none) (recorded : Record c.shared t x) : Account events t x := by
  -- While a thread is in a call, the state the call began in has the records accounted for.
  have both : (∀ t x, c.activity t = none → Record c.shared t x → Account events t x) ∧
      ∀ t x activity, c.activity t = some activity → Record activity.start t x →
        Account events t x := by
    refine run.invariant (fun events (c : Threads T C S L E A) =>
      (∀ t x, c.activity t = none → Record c.shared t x → Account events t x) ∧
        ∀ t x activity, c.activity t = some activity → Record activity.start t x →
          Account events t x) ?_ ?_
    · rintro c rfl
      exact ⟨fun t x _ recorded => absurd recorded (initial t x), nofun⟩
    · intro events c event c' prior ⟨between, during⟩ step
      have good := Good.run verified prior
      refine ⟨fun u x idle recorded => ?_, fun u x activity here recorded => ?_⟩
      · cases step with
        | @begins t call _ =>
            obtain ⟨_, ⟨⟩⟩ | ⟨_, before⟩ := Machine.idle_of_update idle
            exact later _ (between u x before (env u x (verified.enter t call _ good.inv).2 recorded))
        | @access t call start update rest here =>
            obtain ⟨_, ⟨⟩⟩ | ⟨other, before⟩ := Machine.idle_of_update idle
            obtain ⟨held, P, _, _, now, meets⟩ := good.stands t _ here
            have step := (meets c.shared good.inv now).2.1
            exact later _ (between u x before (others u x other step recorded))
        | lock | unlock =>
            obtain ⟨_, ⟨⟩⟩ | ⟨_, before⟩ := Machine.idle_of_update idle
            exact later _ (between u x before recorded)
        | @returns t call start result here =>
            obtain ⟨rfl, _⟩ | ⟨_, before⟩ := Machine.idle_of_update idle
            · obtain old | new := returns events x (good.returns verified here).1 recorded
              · exact later _ (during u x _ here old)
              · exact new
            · exact later _ (between u x before recorded)
        | ticks => exact later _ (between u x idle (env u x (verified.tick _ good.inv).2 recorded))
      · obtain ⟨program, earlier⟩ | ⟨rfl, start⟩ := step.activity_cases here
        · exact later _ (during u x _ earlier recorded)
        · cases step with
          | begins idle =>
              rw [start] at recorded
              exact later _ (between u x idle (env u x (verified.enter u _ _ good.inv).2 recorded))
  exact both.1 t x idle recorded

/-! ## Locks -/

end Protocol

namespace Machine

variable {T C S L E A : Type} [DecidableEq T] [DecidableEq L]

/-- The thread can take a step of its own. -/
def CanMove (M : Machine T C S L E A) (c : Threads T C S L E A) (t : T) : Prop :=
  ∃ c', M.Moves c (.moves t) c' ∨ ∃ call result, M.Moves c (.returns t call result) c'

end Machine

namespace Threads

variable {T C S L E A : Type}

/-- The thread wants a lock that someone holds. -/
def Waits (c : Threads T C S L E A) (t : T) (l : L) : Prop :=
  c.owner l ≠ none ∧ ∃ call start rest, c.activity t = some ⟨call, start, .lock l rest⟩

/-- The thread has faulted, for a reason. -/
def Faulted (c : Threads T C S L E A) (t : T) (reason : E) : Prop :=
  ∃ call start, c.activity t = some ⟨call, start, .fault reason⟩

end Threads

namespace Protocol

variable {T C S L E A : Type} {R : Protocol T S L E} [DecidableEq T] [DecidableEq L]
  {M : Machine T C S L E A} {post : T → C → S → A → S → Prop} {c : Threads T C S L E A}

namespace Good

omit [DecidableEq T] [DecidableEq L] in
/-- A thread has only run into a fault that may happen. -/
theorem faulted (good : Good R post c) {t : T} {reason : E} (faulted : c.Faulted t reason) :
    R.Fault reason := by
  obtain ⟨call, start, here⟩ := faulted
  obtain ⟨_, _, _, _, now, meets⟩ := good.stands t _ here
  exact meets _ good.inv now

omit [DecidableEq T] [DecidableEq L] in
/-- A thread holds one lock at a time. -/
theorem oneLock (good : Good R post c) {t : T} {l l' : L} (first : c.owner l = some t)
    (second : c.owner l' = some t) : l = l' := by
  obtain ⟨activity, here⟩ := Option.ne_none_iff_exists'.mp (good.owned t l first)
  obtain ⟨held, _, holds, _⟩ := good.stands t activity here
  exact Option.some.inj (((holds l).mp first).symm.trans ((holds l').mp second))

omit [DecidableEq T] [DecidableEq L] in
/-- A thread that wants a lock, or is about to return, holds none. -/
theorem unowned (good : Good R post c) {t : T} {activity : Activity C S L E A}
    (here : c.activity t = some activity)
    (outside : (∃ l rest, activity.program = .lock l rest) ∨
      ∃ result, activity.program = .ret result) (l : L) : c.owner l ≠ some t := by
  obtain ⟨held, _, holds, _, _, meets⟩ := good.stands t activity here
  have none : held = none := by
    obtain ⟨_, _, program⟩ | ⟨_, program⟩ := outside
    · rw [program] at meets
      exact meets.1
    · rw [program] at meets
      exact meets.1
  intro owner
  rw [holds, none] at owner
  cases owner

/-- A thread in a call moves, has faulted, or waits for a lock. -/
theorem canMove_cases (M : Machine T C S L E A) {t : T} {activity : Activity C S L E A}
    (here : c.activity t = some activity) :
    M.CanMove c t ∨ (∃ reason, c.Faulted t reason) ∨
      ∃ l rest, activity.program = .lock l rest ∧ c.owner l ≠ none := by
  obtain ⟨call, start, program⟩ := activity
  cases program with
  | ret result => exact .inl ⟨_, .inr ⟨call, result, .returns here⟩⟩
  | fault reason => exact .inr (.inl ⟨reason, call, start, here⟩)
  | access update rest => exact .inl ⟨_, .inl (.access here)⟩
  | unlock l rest => exact .inl ⟨_, .inl (.unlock here)⟩
  | lock l rest =>
      by_cases free : c.owner l = none
      · exact .inl ⟨_, .inl (.lock here free)⟩
      · exact .inr (.inr ⟨l, rest, rfl, free⟩)

/-- No deadlock: whoever waits, waits for a thread that moves, unless that one has faulted. -/
theorem progress (M : Machine T C S L E A) (good : Good R post c) {t : T}
    (busy : c.activity t ≠ none) :
    M.CanMove c t ∨ (∃ reason, c.Faulted t reason) ∨
      ∃ l u, c.Waits t l ∧ c.owner l = some u ∧ u ≠ t ∧
        (M.CanMove c u ∨ ∃ reason, c.Faulted u reason) := by
  obtain ⟨activity, here⟩ := Option.ne_none_iff_exists'.mp busy
  obtain moves | faulted | ⟨l, rest, program, taken⟩ := canMove_cases M here
  · exact .inl moves
  · exact .inr (.inl faulted)
  · obtain ⟨u, owner⟩ := Option.ne_none_iff_exists'.mp taken
    have waits : c.Waits t l := by
      obtain ⟨call, start, _⟩ := activity
      exact ⟨taken, call, start, rest, program ▸ here⟩
    refine .inr (.inr ⟨l, u, waits, owner, ?_, ?_⟩)
    · rintro rfl
      exact good.unowned here (.inl ⟨l, rest, program⟩) l owner
    · obtain ⟨other, there⟩ := Option.ne_none_iff_exists'.mp (good.owned u l owner)
      obtain moves | faulted | ⟨l', rest', wants, _⟩ := canMove_cases M there
      · exact .inl moves
      · exact .inr faulted
      · exact absurd owner (good.unowned there (.inl ⟨l', rest', wants⟩) l)

/-! ## A thread that is not interrupted -/

/-- By steps of its own the thread gets to the given place, with that state; no other thread
holds a lock then. -/
def Reaches (M : Machine T C S L E A) (c : Threads T C S L E A) (t : T)
    (activity : Activity C S L E A) (s : S) : Prop :=
  ∃ n, ∃ c' : Threads T C S L E A,
    M.system.Steps c (List.replicate n (.moves t)) c' ∧ c'.shared = s ∧
    c'.activity = Function.update c.activity t (some activity) ∧
    ∀ l u, c'.owner l = some u → u = t

theorem Reaches.after {c' : Threads T C S L E A} {t : T}
    {own activity : Activity C S L E A} {s : S} (first : M.Moves c (.moves t) c')
    (same : c'.activity = Function.update c.activity t (some own))
    (reaches : Reaches M c' t activity s) : Reaches M c t activity s := by
  obtain ⟨n, c'', steps, shared, activity, owners⟩ := reaches
  have one : M.system.Steps c ([] ++ [.moves t]) c' := .step .refl first
  refine ⟨n + 1, c'', one.trans steps, shared, ?_, owners⟩
  rw [activity, same, Function.update_idem]

/-- If no one else holds a lock, a thread that runs alone gets as far as its program does. -/
theorem runs (good : Good R post c) {t : T} {call : C} {start : S}
    {program : Program S L E A} (here : c.activity t = some ⟨call, start, program⟩)
    (alone : ∀ l u, c.owner l = some u → u = t) {result : A} {s : S}
    (ran : program.run c.shared = .ok (result, s)) :
    Reaches M c t ⟨call, start, .ret result⟩ s := by
  induction program generalizing c with
  | ret result' =>
      obtain ⟨rfl, rfl⟩ := Prod.mk.inj (Except.ok.inj ran)
      exact ⟨0, c, .refl, rfl, by rw [← here, Function.update_eq_self], alone⟩
  | fault reason => cases ran
  | access update rest ih =>
      exact .after (.access here) rfl (ih c.shared (good.access here) (by simp) alone ran)
  | lock l rest ih =>
      have free : c.owner l = none := by
        cases owner : c.owner l with
        | none => rfl
        | some u =>
            obtain rfl := alone l u owner
            exact absurd owner (good.unowned here (.inl ⟨l, rest, rfl⟩) l)
      refine .after (.lock here free) rfl
        (ih (good.lock here free) (by simp) (fun l' u owner => ?_) ran)
      by_cases own : l' = l
      · subst own
        simpa [eq_comm] using owner
      · exact alone l' u (by simpa [Function.update_of_ne own] using owner)
  | unlock l rest ih =>
      refine .after (.unlock here) rfl (ih (good.unlock here) (by simp) (fun l' u owner => ?_) ran)
      by_cases own : l' = l
      · subst own
        simp at owner
      · exact alone l' u (by simpa [Function.update_of_ne own] using owner)

/-- A call that is not interrupted returns what its program computes, and leaves no trace but
in the shared state. -/
theorem completes (verified : R.Verifies M post) (good : Good R post c) {t : T} {call : C}
    (idle : c.activity t = none) (free : ∀ l, c.owner l = none) {result : A} {s : S}
    (ran : (M.body t call).run (M.enter t call c.shared) = .ok (result, s)) :
    ∃ n, M.system.Steps c
      ([.begins t call] ++ List.replicate n (.moves t) ++ [.returns t call result])
      { c with shared := s } := by
  have first : M.Moves c (.begins t call) _ := .begins idle
  have begun := good.step verified first
  obtain ⟨n, c', steps, rfl, activity, alone⟩ : Reaches M _ t
      ⟨call, M.enter t call c.shared, .ret result⟩ s :=
    begun.runs (by simp) (fun l u owner => by simp [free l] at owner) ran
  have here : c'.activity t = some ⟨call, M.enter t call c.shared, .ret result⟩ := by
    rw [activity, Function.update_self]
  have unowned : c'.owner = c.owner := by
    funext l
    rw [free l]
    cases owner : c'.owner l with
    | none => rfl
    | some u =>
        obtain rfl := alone l u owner
        exact absurd owner ((begun.steps verified steps).unowned here (.inr ⟨result, rfl⟩) l)
  have last : M.Moves c' (.returns t call result) { c with shared := c'.shared } := by
    have returns : M.Moves c' (.returns t call result) _ := .returns here
    rwa [activity, Function.update_idem, Function.update_idem, ← idle, Function.update_eq_self,
      unowned] at returns
  have one : M.system.Steps c ([] ++ [.begins t call]) _ := .step .refl first
  exact ⟨n, .step (one.trans steps) last⟩

end Good

/-! ## One thread among others -/

/-- The thread may do anything, and what the others do is limited. -/
def solo (t : T) (Rely : S → S → Prop) : Protocol T S L E where
  Inv _ := True
  Res _ _ := True
  Idle _ _ := True
  Step u _ s s' := u = t ∨ Rely s s'
  Env := Rely
  Fault _ := True
  res_step _ _ _ _ _ := trivial
  res_env _ _ _ _ := trivial
  idle_step _ _ _ _ _ := trivial
  idle_env _ _ _ _ := trivial

variable {Rely : S → S → Prop} {t : T} {call : C} {start : S} {goal : A → S → Prop}

omit [DecidableEq T] [DecidableEq L] in
theorem solo_stable {held : Option L} {P : S → Prop} (stable : ∀ s s', Rely s s' → P s → P s') :
    (solo t Rely : Protocol T S L E).Stable t held P := by
  rintro s s' ⟨_, _, env | ⟨u, _, other, _, mine | theirs⟩⟩ holds
  · exact stable s s' env holds
  · exact absurd mine other
  · exact stable s s' theirs holds

/-- The thread is in the call, and the rest of it is going to meet the goal. -/
def Heads (Rely : S → S → Prop) (goal : A → S → Prop) (t : T) (call : C) (start : S)
    (c : Threads T C S L E A) : Prop :=
  ∃ program held P, c.activity t = some ⟨call, start, program⟩ ∧
    (solo t Rely : Protocol T S L E).Stable t held P ∧ P c.shared ∧
    (solo t Rely : Protocol T S L E).Meets t goal none held P program

/-- The steps that do not begin a call of the thread and are its own, or keep to what it
relies on. -/
def besides (M : Machine T C S L E A) (Rely : S → S → Prop) (t : T) :
    TransitionSystem (ThreadEvent T C A) where
  State := Threads T C S L E A
  Initial := M.system.Initial
  Step c event c' := M.Moves c event c' ∧ (∀ call, event ≠ .begins t call) ∧
    (event = .moves t ∨ c'.shared = c.shared ∨ Rely c.shared c'.shared)

/-- The thread alone, while time goes on. -/
theorem besides_of_steps {events : List (ThreadEvent T C A)}
    (own : ∀ event ∈ events, event = .moves t ∨ event = .ticks) (tick : ∀ s, Rely s (M.tick s))
    (steps : M.system.Steps c events c') : (besides M Rely t).Steps c events c' := by
  induction steps with
  | refl => exact .refl
  | @step events c event c' prior step ih =>
      refine .step (ih fun earlier member => own earlier (List.mem_append_left _ member)) ?_
      obtain rfl | rfl := own event (by simp)
      · exact ⟨step, by simp, .inl rfl⟩
      · cases step with
        | ticks => exact ⟨.ticks, by simp, .inr (.inr (tick _))⟩

/-- A call begins, and its program is going to meet the goal. -/
theorem Heads.begins {P : S → Prop} (step : M.Moves c (.begins t call) c')
    (stable : ∀ s s', Rely s s' → P s → P s') (now : P (M.enter t call c.shared))
    (meets : (solo t Rely : Protocol T S L E).Meets t goal none none P (M.body t call)) :
    Heads Rely goal t call (M.enter t call c.shared) c' := by
  cases step with
  | begins idle =>
      exact ⟨_, none, P, Function.update_self .., solo_stable stable, now, meets⟩

theorem steps_of_besides {events : List (ThreadEvent T C A)}
    (steps : (besides M Rely t).Steps c events c') : M.system.Steps c events c' := by
  induction steps with
  | refl => exact .refl
  | step _ step ih => exact .step ih step.1

omit [DecidableEq L] in
theorem Heads.others (heads : Heads Rely goal t call start c) {u : T}
    {own : Option (Activity C S L E A)} (other : u ≠ t)
    (activities : c'.activity = Function.update c.activity u own)
    (kept : c'.shared = c.shared ∨ Rely c.shared c'.shared) : Heads Rely goal t call start c' := by
  obtain ⟨program, held, P, here, stable, now, meets⟩ := heads
  refine ⟨program, held, P, ?_, stable, ?_, meets⟩
  · rw [activities, Function.update_of_ne (Ne.symm other), here]
  · obtain same | moved := kept
    · exact same ▸ now
    · exact stable _ _ ⟨trivial, trivial, .inl moved⟩ now

/-- The thread goes on, or it returns and has met the goal. -/
theorem Heads.step (heads : Heads Rely goal t call start c) {event : ThreadEvent T C A}
    (step : (besides M Rely t).Step c event c') :
    Heads Rely goal t call start c' ∨
      c'.activity t = none ∧ ∃ result, event = .returns t call result ∧ goal result c.shared := by
  obtain ⟨step, apart, kept⟩ := step
  have kept := kept.resolve_left
  have ahead := heads
  obtain ⟨program, held, P, here, stable, now, meets⟩ := heads
  cases step with
  | @begins u other idle =>
      by_cases own : u = t
      · exact absurd (own ▸ rfl) (apart other)
      · exact .inl (ahead.others own rfl (kept (by simp)))
  | @access u other begun update rest there =>
      by_cases own : u = t
      · subst own
        obtain ⟨rfl, rfl, rfl⟩ : other = call ∧ begun = start ∧ program = .access update rest := by
          simpa [eq_comm] using there.symm.trans here
        obtain ⟨_, _, Q, stable', later, meets'⟩ := meets c.shared trivial now
        exact .inl ⟨rest c.shared, held, Q, Function.update_self .., stable', later, meets'⟩
      · exact .inl (ahead.others own rfl (kept (by simpa using own)))
  | @lock u other begun l rest there free =>
      by_cases own : u = t
      · subst own
        obtain ⟨rfl, rfl, rfl⟩ : other = call ∧ begun = start ∧ program = .lock l rest := by
          simpa [eq_comm] using there.symm.trans here
        obtain ⟨rfl, Q, stable', acquired, meets'⟩ := meets
        exact .inl ⟨rest, some l, Q, Function.update_self .., stable',
          acquired _ trivial trivial now, meets'⟩
      · exact .inl (ahead.others own rfl (kept (by simpa using own)))
  | @unlock u other begun l rest there =>
      by_cases own : u = t
      · subst own
        obtain ⟨rfl, rfl, rfl⟩ : other = call ∧ begun = start ∧ program = .unlock l rest := by
          simpa [eq_comm] using there.symm.trans here
        obtain ⟨_, Q, stable', given, meets'⟩ := meets
        exact .inl ⟨rest, none, Q, Function.update_self .., stable', (given _ trivial now).2, meets'⟩
      · exact .inl (ahead.others own rfl (kept (by simpa using own)))
  | @returns u other begun result there =>
      by_cases own : u = t
      · subst own
        obtain ⟨rfl, rfl, rfl⟩ : other = call ∧ begun = start ∧ program = .ret result := by
          simpa [eq_comm] using there.symm.trans here
        exact .inr ⟨Function.update_self .., result, rfl, meets.2 _ trivial now⟩
      · exact .inl (ahead.others own rfl (kept (by simp)))
  | ticks =>
      refine .inl ⟨program, held, P, here, stable, ?_, meets⟩
      obtain same | moved := kept (by simp)
      · rw [same]
        exact now
      · exact stable _ _ ⟨trivial, trivial, .inl moved⟩ now

/-- Along such steps what the thread returns meets the goal. -/
theorem Heads.returns (heads : Heads Rely goal t call start c)
    {events : List (ThreadEvent T C A)} {c₁ : Threads T C S L E A}
    (steps : (besides M Rely t).Steps c events c₁) {other : C} {result : A}
    (last : M.Moves c₁ (.returns t other result) c') : goal result c₁.shared := by
  have still : Heads Rely goal t call start c₁ ∨ c₁.activity t = none := by
    refine steps.invariant
      (fun c : Threads T C S L E A => Heads Rely goal t call start c ∨ c.activity t = none) ?_
      (.inl heads)
    rintro c event c' (ahead | gone) step
    · exact (ahead.step step).imp_right And.left
    · refine .inr ?_
      cases here : c'.activity t with
      | none => rfl
      | some activity =>
          obtain ⟨_, before⟩ | ⟨begins, _⟩ := step.1.activity_cases here
          · rw [gone] at before
            cases before
          · exact absurd begins (step.2.1 _)
  cases last with
  | @returns _ _ begun _ there =>
      obtain ⟨program, held, P, here, _, now, meets⟩ | gone := still
      · obtain ⟨-, -, rfl⟩ : other = call ∧ begun = start ∧ program = .ret result := by
          simpa [eq_comm] using there.symm.trans here
        exact meets.2 _ trivial now
      · rw [gone] at there
        cases there

omit [DecidableEq T] [DecidableEq L] in
/-- To the thread itself its protocol allows every access. -/
theorem Meets.solo_read {held : Option L} {P : S → Prop} {X : Type} {get : S → X}
    {mid : X → S → Prop} (stable : ∀ seen s s', Rely s s' → mid seen s → mid seen s')
    (reads : ∀ s, P s → mid (get s) s) :
    (solo t Rely : Protocol T S L E).Meets t mid held held P (Program.read get) :=
  .read (fun _ _ => .inl rfl) (fun seen => solo_stable (stable seen)) fun s _ holds => reads s holds

omit [DecidableEq T] [DecidableEq L] in
theorem Meets.solo_write {held : Option L} {P Q : S → Prop} {update : S → S}
    (stable : ∀ s s', Rely s s' → Q s → Q s') (writes : ∀ s, P s → Q (update s)) :
    (solo t Rely : Protocol T S L E).Meets t (fun _ => Q) held held P (Program.write update) :=
  .write (solo_stable stable) fun s _ holds => ⟨trivial, .inl rfl, writes s holds⟩

-- From here on a program is verified by the rules, and not by running it.
attribute [irreducible] Meets

end Protocol

end Kcr
