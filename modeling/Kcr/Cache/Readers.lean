import Kcr.Cache.Concurrency
import Kcr.Hlist.Readers

/-!
# Lookups that find their entry

A lookup holds no lock while it searches. It still answers with an entry if there is one of its
key in a bucket of its own that lives as long as the lookup takes, and that no other thread cuts
off from places that lead to it.
-/

namespace Kcr

open Hlist Protocol

variable {P : Platform} {tasks : Nat → Task} {boot : Nat} {t : Nat} {task : Task}
  {held : Option CacheLock} {n : Node} {fingerprint mm : U64} {e : Entry} {first last fuel : Nat}

/-- The other threads do not cut the entry off. -/
def KeepsEntry (n : Node) (s s' : Shared) : Prop := s.memory.heap.KeepsAhead n s'.memory.heap

/-- What a search for the entry expects of the others, until some last tick. -/
structure Undisturbed (n : Node) (last : Nat) (s s' : Shared) : Prop where
  keeps : KeepsEntry n s s'
  entry : s'.memory.entry n = s.memory.entry n
  later : s.now ≤ s'.now
  due : s'.now ≤ last

/-- A search accepts an entry like this one at every tick from the first to the last. -/
structure Acceptable (fingerprint mm : U64) (e : Entry) (first last : Nat) : Prop where
  key : (e.fingerprint == fingerprint && e.mm == mm) = true
  fresh : ∀ τ, first ≤ τ → τ ≤ last → timeBefore (BitVec.ofNat 64 τ) e.expiryJiffies = true

/-- The entry is what it was at the first tick. -/
structure Lives (n : Node) (e : Entry) (first last : Nat) (s : Shared) : Prop where
  entry : s.memory.entry n = e
  since : first ≤ s.now
  due : s.now ≤ last

theorem Lives.later {s s' : Shared} (moved : Undisturbed n last s s')
    (lives : Lives n e first last s) : Lives n e first last s' :=
  ⟨moved.entry.trans lives.entry, lives.since.trans moved.later, moved.due⟩

/-- The entry lives, and a bucket leads to it. -/
def Listed (n : Node) (e : Entry) (first last : Nat) (h : Head) (s : Shared) : Prop :=
  Lives n e first last s ∧ s.memory.heap.OnChain (.head h) n

theorem Listed.later {h : Head} {s s' : Shared} (moved : Undisturbed n last s s')
    (listed : Listed n e first last h s) : Listed n e first last h s' :=
  ⟨listed.1.later moved, moved.keeps _ listed.2⟩

/-! ## The lookup alone -/

section Lookup

variable {A : Shared → Prop}

theorem meets_accepts_ahead (acceptable : Acceptable fingerprint mm e first last)
    (stable : ∀ s s', Undisturbed n last s s' → A s → A s')
    (lives : ∀ s, A s → Lives n e first last s) (m : Node) :
    (solo t (Undisturbed n last)).Meets t (fun accepted s => A s ∧ (m = n → accepted = true))
      held held A (Access.accepts fingerprint mm m) := by
  have kept : ∀ (seen : Bool) s s', Undisturbed n last s s' →
      A s ∧ (m = n → seen = true) → A s' ∧ (m = n → seen = true) :=
    fun _ s s' moved holds => ⟨stable s s' moved holds.1, holds.2⟩
  have key : (solo t (Undisturbed n last)).Meets t
      (fun same s => A s ∧ (m = n → same = true)) held held A
      (.read fun s => s.memory.sameKey fingerprint mm m : Access Bool) := by
    refine .solo_read kept fun s holds => ⟨holds, ?_⟩
    rintro rfl
    rw [State.sameKey, (lives s holds).entry]
    exact acceptable.key
  refine key.bind fun same => ?_
  cases same with
  | false => exact .pure fun _ _ holds => holds
  | true =>
      refine .solo_read kept fun s holds => ⟨holds.1, ?_⟩
      rintro rfl
      have alive := lives s holds.1
      rw [alive.entry]
      exact acceptable.fresh s.now alive.since alive.due

theorem meets_first_ahead {h : Head} : (solo t (Undisturbed n last)).Meets t
    (fun position s => Lives n e first last s ∧ s.memory.heap.Ahead position n) held held
    (Listed n e first last h)
    (Shared.heap.read fun heap => heap.first h : Access (Option Node)) :=
  .solo_read (fun _ _ _ moved holds => ⟨holds.1.later moved, moved.keeps.ahead holds.2⟩)
    fun _ listed => ⟨listed.1, Heap.OnChain.ahead (l := .head h) listed.2⟩

theorem meets_search_ahead (acceptable : Acceptable fingerprint mm e first last)
    (position : Option Node) :
    (solo t (Undisturbed n last)).Meets t (fun result _ => result ≠ none) held held
      (fun s => Lives n e first last s ∧ s.memory.heap.Ahead position n)
      (findEntry Shared.heap (Access.accepts fingerprint mm) fuel position) := by
  have keeps : ∀ s s', Undisturbed n last s s' →
      (Shared.heap.get s).KeepsAhead n (Shared.heap.get s') := fun _ _ moved => moved.keeps
  refine meets_findEntry_ahead (fun _ _ moved lives => lives.later moved) keeps (fun m => ?_) fuel
    position
  exact meets_accepts_ahead acceptable
    (fun _ _ moved holds => ⟨holds.1.later moved, moved.keeps.ahead holds.2⟩)
    (fun _ holds => holds.1) m

theorem meets_thisCpuInc_any (counter : Counter) : (solo t (Undisturbed n last)).Meets t
    (fun _ _ => True) held held (fun _ => True) (Access.thisCpuInc P task counter) :=
  .solo_write (fun _ _ _ _ => trivial) fun _ _ => trivial

theorem meets_lookupL2_ahead (acceptable : Acceptable fingerprint mm e first last) :
    (solo t (Undisturbed n last)).Meets t (fun result _ => result ≠ none) none none
      (Listed n e first last (l2Head task.cpu fingerprint))
      (Access.lookupL2 P task fuel fingerprint mm) := by
  refine meets_first_ahead.bind fun position => ?_
  refine (meets_search_ahead acceptable position).bind fun result => ?_
  cases result with
  | none => exact .pure fun _ _ impossible => absurd rfl impossible
  | some m =>
      exact ((meets_thisCpuInc_any .l2Hits).weaken fun _ _ _ => trivial).bind fun _ =>
        .pure fun _ _ _ => by simp

theorem meets_lookupL3_ahead (acceptable : Acceptable fingerprint mm e first last) :
    (solo t (Undisturbed n last)).Meets t (fun result _ => result ≠ none) none none
      (Listed n e first last (l3Head P task.cpu fingerprint))
      (Access.lookupL3 P task fuel fingerprint mm) :=
  meets_first_ahead.bind fun position => meets_search_ahead acceptable position

/-- A miss in L2 leaves an entry in L3 where it is. -/
theorem meets_lookupL2_keep {h : Head} (acceptable : Acceptable fingerprint mm e first last) :
    (solo t (Undisturbed n last)).Meets t
      (fun result s => result = none → Listed n e first last h s) none none
      (Listed n e first last h) (Access.lookupL2 P task fuel fingerprint mm) := by
  have reads : (solo t (Undisturbed n last)).Meets t (fun _ => Listed n e first last h) none none
      (Listed n e first last h) (Shared.heap.read fun heap =>
        heap.first (l2Head task.cpu fingerprint) : Access (Option Node)) :=
    .solo_read (fun _ _ _ moved listed => listed.later moved) fun _ listed => listed
  refine reads.bind fun position => ?_
  refine (meets_findEntry_keep (fun _ _ moved listed => listed.later moved) (fun m => ?_) fuel
    position).bind fun result => ?_
  · exact (meets_accepts_ahead acceptable (fun _ _ moved listed => listed.later moved)
      (fun _ listed => listed.1) m).entails fun _ _ _ holds => holds.1
  · cases result with
    | none => exact .pure fun _ _ listed _ => listed
    | some m =>
        exact ((meets_thisCpuInc_any .l2Hits).weaken fun _ _ _ => trivial).bind fun _ =>
          .pure fun _ _ _ impossible => by cases impossible

theorem meets_promoteToL2_any {m : Node} : (solo t (Undisturbed n last)).Meets t
    (fun _ _ => True) none none (fun _ => True) (Access.promoteToL2 task m fingerprint) := by
  have anything : ∀ held, (solo t (Undisturbed n last) : Protocol Nat Shared CacheLock Halt).Stable
      t held fun _ => True := fun _ _ _ _ _ => trivial
  refine (Meets.acquire (anything _) fun _ _ _ _ => trivial).bind fun _ => ?_
  refine meets_hlistDelRcu_any.bind fun _ => meets_hlistAddHeadRcu_any.bind fun _ => ?_
  exact .release (anything _) fun _ _ _ => ⟨trivial, trivial⟩

/-- A lookup hits if a search of L2 that fails leaves the entry in L3. -/
theorem meets_lookupUnified_ahead (acceptable : Acceptable fingerprint mm e first last)
    (inL2 : (solo t (Undisturbed n last)).Meets t
      (fun result s => result = none → Listed n e first last (l3Head P task.cpu fingerprint) s)
      none none A (Access.lookupL2 P task fuel fingerprint mm)) :
    (solo t (Undisturbed n last)).Meets t (fun result _ => ∃ m, result = some m) none none A
      (Access.lookupUnified P task fuel fingerprint mm) := by
  refine inL2.bind fun result => ?_
  cases result with
  | some m => exact .pure fun _ _ _ => ⟨m, rfl⟩
  | none =>
      refine ((meets_lookupL3_ahead acceptable).weaken fun _ _ listed => listed rfl).bind
        fun result => ?_
      cases result with
      | some m =>
          refine (meets_promoteToL2_any.weaken fun _ _ _ => trivial).bind fun _ => ?_
          exact (meets_thisCpuInc_any .l3Hits).bind fun _ => .pure fun _ _ _ => ⟨m, rfl⟩
      | none =>
          have misses : (solo t (Undisturbed n last)).Meets t (fun _ _ => False) none none
              (fun _ => (none : Option Node) ≠ none) (Access.thisCpuInc P task .misses) :=
            .solo_write (fun _ _ _ impossible => impossible) fun _ impossible => impossible rfl
          exact misses.bind fun _ => .pure fun _ _ impossible => impossible.elim

theorem meets_body_ahead {request : Request} {h : Head}
    (asks : request.operation = .lookupUnified fingerprint mm)
    (acceptable : Acceptable fingerprint mm e first last)
    (own : h = l2Head task.cpu fingerprint ∨ h = l3Head P task.cpu fingerprint) :
    (solo t (Undisturbed n last)).Meets t (fun outcome _ => ∃ m, outcome = .found (some m))
      none none (Listed n e first last h) (Access.body P task t request) := by
  have hits : (solo t (Undisturbed n last)).Meets t (fun result _ => ∃ m, result = some m)
      none none (Listed n e first last h)
      (Access.lookupUnified P task request.fuel fingerprint mm) := by
    apply meets_lookupUnified_ahead acceptable
    obtain rfl | rfl := own
    · exact (meets_lookupL2_ahead acceptable).entails fun _ _ _ hit none => absurd none hit
    · exact meets_lookupL2_keep acceptable
  unfold Access.body
  rw [asks]
  refine hits.bind fun result => .pure ?_
  rintro _ _ ⟨m, rfl⟩
  exact ⟨m, rfl⟩

end Lookup

/-! ## The lookup among others -/

variable {events later : List (ThreadEvent Nat Request Outcome)}
  {c c' c₁ c₂ : Threads Nat Request Shared CacheLock Halt Outcome} {request : Request}

/-- What the others do to a complete entry, if they keep it, does not disturb a search for it. -/
theorem undisturbed_of_step (good : Good (protocol P tasks) (Returns P tasks) c)
    (complete : n ∈ c.shared.completed) {event : ThreadEvent Nat Request Outcome}
    (step : (interleaved P tasks boot).Moves c event c') (keeps : KeepsEntry n c.shared c'.shared)
    (due : c'.shared.now ≤ last) : Undisturbed n last c.shared c'.shared := by
  obtain ⟨origin, made⟩ := complete
  have one : (interleaved P tasks boot).system.Steps c ([] ++ [event]) c' := .step .refl step
  have after := good.step (verified P tasks boot) step
  refine ⟨keeps, ?_, now_of_steps good one, due⟩
  exact (after.inv.made (complete_of_steps good made one)).1.trans (good.inv.made made).1.symm

/-- While the others keep a complete entry, a search for it is not disturbed. -/
theorem undisturbed_of_steps (good : Good (protocol P tasks) (Returns P tasks) c₁)
    (complete : n ∈ c₁.shared.completed)
    (steps : (besides (interleaved P tasks boot) (KeepsEntry n) t).Steps c₁ later c₂)
    (due : c₂.shared.now ≤ last) :
    (besides (interleaved P tasks boot) (Undisturbed n last) t).Steps c₁ later c₂ := by
  obtain ⟨origin, made⟩ := complete
  have both : (interleaved P tasks boot).system.Steps c₁ later c₂ ∧ (c₂.shared.now ≤ last →
      (besides (interleaved P tasks boot) (Undisturbed n last) t).Steps c₁ later c₂) := by
    refine steps.invariant_events
      (fun events (c : Threads Nat Request Shared CacheLock Halt Outcome) =>
        (interleaved P tasks boot).system.Steps c₁ events c ∧ (c.shared.now ≤ last →
          (besides (interleaved P tasks boot) (Undisturbed n last) t).Steps c₁ events c)) ?_ ?_
    · exact ⟨.refl, fun _ => .refl⟩
    · rintro events c event c' ⟨prior, ih⟩ ⟨step, apart, kept⟩
      refine ⟨.step prior step, fun due => ?_⟩
      have before := good.steps (verified P tasks boot) prior
      have one : (interleaved P tasks boot).system.Steps c ([] ++ [event]) c' := .step .refl step
      refine .step (ih ((now_of_steps before one).trans due)) ⟨step, apart, ?_⟩
      refine kept.imp_right (Or.imp_right fun keeps => ?_)
      exact undisturbed_of_step before ⟨origin, complete_of_steps good made prior⟩ step keeps due
  exact both.2 due

/-- Whatever the others do with other entries, a lookup hits if it begins with an entry of its key
in one of its buckets that has time to live at every tick of the lookup. -/
theorem found_of_kept (run : (interleaved P tasks boot).system.Run events c)
    (asks : request.operation = .lookupUnified fingerprint mm)
    (key : c.shared.memory.sameKey fingerprint mm n = true)
    (linked : c.shared.memory.heap.OnChain (.head (l2Head (tasks t).cpu fingerprint)) n ∨
      c.shared.memory.heap.OnChain (.head (l3Head P (tasks t).cpu fingerprint)) n)
    (begins : (interleaved P tasks boot).Moves c (.begins t request) c₁)
    (steps : (besides (interleaved P tasks boot) (KeepsEntry n) t).Steps c₁ later c₂)
    {other : Request} {outcome : Outcome}
    (returns : (interleaved P tasks boot).Moves c₂ (.returns t other outcome) c')
    (fresh : ∀ τ, c.shared.now ≤ τ → τ ≤ c₂.shared.now →
      timeBefore (BitVec.ofNat 64 τ) (c.shared.memory.entry n).expiryJiffies = true) :
    ∃ m, outcome = .found (some m) := by
  obtain ⟨h, own, visited⟩ : ∃ h,
      (h = l2Head (tasks t).cpu fingerprint ∨ h = l3Head P (tasks t).cpu fingerprint) ∧
        c.shared.memory.heap.OnChain (.head h) n := by
    obtain inL2 | inL3 := linked
    · exact ⟨_, .inl rfl, inL2⟩
    · exact ⟨_, .inr rfl, inL3⟩
  have good := good_of_run run
  have sound : c.shared.Sound P tasks := good.inv
  have complete := sound.shaped.confined.onChain visited
  have begun := good.step (verified P tasks boot) begins
  have acceptable : Acceptable fingerprint mm (c.shared.memory.entry n) c.shared.now
      c₂.shared.now := ⟨key, fresh⟩
  have undisturbed : (besides (interleaved P tasks boot) (Undisturbed n c₂.shared.now) t).Steps
      c₁ later c₂ := by
    cases begins with
    | begins idle => exact undisturbed_of_steps begun complete steps le_rfl
  have due : c.shared.now ≤ c₂.shared.now := now_of_steps good
    (.trans (.step .refl begins) (steps_of_besides steps))
  have later : ∀ s s', Undisturbed n c₂.shared.now s s' →
      Listed n (c.shared.memory.entry n) c.shared.now c₂.shared.now h s →
      Listed n (c.shared.memory.entry n) c.shared.now c₂.shared.now h s' :=
    fun _ _ moved listed => listed.later moved
  have heads := Heads.begins begins later ⟨⟨rfl, le_rfl, due⟩, visited⟩
    (meets_body_ahead asks acceptable own)
  exact heads.returns undisturbed returns

/-- The steps of a thread and the ticks. -/
def ownTurn (t : Nat) : ThreadEvent Nat Request Outcome → Bool
  | .moves u => u == t
  | .ticks => true
  | _ => false

/-- A store on CPU 0, and a lookup of its key on CPU 1 while the tick moves on. -/
theorem found_of_kept_ticks : ∃ events c c₁ later c₂ other outcome c',
    (interleaved .oneNode .onCpu 0).system.Run events c ∧
    (interleaved .oneNode .onCpu 0).Moves c
      (.begins 1 ((Call.lookupUnified 5 1).request 9)) c₁ ∧
    (besides (interleaved .oneNode .onCpu 0) (KeepsEntry 10) 1).Steps c₁ later c₂ ∧
    (interleaved .oneNode .onCpu 0).Moves c₂ (.returns 1 other outcome) c' ∧
    c.shared.now < c₂.shared.now ∧ ∃ m, outcome = .found (some m) := by
  let M := interleaved .oneNode .onCpu 0
  let seen (c : Threads Nat Request Shared CacheLock Halt Outcome) :=
    (M.turn c (.begins 1 ((Call.lookupUnified 5 1).request 9))).bind fun begun =>
      (M.play (.goes 1 :: .ticks :: List.replicate 14 (.goes 1)) begun.2).bind fun played =>
        (Machine.returning 1 played.2).map fun outcome =>
          ((outcome, c.shared.now, played.2.shared.now, played.1.all (ownTurn 1)),
            c.shared.memory.sameKey 5 1 10, c.shared.memory.heap.first (.l3 0 5),
            (c.shared.memory.entry 10).expiryJiffies)
  have computed : M.observe (.begins 0 ((Call.storeByte 5 1 10).request 9) ::
      List.replicate 18 (.goes 0)) seen =
      some ((.found (some 10), 0, 1, true), true, some 10, 1000#64) := by decide +kernel
  obtain ⟨events, c, run, saw⟩ := Machine.run_of_observe computed
  obtain ⟨⟨event, c₁⟩, taken, saw⟩ := Option.bind_eq_some_iff.mp saw
  obtain ⟨⟨later, c₂⟩, played, saw⟩ := Option.bind_eq_some_iff.mp saw
  obtain ⟨outcome, returning, saw⟩ := Option.map_eq_some_iff.mp saw
  simp only [Prod.mk.injEq] at saw
  obtain ⟨⟨rfl, start, stop, own⟩, key, first, expiry⟩ := saw
  obtain ⟨⟨other, began, program⟩, here, ended⟩ := Option.bind_eq_some_iff.mp returning
  have begins : M.Moves c (.begins 1 ((Call.lookupUnified 5 1).request 9)) c₁ := by
    cases idle : c.activity 1 with
    | some activity => simp [Machine.turn, idle] at taken
    | none =>
        simp only [Machine.turn, idle, Option.some.injEq, Prod.mk.injEq] at taken
        obtain ⟨rfl, rfl⟩ := taken
        exact .begins idle
  have steps : (besides M (KeepsEntry 10) 1).Steps c₁ later c₂ := by
    refine besides_of_steps (fun event member => ?_) (fun s l visited => visited)
      (Machine.steps_of_play played)
    have mine := List.all_eq_true.mp own event member
    cases event with
    | moves u => exact .inl (congrArg _ (by simpa [ownTurn] using mine))
    | ticks => exact .inr rfl
    | begins | returns => simp [ownTurn] at mine
  have visited : c.shared.memory.heap.OnChain (.head (.l3 0 5)) 10 := .of_read first
  cases program with
  | ret result =>
      obtain rfl := Option.some.inj ended
      refine ⟨events, c, c₁, later, c₂, other, _, _, run, begins, steps, .returns here, by omega,
        found_of_kept run rfl key (.inr visited) begins steps (.returns here) fun τ _ due => ?_⟩
      rw [expiry]
      obtain rfl | rfl : τ = 0 ∨ τ = 1 := by omega
      · decide
      · decide
  | fault | access | lock | unlock => cases ended

end Kcr
