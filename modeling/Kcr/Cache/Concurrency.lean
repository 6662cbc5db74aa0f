import Kcr.Cache.Agreement
import Kcr.Cache.Interleaving

/-!
# What holds in every interleaving

Consequences of the protocol for any number of threads that store, look up and invalidate at
once: where a hit comes from, what hangs in a bucket, what the slots of a socket hold, that
failed stores leave nothing behind, and that no one waits forever on a lock.
-/

namespace Kcr

open Hlist Protocol

variable {P : Platform} {tasks : Nat → Task} {boot : Nat}
  {events : List (ThreadEvent Nat Request Outcome)}
  {c c' : Threads Nat Request Shared CacheLock Halt Outcome} {t : Nat} {request : Request} {n : Node}

theorem good_of_run (run : (interleaved P tasks boot).system.Run events c) :
    Good (protocol P tasks) (Returns P tasks) c :=
  .run (verified P tasks boot) run

/-- The calls recorded are those that threads began. -/
theorem began_of_begun (run : (interleaved P tasks boot).system.Run events c)
    (begun : (t, request) ∈ c.shared.ghost.begun) :
    ∃ start, (interleaved P tasks boot).Began events t request start := by
  apply run.invariant (fun events (c : Threads Nat Request Shared CacheLock Halt Outcome) =>
    ∀ t request, (t, request) ∈ c.shared.ghost.begun →
      ∃ start, (interleaved P tasks boot).Began events t request start) _ _ t request begun
  · rintro c rfl t request begun
    cases begun
  · intro events c event c' prior ih step t request begun
    have earlier : ∀ {t request}, (t, request) ∈ c.shared.ghost.begun →
        ∃ start, (interleaved P tasks boot).Began (events ++ [event]) t request start := by
      intro t request begun
      obtain ⟨start, began⟩ := ih t request begun
      exact ⟨start, began.concat event⟩
    obtain ⟨_, same⟩ | ⟨u, held, _, moved⟩ | ⟨u, call, rfl, enters⟩ | ⟨_, ticks⟩ :=
      (good_of_run prior).shared_cases step
    · exact earlier (same ▸ begun)
    · exact earlier (moved.1 ▸ begun)
    · rw [enters] at begun
      obtain before | ⟨rfl, rfl⟩ : (t, request) ∈ c.shared.ghost.begun ∨ t = u ∧ request = call := by
        simpa [interleaved] using begun
      · exact earlier before
      · exact ⟨_, events, [], c, rfl, prior, rfl⟩
    · exact earlier (by rw [ticks] at begun; exact begun)

/-- The entry was left by a store that some thread began before, of the given origin. -/
def StoredBy (P : Platform) (tasks : Nat → Task) (boot : Nat)
    (events : List (ThreadEvent Nat Request Outcome)) (origin : Origin) : Prop :=
  ∃ request start, (interleaved P tasks boot).Began events origin.thread request start ∧
    request.Makes origin

theorem storedBy_of_complete (run : (interleaved P tasks boot).system.Run events c)
    {origin : Origin} (complete : c.shared.ghost.status n = .complete origin) :
    StoredBy P tasks boot events origin := by
  obtain ⟨_, _, request, begun, makes⟩ := (good_of_run run).inv.made complete
  obtain ⟨start, began⟩ := began_of_begun run begun
  exact ⟨request, start, began, makes⟩

/-- A complete entry stays complete. -/
theorem complete_of_steps (good : Good (protocol P tasks) (Returns P tasks) c)
    {origin : Origin} (complete : c.shared.ghost.status n = .complete origin)
    {later : List (ThreadEvent Nat Request Outcome)}
    (steps : (interleaved P tasks boot).system.Steps c later c') :
    c'.shared.ghost.status n = .complete origin := by
  refine good.later (verified P tasks boot)
    (fun s s' => s.ghost.status n = .complete origin → s'.ghost.status n = .complete origin)
    (fun _ holds => holds) (fun one two holds => two (one holds)) ?_
    (fun env holds => (env 0 none).complete holds) steps complete
  intro t held s s' step holds
  exact (step.2 (t + 1) none (Nat.succ_ne_self t) (by simp)).complete holds

/-- A complete entry keeps its contents. -/
theorem entry_of_steps (run : (interleaved P tasks boot).system.Run events c)
    {origin : Origin} (complete : c.shared.ghost.status n = .complete origin)
    {later : List (ThreadEvent Nat Request Outcome)}
    (steps : (interleaved P tasks boot).system.Steps c later c') :
    c'.shared.memory.entry n = origin.entry P tasks := by
  have good := (good_of_run run).steps (verified P tasks boot) steps
  exact (good.inv.made (complete_of_steps (good_of_run run) complete steps)).1

/-- The tick counter does not go back. -/
theorem now_of_steps (good : Good (protocol P tasks) (Returns P tasks) c)
    {later : List (ThreadEvent Nat Request Outcome)}
    (steps : (interleaved P tasks boot).system.Steps c later c') :
    c.shared.now ≤ c'.shared.now := by
  refine good.later (verified P tasks boot) (fun s s' => s.now ≤ s'.now) (fun _ => le_rfl)
    le_trans ?_ (fun env => (env 0 none).now) steps
  intro t held s s' step
  exact (step.2 (t + 1) none (Nat.succ_ne_self t) (by simp)).now

/-- The time to live of an entry, at a tick less than half way round after the store. -/
theorem Origin.fresh {origin : Origin} {τ : Nat} (after : origin.tick ≤ τ)
    (near : τ - origin.tick < 2 ^ 63)
    (fresh : timeBefore (BitVec.ofNat 64 τ) (origin.entry P tasks).expiryJiffies = true) :
    τ - origin.tick < (P.msecsToJiffies 1000).toNat := by
  have expiry : (origin.entry P tasks).expiryJiffies =
      BitVec.ofNat 64 origin.tick + P.msecsToJiffies 1000 := by
    unfold Origin.entry
    by_cases long : origin.len.toNat > kcrResultSizeMax
    · simp [long, Origin.draft, initEntry]
    · simp [long, Origin.draft, initEntry, storeInline]
  have difference : (BitVec.ofNat 64 τ - BitVec.ofNat 64 origin.tick).toNat = τ - origin.tick := by
    rw [BitVec.toNat_sub]
    simp only [BitVec.toNat_ofNat]
    omega
  have bounded : (P.msecsToJiffies 1000).toNat ≤ 2 ^ 63 := P.ttlBound.trans (by decide)
  rw [expiry] at fresh
  rw [← difference]
  exact (timeBefore_add (difference ▸ near) bounded).mp fresh

/-! ## Calls one after another -/

/-- The tick counter moves on alone. -/
theorem ticks_steps (c : Threads Nat Request Shared CacheLock Halt Outcome) (k : Nat) :
    (interleaved P tasks boot).system.Steps c (List.replicate k .ticks)
      { c with shared := { c.shared with now := c.shared.now + k } } := by
  induction k with
  | zero => exact .refl
  | succ k ih =>
      rw [List.replicate_succ']
      exact .step ih .ticks

theorem borders_replicate {event : ThreadEvent Nat Request Outcome} {k : Nat}
    (quiet : event.border = none) :
    (List.replicate k event).filterMap ThreadEvent.border = [] := by
  rw [List.filterMap_eq_nil_iff]
  intro other member
  rw [List.eq_of_mem_replicate member]
  exact quiet

/-- A call of the sequential cache, on a thread of its own. -/
theorem call_steps (run : (interleaved P tasks boot).system.Run events c)
    (idle : c.activity t = none) (free : ∀ l, c.owner l = none) {event : Event} {s' : State}
    (step : (cache P).Step c.shared.memory event s') (task : tasks t = event.who.task) :
    ∃ later c' request, (interleaved P tasks boot).system.Steps c later c' ∧
      c'.shared.memory = s' ∧ c'.owner = c.owner ∧ c'.activity = c.activity ∧
      request.operation = event.call.operation ∧
      later.filterMap ThreadEvent.border =
        [(t, request, none), (t, request, some event.outcome)] := by
  obtain ⟨fresh, fuel, ran⟩ := step
  let request := event.call.request fuel
  let k := (event.who.jiffies - c.shared.jiffies).toNat
  let waited : Threads Nat Request Shared CacheLock Halt Outcome :=
    { c with shared := { c.shared with now := c.shared.now + k } }
  have waits : (interleaved P tasks boot).system.Steps c (List.replicate k .ticks) waited :=
    ticks_steps c k
  have tick : waited.shared.jiffies = event.who.jiffies := by
    simp only [waited, k, Shared.jiffies, BitVec.ofNat_add, BitVec.ofNat_toNat, BitVec.setWidth_eq]
    bv_omega
  let entered := (interleaved P tasks boot).enter t request waited.shared
  have who : (tasks t).at entered.jiffies = event.who := by
    have same : entered.jiffies = event.who.jiffies := tick
    rw [task, same]
    rfl
  have computes := Access.computes_body P (tasks t) t request entered
  have memory : entered.memory = c.shared.memory := rfl
  rw [who, memory, Call.call_request fresh] at computes
  simp only [show request.fuel = fuel from rfl, ran] at computes
  cases body : (Access.body P (tasks t) t request).run entered with
  | error reason =>
      rw [Access.Computes, body] at computes
      cases computes
  | ok result =>
      obtain ⟨outcome, s⟩ := result
      rw [Access.Computes, body] at computes
      simp only [Except.map, Except.ok.injEq, Prod.mk.injEq] at computes
      obtain ⟨rfl, rfl, _⟩ := computes
      have good := (good_of_run run).steps (verified P tasks boot) waits
      obtain ⟨j, steps⟩ := good.completes (verified P tasks boot) idle free body
      refine ⟨_, _, request, waits.trans steps, rfl, rfl, rfl, rfl, ?_⟩
      rw [List.filterMap_append, borders_replicate rfl, List.filterMap_append,
        List.filterMap_append, borders_replicate rfl]
      rfl

/-- The calls that are over: by whom, what was asked, what was answered. -/
def answers (events : List (ThreadEvent Nat Request Outcome)) : List (Nat × Operation × Outcome) :=
  (events.filterMap ThreadEvent.answer).map fun answer => (answer.1, answer.2.1.operation, answer.2.2)

/-- Where calls begin and end: by whom, what is asked, and at the end what is answered. -/
def borders (events : List (ThreadEvent Nat Request Outcome)) :
    List (Nat × Operation × Option Outcome) :=
  (events.filterMap ThreadEvent.border).map fun border => (border.1, border.2.1.operation, border.2.2)

theorem answers_eq (events : List (ThreadEvent Nat Request Outcome)) :
    answers events = (borders events).filterMap fun border =>
      border.2.2.map fun outcome => (border.1, border.2.1, outcome) := by
  unfold answers borders
  rw [List.filterMap_map, List.filterMap_filterMap, ← List.filterMap_eq_map, List.filterMap_filterMap]
  congr 1
  funext event
  cases event <;> rfl

/-- The calls of a history, each answered before the next begins. -/
def serial (history : List Event) : List (Nat × Operation × Option Outcome) :=
  (history.mapIdx fun i event => [(i, event.call.operation, none),
    (i, event.call.operation, some event.outcome)]).flatten

/-- The threads make the calls of a history, one each. -/
def Assigned (tasks : Nat → Task) (history : List Event) : Prop :=
  ∀ i, ∀ event ∈ history[i]?, tasks i = event.who.task

theorem interleaves (boot : Nat) {history : List Event} {s : State}
    (run : (cache P).Run history s) (assigned : Assigned tasks history) :
    ∃ events c, (interleaved P tasks boot).system.Run events c ∧ c.shared.memory = s ∧
      (∀ t, c.activity t = none) ∧ (∀ l, c.owner l = none) ∧
      borders events = serial history := by
  apply run.invariant (fun history s => Assigned tasks history →
    ∃ events c, (interleaved P tasks boot).system.Run events c ∧ c.shared.memory = s ∧
      (∀ t, c.activity t = none) ∧ (∀ l, c.owner l = none) ∧
      borders events = serial history) _ _ assigned
  · rintro s rfl _
    exact ⟨[], _, .initial rfl, rfl, fun _ => rfl, fun _ => rfl, rfl⟩
  · intro history s event s' _ ih step assigned
    have before : Assigned tasks history := by
      intro i earlier member
      apply assigned i earlier
      rw [List.getElem?_append_left (List.getElem?_eq_some_iff.mp member).1]
      exact member
    obtain ⟨events, c, run, rfl, idle, free, shown⟩ := ih before
    have task : tasks history.length = event.who.task := assigned history.length event (by simp)
    obtain ⟨later, c', request, steps, memory, owner, activity, operation, answered⟩ :=
      call_steps run (idle history.length) free step task
    obtain ⟨first, valid, prior⟩ := run
    refine ⟨events ++ later, c', ⟨first, valid, prior.trans steps⟩, memory,
      fun t => activity ▸ idle t, fun l => owner ▸ free l, ?_⟩
    rw [borders, List.filterMap_append, List.map_append, answered, ← borders, shown, serial, serial,
      List.mapIdx_append, List.flatten_append]
    simp [operation]

/-- Every run of the sequential cache is an interleaving: its calls are made by threads of their
own, each over before the next begins, with the same outcomes and the same memory at the end. -/
theorem run_of_cache {history : List Event} {s : State} (run : (cache P).Run history s)
    (boot : Nat) : ∃ tasks events c, (interleaved P tasks boot).system.Run events c ∧
      c.shared.memory = s ∧ (∀ i, ∀ event ∈ history[i]?, tasks i = event.who.task) ∧
      borders events = serial history := by
  let tasks : Nat → Task := fun i => (history[i]?.map fun event => event.who.task).getD ⟨0, 0, 0⟩
  have assigned : Assigned tasks history := by
    intro i event member
    simp [tasks, Option.mem_def.mp member]
  obtain ⟨events, c, run, memory, _, _, shown⟩ := interleaves boot run assigned
  exact ⟨tasks, events, c, run, memory, assigned, shown⟩

theorem run_of_cache_storeByte : ∃ s tasks events c,
    (cache .oneNode).Run [⟨.on 0 0, .storeByte 5 1 10, .stored 0⟩,
      ⟨.on 0 9, .lookupUnified 5 1, .found (some 10)⟩] s ∧
    (interleaved .oneNode tasks 0).system.Run events c ∧ c.shared.memory = s ∧
    (∀ i, ∀ event ∈ ([⟨.on 0 0, .storeByte 5 1 10, .stored 0⟩,
      ⟨.on 0 9, .lookupUnified 5 1, .found (some 10)⟩] : List Event)[i]?,
      tasks i = event.who.task) ∧
    borders events = serial [⟨.on 0 0, .storeByte 5 1 10, .stored 0⟩,
      ⟨.on 0 9, .lookupUnified 5 1, .found (some 10)⟩] := by
  obtain ⟨s, alone, _⟩ := run_of_replay .oneNode 9
    [⟨.on 0 0, .storeByte 5 1 10, .stored 0⟩, ⟨.on 0 9, .lookupUnified 5 1, .found (some 10)⟩]
    (by decide +kernel)
  obtain ⟨tasks, events, c, run⟩ := run_of_cache alone 0
  exact ⟨s, tasks, events, c, alone, run⟩

/-! ## Hits -/

/-- The entry goes back to a store of the key that the lookup asked for, begun before by a thread
on the same socket; its time to live had not passed at some tick of the lookup; and it is and
remains what that store left. -/
def Traced (P : Platform) (tasks : Nat → Task) (boot : Nat)
    (events : List (ThreadEvent Nat Request Outcome)) (t : Nat) (request : Request) (n : Node)
    (c : Threads Nat Request Shared CacheLock Halt Outcome) : Prop :=
  ∃ fingerprint mm start origin τ, request.operation = .lookupUnified fingerprint mm ∧
    (interleaved P tasks boot).Began events t request start ∧
    StoredBy P tasks boot events origin ∧ origin.fingerprint = fingerprint ∧ origin.mm = mm ∧
    P.socketIndex (tasks origin.thread).cpu = P.socketIndex (tasks t).cpu ∧
    (origin.tick ≤ τ ∧ start.now ≤ τ ∧ τ ≤ c.shared.now) ∧
    (τ - origin.tick < 2 ^ 63 → τ - origin.tick < (P.msecsToJiffies 1000).toNat) ∧
    ∀ later c', (interleaved P tasks boot).system.Steps c later c' →
      c'.shared.memory.entry n = origin.entry P tasks

/-- Whatever the others are doing, a hit can be traced to a store. -/
theorem hit_provenance (run : (interleaved P tasks boot).system.Run
    (events ++ [.returns t request (.found (some n))]) c) :
    Traced P tasks boot events t request n c := by
  obtain ⟨before, prior, step⟩ := run.last
  have whole := run
  cases step with
  | @returns _ _ start _ here =>
      obtain ⟨_, result⟩ := ((good_of_run prior).returns (verified P tasks boot) here).1
      obtain ⟨fingerprint, mm, operation, hit⟩ := result.found
      obtain ⟨⟨origin, τ, complete, sameFingerprint, sameMm, stored, after, now, fresh⟩,
        linked⟩ := hit n rfl
      have colour : origin.hashClass P tasks = hashClass P (tasks t).cpu fingerprint :=
        (Shared.colour_complete complete).symm.trans linked.1.2
      refine ⟨fingerprint, mm, start, origin, τ, operation, Machine.began_of_run prior here,
        storedBy_of_complete prior complete, sameFingerprint, sameMm, congrArg Prod.fst colour,
        ⟨stored, after, now⟩, fun near => Origin.fresh stored near fresh, fun later c' steps => ?_⟩
      exact entry_of_steps whole complete steps

/-- Each thread on a CPU of its own. -/
def Task.onCpu (cpu : Nat) : Task := ⟨cpu, 1, 1⟩

/-- A store on CPU 0 that is about to release its L3 bucket, and a lookup of its key on CPU 1. -/
def handover : List (Machine.Turn Nat Request) :=
  .begins 0 ((Call.storeByte 5 1 10).request 9) :: List.replicate 16 (.goes 0) ++
    .ticks :: .begins 1 ((Call.lookupUnified 5 1).request 9) :: List.replicate 15 (.goes 1)

/-- The lookup moves the entry out of the bucket that the store has still locked. -/
theorem hit_provenance_handover : ∃ events request c,
    (interleaved .oneNode .onCpu 0).system.Run
      (events ++ [.returns 1 request (.found (some 10))]) c ∧
    Traced .oneNode .onCpu 0 events 1 request 10 c := by
  have computed : (interleaved .oneNode .onCpu 0).observe handover (Machine.returning 1) =
      some (.found (some 10)) := by decide +kernel
  obtain ⟨events, c, request, run⟩ := Machine.run_of_returning computed
  exact ⟨events, request, c, run, hit_provenance run⟩

/-! ## Buckets -/

/-- Whatever can be reached from a bucket, even halfway through a removal or an insertion, was
left by a store on the bucket's socket, of a fingerprint with the bucket's residue. -/
theorem onChain_hashClass (run : (interleaved P tasks boot).system.Run events c) {h : Head}
    (visited : c.shared.memory.heap.OnChain (.head h) n) :
    ∃ origin, StoredBy P tasks boot events origin ∧
      c.shared.memory.entry n = origin.entry P tasks ∧
      origin.hashClass P tasks = h.hashClass P := by
  have sound : c.shared.Sound P tasks := (good_of_run run).inv
  obtain ⟨origin, complete⟩ := sound.shaped.confined.onChain visited
  refine ⟨origin, storedBy_of_complete run complete, (sound.made complete).1, ?_⟩
  rw [← Shared.colour_complete complete]
  exact sound.shaped.coloured.onChain visited

/-- The bucket of CPU 1 after the lookup. -/
theorem onChain_hashClass_handover : ∃ events c,
    (interleaved .oneNode .onCpu 0).system.Run events c ∧
    c.shared.memory.heap.first (.l2 1 5) = some 10 ∧
    ∃ origin, StoredBy .oneNode .onCpu 0 events origin ∧
      c.shared.memory.entry 10 = origin.entry .oneNode .onCpu ∧
      origin.hashClass .oneNode .onCpu = Head.hashClass .oneNode (.l2 1 5) := by
  have computed : (interleaved .oneNode .onCpu 0).observe handover
      (fun c => c.shared.memory.heap.first (.l2 1 5)) = some 10 := by decide +kernel
  obtain ⟨events, c, run, first⟩ := Machine.run_of_observe computed
  exact ⟨events, c, run, first, onChain_hashClass run (.of_read (l := .head _) first)⟩

/-! ## Slots -/

/-- While no one holds the slot lock, a slot that is taken holds an allocated buffer of the
slot's size, which is in no other slot that no one is working on. -/
theorem slot_of_free (run : (interleaved P tasks boot).system.Run events c) {socket : Nat}
    (free : c.owner (.ext socket) = none) (slot : Fin kcrExtSlots) :
    (c.shared.memory.extSlots socket slot = 0#64 ∧ c.shared.memory.extSlotSize socket slot = 0#32) ∨
      (∃ bytes, c.shared.memory.buffers (c.shared.memory.extSlots socket slot) = some bytes ∧
        bytes.length = (c.shared.memory.extSlotSize socket slot).toNat ∧
        kcrResultSizeMax < bytes.length) ∧
      ∀ socket' slot', c.owner (.ext socket') = none →
        c.shared.memory.extSlots socket' slot' = c.shared.memory.extSlots socket slot →
        socket' = socket ∧ slot' = slot := by
  have tables : ∀ k, c.owner (.ext k) = none → c.shared.Table k none :=
    fun k unlocked => (good_of_run run).free (.ext k) unlocked k rfl
  obtain empty | ⟨bytes, taken, home, buffer, length, long⟩ := (tables socket free).holds slot nofun
  · exact .inl empty
  · refine .inr ⟨⟨bytes, buffer, length, long⟩, fun socket' slot' free' same => ?_⟩
    obtain ⟨empty, _⟩ | ⟨_, _, home', _⟩ := (tables socket' free').holds slot' nofun
    · exact absurd (same ▸ empty) taken
    · rw [same, home] at home'
      obtain ⟨rfl, rfl⟩ := Prod.mk.inj (Option.some.inj home')
      exact ⟨rfl, rfl⟩

/-- A store of 65 bytes after it has released the slot lock. -/
def large : List (Machine.Turn Nat Request) :=
  .begins 0 ((Call.storeLarge 5 1 10 4096).request 9) :: List.replicate 10 (.goes 0)

theorem slot_of_free_large : ∃ events c,
    (interleaved .oneNode .onCpu 0).system.Run events c ∧
    c.shared.memory.extSlots 0 0 = 4096#64 ∧
    ((c.shared.memory.extSlots 0 0 = 0#64 ∧ c.shared.memory.extSlotSize 0 0 = 0#32) ∨
      (∃ bytes, c.shared.memory.buffers (c.shared.memory.extSlots 0 0) = some bytes ∧
        bytes.length = (c.shared.memory.extSlotSize 0 0).toNat ∧
        kcrResultSizeMax < bytes.length) ∧
      ∀ socket' slot', c.owner (.ext socket') = none →
        c.shared.memory.extSlots socket' slot' = c.shared.memory.extSlots 0 0 →
        socket' = 0 ∧ slot' = 0) := by
  have computed : (interleaved .oneNode .onCpu 0).observe large
      (fun c => some (c.shared.memory.extSlots 0 0, c.owner (.ext 0))) =
      some (4096#64, none) := by decide +kernel
  obtain ⟨events, c, run, seen⟩ := Machine.run_of_observe computed
  obtain ⟨taken, free⟩ := Prod.mk.inj (Option.some.inj seen)
  exact ⟨events, c, run, taken, slot_of_free run free 0⟩

/-- While no one holds a slot lock, every allocated buffer is in a slot. -/
theorem buffer_of_free (run : (interleaved P tasks boot).system.Run events c)
    (free : ∀ socket, c.owner (.ext socket) = none) {a : U64}
    (allocated : c.shared.memory.buffers a ≠ none) :
    ∃ socket slot, c.shared.memory.extSlots socket slot = a := by
  have sound : c.shared.Sound P tasks := (good_of_run run).inv
  cases home : c.shared.ghost.home a with
  | none => exact absurd ((sound.homes a).mpr home) allocated
  | some place =>
      obtain ⟨socket, slot⟩ := place
      have table := (good_of_run run).free (.ext socket) (free socket) socket rfl
      exact ⟨socket, slot, (table.held nofun home).1⟩

theorem buffer_of_free_large : ∃ events c,
    (interleaved .oneNode .onCpu 0).system.Run events c ∧
    c.shared.memory.buffers 4096 ≠ none ∧
    ∃ socket slot, c.shared.memory.extSlots socket slot = 4096#64 := by
  obtain ⟨s, alone, replayed⟩ := run_of_replay .oneNode 9
    [⟨⟨0, 0, 1, 1⟩, .storeLarge 5 1 10 4096, .stored 0⟩] (by decide +kernel)
  have allocated : (s.buffers 4096).isSome = true :=
    observe replayed (fun s => (s.buffers 4096).isSome) (by decide +kernel)
  have assigned : Assigned .onCpu [⟨⟨0, 0, 1, 1⟩, .storeLarge 5 1 10 4096, .stored 0⟩] := by
    rintro (_ | i) event ⟨⟩
    rfl
  obtain ⟨events, c, run, rfl, _, free, _⟩ := interleaves 0 alone assigned
  have allocated' : c.shared.memory.buffers 4096 ≠ none := Option.isSome_iff_ne_none.mp allocated
  exact ⟨events, c, run, allocated', buffer_of_free run (fun socket => free _) allocated'⟩

/-! ## Entries -/

/-- A store that the entry can come from has returned 0. -/
def Succeeded (events : List (ThreadEvent Nat Request Outcome)) (origin : Origin) : Prop :=
  ∃ request, request.Makes origin ∧ .returns origin.thread request (.stored 0) ∈ events

/-- Between its calls, the stores of a thread that completed an entry have returned 0. -/
theorem succeeded_of_complete (run : (interleaved P tasks boot).system.Run events c)
    {origin : Origin} (idle : c.activity origin.thread = none)
    (complete : c.shared.ghost.status n = .complete origin) : Succeeded events origin := by
  refine (verified P tasks boot).accounted
    (fun s t origin => origin.thread = t ∧ ∃ n, s.ghost.status n = .complete origin)
    (fun events _ => Succeeded events) ?_ ?_ ?_ ?_ ?_ run idle ⟨rfl, n, complete⟩
  · rintro t origin ⟨_, n, ⟨⟩⟩
  · rintro s s' t origin env ⟨own, n, complete⟩
    exact ⟨own, n, (env t none).finished complete own⟩
  · rintro t held s s' u origin other step ⟨own, n, complete⟩
    exact ⟨own, n, (step.2 u none other (by simp)).finished complete own⟩
  · rintro events t origin event ⟨request, makes, returned⟩
    exact ⟨request, makes, List.mem_append_left _ returned⟩
  · rintro t request start outcome s events origin ⟨leaves, _⟩ ⟨own, n, complete⟩
    obtain before | ⟨rfl, makes⟩ := leaves.2 n origin complete own
    · exact .inl ⟨own, n, before⟩
    · exact .inr ⟨request, makes, own ▸ List.mem_append_right _ (List.mem_singleton_self _)⟩

/-- While no call is in progress, every allocated entry was left by a store that returned 0;
those that failed have freed theirs. -/
theorem stored_of_idle (run : (interleaved P tasks boot).system.Run events c)
    (idle : ∀ t, c.activity t = none) (allocated : n ∈ c.shared.memory.live) :
    ∃ origin, StoredBy P tasks boot events origin ∧ Succeeded events origin ∧
      c.shared.memory.entry n = origin.entry P tasks := by
  have good := good_of_run run
  have sound : c.shared.Sound P tasks := good.inv
  cases status : c.shared.ghost.status n with
  | free => exact absurd status ((sound.allocated n).mp allocated)
  | draft t => exact absurd status (good.idle t (idle t) n)
  | complete origin =>
      exact ⟨origin, storedBy_of_complete run status, succeeded_of_complete run (idle _) status,
        (sound.made status).1⟩

theorem stored_of_idle_storeByte : ∃ events c,
    (interleaved .oneNode .onCpu 0).system.Run events c ∧ 10 ∈ c.shared.memory.live ∧
    ∃ origin, StoredBy .oneNode .onCpu 0 events origin ∧ Succeeded events origin ∧
      c.shared.memory.entry 10 = origin.entry .oneNode .onCpu := by
  obtain ⟨s, alone, replayed⟩ := run_of_replay .oneNode 9
    [⟨⟨0, 0, 1, 1⟩, .storeByte 5 1 10, .stored 0⟩] (by decide +kernel)
  have allocated : s.live.contains 10 = true :=
    observe replayed (fun s => s.live.contains 10) (by decide +kernel)
  have assigned : Assigned .onCpu [⟨⟨0, 0, 1, 1⟩, .storeByte 5 1 10, .stored 0⟩] := by
    rintro (_ | i) event ⟨⟩
    rfl
  obtain ⟨events, c, run, rfl, idle, _⟩ := interleaves 0 alone assigned
  have allocated' : 10 ∈ c.shared.memory.live := by simpa using allocated
  exact ⟨events, c, run, allocated', stored_of_idle run idle allocated'⟩

/-- A store that returns 0 leaves an entry with what it was given, which stays as it is; its
time to live starts at a tick of the call. -/
theorem stored_entry (run : (interleaved P tasks boot).system.Run
    (events ++ [.returns t request (.stored 0)]) c) :
    ∃ fingerprint bytes len mm start n tick buffer,
      request.operation = .storeResult fingerprint (some bytes) len mm ∧
      (interleaved P tasks boot).Began events t request start ∧ start.now ≤ tick ∧
      tick ≤ c.shared.now ∧ n ∈ c.shared.memory.live ∧
      ∀ later c', (interleaved P tasks boot).system.Steps c later c' →
        c'.shared.memory.entry n =
          (Origin.mk t fingerprint bytes len mm tick buffer).entry P tasks := by
  obtain ⟨start, began, _, result⟩ := (verified P tasks boot).returns run
  obtain ⟨fingerprint, data, len, mm, operation, stored⟩ := result.stored
  obtain ⟨_, bytes, n, tick, buffer, rfl, after, complete⟩ | ⟨failed, _⟩ | failed := stored
  · have sound : c.shared.Sound P tasks := (good_of_run run).inv
    refine ⟨fingerprint, bytes, len, mm, start, n, tick, buffer, operation, began, after,
      (sound.made complete).2.1, (sound.allocated n).mpr ?_, fun later c' steps => ?_⟩
    · rw [complete]
      exact nofun
    · exact entry_of_steps run complete steps
  · exact absurd failed (by decide)
  · exact absurd failed (by decide)

theorem stored_entry_storeByte : ∃ events request c,
    (interleaved .oneNode .onCpu 0).system.Run (events ++ [.returns 0 request (.stored 0)]) c ∧
    ∃ fingerprint bytes len mm start n tick buffer,
      request.operation = .storeResult fingerprint (some bytes) len mm ∧
      (interleaved .oneNode .onCpu 0).Began events 0 request start ∧ start.now ≤ tick ∧
      tick ≤ c.shared.now ∧ n ∈ c.shared.memory.live ∧
      ∀ later c', (interleaved .oneNode .onCpu 0).system.Steps c later c' →
        c'.shared.memory.entry n =
          (Origin.mk 0 fingerprint bytes len mm tick buffer).entry .oneNode .onCpu := by
  have computed : (interleaved .oneNode .onCpu 0).observe
      (.begins 0 ((Call.storeByte 5 1 10).request 9) :: List.replicate 17 (.goes 0))
      (Machine.returning 0) = some (.stored 0) := by decide +kernel
  obtain ⟨events, c, request, run⟩ := Machine.run_of_returning computed
  exact ⟨events, request, c, run, stored_entry run⟩

/-! ## Locks -/

/-- No deadlock: a thread in a call goes on, has run out of fuel or into a poisoned `pprev`, or
waits for a lock of another thread that itself waits for none. No one holds two locks, and no
one ever follows a null `pprev`. -/
theorem goesOn_of_busy (run : (interleaved P tasks boot).system.Run events c)
    (busy : c.activity t ≠ none) :
    (interleaved P tasks boot).CanMove c t ∨ c.Faulted t .fuel ∨ c.Faulted t .poison ∨
      ∃ l u, c.Waits t l ∧ c.owner l = some u ∧ u ≠ t ∧ (∀ l', c.owner l' = some u → l' = l) ∧
        ((interleaved P tasks boot).CanMove c u ∨ c.Faulted u .fuel ∨ c.Faulted u .poison) := by
  have good := good_of_run run
  have faults : ∀ {u reason}, c.Faulted u reason → c.Faulted u .fuel ∨ c.Faulted u .poison := by
    intro u reason faulted
    cases reason with
    | fuel => exact .inl faulted
    | poison => exact .inr faulted
    | null => exact absurd rfl (good.faulted faulted)
  obtain moves | ⟨reason, faulted⟩ | ⟨l, u, waits, owner, other, moves | ⟨reason, faulted⟩⟩ :=
    good.progress (interleaved P tasks boot) busy
  · exact .inl moves
  · exact .inr ((faults faulted).elim .inl fun poison => .inr (.inl poison))
  · exact .inr (.inr (.inr ⟨l, u, waits, owner, other, fun l' owns => good.oneLock owns owner,
      .inl moves⟩))
  · exact .inr (.inr (.inr ⟨l, u, waits, owner, other, fun l' owns => good.oneLock owns owner,
      .inr (faults faulted)⟩))

/-- The lock a thread is about to take, and who holds it. -/
def wanting (t : Nat) (c : Threads Nat Request Shared CacheLock Halt Outcome) :
    Option (CacheLock × Option Nat) :=
  (c.activity t).bind fun activity => match activity.program with
    | .lock l _ => some (l, c.owner l)
    | _ => none

/-- Two stores of one fingerprint, the first in its L3 bucket, the second about to enter it. -/
theorem goesOn_of_busy_stores : ∃ events c,
    (interleaved .oneNode .onCpu 0).system.Run events c ∧
    wanting 1 c = some (.bucket (.l3 0 5), some 0) ∧
    ((interleaved .oneNode .onCpu 0).CanMove c 1 ∨ c.Faulted 1 .fuel ∨ c.Faulted 1 .poison ∨
      ∃ l u, c.Waits 1 l ∧ c.owner l = some u ∧ u ≠ 1 ∧ (∀ l', c.owner l' = some u → l' = l) ∧
        ((interleaved .oneNode .onCpu 0).CanMove c u ∨ c.Faulted u .fuel ∨
          c.Faulted u .poison)) := by
  have computed : (interleaved .oneNode .onCpu 0).observe
      (.begins 0 ((Call.storeByte 5 1 10).request 9) :: List.replicate 13 (.goes 0) ++
        .begins 1 ((Call.storeByte 5 1 20).request 9) :: List.replicate 10 (.goes 1))
      (wanting 1) = some (.bucket (.l3 0 5), some 0) := by decide +kernel
  obtain ⟨events, c, run, wants⟩ := Machine.run_of_observe computed
  have busy : c.activity 1 ≠ none := by
    intro idle
    simp [wanting, idle] at wants
  exact ⟨events, c, run, wants, goesOn_of_busy run busy⟩

end Kcr
