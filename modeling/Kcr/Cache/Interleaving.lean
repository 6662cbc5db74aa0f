import Kcr.Cache.Guarantee

/-!
# Calls keep to the protocol

Any number of threads store, look up and invalidate at once, each on its CPU, and the tick
counter moves on whenever it likes. No memory that was handed to `call_rcu` is reclaimed here.
-/

namespace Kcr

open Hlist Protocol

/-- All interleavings of calls, from empty caches at a tick. -/
def interleaved (P : Platform) (tasks : Nat → Task) (boot : Nat) :
    Machine Nat Request Shared CacheLock Halt Outcome where
  initial := ⟨.initial, boot, ⟨fun _ => .free, fun _ => none, []⟩⟩
  enter t request s := { s with ghost := { s.ghost with begun := s.ghost.begun ++ [(t, request)] } }
  tick s := { s with now := s.now + 1 }
  body t request := Access.body P (tasks t) t request

variable {P : Platform} {tasks : Nat → Task} {t u : Nat} {held : Option CacheLock}
  {A B : Shared → Prop} {n : Node} {c : HashClass} {fuel : Nat} {fingerprint mm : U64}

/-- An access of a thread's own. -/
theorem meets_own {update : Shared → Shared} (steady : Steady t held B)
    (moves : ∀ s, s.Sound P tasks → A s → (update s).Sound P tasks ∧
      (update s).ghost.begun = s.ghost.begun ∧
      (∀ u mine, u ≠ t → (∀ l ∈ mine, l ∉ held) → Shared.Spares u mine s (update s)) ∧
      B (update s)) :
    (protocol P tasks).Meets t (fun _ => B) held held A
      (.write update : Access Unit) := by
  apply Meets.write steady.stable
  intro s inv holds
  obtain ⟨inv', begun, spares, holds'⟩ := moves s inv holds
  exact ⟨inv', ⟨begun, spares⟩, holds'⟩

/-- An access that only reads. -/
theorem meets_look {X : Type} {get : Shared → X} {mid : X → Shared → Prop}
    (steady : ∀ result, Steady t held (mid result))
    (reads : ∀ s, s.Sound P tasks → A s → mid (get s) s) :
    (protocol P tasks).Meets t mid held held A (.read get : Access X) :=
  (cacheLists P tasks).meets_read (fun result => (steady result).stable) reads

theorem meets_del (steady : Steady t held A) : (protocol P tasks).Meets t
    (fun _ s => A s ∧ (cacheLists P tasks).Linked c n s) held held
    (fun s => A s ∧ (cacheLists P tasks).Linked c n s)
    (hlistDelRcu Shared.heap n : Access Unit) :=
  Lists.meets_hlistDelRcu steady.carried

theorem meets_add {h : Head} (same : h.hashClass P = c) (steady : Steady t held A) :
    (protocol P tasks).Meets t (fun _ s => A s ∧ (cacheLists P tasks).Linked c n s) held held
      (fun s => A s ∧ (cacheLists P tasks).Member c n s)
      (hlistAddHeadRcu Shared.heap n h : Access Unit) :=
  Lists.meets_hlistAddHeadRcu (D := cacheLists P tasks) same steady.carried

/-! ## Lookups -/

section Lookup

variable {start : Shared}

/-- The entry is complete, has the key, and had time to live at some tick of the call. -/
def Accepted (P : Platform) (tasks : Nat → Task) (fingerprint mm : U64) (start : Shared) (n : Node)
    (s : Shared) : Prop :=
  ∃ origin τ, s.ghost.status n = .complete origin ∧ origin.fingerprint = fingerprint ∧
    origin.mm = mm ∧ origin.tick ≤ τ ∧ start.now ≤ τ ∧ τ ≤ s.now ∧
    timeBefore (BitVec.ofNat 64 τ) (origin.entry P tasks).expiryJiffies = true

theorem steady_accepted : Steady t held (Accepted P tasks fingerprint mm start n) := by
  rintro s s' spares ⟨origin, τ, complete, sameKey, owner, stored, after, before, fresh⟩
  exact ⟨origin, τ, spares.complete complete, sameKey, owner, stored, after,
    before.trans spares.now, fresh⟩

/-- The key of a complete entry is that of its origin. -/
theorem Origin.entry_key (P : Platform) (tasks : Nat → Task) (origin : Origin) :
    (origin.entry P tasks).fingerprint = origin.fingerprint ∧
      (origin.entry P tasks).mm = origin.mm := by
  unfold Origin.entry
  by_cases long : origin.len.toNat > kcrResultSizeMax
  · simp [long, Origin.draft, initEntry]
  · simp [long, Origin.draft, initEntry, storeInline]

theorem meets_accepts (steady : Steady t held A) (later : ∀ s, A s → start.now ≤ s.now) :
    (protocol P tasks).Meets t
      (fun accepted s => if accepted = true then
          A s ∧ Accepted P tasks fingerprint mm start n s ∧ (cacheLists P tasks).Linked c n s
        else A s ∧ (cacheLists P tasks).Linked c n s)
      held held (fun s => A s ∧ (cacheLists P tasks).Linked c n s)
      (Access.accepts fingerprint mm n) := by
  have key : (protocol P tasks).Meets t
      (fun same s => (A s ∧ (cacheLists P tasks).Linked c n s) ∧ ∃ origin,
        s.ghost.status n = .complete origin ∧
          (same = true → origin.fingerprint = fingerprint ∧ origin.mm = mm))
      held held (fun s => A s ∧ (cacheLists P tasks).Linked c n s)
      (.read fun s => s.memory.sameKey fingerprint mm n : Access Bool) := by
    refine meets_look (fun same => (steady.and .linked).and (.any fun origin => .and .complete
      (.const _))) fun s sound holds => ⟨holds, ?_⟩
    obtain ⟨origin, complete⟩ := holds.2.1.1
    refine ⟨origin, complete, fun same => ?_⟩
    obtain ⟨sameFingerprint, sameMm⟩ := origin.entry_key P tasks
    rw [State.sameKey, (sound.made complete).1, sameFingerprint, sameMm] at same
    simpa using same
  refine key.bind fun same => ?_
  cases same with
  | false => exact .pure fun _ _ holds => holds.1
  | true =>
      refine meets_look (fun accepted => ?_) fun s sound holds => ?_
      · by_cases yes : accepted = true
        · simpa [yes] using steady.and (steady_accepted.and .linked)
        · simpa [yes] using steady.and .linked
      · obtain ⟨⟨holds, linked⟩, origin, complete, key⟩ := holds
        obtain ⟨sameFingerprint, sameMm⟩ := key rfl
        split
        · next accepted =>
          rw [(sound.made complete).1] at accepted
          exact ⟨holds, ⟨origin, s.now, complete, sameFingerprint, sameMm,
            (sound.made complete).2.1, later s holds, le_rfl, accepted⟩, linked⟩
        · exact ⟨holds, linked⟩

/-- What a lookup returns. -/
def Hit (P : Platform) (tasks : Nat → Task) (t : Nat) (fingerprint mm : U64) (start : Shared)
    (result : Option Node) (s : Shared) : Prop :=
  ∀ n ∈ result, Accepted P tasks fingerprint mm start n s ∧
    (cacheLists P tasks).Linked (hashClass P (tasks t).cpu fingerprint) n s

theorem steady_hit {result : Option Node} :
    Steady t held (Hit P tasks u fingerprint mm start result) :=
  fun s s' spares holds n found =>
    (steady_accepted.and .linked) s s' spares (holds n found)

theorem meets_first {h : Head} (same : h.hashClass P = c) (steady : Steady t held A) :
    (protocol P tasks).Meets t
      (fun first s => A s ∧ ∀ n ∈ first, (cacheLists P tasks).Linked c n s) held held A
      (Shared.heap.read fun heap => heap.first h : Access (Option Node)) := by
  refine (cacheLists P tasks).meets_read
    (fun first => steady.stable.and Lists.carried_linked_mem.stable)
    fun s sound holds => ⟨holds, fun n read => ?_⟩
  exact sound.shaped.read (l := .head h) ⟨same, nofun⟩ read

theorem meets_search (steady : Steady t held A) (later : ∀ s, A s → start.now ≤ s.now)
    (position : Option Node) :
    (protocol P tasks).Meets t (fun result s => A s ∧ Hit P tasks t fingerprint mm start result s)
      held held (fun s => A s ∧ ∀ n ∈ position,
        (cacheLists P tasks).Linked (hashClass P (tasks t).cpu fingerprint) n s)
      (findEntry Shared.heap (Access.accepts fingerprint mm) fuel position) := by
  apply Lists.meets_findEntry (D := cacheLists P tasks) steady.stable
  · intro n
    refine (meets_accepts (n := n) steady later).entails fun accepted s _ holds => ?_
    cases accepted with
    | false => exact holds
    | true => exact ⟨holds.1, fun m same => Option.some.inj same ▸ holds.2⟩
  · exact fun s _ holds => ⟨holds, nofun⟩

theorem meets_thisCpuInc (steady : Steady t held A) (counter : Counter) :
    (protocol P tasks).Meets t (fun _ => A) held held A
      (Access.thisCpuInc P (tasks t) counter) := by
  refine meets_own steady fun s sound holds => ?_
  have spares : ∀ u mine, Shared.Spares u mine s
      (s.on (s.memory.thisCpuInc P (tasks t).cpu (P.thisCpuPtr (tasks t).cpu) counter)) :=
    fun _ _ => Shared.spares_on rfl rfl rfl rfl fun _ _ set => set
  exact ⟨sound.count _ _ _, rfl, fun u mine _ _ => spares u mine,
    steady _ _ (spares t held) holds⟩

theorem meets_lookupL2 (steady : Steady t held A) (later : ∀ s, A s → start.now ≤ s.now) :
    (protocol P tasks).Meets t (fun result s => A s ∧ Hit P tasks t fingerprint mm start result s)
      held held A (Access.lookupL2 P (tasks t) fuel fingerprint mm) := by
  refine (meets_first (hashClass_l2Head P (tasks t).cpu fingerprint) steady).bind fun first => ?_
  refine (meets_search steady later first).bind fun result => ?_
  cases result with
  | none => exact .pure fun _ _ holds => holds
  | some n =>
      exact (meets_thisCpuInc (steady.and steady_hit) .l2Hits).bind fun _ =>
        .pure fun _ _ holds => holds

theorem meets_lookupL3 (steady : Steady t held A) (later : ∀ s, A s → start.now ≤ s.now) :
    (protocol P tasks).Meets t (fun result s => A s ∧ Hit P tasks t fingerprint mm start result s)
      held held A (Access.lookupL3 P (tasks t) fuel fingerprint mm) := by
  refine (meets_first (hashClass_l3Head P (tasks t).cpu fingerprint) steady).bind fun first => ?_
  exact meets_search steady later first

/-- A bucket lock is taken and given back; it protects nothing that the proof needs. -/
theorem meets_acquire_bucket {h : Head} (steady : ∀ held, Steady t held A) :
    (protocol P tasks).Meets t (fun _ => A) (some (.bucket h)) none A
      (.acquire (.bucket h) : Access Unit) :=
  .acquire (steady _).stable fun _ _ _ holds => holds

theorem meets_release_bucket {h : Head} (steady : ∀ held, Steady t held A) :
    (protocol P tasks).Meets t (fun _ => A) none (some (.bucket h)) A
      (.release (.bucket h) : Access Unit) :=
  .release (steady _).stable fun _ _ holds => ⟨nofun, holds⟩

theorem meets_promoteToL2 (steady : ∀ held, Steady t held A) :
    (protocol P tasks).Meets t (fun _ => A) none none
      (fun s => A s ∧ (cacheLists P tasks).Linked (hashClass P (tasks t).cpu fingerprint) n s)
      (Access.promoteToL2 (tasks t) n fingerprint) := by
  refine (meets_acquire_bucket fun held => (steady held).and .linked).bind fun _ => ?_
  refine (meets_del (steady _)).bind fun _ => ?_
  refine ((meets_add (hashClass_l2Head P (tasks t).cpu fingerprint) (steady _)).weaken
    fun s _ holds => ⟨holds.1, holds.2.1⟩).bind fun _ => ?_
  exact (meets_release_bucket steady).weaken fun s _ holds => holds.1

theorem meets_lookupUnified (steady : ∀ held, Steady t held A)
    (later : ∀ s, A s → start.now ≤ s.now) :
    (protocol P tasks).Meets t (fun result s => A s ∧ Hit P tasks t fingerprint mm start result s)
      none none A (Access.lookupUnified P (tasks t) fuel fingerprint mm) := by
  refine (meets_lookupL2 (steady none) later).bind fun result => ?_
  cases result with
  | some n => exact .pure fun _ _ holds => holds
  | none =>
      refine ((meets_lookupL3 (steady none) later).weaken fun s _ holds => holds.1).bind
        fun result => ?_
      cases result with
      | none =>
          refine ((meets_thisCpuInc (steady none) .misses).weaken fun s _ holds => holds.1).bind
            fun _ => .pure fun _ _ holds => ⟨holds, nofun⟩
      | some n =>
          have hit : ∀ held, Steady t held
              fun s => A s ∧ Hit P tasks t fingerprint mm start (some n) s :=
            fun held => (steady held).and steady_hit
          refine ((meets_promoteToL2 hit).weaken fun s _ holds =>
            ⟨holds, (holds.2 n rfl).2⟩).bind fun _ => ?_
          exact (meets_thisCpuInc (hit none) .l3Hits).bind fun _ => .pure fun _ _ holds => holds

end Lookup

/-! ## Stores -/

section Store

variable {h : Head}

theorem meets_callRcu (steady : Steady t held A) : (protocol P tasks).Meets t (fun _ => A) held held
    (fun s => A s ∧ (cacheLists P tasks).Linked c n s) (Access.callRcu n) := by
  refine meets_own steady fun s sound holds => ?_
  have spares : ∀ u mine, Shared.Spares u mine s (s.on (s.memory.callRcu n)) :=
    fun _ _ => Shared.spares_on rfl rfl rfl rfl fun _ _ set => set
  exact ⟨sound.callRcu holds.2.1.1, rfl, fun u mine _ _ => spares u mine,
    steady _ _ (spares t held) holds.1⟩

theorem meets_replaceIn {entry : Node} (same : h.hashClass P = c)
    (steady : ∀ held, Steady t held A) : (protocol P tasks).Meets t (fun _ => A) none none
      (fun s => A s ∧ (cacheLists P tasks).Member c entry s)
      (Access.replaceIn fuel h entry fingerprint) := by
  have member : ∀ held, Steady t held
      fun s => A s ∧ (cacheLists P tasks).Member c entry s := fun held => (steady held).and .member
  refine (meets_acquire_bucket member).bind fun _ => ?_
  refine (meets_first same (member _)).bind fun first => ?_
  have search : (protocol P tasks).Meets t
      (fun old s => (A s ∧ (cacheLists P tasks).Member c entry s) ∧
        ∀ n ∈ old, (cacheLists P tasks).Linked c n s) (some (.bucket h)) (some (.bucket h))
      (fun s => (A s ∧ (cacheLists P tasks).Member c entry s) ∧
        ∀ n ∈ first, (cacheLists P tasks).Linked c n s)
      (findEntry Shared.heap (fun old => .read fun s =>
        s.memory.sameKey fingerprint (s.memory.entry entry).mm old) fuel first) := by
    apply Lists.meets_findEntry (D := cacheLists P tasks) (member _).stable
    · intro n
      refine meets_look (fun same => ?_) fun s _ holds => ?_
      · by_cases yes : same = true
        · simpa [yes] using (member _).and .linked
        · simpa [yes] using (member _).and .linked
      · split
        · exact ⟨holds.1, fun m same => Option.some.inj same ▸ holds.2⟩
        · exact holds
    · exact fun s _ holds => ⟨holds, nofun⟩
  refine search.bind fun old => ?_
  have rest : (protocol P tasks).Meets t (fun _ => A) none (some (.bucket h))
      (fun s => A s ∧ (cacheLists P tasks).Member c entry s) (do
        hlistAddHeadRcu Shared.heap entry h
        .release (.bucket h) : Access Unit) :=
    (meets_add same (steady _)).bind fun _ =>
      (meets_release_bucket steady).weaken fun s _ holds => holds.1
  cases old with
  | none => exact rest.weaken fun s _ holds => holds.1
  | some old =>
      refine ((meets_del (member _)).weaken fun s _ holds => ⟨holds.1, holds.2 old rfl⟩).bind
        fun _ => ?_
      exact (meets_callRcu (member _)).bind fun _ => rest

theorem meets_insertions {entry : Node} (same : hashClass P (tasks t).cpu fingerprint = c)
    (steady : ∀ held, Steady t held A)
    (member : ∀ s, A s → (cacheLists P tasks).Member c entry s) :
    (protocol P tasks).Meets t (fun status s => A s ∧ status = 0) none none A
      (Access.insertions P (tasks t) fuel entry fingerprint) := by
  have inL2 := (hashClass_l2Head P (tasks t).cpu fingerprint).trans same
  have inL3 := (hashClass_l3Head P (tasks t).cpu fingerprint).trans same
  refine ((meets_replaceIn inL2 steady).weaken fun s _ holds => ⟨holds, member s holds⟩).bind
    fun _ => ?_
  refine ((meets_replaceIn inL3 steady).weaken fun s _ holds => ⟨holds, member s holds⟩).bind
    fun _ => ?_
  exact .pure fun s _ holds => ⟨holds, rfl⟩

/-- The call goes on after a tick that came after its beginning, which is recorded. -/
def Since (t : Nat) (request : Request) (start : Shared) (tick : Nat) (s : Shared) : Prop :=
  (start.now ≤ tick ∧ tick ≤ s.now) ∧ (t, request) ∈ s.ghost.begun

/-- The thread has no entry of its own. -/
def NoDraft (t : Nat) (s : Shared) : Prop := ∀ n, s.ghost.status n ≠ .draft t

/-- The complete entries of the thread were complete at the start, or are among those given. -/
def Completes (t : Nat) (start : Shared) (made : Origin → Prop) (s : Shared) : Prop :=
  ∀ n origin, s.ghost.status n = .complete origin → origin.thread = t →
    start.ghost.status n = .complete origin ∨ made origin

/-- The thread has no entry of its own, and what it completed since the start is given. -/
def Leaves (t : Nat) (start : Shared) (made : Origin → Prop) (s : Shared) : Prop :=
  NoDraft t s ∧ Completes t start made s

/-- The thread has no entry of its own and has completed none since the start. -/
def Fruitless (t : Nat) (start : Shared) : Shared → Prop := Leaves t start fun _ => False

/-- The entry is the only one of the thread, which has completed none since the start, and it
holds what is given. -/
def Sole (t : Nat) (start : Shared) (n : Node) (e : Entry) (s : Shared) : Prop :=
  ((∀ m, s.ghost.status m = .draft t ↔ m = n) ∧ Completes t start (fun _ => False) s) ∧
    s.memory.entry n = e

theorem Completes.mono {start s : Shared} {made made' : Origin → Prop}
    (completes : Completes t start made s)
    (more : ∀ origin, origin.thread = t → made origin → made' origin) :
    Completes t start made' s :=
  fun n origin complete own => (completes n origin complete own).imp_right (more origin own)

theorem Fruitless.leaves {start s : Shared} (fruitless : Fruitless t start s)
    (made : Origin → Prop) : Leaves t start made s :=
  ⟨fruitless.1, fruitless.2.mono fun _ _ => False.elim⟩

theorem Completes.setStatus {start s : Shared} {made : Origin → Prop}
    (completes : Completes t start made s) {memory : State} {status : Status}
    (after : ∀ origin, status = .complete origin → origin.thread = t → made origin) :
    Completes t start made ((s.on memory).setStatus n status) := by
  intro m origin complete own
  by_cases same : m = n
  · subst same
    exact .inr (after origin (by simpa [Shared.setStatus] using complete) own)
  · exact completes m origin (by simpa [Shared.setStatus, same] using complete) own

theorem steady_since {request : Request} {start : Shared} {tick : Nat} :
    Steady t held (Since t request start tick) :=
  fun _ _ spares holds => ⟨⟨holds.1.1, holds.1.2.trans spares.now⟩, spares.begun holds.2⟩

theorem steady_noDraft : Steady t held (NoDraft t) :=
  fun _ _ spares holds n draft => holds n ((spares.drafts n).mp draft)

theorem steady_completes {start : Shared} {made : Origin → Prop} :
    Steady t held (Completes t start made) :=
  fun _ _ spares holds n origin complete own => holds n origin (spares.finished complete own) own

theorem steady_leaves {start : Shared} {made : Origin → Prop} :
    Steady t held (Leaves t start made) :=
  steady_noDraft.and steady_completes

theorem steady_fruitless {start : Shared} : Steady t held (Fruitless t start) := steady_leaves

theorem steady_sole {start : Shared} {e : Entry} : Steady t held (Sole t start n e) :=
  fun s s' spares holds =>
    ⟨⟨fun m => (spares.drafts m).trans (holds.1.1 m), steady_completes s s' spares holds.1.2⟩,
      (spares.entries ((holds.1.1 n).mpr rfl)).trans holds.2⟩

variable {request : Request} {start : Shared} {allocator : Allocator} {e : Entry} {tick : Nat}

theorem meets_kzalloc : (protocol P tasks).Meets t
    (fun result s => match result with
      | none => Since t request start tick s ∧ Fruitless t start s
      | some n => Since t request start tick s ∧ Sole t start n .zeroed s)
    held held (fun s => Since t request start tick s ∧ Fruitless t start s)
    (Access.kzalloc t allocator) := by
  apply Meets.fetch
  · rintro ⟨_ | n⟩
    · exact (steady_since.and steady_fruitless).stable
    · exact (steady_since.and steady_sole).stable
  · intro s sound holds
    cases given : allocator.kzalloc s.memory.live with
    | none => exact ⟨sound, ⟨rfl, fun _ _ _ _ => Shared.Spares.refl s⟩, holds⟩
    | some n =>
        have fresh := allocator.fresh _ n given
        have free : s.ghost.status n = .free := by
          by_contra used
          exact fresh ((sound.allocated n).mpr used)
        refine ⟨sound.kzalloc fresh, ⟨rfl, fun u mine other _ => ?_⟩, holds.1,
          ⟨fun m => ?_, holds.2.2.setStatus nofun⟩, ?_⟩
        · apply Shared.spares_own
          · simp [free]
          · simp [free]
          · simp [Ne.symm other]
          · exact nofun
          · exact fun m apart => by simp [State.kzalloc, apart]
          · exact fun m apart => by simp [State.kzalloc, apart]
          · rfl
          · rfl
          · rfl
        · by_cases same : m = n
          · simp [Shared.setStatus, same]
          · simp [Shared.setStatus, same, holds.2.1 m]
        · simp [State.kzalloc]

/-- The entry is the draft of what its origin says. -/
def Drafting (P : Platform) (tasks : Nat → Task) (start : Shared) (n : Node) (origin : Origin) (s : Shared) : Prop :=
  Sole origin.thread start n (origin.draft P tasks) s

/-- The entry is complete, and its thread has no other and completed no other since the start. -/
def Completed (start : Shared) (n : Node) (origin : Origin) (s : Shared) : Prop :=
  s.ghost.status n = .complete origin ∧ Leaves origin.thread start (· = origin) s

theorem steady_drafting {origin : Origin} :
    Steady origin.thread held (Drafting P tasks start n origin) := steady_sole

theorem steady_completed {origin : Origin} :
    Steady origin.thread held (Completed start n origin) :=
  Steady.complete.and steady_leaves

/-- A draft is not complete and belongs to no one else. -/
theorem Sole.draft {s : Shared} (sole : Sole t start n e s) :
    s.ghost.status n = .draft t := (sole.1.1 n).mpr rfl

theorem meets_fill {before : Nat} : (protocol P tasks).Meets t
    (fun tick s => Since t request start tick s ∧
      Sole t start n (initEntry P ((tasks t).at (BitVec.ofNat 64 tick)) fingerprint mm .zeroed) s)
    held held (fun s => Since t request start before s ∧ Sole t start n .zeroed s)
    (Access.fill P (tasks t) n fingerprint mm) := by
  apply Meets.fetch fun tick => (steady_since.and steady_sole).stable
  intro s sound ⟨since, sole⟩
  have draft : ∀ origin, s.ghost.status n ≠ .complete origin := by simp [sole.draft]
  refine ⟨sound.refill draft _, ⟨rfl, fun u mine other _ => ?_⟩,
    ⟨⟨since.1.1.trans since.1.2, le_rfl⟩, since.2⟩, sole.1, ?_⟩
  · rw [← Shared.setStatus_self sole.draft]
    apply Shared.spares_own draft
    · simp [sole.draft, Ne.symm other]
    · simp [Ne.symm other]
    · exact nofun
    · exact fun m apart => by simp [State.setEntry, apart]
    · exact fun _ _ => rfl
    · rfl
    · rfl
    · rfl
  · simp [State.setEntry, sole.2, Shared.jiffies]

/-- The access that completes an entry. -/
theorem finishes {origin : Origin} {s : Shared} (sound : s.Sound P tasks)
    (since : Since origin.thread request start origin.tick s) (makes : request.Makes origin)
    (sole : Sole origin.thread start n e s) {s' : Shared}
    (writes : s' = (s.on (s.memory.setEntry n (origin.entry P tasks))).setStatus n
      (.complete origin)) :
    s'.Sound P tasks ∧ s'.ghost.begun = s.ghost.begun ∧
      (∀ u mine, u ≠ origin.thread → (∀ l ∈ mine, l ∉ held) → Shared.Spares u mine s s') ∧
      Since origin.thread request start origin.tick s' ∧ Completed start n origin s' := by
  subst writes
  have draft : ∀ origin, s.ghost.status n ≠ .complete origin := by simp [sole.draft]
  refine ⟨sound.finish sole.draft since.1.2 since.2 makes, rfl, fun u mine other _ => ?_, since, ?_, ?_, ?_⟩
  · apply Shared.spares_own draft
    · simp [sole.draft, Ne.symm other]
    · simp
    · rintro _ ⟨⟩
      exact Ne.symm other
    · exact fun m apart => by simp [State.setEntry, apart]
    · exact fun _ _ => rfl
    · rfl
    · rfl
    · rfl
  · simp [Shared.setStatus]
  · intro m
    by_cases same : m = n
    · simp [Shared.setStatus, same]
    · simp [Shared.setStatus, same, sole.1.1 m]
  · refine (sole.1.2.mono fun _ _ => False.elim).setStatus ?_
    rintro _ ⟨⟩ _
    rfl

theorem meets_storeInline {origin : Origin} (short : ¬origin.len.toNat > kcrResultSizeMax)
    (makes : request.Makes origin) : (protocol P tasks).Meets origin.thread
    (fun _ s => Since origin.thread request start origin.tick s ∧ Completed start n origin s) held held
    (fun s => Since origin.thread request start origin.tick s ∧ Drafting P tasks start n origin s)
    (Access.storeInline n origin) := by
  apply meets_own (steady_since.and steady_completed)
  intro s sound ⟨since, sole⟩
  refine finishes sound since makes sole ?_
  rw [sole.2, Origin.entry, if_neg short]

theorem meets_kfree : (protocol P tasks).Meets t
    (fun _ s => Since t request start tick s ∧ Fruitless t start s) held held
    (fun s => Since t request start tick s ∧ Sole t start n e s) (Access.kfree n) := by
  apply meets_own (steady_since.and steady_fruitless)
  intro s sound ⟨since, sole⟩
  have draft : ∀ origin, s.ghost.status n ≠ .complete origin := by simp [sole.draft]
  refine ⟨sound.kfree sole.draft, rfl, fun u mine other _ => ?_, since, fun m => ?_,
    sole.1.2.setStatus nofun⟩
  · apply Shared.spares_own draft
    · simp [sole.draft, Ne.symm other]
    · simp
    · exact nofun
    · exact fun _ _ => rfl
    · exact fun _ _ => rfl
    · rfl
    · rfl
    · rfl
  · by_cases same : m = n
    · simp [Shared.setStatus, same]
    · simp [Shared.setStatus, same, sole.1.1 m]

/-- An access to a slot, under the lock of its socket. -/
theorem meets_slot {socket : Nat} (slot : Fin kcrExtSlots) {update : Shared → Shared}
    {C : Shared → Prop} (steady : ∀ held, Steady t held A)
    (steady' : Steady t (some (.ext socket)) B)
    (access : ∀ s, s.Sound P tasks → C s → Shared.SlotAccess socket slot s (update s) ∧ B (update s)) :
    (protocol P tasks).Meets t (fun _ s => A s ∧ B s) (some (.ext socket)) (some (.ext socket))
      (fun s => A s ∧ C s) (.write update : Access Unit) := by
  apply meets_own ((steady _).and steady')
  intro s sound ⟨holds, before⟩
  obtain ⟨access, after⟩ := access s sound before
  refine ⟨access.sound sound, by rw [access.frame], fun u mine _ apart => ?_, ?_, after⟩
  · exact access.spares fun holds => apart _ holds rfl
  · exact steady none _ _ (access.spares nofun) holds

section Slot

variable {socket : Nat} {slot : Fin kcrExtSlots} {origin : Origin}

/-- What the slot holds after the allocation, whether it succeeded or not. -/
def Got (socket : Nat) (slot : Fin kcrExtSlots) (pointer : U64) (s : Shared) : Prop :=
  (pointer = 0#64 ∧ s.Working socket slot 0#64 0#32 none) ∨
    (pointer ≠ 0#64 ∧ s.Working socket slot pointer 0#32 (some []))

theorem steady_got {pointer : U64} :
    Steady t (some (.ext socket)) (Got socket slot pointer) :=
  .or (.and (.const _) Shared.steady_working) (.and (.const _) Shared.steady_working)

theorem Got.pointed {pointer : U64} {s : Shared} (got : Got socket slot pointer s) :
    s.memory.extSlots socket slot = pointer := by
  obtain ⟨rfl, working⟩ | ⟨_, working⟩ := got
  · exact working.pointed
  · exact working.pointed

theorem meets_kvmallocSlot (steady : ∀ held, Steady t held A) : (protocol P tasks).Meets t
    (fun _ s => A s ∧ ∃ pointer, Got socket slot pointer s) (some (.ext socket))
    (some (.ext socket)) (fun s => A s ∧ s.Working socket slot 0#64 0#32 none)
    (Access.kvmallocSlot allocator socket slot) := by
  apply meets_slot slot steady (.any fun _ => steady_got)
  intro s sound working
  by_cases failed : allocator.kvmalloc s.memory.buffers = 0#64
  · simp only [failed]
    exact ⟨Shared.access_pointer sound _, 0#64, .inl ⟨rfl, working.setPointer sound _⟩⟩
  · have unused := allocator.unused _ failed
    simp only [if_neg failed]
    exact ⟨Shared.access_kvmalloc sound unused, _, .inr ⟨failed, working.kvmalloc sound unused⟩⟩

theorem meets_memcpySlot {pointer : U64} (steady : ∀ held, Steady t held A) (data : Nat → U8)
    (len : U32) : (protocol P tasks).Meets t
      (fun _ s => A s ∧
        s.Working socket slot pointer 0#32 (some ((List.range len.toNat).map data)))
      (some (.ext socket)) (some (.ext socket))
      (fun s => A s ∧ s.Working socket slot pointer 0#32 (some []))
      (Access.memcpySlot data len socket slot) := by
  apply meets_slot slot steady Shared.steady_working
  intro s sound working
  simp only [working.pointed]
  exact ⟨Shared.access_buffer sound working _, working.memcpy sound _⟩

/-- With its size the slot is in order. -/
theorem meets_setSlotSize {pointer : U64} (steady : ∀ held, Steady t held A) (data : Nat → U8)
    {len : U32} (long : len.toNat > kcrResultSizeMax) (got : pointer ≠ 0#64) :
    (protocol P tasks).Meets t
      (fun _ s => A s ∧ s.Table socket none ∧ s.memory.extSlots socket slot = pointer)
      (some (.ext socket)) (some (.ext socket))
      (fun s => A s ∧
        s.Working socket slot pointer 0#32 (some ((List.range len.toNat).map data)))
      (Access.setSlotSize len socket slot) := by
  refine meets_slot slot steady (.and .table ?_) fun s sound working => ?_
  · intro s s' spares same
    rw [(spares.slots rfl).slots, same]
  · have sized := working.setSize sound len
    exact ⟨Shared.access_size sound len, sized.table_of_full got (by simp) (by simpa using long),
      sized.pointed⟩

/-- The entry gets what the slot holds, and is complete. -/
theorem meets_setExternal {pointer : U64} (long : origin.len.toNat > kcrResultSizeMax)
    (makes : request.Makes origin) : (protocol P tasks).Meets origin.thread
      (fun _ s => (Since origin.thread request start origin.tick s ∧
        Completed start n { origin with buffer := pointer } s) ∧ s.Table socket none)
      (some (.ext socket)) (some (.ext socket))
      (fun s => (Since origin.thread request start origin.tick s ∧ Drafting P tasks start n origin s) ∧
        s.Table socket none ∧ s.memory.extSlots socket slot = pointer)
      (Access.setExternal n origin socket slot) := by
  let origin' : Origin := { origin with buffer := pointer }
  have steady : Steady origin.thread (some (.ext socket)) fun s =>
      (Since origin.thread request start origin.tick s ∧ Completed start n origin' s) ∧ s.Table socket none :=
    (steady_since.and (@steady_completed _ n start origin')).and .table
  refine meets_own steady fun s sound ⟨⟨since, sole⟩, table, pointed⟩ => ?_
  obtain ⟨sound', begun, spares, since', completed⟩ := @finishes _ _ (some (.ext socket)) n request
    start _ origin' s sound since makes sole _ rfl
  have writes : s.memory.entry n = origin.draft P tasks := sole.2
  have long' : origin'.len.toNat > kcrResultSizeMax := long
  simp only [pointed, writes]
  rw [Origin.entry, if_pos long'] at sound' spares since' completed
  exact ⟨sound', rfl, spares, ⟨since', completed⟩, table.holds, table.held⟩

/-- After the slot loop the entry is a draft still, or complete with the buffer of a slot. -/
def Stowed (P : Platform) (tasks : Nat → Task) (start : Shared) (n : Node) (origin : Origin)
    (result : Option (Fin kcrExtSlots)) (s : Shared) : Prop :=
  Drafting P tasks start n origin s ∨
    ∃ a, (result ≠ none ∧ a ≠ 0#64) ∧ Completed start n { origin with buffer := a } s

theorem steady_stowed {result : Option (Fin kcrExtSlots)} :
    Steady origin.thread held (Stowed P tasks start n origin result) :=
  steady_drafting.or (.any fun a =>
    (Steady.const _).and (@steady_completed held n start { origin with buffer := a }))

theorem meets_fillSlot (long : origin.len.toNat > kcrResultSizeMax) (makes : request.Makes origin)
    (slots : List (Fin kcrExtSlots)) : (protocol P tasks).Meets origin.thread
      (fun result s => (Since origin.thread request start origin.tick s ∧ Stowed P tasks start n origin result s) ∧
        s.Table socket none)
      (some (.ext socket)) (some (.ext socket))
      (fun s => (Since origin.thread request start origin.tick s ∧ Drafting P tasks start n origin s) ∧
        s.Table socket none)
      (Access.fillSlot allocator n origin socket slots) := by
  have steady : ∀ held, Steady origin.thread held
      fun s => Since origin.thread request start origin.tick s ∧ Drafting P tasks start n origin s :=
    fun _ => steady_since.and steady_drafting
  induction slots with
  | nil => exact .pure fun s _ holds => ⟨⟨holds.1.1, .inl holds.1.2⟩, holds.2⟩
  | cons slot slots ih =>
      have looks : (protocol P tasks).Meets origin.thread
          (fun pointer s => ((Since origin.thread request start origin.tick s ∧ Drafting P tasks start n origin s) ∧
            s.Table socket none) ∧ (pointer = 0#64 → s.Working socket slot 0#64 0#32 none))
          (some (.ext socket)) (some (.ext socket))
          (fun s => (Since origin.thread request start origin.tick s ∧ Drafting P tasks start n origin s) ∧
            s.Table socket none)
          (.read fun s => s.memory.extSlots socket slot : Access U64) := by
        refine meets_look (fun pointer => ((steady _).and .table).and ?_)
          fun s _ holds => ⟨holds, fun empty => holds.2.working_empty empty⟩
        exact fun s s' spares working empty => Shared.steady_working s s' spares (working empty)
      refine looks.bind fun pointer => ?_
      by_cases taken : pointer = 0#64
      · rw [if_pos taken]
        refine ((meets_kvmallocSlot steady).weaken fun s _ holds =>
          ⟨holds.1.1, holds.2 taken⟩).bind fun _ => ?_
        refine .bind (meets_look (fun pointer => (steady _).and (@steady_got _ socket slot pointer))
          fun s _ ⟨holds, pointer, got⟩ => ⟨holds, ?_⟩) fun pointer => ?_
        · rw [got.pointed]
          exact got
        · by_cases failed : pointer = 0#64
          · rw [if_pos failed]
            refine .pure fun s _ ⟨⟨since, drafting⟩, got⟩ => ⟨⟨since, .inl drafting⟩, ?_⟩
            obtain ⟨_, working⟩ | ⟨got, _⟩ := got
            · exact working.table_of_empty
            · exact absurd failed got
          · rw [if_neg failed]
            refine ((meets_memcpySlot steady origin.data origin.len).weaken
              fun s _ ⟨holds, got⟩ => ⟨holds, (got.resolve_left fun null => failed null.1).2⟩).bind
              fun _ => ?_
            refine (meets_setSlotSize steady origin.data long failed).bind fun _ => ?_
            refine (meets_setExternal long makes).bind fun _ => ?_
            exact .pure fun s _ holds =>
              ⟨⟨holds.1.1, .inr ⟨pointer, ⟨nofun, failed⟩, holds.1.2⟩⟩, holds.2⟩
      · rw [if_neg taken]
        exact ih.weaken fun s _ holds => holds.1

theorem meets_storeExternal (long : origin.len.toNat > kcrResultSizeMax)
    (makes : request.Makes origin) : (protocol P tasks).Meets origin.thread
      (fun result s => Since origin.thread request start origin.tick s ∧ Stowed P tasks start n origin result s)
      none none
      (fun s => Since origin.thread request start origin.tick s ∧ Drafting P tasks start n origin s)
      (Access.storeExternal P (tasks origin.thread) allocator n origin) := by
  refine .bind (.acquire (Steady.stable (.and (.and steady_since steady_drafting) .table))
    fun s _ res holds => ⟨holds, res (P.socketIndex (tasks origin.thread).cpu) rfl⟩) fun _ => ?_
  refine (meets_fillSlot long makes _).bind fun result => ?_
  refine .bind (.release (Steady.stable (steady_since.and steady_stowed)) fun s _ holds =>
    ⟨?_, holds.1⟩) fun _ => .pure fun s _ holds => holds
  rintro socket ⟨⟩
  exact holds.2

end Slot

/-- What a store returns, and what it leaves when it succeeds. -/
def Stored (t : Nat) (fingerprint : U64) (data : Option (Nat → U8)) (len : U32) (mm : U64)
    (start : Shared) (status : Int) (s : Shared) : Prop :=
  (status = 0 ∧ ∃ bytes n tick buffer, data = some bytes ∧ start.now ≤ tick ∧
    s.ghost.status n = .complete ⟨t, fingerprint, bytes, len, mm, tick, buffer⟩) ∨
    status = -einval ∧ (data = none ∨ len = 0#32) ∨ status = -enomem

/-- The insertions of an entry that is complete. -/
theorem meets_inserts {origin : Origin} (makes : request.Makes origin) :
    (protocol P tasks).Meets origin.thread
    (fun status s => Leaves origin.thread start
        (fun origin => status = 0 ∧ request.Makes origin) s ∧
      Stored origin.thread origin.fingerprint (some origin.data) origin.len origin.mm start status s)
    none none
    (fun s => Since origin.thread request start origin.tick s ∧ Completed start n origin s)
    (Access.insertions P (tasks origin.thread) fuel n origin.fingerprint) := by
  have steady : ∀ held, Steady origin.thread held fun s =>
      Since origin.thread request start origin.tick s ∧ Completed start n origin s :=
    fun _ => steady_since.and steady_completed
  refine (meets_insertions (c := origin.hashClass P tasks) rfl steady fun s holds =>
    ⟨⟨origin, holds.2.1⟩, Shared.colour_complete holds.2.1⟩).entails
    fun status s _ ⟨⟨since, completed⟩, succeeded⟩ => ⟨⟨completed.2.1, ?_⟩, .inl ?_⟩
  · refine completed.2.2.mono ?_
    rintro _ _ rfl
    exact ⟨succeeded, makes⟩
  · exact ⟨succeeded, origin.data, n, origin.tick, origin.buffer, rfl, since.1.1, completed.1⟩

/-- The pointer that decides whether the large-data branch failed. -/
theorem meets_extData {origin : Origin} {slot : Option (Fin kcrExtSlots)}
    (long : origin.len.toNat > kcrResultSizeMax) : (protocol P tasks).Meets origin.thread
    (fun pointer s => Since origin.thread request start origin.tick s ∧
      ((pointer = 0#64 ∧ Drafting P tasks start n origin s) ∨
        ((slot ≠ none ∧ pointer ≠ 0#64) ∧ Completed start n { origin with buffer := pointer } s)))
    held held
    (fun s => Since origin.thread request start origin.tick s ∧ Stowed P tasks start n origin slot s)
    (.read fun s => (s.memory.entry n).payload.extData : Access U64) := by
  refine meets_look (fun pointer => steady_since.and (.or (.and (.const _) steady_drafting)
    (.and (.const _) (@steady_completed held n start { origin with buffer := pointer }))))
    fun s sound ⟨since, stowed⟩ => ⟨since, ?_⟩
  obtain drafting | ⟨a, ⟨found, got⟩, completed⟩ := stowed
  · refine .inl ⟨?_, drafting⟩
    rw [drafting.2]
    exact Payload.extData_zero
  · have pointer : (s.memory.entry n).payload.extData = a := by
      have long' : ({ origin with buffer := a } : Origin).len.toNat > kcrResultSizeMax := long
      rw [(sound.made completed.1).1, Origin.entry, if_pos long']
      simp
    rw [pointer]
    exact .inr ⟨⟨found, got⟩, completed⟩

theorem meets_storeResult {data : Option (Nat → U8)} {len : U32}
    (makes : request.operation = .storeResult fingerprint data len mm) :
    (protocol P tasks).Meets t
      (fun status s => Leaves t start (fun origin => status = 0 ∧ request.Makes origin) s ∧
        Stored t fingerprint data len mm start status s) none none
      (fun s => Since t request start start.now s ∧ Fruitless t start s)
      (Access.storeResult P (tasks t) fuel t allocator fingerprint data len mm) := by
  cases data with
  | none => exact .pure fun s _ holds => ⟨holds.2.leaves _, .inr (.inl ⟨rfl, .inl rfl⟩)⟩
  | some bytes =>
      by_cases empty : len = 0#32
      · simp only [Access.storeResult, if_pos empty]
        exact .pure fun s _ holds => ⟨holds.2.leaves _, .inr (.inl ⟨rfl, .inr empty⟩)⟩
      · simp only [Access.storeResult, if_neg empty]
        refine meets_kzalloc.bind fun entry => ?_
        cases entry with
        | none => exact .pure fun s _ holds => ⟨holds.2.leaves _, .inr (.inr rfl)⟩
        | some n =>
            refine meets_fill.bind fun tick => ?_
            let origin : Origin := ⟨t, fingerprint, bytes, len, mm, tick, 0#64⟩
            by_cases long : len.toNat > kcrResultSizeMax
            · rw [if_pos long]
              refine (@meets_storeExternal P tasks n request start allocator origin long makes).bind
                fun slot => ?_
              refine (@meets_extData P tasks none n request start origin slot long).bind fun pointer => ?_
              by_cases failed : slot = none ∨ pointer = 0#64
              · rw [if_pos failed]
                have frees : (protocol P tasks).Meets t
                    (fun _ s => Since t request start tick s ∧ Fruitless t start s) none none
                    (fun s => Since t request start tick s ∧ Drafting P tasks start n origin s)
                    (Access.kfree n) := meets_kfree
                refine (frees.weaken fun s _ ⟨since, stowed⟩ => ⟨since, ?_⟩).bind fun _ =>
                  .pure fun s _ holds => ⟨holds.2.leaves _, .inr (.inr rfl)⟩
                obtain ⟨_, drafting⟩ | ⟨⟨found, got⟩, _⟩ := stowed
                · exact drafting
                · exact absurd failed (by simp [found, got])
              · rw [if_neg failed]
                have inserts := @meets_inserts P tasks n fuel request start
                  { origin with buffer := pointer } makes
                refine inserts.weaken fun s _ ⟨since, stowed⟩ => ⟨since, ?_⟩
                obtain ⟨null, _⟩ | ⟨_, completed⟩ := stowed
                · exact absurd (.inr null) failed
                · exact completed
            · rw [if_neg long]
              refine (@meets_storeInline P tasks none n request start origin long makes).bind
                fun _ => ?_
              exact @meets_inserts P tasks n fuel request start origin makes

end Store

/-! ## Invalidation -/

section Invalidate

variable {count : Access Unit}

theorem meets_sweepEntry (steady : Steady t held A)
    (counts : (protocol P tasks).Meets t (fun _ => A) held held A count) :
    (protocol P tasks).Meets t (fun _ => A) held held
      (fun s => A s ∧ (cacheLists P tasks).Linked c n s) (Access.sweepEntry mm count n) := by
  have looks : (protocol P tasks).Meets t
      (fun _ s => A s ∧ (cacheLists P tasks).Linked c n s) held held
      (fun s => A s ∧ (cacheLists P tasks).Linked c n s)
      (.read fun s => (s.memory.entry n).mm == mm : Access Bool) :=
    meets_look (fun _ => steady.and .linked) fun s _ holds => holds
  refine looks.bind fun owned => ?_
  cases owned with
  | false => exact .pure fun s _ holds => holds.1
  | true =>
      refine (meets_del steady).bind fun _ => ?_
      exact (meets_callRcu steady).bind fun _ => counts

/-- Whatever else is known is known after the bucket is swept. -/
theorem meets_sweepBucket (steady : ∀ held, Steady t held A)
    (counts : ∀ {held B}, Steady t held B →
      (protocol P tasks).Meets t (fun _ => B) held held B count) (h : Head) :
    (protocol P tasks).Meets t (fun _ => A) none none A
      (Access.sweepBucket fuel mm count h) := by
  refine (meets_acquire_bucket steady).bind fun _ => ?_
  refine (meets_first rfl (steady _)).bind fun first => ?_
  have swept : (protocol P tasks).Meets t (fun _ => A) (some (.bucket h)) (some (.bucket h))
      (fun s => A s ∧ ∀ n ∈ first, (cacheLists P tasks).Linked (h.hashClass P) n s)
      (forEachSafe Shared.heap (Access.sweepEntry mm count) fuel first) := by
    apply Lists.meets_forEachSafe (D := cacheLists P tasks) (steady _).carried
    intro n next
    have both : Steady t (some (.bucket h)) fun s => A s ∧
        ∀ m ∈ next, (cacheLists P tasks).Linked (h.hashClass P) m s :=
      (steady _).and fun s s' spares holds m same => Steady.linked s s' spares (holds m same)
    exact meets_sweepEntry both (counts both)
  exact swept.bind fun _ => meets_release_bucket steady

theorem meets_sweepBuckets (steady : ∀ held, Steady t held A)
    (counts : ∀ {held B}, Steady t held B →
      (protocol P tasks).Meets t (fun _ => B) held held B count) (buckets : List Head) :
    (protocol P tasks).Meets t (fun _ => A) none none A
      (Access.sweepBuckets fuel mm count buckets) := by
  induction buckets with
  | nil => exact .pure fun _ _ holds => holds
  | cons bucket buckets ih => exact (meets_sweepBucket steady counts bucket).bind fun _ => ih

section Slot

variable {socket : Nat}

theorem meets_freeExtSlot (steady : ∀ held, Steady t held A) (slot : Fin kcrExtSlots) :
    (protocol P tasks).Meets t (fun _ s => A s ∧ s.Table socket none) (some (.ext socket))
      (some (.ext socket)) (fun s => A s ∧ s.Table socket none)
      (Access.freeExtSlot socket slot) := by
  have looks : (protocol P tasks).Meets t
      (fun pointer s => (A s ∧ s.Table socket none) ∧ s.memory.extSlots socket slot = pointer)
      (some (.ext socket)) (some (.ext socket)) (fun s => A s ∧ s.Table socket none)
      (.read fun s => s.memory.extSlots socket slot : Access U64) := by
    refine meets_look (fun pointer => ((steady _).and .table).and ?_) fun s _ holds => ⟨holds, rfl⟩
    intro s s' spares same
    rw [(spares.slots rfl).slots, same]
  refine looks.bind fun pointer => ?_
  by_cases empty : pointer = 0#64
  · rw [if_pos empty]
    exact .pure fun s _ holds => holds.1
  · rw [if_neg empty]
    -- The slot dangles between the first store and the second, under the lock.
    have frees : (protocol P tasks).Meets t
        (fun _ s => A s ∧ ∃ size, s.Working socket slot pointer size none) (some (.ext socket))
        (some (.ext socket))
        (fun s => A s ∧ s.Table socket none ∧ s.memory.extSlots socket slot = pointer)
        (.write fun s =>
          let a := s.memory.extSlots socket slot
          (s.on { s.memory with buffers := Function.update s.memory.buffers a none }).setHome a none :
            Access Unit) := by
      refine meets_slot slot steady (.any fun _ => Shared.steady_working)
        fun s sound ⟨table, pointed⟩ => ?_
      obtain ⟨bytes, working⟩ := table.working_full (by rwa [pointed])
      rw [pointed] at working
      simp only [pointed]
      exact ⟨Shared.access_kvfree sound working, _, working.kvfree sound⟩
    have clears : (protocol P tasks).Meets t
        (fun _ s => A s ∧ ∃ size, s.Working socket slot 0#64 size none) (some (.ext socket))
        (some (.ext socket)) (fun s => A s ∧ ∃ size, s.Working socket slot pointer size none)
        (.write fun s => s.on { s.memory with
          extSlots := Function.update s.memory.extSlots socket
            (Function.update (s.memory.extSlots socket) slot 0#64) } : Access Unit) :=
      meets_slot slot steady (.any fun _ => Shared.steady_working) fun s sound ⟨size, working⟩ =>
        ⟨Shared.access_pointer sound _, size, working.setPointer sound _⟩
    have resets : (protocol P tasks).Meets t (fun _ s => A s ∧ s.Table socket none)
        (some (.ext socket)) (some (.ext socket))
        (fun s => A s ∧ ∃ size, s.Working socket slot 0#64 size none)
        (.write fun s => s.on { s.memory with
          extSlotSize := Function.update s.memory.extSlotSize socket
            (Function.update (s.memory.extSlotSize socket) slot 0#32) } : Access Unit) :=
      meets_slot slot steady .table fun s sound ⟨size, working⟩ =>
        ⟨Shared.access_size sound _, (working.setSize sound _).table_of_empty⟩
    refine (frees.weaken fun s _ holds => ⟨holds.1.1, holds.1.2, holds.2⟩).bind fun _ => ?_
    exact clears.bind fun _ => resets

theorem meets_freeExtSlots (steady : ∀ held, Steady t held A) (slots : List (Fin kcrExtSlots)) :
    (protocol P tasks).Meets t (fun _ s => A s ∧ s.Table socket none) (some (.ext socket))
      (some (.ext socket)) (fun s => A s ∧ s.Table socket none)
      (Access.freeExtSlots socket slots) := by
  induction slots with
  | nil => exact .pure fun _ _ holds => holds
  | cons slot slots ih => exact (meets_freeExtSlot steady slot).bind fun _ => ih

end Slot

theorem meets_invalidateRange {start stop : U64} (steady : ∀ held, Steady t held A) :
    (protocol P tasks).Meets t (fun _ => A) none none A
      (Access.invalidateRange P (tasks t) fuel mm start stop) := by
  have counted : (protocol P tasks).Meets t (fun _ => A) none none A
      (Access.sweepBuckets fuel mm (Access.thisCpuInc P (tasks t) .invalidations)
        (l2Heads (tasks t).cpu)) :=
    meets_sweepBuckets steady (fun steady => meets_thisCpuInc steady .invalidations) _
  have quiet : ∀ {held B}, Steady t held B →
      (protocol P tasks).Meets t (fun _ => B) held held B (pure () : Access Unit) :=
    fun _ => .pure fun _ _ holds => holds
  have uncounted := @meets_sweepBuckets P tasks t A fuel mm (pure ()) steady quiet
  have takes : (protocol P tasks).Meets t
      (fun _ s => A s ∧ s.Table (P.socketIndex (tasks t).cpu) none)
      (some (.ext (P.socketIndex (tasks t).cpu))) none A
      (.acquire (.ext (P.socketIndex (tasks t).cpu)) : Access Unit) :=
    .acquire (Steady.stable ((steady _).and .table)) fun s _ res holds => ⟨holds, res _ rfl⟩
  have gives : (protocol P tasks).Meets t (fun _ => A) none
      (some (.ext (P.socketIndex (tasks t).cpu)))
      (fun s => A s ∧ s.Table (P.socketIndex (tasks t).cpu) none)
      (.release (.ext (P.socketIndex (tasks t).cpu)) : Access Unit) := by
    refine .release (steady none).stable fun s _ holds => ⟨?_, holds.1⟩
    rintro socket ⟨⟩
    exact holds.2
  have frees := @meets_freeExtSlots P tasks t A (P.socketIndex (tasks t).cpu) steady
    (List.finRange kcrExtSlots)
  unfold Access.invalidateRange
  exact counted.bind fun _ => (uncounted (l3Heads P (tasks t).cpu)).bind fun _ => takes.bind fun _ => frees.bind fun _ => gives

end Invalidate

/-! ## Whole calls -/

/-- What a call that began in `start` returns. -/
def Result (P : Platform) (tasks : Nat → Task) (t : Nat) (start s : Shared) :
    Operation → Outcome → Prop
  | .storeResult fingerprint data len mm, .stored status =>
      Stored t fingerprint data len mm start status s
  | .lookupUnified fingerprint mm, .found result => Hit P tasks t fingerprint mm start result s
  | .invalidateRange _ _ _, .invalidated => True
  | _, _ => False

namespace Result

variable {start s : Shared} {operation : Operation}

/-- Only a lookup finds. -/
theorem found {result : Option Node}
    (met : Result P tasks t start s operation (.found result)) :
    ∃ fingerprint mm, operation = .lookupUnified fingerprint mm ∧
      Hit P tasks t fingerprint mm start result s := by
  cases operation with
  | storeResult fingerprint data len mm => exact met.elim
  | lookupUnified fingerprint mm => exact ⟨fingerprint, mm, rfl, met⟩
  | invalidateRange mm start stop => exact met.elim

/-- Only a store stores. -/
theorem stored {status : Int} (met : Result P tasks t start s operation (.stored status)) :
    ∃ fingerprint data len mm, operation = .storeResult fingerprint data len mm ∧
      Stored t fingerprint data len mm start status s := by
  cases operation with
  | storeResult fingerprint data len mm => exact ⟨fingerprint, data, len, mm, rfl, met⟩
  | lookupUnified fingerprint mm => exact met.elim
  | invalidateRange mm start stop => exact met.elim

end Result

/-- The postcondition of all calls. -/
def Returns (P : Platform) (tasks : Nat → Task) (t : Nat) (request : Request) (start : Shared)
    (outcome : Outcome) (s : Shared) : Prop :=
  Leaves t start (fun origin => outcome = .stored 0 ∧ request.Makes origin) s ∧
    Result P tasks t start s request.operation outcome

theorem meets_body {request : Request} {start : Shared} : (protocol P tasks).Meets t
    (Returns P tasks t request start) none none
    (fun s => Since t request start start.now s ∧ Fruitless t start s)
    (Access.body P (tasks t) t request) := by
  have steady : ∀ held, Steady t held
      fun s => Since t request start start.now s ∧ Fruitless t start s :=
    fun _ => steady_since.and steady_fruitless
  unfold Returns Access.body
  cases operation : request.operation with
  | storeResult fingerprint data len mm =>
      refine (meets_storeResult operation).bind fun status => ?_
      refine .pure fun s _ ⟨⟨drafts, completes⟩, stored⟩ => ⟨⟨drafts, completes.mono ?_⟩, stored⟩
      exact fun _ _ ⟨succeeded, makes⟩ => ⟨congrArg _ succeeded, makes⟩
  | lookupUnified fingerprint mm =>
      refine (meets_lookupUnified steady fun s holds => holds.1.1.1.trans holds.1.1.2).bind
        fun entry => ?_
      exact .pure fun s _ holds => ⟨holds.1.2.leaves _, holds.2⟩
  | invalidateRange mm start stop =>
      refine (meets_invalidateRange steady).bind fun _ => ?_
      exact .pure fun s _ holds => ⟨holds.2.leaves _, trivial⟩

theorem Shared.sound_initial (boot : Nat) :
    (interleaved P tasks boot).initial.Sound P tasks where
  shaped := Heap.shaped_empty _ _ _
  allocated _ := by simp [interleaved, State.initial]
  distinct := List.nodup_nil
  made := nofun
  retired := nofun
  homes _ := by simp [interleaved, State.initial]

/-- A step of the environment: only the tick counter and the calls begun change. -/
theorem spares_env {s s' : Shared} (memory : s'.memory = s.memory)
    (status : s'.ghost.status = s.ghost.status) (home : s'.ghost.home = s.ghost.home)
    (now : s.now ≤ s'.now) (begun : ∀ call ∈ s.ghost.begun, call ∈ s'.ghost.begun) :
    Shared.Spares u held s s' where
  complete holds := status ▸ holds
  finished complete _ := status ▸ complete
  drafts _ := by rw [status]
  entries _ := by rw [memory]
  named _ _ set := by rwa [memory]
  slots _ := ⟨by rw [memory], by rw [memory], fun _ _ => by rw [home], fun _ _ _ => by rw [memory]⟩
  now := now
  begun := begun _

/-- Every call of the cache keeps to the protocol, however the calls interleave. -/
theorem verified (P : Platform) (tasks : Nat → Task) (boot : Nat) :
    (protocol P tasks).Verifies (interleaved P tasks boot) (Returns P tasks) where
  initial := Shared.sound_initial boot
  resources l socket _ := ⟨fun _ _ => .inl ⟨rfl, rfl⟩, nofun⟩
  idle t n := nofun
  tick s sound := by
    refine ⟨⟨sound.shaped, sound.allocated, sound.distinct, fun complete => ?_, sound.retired,
      sound.homes⟩, fun u mine => spares_env rfl rfl rfl (Nat.le_succ _) fun _ member => member⟩
    obtain ⟨content, tick, request⟩ := sound.made complete
    exact ⟨content, tick.trans (Nat.le_succ _), request⟩
  enter t request s sound := by
    refine ⟨⟨sound.shaped, sound.allocated, sound.distinct, fun complete => ?_, sound.retired,
      sound.homes⟩, fun u mine => spares_env rfl rfl rfl le_rfl fun _ member =>
        List.mem_append_left _ member⟩
    obtain ⟨content, tick, request, begun, makes⟩ := sound.made complete
    exact ⟨content, tick, request, List.mem_append_left _ begun, makes⟩
  body t request start sound idle := by
    refine ⟨_, (steady_since.and steady_fruitless).stable, ⟨⟨⟨le_rfl, le_rfl⟩, ?_⟩, idle,
      fun _ _ complete _ => .inl complete⟩, meets_body⟩
    simp [interleaved]
  settled t request start outcome s _ returned := returned.1.1

end Kcr
