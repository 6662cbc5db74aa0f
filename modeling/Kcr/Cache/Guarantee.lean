import Kcr.Cache.Protocol

/-!
# What each access guarantees

The accesses that are not stores into lists: those to an entry that is not complete yet, and
those to the slots of a socket under its lock. Each keeps the invariant and spares the others.
-/

namespace Kcr

open Hlist

variable {P : Platform} {tasks : Nat → Task} {t u : Nat} {held mine : Option CacheLock}
  {s : Shared} {n : Node} {origin : Origin}

namespace Shared

/-! ## Entries -/

theorem setStatus_self {memory : State} {status : Status} (own : s.ghost.status n = status) :
    (s.on memory).setStatus n status = s.on memory := by
  subst own
  simp [setStatus, on]

/-- An access to an entry that is not complete, and belongs to the other thread neither before
nor after; if it completes the entry, then not as one of the other thread. -/
theorem spares_own {memory : State} {status : Status}
    (draft : ∀ origin, s.ghost.status n ≠ .complete origin) (before : s.ghost.status n ≠ .draft u)
    (after : status ≠ .draft u) (foreign : ∀ origin, status = .complete origin → origin.thread ≠ u)
    (entries : ∀ m, m ≠ n → memory.entry m = s.memory.entry m)
    (named : ∀ m, m ≠ n → memory.heap.pprev m = s.memory.heap.pprev m)
    (slots : memory.extSlots = s.memory.extSlots) (sizes : memory.extSlotSize = s.memory.extSlotSize)
    (buffers : memory.buffers = s.memory.buffers) :
    Spares u mine s ((s.on memory).setStatus n status) where
  complete {m origin} complete := by
    have other : m ≠ n := fun same => draft origin (same ▸ complete)
    simpa [setStatus, Function.update_of_ne other] using complete
  finished {m origin} complete theirs := by
    by_cases same : m = n
    · subst same
      exact absurd theirs (foreign origin (by simpa [setStatus] using complete))
    · simpa [setStatus, Function.update_of_ne same] using complete
  drafts m := by
    by_cases same : m = n
    · subst same
      simp [setStatus, before, after]
    · simp [setStatus, Function.update_of_ne same]
  entries {m} theirs := entries m fun same => before (same ▸ theirs)
  named m completed set := by
    obtain ⟨origin, complete⟩ := completed
    rw [setStatus_memory, on_memory, named m fun same => draft origin (same ▸ complete)]
    exact set
  slots _ := ⟨by simp [slots], by simp [sizes], fun _ _ => Iff.rfl, fun _ _ _ => by simp [buffers]⟩
  now := Nat.le_refl _
  begun member := member

/-- An entry that is not complete has no links. -/
theorem Sound.unlinked (sound : s.Sound P tasks)
    (draft : ∀ origin, s.ghost.status n ≠ .complete origin) :
    s.memory.heap.next n = none ∧ s.memory.heap.pprev n = .null :=
  sound.shaped.confined.zeroed fun ⟨origin, complete⟩ => draft origin complete

variable (P tasks) in
/-- A change of status that completes nothing. -/
theorem completed_setStatus {status : Status}
    (draft : ∀ origin, s.ghost.status n ≠ .complete origin)
    (after : ∀ origin, status ≠ .complete origin) :
    (s.setStatus n status).completed = s.completed ∧
      (s.setStatus n status).colour P tasks = s.colour P tasks := by
  constructor
  · ext m
    by_cases same : m = n
    · subst same
      simp [completed, setStatus, draft, after]
    · simp [completed, setStatus, Function.update_of_ne same]
  · funext m
    by_cases same : m = n
    · subst same
      cases before : s.ghost.status m with
      | complete origin => exact absurd before (draft origin)
      | free | draft => cases status with
        | complete origin => exact absurd rfl (after origin)
        | free | draft => simp [colour, setStatus, before]
    · simp [colour, setStatus, Function.update_of_ne same]

theorem Sound.kzalloc (sound : s.Sound P tasks) (fresh : n ∉ s.memory.live) :
    ((s.on (s.memory.kzalloc n)).setStatus n (.draft t)).Sound P tasks := by
  have free : s.ghost.status n = .free := by
    by_contra used
    exact fresh ((sound.allocated n).mpr used)
  have draft : ∀ origin, s.ghost.status n ≠ .complete origin := by simp [free]
  obtain ⟨ends, null⟩ := sound.unlinked draft
  obtain ⟨completed, colour⟩ := completed_setStatus P tasks
    (s := s.on (s.memory.kzalloc n)) draft (by simp : ∀ origin, Status.draft t ≠ .complete origin)
  have same : (s.memory.heap.write (.next n) none).setPprev n .null = s.memory.heap := by
    simp [Heap.write, Heap.setPprev, ← ends, ← null]
  constructor
  · rw [completed, colour, completed_on, colour_on]
    simpa [State.kzalloc, same] using sound.shaped
  · intro m
    by_cases own : m = n
    · subst own
      simp [setStatus, State.kzalloc]
    · simp [setStatus, State.kzalloc, own, sound.allocated m]
  · simpa [State.kzalloc] using ⟨fresh, sound.distinct⟩
  · intro m origin complete
    have own : m ≠ n := by
      rintro rfl
      simp [setStatus] at complete
    have before : s.ghost.status m = .complete origin := by
      simpa [setStatus, Function.update_of_ne own] using complete
    simpa [State.kzalloc, Function.update_of_ne own] using sound.made before
  · rw [completed]
    exact sound.retired
  · exact sound.homes

/-- The fields of an entry that is not complete. -/
theorem Sound.refill (sound : s.Sound P tasks)
    (draft : ∀ origin, s.ghost.status n ≠ .complete origin) (e : Entry) :
    (s.on (s.memory.setEntry n e)).Sound P tasks where
  shaped := sound.shaped
  allocated := sound.allocated
  distinct := sound.distinct
  made {m origin} complete := by
    have own : m ≠ n := fun same => draft origin (same ▸ complete)
    simpa [State.setEntry, Function.update_of_ne own] using sound.made complete
  retired := sound.retired
  homes := sound.homes

/-- The fields that complete an entry. -/
theorem Sound.finish (sound : s.Sound P tasks) (own : s.ghost.status n = .draft t)
    (tick : origin.tick ≤ s.now) {request : Request}
    (begun : (origin.thread, request) ∈ s.ghost.begun) (makes : request.Makes origin) :
    ((s.on (s.memory.setEntry n (origin.entry P tasks))).setStatus n (.complete origin)).Sound P
      tasks := by
  have draft : ∀ origin, s.ghost.status n ≠ .complete origin := by simp [own]
  constructor
  · have more : s.completed ⊆ ((s.on (s.memory.setEntry n (origin.entry P tasks))).setStatus n
        (.complete origin)).completed := by
      rintro m ⟨origin', complete⟩
      have other : m ≠ n := fun same => draft origin' (same ▸ complete)
      exact ⟨origin', by simpa [setStatus, Function.update_of_ne other] using complete⟩
    refine ⟨sound.shaped.confined.mono more, sound.shaped.coloured.recolour sound.shaped.confined ?_⟩
    rintro m ⟨origin', complete⟩
    have other : m ≠ n := fun same => draft origin' (same ▸ complete)
    simp [colour, setStatus, Function.update_of_ne other]
  · intro m
    by_cases same : m = n
    · subst same
      simp [setStatus, State.setEntry, sound.allocated, own]
    · simp [setStatus, State.setEntry, Function.update_of_ne same, sound.allocated]
  · exact sound.distinct
  · intro m origin' complete
    by_cases same : m = n
    · subst same
      simp only [setStatus, Function.update_self, Status.complete.injEq] at complete
      subst complete
      exact ⟨by simp [State.setEntry], tick, request, begun, makes⟩
    · have before : s.ghost.status m = .complete origin' := by
        simpa [setStatus, Function.update_of_ne same] using complete
      obtain ⟨content, made⟩ := sound.made before
      exact ⟨by simpa [State.setEntry, Function.update_of_ne same] using content, made⟩
  · intro m member
    obtain ⟨origin', complete⟩ := sound.retired m member
    have other : m ≠ n := fun same => draft origin' (same ▸ complete)
    exact ⟨origin', by simpa [setStatus, Function.update_of_ne other] using complete⟩
  · exact sound.homes

theorem Sound.kfree (sound : s.Sound P tasks) (own : s.ghost.status n = .draft t) :
    ((s.on (s.memory.kfree n)).setStatus n .free).Sound P tasks := by
  have draft : ∀ origin, s.ghost.status n ≠ .complete origin := by simp [own]
  obtain ⟨completed, colour⟩ := completed_setStatus P tasks
    (s := s.on (s.memory.kfree n)) draft (by simp : ∀ origin, Status.free ≠ .complete origin)
  constructor
  · rw [completed, colour]
    exact sound.shaped
  · intro m
    by_cases same : m = n
    · subst same
      simp [setStatus, State.kfree, sound.distinct.mem_erase_iff]
    · simp [setStatus, State.kfree, same, sound.distinct.mem_erase_iff, sound.allocated]
  · exact sound.distinct.erase n
  · intro m origin complete
    have other : m ≠ n := by
      rintro rfl
      simp [setStatus] at complete
    have before : s.ghost.status m = .complete origin := by
      simpa [setStatus, Function.update_of_ne other] using complete
    exact sound.made before
  · rw [completed]
    exact sound.retired
  · exact sound.homes

/-- Statistics, and entries handed to `call_rcu`. -/
theorem Sound.count (sound : s.Sound P tasks) (counter : Counter) (cpu : Nat) (cache : U64) :
    (s.on (s.memory.thisCpuInc P cpu cache counter)).Sound P tasks where
  shaped := sound.shaped
  allocated := sound.allocated
  distinct := sound.distinct
  made := sound.made
  retired := sound.retired
  homes := sound.homes

theorem Sound.callRcu (sound : s.Sound P tasks) (complete : n ∈ s.completed) :
    (s.on (s.memory.callRcu n)).Sound P tasks where
  shaped := sound.shaped
  allocated := sound.allocated
  distinct := sound.distinct
  made := sound.made
  retired m member := by
    obtain before | rfl : m ∈ s.memory.retired ∨ m = n := by simpa [State.callRcu] using member
    · exact sound.retired m before
    · exact complete
  homes := sound.homes

/-! ## Slots -/

/-- An access to one slot and to the buffers allocated for it. -/
structure SlotAccess (socket : Nat) (slot : Fin kcrExtSlots) (s s' : Shared) : Prop where
  frame : s' = ⟨{ s.memory with
    extSlots := s'.memory.extSlots
    extSlotSize := s'.memory.extSlotSize
    buffers := s'.memory.buffers }, s.now, { s.ghost with home := s'.ghost.home }⟩
  slots : ∀ k j, (k, j) ≠ (socket, slot) → s'.memory.extSlots k j = s.memory.extSlots k j
  sizes : ∀ k j, (k, j) ≠ (socket, slot) → s'.memory.extSlotSize k j = s.memory.extSlotSize k j
  homes : ∀ place, place ≠ (socket, slot) → ∀ a,
    s'.ghost.home a = some place ↔ s.ghost.home a = some place
  buffers : ∀ a, s.ghost.home a ≠ some (socket, slot) → s'.ghost.home a ≠ some (socket, slot) →
    s'.memory.buffers a = s.memory.buffers a
  known : ∀ a, s'.memory.buffers a = none ↔ s'.ghost.home a = none

namespace SlotAccess

variable {socket : Nat} {slot : Fin kcrExtSlots} {s' : Shared}

theorem sound (access : SlotAccess socket slot s s') (sound : s.Sound P tasks) :
    s'.Sound P tasks := by
  rw [access.frame]
  exact ⟨sound.shaped, sound.allocated, sound.distinct, sound.made, sound.retired, access.known⟩

theorem buffers_other (access : SlotAccess socket slot s s') {place : Nat × Fin kcrExtSlots}
    (other : place ≠ (socket, slot)) {a : U64} (home : s.ghost.home a = some place) :
    s'.memory.buffers a = s.memory.buffers a := by
  have home' := (access.homes place other a).mpr home
  apply access.buffers
  · rw [home]
    exact fun same => other (Option.some.inj same)
  · rw [home']
    exact fun same => other (Option.some.inj same)

theorem sameTable (access : SlotAccess socket slot s s') {k : Nat} (other : k ≠ socket) :
    SameTable k s s' := by
  have apart : ∀ j, (k, j) ≠ (socket, slot) := fun j same => other (Prod.mk.inj same).1
  exact ⟨funext fun j => access.slots k j (apart j), funext fun j => access.sizes k j (apart j),
    fun a j => access.homes _ (apart j) a, fun a j home => access.buffers_other (apart j) home⟩

/-- Whoever does not hold the lock of the socket is spared. -/
theorem spares (access : SlotAccess socket slot s s') (unheld : .ext socket ∉ mine) :
    Spares u mine s s' := by
  have tables : ∀ {k}, CacheLock.ext k ∈ mine → SameTable k s s' := fun {k} holds =>
    access.sameTable fun same => unheld (same ▸ holds)
  refine ⟨?_, ?_, ?_, ?_, ?_, tables, ?_, ?_⟩ <;> rw [access.frame]
  · exact fun complete => complete
  · exact fun complete _ => complete
  · exact fun _ => Iff.rfl
  · exact fun _ => rfl
  · exact fun _ _ set => set
  · exact fun member => member

theorem table (access : SlotAccess socket slot s s') (table : s.Table socket (some slot)) :
    s'.Table socket (some slot) := by
  have apart : ∀ j, j ∉ some slot → (socket, j) ≠ (socket, slot) := fun j idle same =>
    idle (Option.mem_some_iff.mpr (Prod.mk.inj same).2.symm)
  constructor
  · intro j idle
    unfold SlotHolds
    rw [access.slots _ _ (apart j idle), access.sizes _ _ (apart j idle)]
    obtain empty | ⟨bytes, taken, home, buffer, size⟩ := table.holds j idle
    · exact .inl empty
    · exact .inr ⟨bytes, taken, (access.homes _ (apart j idle) _).mpr home,
        (access.buffers_other (apart j idle) home).trans buffer, size⟩
  · intro a j idle home
    rw [access.slots _ _ (apart j idle)]
    exact table.held idle ((access.homes _ (apart j idle) a).mp home)

end SlotAccess

/-- The slot that is being worked on: its pointer and its size, and the contents of the
buffer it has, if any. The other slots of the socket are in order. -/
structure Working (socket : Nat) (slot : Fin kcrExtSlots) (pointer : U64) (size : U32)
    (contents : Option (List U8)) (s : Shared) : Prop where
  table : s.Table socket (some slot)
  pointed : s.memory.extSlots socket slot = pointer
  sized : s.memory.extSlotSize socket slot = size
  home : ∀ a, s.ghost.home a = some (socket, slot) ↔ a = pointer ∧ contents ≠ none
  buffer : contents ≠ none → s.memory.buffers pointer = contents

section Working

variable {socket : Nat} {slot : Fin kcrExtSlots} {pointer : U64} {size : U32}
  {contents : Option (List U8)} {bytes₀ : List U8}

theorem Table.busy (table : s.Table socket none) (slot : Fin kcrExtSlots) :
    s.Table socket (some slot) where
  holds j _ := table.holds j nofun
  held _ home := table.held nofun home

/-- An empty slot is taken up. -/
theorem Table.working_empty (table : s.Table socket none)
    (empty : s.memory.extSlots socket slot = 0#64) :
    s.Working socket slot 0#64 0#32 none := by
  obtain ⟨_, size⟩ | ⟨_, taken, _⟩ := table.holds slot nofun
  · refine ⟨table.busy slot, empty, size, fun a => ⟨fun home => ?_, by simp⟩, by simp⟩
    obtain ⟨same, null⟩ := table.held nofun home
    exact absurd (same.symm.trans empty) null
  · exact absurd empty taken

/-- A full slot is taken up. -/
theorem Table.working_full (table : s.Table socket none)
    (full : s.memory.extSlots socket slot ≠ 0#64) :
    ∃ bytes, s.Working socket slot (s.memory.extSlots socket slot)
      (s.memory.extSlotSize socket slot) (some bytes) := by
  obtain ⟨empty, _⟩ | ⟨bytes, taken, home, buffer, size⟩ := table.holds slot nofun
  · exact absurd empty full
  · refine ⟨bytes, table.busy slot, rfl, rfl, fun a => ⟨fun home' => ?_, ?_⟩, fun _ => buffer⟩
    · exact ⟨(table.held nofun home').1.symm, nofun⟩
    · rintro ⟨rfl, _⟩
      exact home

/-- The slot is in order again. -/
theorem Working.table_of_empty (working : s.Working socket slot 0#64 0#32 none) :
    s.Table socket none := by
  constructor
  · intro j _
    by_cases same : j = slot
    · exact .inl ⟨same ▸ working.pointed, same ▸ working.sized⟩
    · exact working.table.holds j (by simpa [eq_comm] using same)
  · intro a j _ home
    by_cases same : j = slot
    · subst same
      exact absurd rfl ((working.home a).mp home).2
    · exact working.table.held (by simpa [eq_comm] using same) home

theorem Working.table_of_full {bytes : List U8}
    (working : s.Working socket slot pointer size (some bytes)) (taken : pointer ≠ 0#64)
    (length : bytes.length = size.toNat) (long : kcrResultSizeMax < bytes.length) :
    s.Table socket none := by
  constructor
  · intro j _
    by_cases same : j = slot
    · subst same
      refine .inr ⟨bytes, ?_⟩
      rw [working.pointed, working.sized]
      exact ⟨taken, (working.home _).mpr ⟨rfl, nofun⟩, working.buffer nofun, length, long⟩
    · exact working.table.holds j (by simpa [eq_comm] using same)
  · intro a j _ home
    by_cases same : j = slot
    · subst same
      obtain ⟨rfl, _⟩ := (working.home a).mp home
      exact ⟨working.pointed, taken⟩
    · exact working.table.held (by simpa [eq_comm] using same) home

theorem update_place {A : Type} {f : Nat → Fin kcrExtSlots → A} {k : Nat} {j : Fin kcrExtSlots}
    {value : A} (other : (k, j) ≠ (socket, slot)) :
    Function.update f socket (Function.update (f socket) slot value) k j = f k j := by
  by_cases here : k = socket
  · subst here
    have apart : j ≠ slot := fun same => other (by rw [same])
    rw [Function.update_self, Function.update_of_ne apart]
  · rw [Function.update_of_ne here]

/-- A store into the slot's pointer. -/
theorem access_pointer (sound : s.Sound P tasks) (value : U64) : SlotAccess socket slot s
    (s.on { s.memory with
      extSlots := Function.update s.memory.extSlots socket
        (Function.update (s.memory.extSlots socket) slot value) }) where
  frame := rfl
  slots _ _ other := update_place other
  sizes _ _ _ := rfl
  homes _ _ _ := Iff.rfl
  buffers _ _ _ := rfl
  known := sound.homes

theorem Working.setPointer (working : s.Working socket slot pointer size none)
    (sound : s.Sound P tasks) (value : U64) :
    (s.on { s.memory with
      extSlots := Function.update s.memory.extSlots socket
        (Function.update (s.memory.extSlots socket) slot value) }).Working socket slot value size
      none where
  table := (access_pointer sound value).table working.table
  pointed := by simp
  sized := working.sized
  home a := by simpa using (working.home a)
  buffer := by simp

/-- A store into the slot's size. -/
theorem access_size (sound : s.Sound P tasks) (value : U32) : SlotAccess socket slot s
    (s.on { s.memory with
      extSlotSize := Function.update s.memory.extSlotSize socket
        (Function.update (s.memory.extSlotSize socket) slot value) }) where
  frame := rfl
  slots _ _ _ := rfl
  sizes _ _ other := update_place other
  homes _ _ _ := Iff.rfl
  buffers _ _ _ := rfl
  known := sound.homes

theorem Working.setSize (working : s.Working socket slot pointer size contents)
    (sound : s.Sound P tasks) (value : U32) :
    (s.on { s.memory with
      extSlotSize := Function.update s.memory.extSlotSize socket
        (Function.update (s.memory.extSlotSize socket) slot value) }).Working socket slot pointer
      value contents where
  table := (access_size sound value).table working.table
  pointed := working.pointed
  sized := by simp
  home := working.home
  buffer := working.buffer

/-- A store into the buffer of the slot. -/
theorem access_buffer (sound : s.Sound P tasks)
    (working : s.Working socket slot pointer size (some bytes₀)) (bytes : List U8) :
    SlotAccess socket slot s
      (s.on { s.memory with buffers := Function.update s.memory.buffers pointer (some bytes) }) := by
  have own := (working.home pointer).mpr ⟨rfl, nofun⟩
  refine ⟨rfl, fun _ _ _ => rfl, fun _ _ _ => rfl, fun _ _ _ => Iff.rfl, ?_, ?_⟩
  · intro a other _
    have apart : a ≠ pointer := by
      rintro rfl
      exact other own
    simp [apart]
  · intro a
    by_cases same : a = pointer
    · subst same
      simp [own]
    · simpa [same] using sound.homes a

theorem Working.memcpy (working : s.Working socket slot pointer size (some bytes₀))
    (sound : s.Sound P tasks) (bytes : List U8) :
    (s.on { s.memory with
      buffers := Function.update s.memory.buffers pointer (some bytes) }).Working socket slot
      pointer size (some bytes) where
  table := (access_buffer sound working bytes).table working.table
  pointed := working.pointed
  sized := working.sized
  home a := by simpa using working.home a
  buffer _ := by simp

/-- The allocation of a buffer for the slot. -/
theorem access_kvmalloc (sound : s.Sound P tasks) {a : U64}
    (unused : s.memory.buffers a = none) : SlotAccess socket slot s
      ((s.on { s.memory with
        extSlots := Function.update s.memory.extSlots socket
          (Function.update (s.memory.extSlots socket) slot a)
        buffers := Function.update s.memory.buffers a (some []) }).setHome a
        (some (socket, slot))) := by
  have unplaced := (sound.homes a).mp unused
  refine ⟨rfl, fun _ _ other => update_place other, fun _ _ _ => rfl, ?_, ?_, ?_⟩
  · intro place other b
    by_cases same : b = a
    · subst same
      simp [setHome, unplaced, Ne.symm other]
    · simp [setHome, same]
  · intro b _ other
    have apart : b ≠ a := by
      rintro rfl
      simp [setHome] at other
    simp [apart]
  · intro b
    by_cases same : b = a
    · subst same
      simp [setHome]
    · simpa [setHome, same] using sound.homes b

theorem Working.kvmalloc (working : s.Working socket slot pointer size none)
    (sound : s.Sound P tasks) {a : U64} (unused : s.memory.buffers a = none) :
    ((s.on { s.memory with
      extSlots := Function.update s.memory.extSlots socket
        (Function.update (s.memory.extSlots socket) slot a)
      buffers := Function.update s.memory.buffers a (some []) }).setHome a
      (some (socket, slot))).Working socket slot a size (some []) where
  table := (access_kvmalloc sound unused).table working.table
  pointed := by simp
  sized := working.sized
  home b := by
    by_cases same : b = a
    · subst same
      simp [setHome]
    · simpa [setHome, same] using working.home b
  buffer _ := by simp

/-- The release of the slot's buffer. -/
theorem access_kvfree (sound : s.Sound P tasks)
    (working : s.Working socket slot pointer size (some bytes₀)) : SlotAccess socket slot s
      ((s.on { s.memory with
        buffers := Function.update s.memory.buffers pointer none }).setHome pointer none) := by
  have own := (working.home pointer).mpr ⟨rfl, nofun⟩
  refine ⟨rfl, fun _ _ _ => rfl, fun _ _ _ => rfl, ?_, ?_, ?_⟩
  · intro place other b
    by_cases same : b = pointer
    · subst same
      simp [setHome, own, Ne.symm other]
    · simp [setHome, same]
  · intro b other _
    have apart : b ≠ pointer := by
      rintro rfl
      exact other own
    simp [apart]
  · intro b
    by_cases same : b = pointer
    · subst same
      simp [setHome]
    · simpa [setHome, same] using sound.homes b

theorem Working.kvfree (working : s.Working socket slot pointer size (some bytes₀))
    (sound : s.Sound P tasks) :
    ((s.on { s.memory with
      buffers := Function.update s.memory.buffers pointer none }).setHome pointer none).Working
      socket slot pointer size none where
  table := (access_kvfree sound working).table working.table
  pointed := working.pointed
  sized := working.sized
  home b := by
    by_cases same : b = pointer
    · subst same
      simp [setHome]
    · simpa [setHome, same] using working.home b
  buffer := by simp

theorem steady_working :
    Steady t (some (.ext socket)) (Working socket slot pointer size contents) := by
  intro s s' spares working
  have same : SameTable socket s s' := spares.slots rfl
  have home : ∀ a, s'.ghost.home a = some (socket, slot) ↔ a = pointer ∧ contents ≠ none :=
    fun a => (same.homes a slot).trans (working.home a)
  refine ⟨same.table working.table, ?_, ?_, home, fun got => ?_⟩
  · rw [same.slots, working.pointed]
  · rw [same.sizes, working.sized]
  · rw [same.buffers pointer slot ((working.home pointer).mpr ⟨rfl, got⟩), working.buffer got]

end Working

end Shared

end Kcr
