import Kcr.Cache.Accesses
import Kcr.Cache.Buckets
import Kcr.Hlist.Concurrent

/-!
# What concurrent calls may rely on

An entry is private until it is complete and does not change afterwards; links join complete
entries of one hash class; whoever holds a slot lock has the slots of that socket for itself.
No bucket lock protects anything here: entries move between buckets under the lock of one.
-/

namespace Kcr

open Hlist

/-- The fields a store sets before it looks at the length. -/
def Origin.draft (P : Platform) (tasks : Nat → Task) (origin : Origin) : Entry :=
  initEntry P ((tasks origin.thread).at (BitVec.ofNat 64 origin.tick)) origin.fingerprint
    origin.mm .zeroed

/-- What a store leaves in the entry it made. -/
def Origin.entry (P : Platform) (tasks : Nat → Task) (origin : Origin) : Entry :=
  let e := origin.draft P tasks
  if origin.len.toNat > kcrResultSizeMax then
    { e with payload := (e.payload.setExtData origin.buffer).setExtSize origin.len }
  else storeInline origin.data origin.len e

/-- The class of the entry: that of its fingerprint on the CPU that stored it. -/
def Origin.hashClass (P : Platform) (tasks : Nat → Task) (origin : Origin) : HashClass :=
  Kcr.hashClass P (tasks origin.thread).cpu origin.fingerprint

/-- The request is the store that an entry comes from. -/
def Request.Makes (request : Request) (origin : Origin) : Prop :=
  request.operation =
    .storeResult origin.fingerprint (some origin.data) origin.len origin.mm

namespace Shared

/-- The entries that are complete. -/
def completed (s : Shared) : Set Node := {n | ∃ origin, s.ghost.status n = .complete origin}

def colour (P : Platform) (tasks : Nat → Task) (s : Shared) (n : Node) : HashClass :=
  match s.ghost.status n with
  | .complete origin => origin.hashClass P tasks
  | _ => (0, ⟨0, by decide⟩)

theorem colour_complete {P : Platform} {tasks : Nat → Task} {s : Shared} {n : Node}
    {origin : Origin} (complete : s.ghost.status n = .complete origin) :
    s.colour P tasks n = origin.hashClass P tasks := by
  simp [colour, complete]

/-- The invariant of all interleavings. -/
structure Sound (P : Platform) (tasks : Nat → Task) (s : Shared) : Prop where
  shaped : s.memory.heap.Shaped (Head.hashClass P) (s.colour P tasks) s.completed
  allocated : ∀ n, n ∈ s.memory.live ↔ s.ghost.status n ≠ .free
  distinct : s.memory.live.Nodup
  made : ∀ {n origin}, s.ghost.status n = .complete origin →
    s.memory.entry n = origin.entry P tasks ∧ origin.tick ≤ s.now ∧
      ∃ request, (origin.thread, request) ∈ s.ghost.begun ∧ request.Makes origin
  retired : ∀ n ∈ s.memory.retired, n ∈ s.completed
  homes : ∀ a, s.memory.buffers a = none ↔ s.ghost.home a = none

/-! ## Slots -/

/-- A slot is empty, or holds the buffer that was allocated for it with the buffer's size. -/
def SlotHolds (socket : Nat) (slot : Fin kcrExtSlots) (s : Shared) : Prop :=
  (s.memory.extSlots socket slot = 0#64 ∧ s.memory.extSlotSize socket slot = 0#32) ∨
    ∃ bytes, s.memory.extSlots socket slot ≠ 0#64 ∧
      s.ghost.home (s.memory.extSlots socket slot) = some (socket, slot) ∧
      s.memory.buffers (s.memory.extSlots socket slot) = some bytes ∧
      bytes.length = (s.memory.extSlotSize socket slot).toNat ∧ kcrResultSizeMax < bytes.length

/-- The slots of a socket, but for one that is being worked on. -/
structure Table (socket : Nat) (busy : Option (Fin kcrExtSlots)) (s : Shared) : Prop where
  holds : ∀ slot, slot ∉ busy → s.SlotHolds socket slot
  held : ∀ {a slot}, slot ∉ busy → s.ghost.home a = some (socket, slot) →
    s.memory.extSlots socket slot = a ∧ a ≠ 0#64

/-- The slots of a socket and the buffers allocated for them are the same. -/
structure SameTable (socket : Nat) (s s' : Shared) : Prop where
  slots : s'.memory.extSlots socket = s.memory.extSlots socket
  sizes : s'.memory.extSlotSize socket = s.memory.extSlotSize socket
  homes : ∀ a slot, s'.ghost.home a = some (socket, slot) ↔ s.ghost.home a = some (socket, slot)
  buffers : ∀ a slot, s.ghost.home a = some (socket, slot) →
    s'.memory.buffers a = s.memory.buffers a

theorem SameTable.slotHolds {socket : Nat} {slot : Fin kcrExtSlots} {s s' : Shared}
    (same : SameTable socket s s') (holds : s.SlotHolds socket slot) :
    s'.SlotHolds socket slot := by
  unfold SlotHolds
  rw [same.slots, same.sizes]
  obtain empty | ⟨bytes, taken, home, buffer, size⟩ := holds
  · exact .inl empty
  · exact .inr ⟨bytes, taken, (same.homes _ _).mpr home, (same.buffers _ _ home).trans buffer, size⟩

theorem SameTable.table {socket : Nat} {busy : Option (Fin kcrExtSlots)} {s s' : Shared}
    (same : SameTable socket s s') (table : s.Table socket busy) : s'.Table socket busy where
  holds slot idle := same.slotHolds (table.holds slot idle)
  held idle home := by
    rw [same.slots]
    exact table.held idle ((same.homes _ _).mp home)

/-! ## What others leave alone -/

/-- What a step leaves alone for a thread that holds `held`. -/
structure Spares (t : Nat) (held : Option CacheLock) (s s' : Shared) : Prop where
  complete : ∀ {n origin}, s.ghost.status n = .complete origin →
    s'.ghost.status n = .complete origin
  finished : ∀ {n origin}, s'.ghost.status n = .complete origin → origin.thread = t →
    s.ghost.status n = .complete origin
  drafts : ∀ n, s'.ghost.status n = .draft t ↔ s.ghost.status n = .draft t
  entries : ∀ {n}, s.ghost.status n = .draft t → s'.memory.entry n = s.memory.entry n
  named : ∀ n ∈ s.completed, s.memory.heap.pprev n ≠ .null → s'.memory.heap.pprev n ≠ .null
  slots : ∀ {socket}, .ext socket ∈ held → SameTable socket s s'
  now : s.now ≤ s'.now
  begun : ∀ {call}, call ∈ s.ghost.begun → call ∈ s'.ghost.begun

theorem SameTable.refl (socket : Nat) (s : Shared) : SameTable socket s s :=
  ⟨rfl, rfl, fun _ _ => Iff.rfl, fun _ _ _ => rfl⟩

theorem Spares.refl {t : Nat} {held : Option CacheLock} (s : Shared) : Spares t held s s :=
  ⟨fun complete => complete, fun complete _ => complete, fun _ => Iff.rfl, fun _ => rfl,
    fun _ _ set => set,
    fun _ => .refl _ s, Nat.le_refl _, fun member => member⟩

end Shared

/-- Everyone spares the others, and the environment spares everyone. -/
def protocol (P : Platform) (tasks : Nat → Task) : Protocol Nat Shared CacheLock Halt where
  Inv s := s.Sound P tasks
  Res l s := ∀ socket, l = .ext socket → s.Table socket none
  Idle t s := ∀ n, s.ghost.status n ≠ .draft t
  Step t held s s' := s'.ghost.begun = s.ghost.begun ∧
    ∀ u mine, u ≠ t → (∀ l ∈ mine, l ∉ held) → Shared.Spares u mine s s'
  Env s s' := ∀ u mine, Shared.Spares u mine s s'
  Fault reason := reason ≠ .null
  res_step {t held l s s'} unheld _ _ step res := by
    rintro socket rfl
    have spares := step.2 (t + 1) (some (.ext socket)) (Nat.succ_ne_self t)
      (by rintro l ⟨⟩; exact unheld)
    exact (spares.slots rfl).table (res socket rfl)
  res_env {l s s'} _ _ env res := by
    rintro socket rfl
    exact ((env 0 (some (.ext socket))).slots rfl).table (res socket rfl)
  idle_step other _ _ step idle n draft :=
    idle n (((step.2 _ none (Ne.symm other) nofun).drafts n).mp draft)
  idle_env {t s s'} _ _ env idle n draft := idle n (((env t none).drafts n).mp draft)

variable {P : Platform} {tasks : Nat → Task} {t : Nat} {held : Option CacheLock} {s s' : Shared}

theorem spares_of_interferes (moved : (protocol P tasks).Interferes t held s s') :
    Shared.Spares t held s s' := by
  obtain ⟨_, _, env | ⟨u, mine, other, apart, step⟩⟩ := moved
  · exact env t held
  · exact step.2 t held (Ne.symm other) apart

/-- Nothing that a thread is spared falsifies the assertion. -/
def Steady (t : Nat) (held : Option CacheLock) (A : Shared → Prop) : Prop :=
  ∀ s s', Shared.Spares t held s s' → A s → A s'

namespace Steady

variable {A B : Shared → Prop}

theorem stable (steady : Steady t held A) : (protocol P tasks).Stable t held A :=
  fun s s' moved => steady s s' (spares_of_interferes moved)

theorem and (first : Steady t held A) (second : Steady t held B) :
    Steady t held fun s => A s ∧ B s :=
  fun s s' spares holds => ⟨first s s' spares holds.1, second s s' spares holds.2⟩

theorem or (first : Steady t held A) (second : Steady t held B) :
    Steady t held fun s => A s ∨ B s :=
  fun s s' spares => Or.imp (first s s' spares) (second s s' spares)

theorem any {I : Type} {A : I → Shared → Prop} (each : ∀ i, Steady t held (A i)) :
    Steady t held fun s => ∃ i, A i s :=
  fun s s' spares ⟨i, holds⟩ => ⟨i, each i s s' spares holds⟩

theorem const (p : Prop) : Steady t held fun _ => p := fun _ _ _ holds => holds

theorem complete {n : Node} {origin : Origin} :
    Steady t held fun s => s.ghost.status n = .complete origin :=
  fun _ _ spares holds => spares.complete holds

theorem table {socket : Nat} {busy : Option (Fin kcrExtSlots)} :
    Steady t (some (.ext socket)) (Shared.Table socket busy) :=
  fun _ _ spares holds => (spares.slots rfl).table holds

end Steady

/-! ## Stores into lists -/

namespace Shared

variable {heap : Heap Head Node}

theorem completed_on (s : Shared) (memory : State) : (s.on memory).completed = s.completed := rfl

theorem colour_on (s : Shared) (memory : State) :
    (s.on memory).colour P tasks = s.colour P tasks := rfl

/-- A change of the lists, of the statistics or of the list of retired entries. -/
theorem spares_on {memory : State} (entries : memory.entry = s.memory.entry)
    (slots : memory.extSlots = s.memory.extSlots) (sizes : memory.extSlotSize = s.memory.extSlotSize)
    (buffers : memory.buffers = s.memory.buffers)
    (named : ∀ n ∈ s.completed, s.memory.heap.pprev n ≠ .null → memory.heap.pprev n ≠ .null) :
    Spares t held s (s.on memory) where
  complete holds := holds
  finished complete _ := complete
  drafts _ := Iff.rfl
  entries _ := by rw [on_memory, entries]
  named := named
  slots _ := ⟨by rw [on_memory, slots], by rw [on_memory, sizes], fun _ _ => Iff.rfl,
    fun _ _ _ => by rw [on_memory, buffers]⟩
  now := Nat.le_refl _
  begun member := member

theorem spares_heap
    (named : ∀ n ∈ s.completed, s.memory.heap.pprev n ≠ .null → heap.pprev n ≠ .null) :
    Spares t held s (s.on { s.memory with heap := heap }) := spares_on rfl rfl rfl rfl named

theorem Sound.relink (sound : s.Sound P tasks)
    (shaped : heap.Shaped (Head.hashClass P) (s.colour P tasks) s.completed) :
    (s.on { s.memory with heap := heap }).Sound P tasks where
  shaped := shaped
  allocated := sound.allocated
  distinct := sound.distinct
  made := sound.made
  retired := sound.retired
  homes := sound.homes

end Shared

/-- The lists of the cache, coloured by hash class. -/
def cacheLists (P : Platform) (tasks : Nat → Task) :
    Lists (protocol P tasks) Head Node HashClass where
  view := Shared.heap
  head := Head.hashClass P
  node := Shared.colour P tasks
  live := Shared.completed
  node_set _ _ := rfl
  live_set _ _ := rfl
  shaped sound := sound.shaped
  kept moved := by
    rintro ⟨origin, complete⟩
    have later := (spares_of_interferes moved).complete complete
    exact ⟨⟨origin, later⟩,
      (Shared.colour_complete later).trans (Shared.colour_complete complete).symm⟩
  linked moved := (spares_of_interferes moved).named _
  store sound shaped named :=
    ⟨Shared.Sound.relink sound shaped, rfl, fun _ _ _ _ => Shared.spares_heap named⟩
  fuel := nofun
  poison := nofun

theorem Steady.carried {A : Shared → Prop} (steady : Steady t held A) :
    (cacheLists P tasks).Carried t held A where
  stable := steady.stable
  stores s _ stores := steady s _ (Shared.spares_heap stores.linked)

theorem Steady.member {c : HashClass} {n : Node} :
    Steady t held ((cacheLists P tasks).Member c n) := by
  rintro s s' spares ⟨⟨origin, complete⟩, colour⟩
  have later := spares.complete complete
  exact ⟨⟨origin, later⟩, (Shared.colour_complete later).trans
    ((Shared.colour_complete complete).symm.trans colour)⟩

theorem Steady.linked {c : HashClass} {n : Node} :
    Steady t held ((cacheLists P tasks).Linked c n) :=
  fun s s' spares ⟨member, set⟩ =>
    ⟨Steady.member s s' spares member, spares.named n member.1 set⟩

end Kcr
