import Kcr.Core.Shutdown
import Kcr.Semantics.Ledger
import Mathlib.Data.List.Induction
import Mathlib.Data.Multiset.OrderedMonoid
import Mathlib.Tactic.Abel

/-!
# Lifecycle of the module

`kcr_main.c` with `kcr_mem.c` and `kcr_debugfs.c`: any sequence of `kcr_init`, `kcr_exit` and
writes to the module parameter, whatever the allocators answer. Nothing is ever freed twice,
and what the globals point to is there. What leaks is what a second `kcr_init` writes over.
-/

namespace Kcr

open Ledger

abbrev kcrRegionSize : Nat := 16 * 1024 * 1024

/-- `struct shared_region`. -/
structure SharedRegion where
  memfdFile : U64
  kernelVaddr : U64
  size : U64
  physAddr : U64
  refcount : U32
deriving DecidableEq

inductive KernelResource where
  | percpu (a : U64)
  | kmalloc (a : U64)
  | vmalloc (a : U64)
  | dentry (a : U64)
deriving DecidableEq

/-- The globals of `kcr_main.c` and `kcr_debugfs.c`, the region descriptors in kernel memory,
and the ledger of what was allocated and freed. -/
structure KcrModule where
  kcrEnable : Bool
  caches : U64
  kcrRegion : U64
  l3Tables : U64
  numSockets : Nat
  kcrDebugfsRoot : U64
  regions : U64 → SharedRegion
  ledger : Ledger KernelResource

/-- What the allocators and debugfs answer during `kcr_init`. -/
structure InitAnswers where
  allocPercpu : U64
  kzalloc : U64
  vmalloc : U64
  kcalloc : U64
  debugfsCreateDir : U64

/-- `IS_ERR`. -/
def isErr (a : U64) : Prop := 2 ^ 64 - 4095 ≤ a.toNat

def isErrOrNull (a : U64) : Prop := a = 0#64 ∨ isErr a

instance (a : U64) : Decidable (isErr a) := inferInstanceAs (Decidable (_ ≤ _))

instance (a : U64) : Decidable (isErrOrNull a) := inferInstanceAs (Decidable (_ ∨ _))

namespace KcrModule

/-- The module as it is loaded. -/
def loaded : KcrModule where
  kcrEnable := true
  caches := 0#64
  kcrRegion := 0#64
  l3Tables := 0#64
  numSockets := 0
  kcrDebugfsRoot := 0#64
  regions _ := ⟨0, 0, 0, 0, 0⟩
  ledger := []

def take (r : KernelResource) (s : KcrModule) : KcrModule :=
  { s with ledger := s.ledger ++ [.takes r] }

def give (r : KernelResource) (s : KcrModule) : KcrModule :=
  { s with ledger := s.ledger ++ [.gives r] }

def setRegion (a : U64) (region : SharedRegion) (s : KcrModule) : KcrModule :=
  { s with regions := Function.update s.regions a region }

/-- `kcr_alloc_region`, with the answers of `kzalloc` and `vmalloc`. -/
def kcrAllocRegion (kzalloc vmalloc : U64) (s : KcrModule) : U64 × KcrModule :=
  if kzalloc = 0#64 then (0#64, s)
  else
    let s := s.take (.kmalloc kzalloc)
    if vmalloc = 0#64 then (0#64, s.give (.kmalloc kzalloc))
    else
      let region : SharedRegion :=
        { memfdFile := 0
          kernelVaddr := vmalloc
          size := BitVec.ofNat 64 kcrRegionSize
          physAddr := 0
          refcount := 1 }
      (kzalloc, (s.take (.vmalloc vmalloc)).setRegion kzalloc region)

/-- `kcr_free_region`. -/
def kcrFreeRegion (a : U64) (s : KcrModule) : KcrModule :=
  if a = 0#64 then s
  else
    let region := { s.regions a with refcount := (s.regions a).refcount - 1 }
    let s := s.setRegion a region
    if region.refcount ≠ 0#32 then s
    else
      let s := if region.kernelVaddr ≠ 0#64 then
          (s.give (.vmalloc region.kernelVaddr)).setRegion a { region with kernelVaddr := 0 }
        else s
      s.give (.kmalloc a)

/-- `kcr_debugfs_init`, with the answer of `debugfs_create_dir`. -/
def kcrDebugfsInit (debugfsCreateDir : U64) (s : KcrModule) : Int × KcrModule :=
  let s := { s with kcrDebugfsRoot := debugfsCreateDir }
  if isErr debugfsCreateDir then (debugfsCreateDir.toInt, s)
  else (0, if debugfsCreateDir = 0#64 then s else s.take (.dentry debugfsCreateDir))

/-- `kcr_debugfs_exit`; `debugfs_remove_recursive` ignores null and error pointers. -/
def kcrDebugfsExit (s : KcrModule) : KcrModule :=
  let s := if isErrOrNull s.kcrDebugfsRoot then s else s.give (.dentry s.kcrDebugfsRoot)
  { s with kcrDebugfsRoot := 0#64 }

/-- The labels at the end of `kcr_init`. -/
def errDisable (s : KcrModule) : KcrModule := { s with kcrEnable := false }

def errFreeCaches (s : KcrModule) : KcrModule :=
  { s.give (.percpu s.caches) with caches := 0#64 }.errDisable

def errFreeRegion (s : KcrModule) : KcrModule :=
  { s.kcrFreeRegion s.kcrRegion with kcrRegion := 0#64 }.errFreeCaches

/-- `kcr_init` from the L3 tables on. -/
def initTables (P : Platform) (answers : InitAnswers) (s : KcrModule) : Int × KcrModule :=
  let s := { s with numSockets := P.numSockets, l3Tables := answers.kcalloc }
  if answers.kcalloc = 0#64 then (-enomem, s.errFreeRegion)
  else (0, ((s.take (.kmalloc answers.kcalloc)).kcrDebugfsInit answers.debugfsCreateDir).2)

/-- `kcr_init`. -/
def kcrInit (P : Platform) (answers : InitAnswers) (s : KcrModule) : Int × KcrModule :=
  if s.kcrEnable = false then (0, s)
  else if answers.allocPercpu = 0#64 then (-enomem, { s with caches := 0#64 }.errDisable)
  else
    let s := { s.take (.percpu answers.allocPercpu) with caches := answers.allocPercpu }
    let (region, s) := s.kcrAllocRegion answers.kzalloc answers.vmalloc
    let s := { s with kcrRegion := region }
    if region = 0#64 then (-enomem, s.errFreeCaches) else s.initTables P answers

/-- The three frees of `kcr_exit`. -/
def freeCaches (s : KcrModule) : KcrModule :=
  if s.caches ≠ 0#64 then { s.give (.percpu s.caches) with caches := 0#64 } else s

def freeTables (s : KcrModule) : KcrModule :=
  if s.l3Tables ≠ 0#64 then { s.give (.kmalloc s.l3Tables) with l3Tables := 0#64 } else s

def freeRegion (s : KcrModule) : KcrModule :=
  if s.kcrRegion ≠ 0#64 then { s.kcrFreeRegion s.kcrRegion with kcrRegion := 0#64 } else s

/-- `kcr_exit`. -/
def kcrExit (s : KcrModule) : KcrModule := s.kcrDebugfsExit.freeCaches.freeTables.freeRegion

/-- `kcr_is_enabled`. -/
def kcrIsEnabled (s : KcrModule) : Bool := s.kcrEnable && decide (s.kcrRegion ≠ 0#64)

end KcrModule

/-- What happens to the module from outside. -/
inductive LifecycleEvent where
  | kcrInit (answers : InitAnswers)
  | kcrExit
  | setKcrEnable (value : Bool)

def execLifecycle (P : Platform) (s : KcrModule) : LifecycleEvent → KcrModule
  | .kcrInit answers => (s.kcrInit P answers).2
  | .kcrExit => s.kcrExit
  | .setKcrEnable value => { s with kcrEnable := value }

/-- The module after a sequence of events. -/
def KcrModule.after (P : Platform) (events : List LifecycleEvent) : KcrModule :=
  events.foldl (execLifecycle P) .loaded

/-! ## What the globals own -/

/-- What a pointer owns, unless it is null. -/
def owns (a : U64) (resources : Multiset KernelResource) : Multiset KernelResource :=
  if a = 0#64 then 0 else resources

@[simp] theorem owns_null (resources : Multiset KernelResource) : owns 0#64 resources = 0 := rfl

theorem owns_of_ne {a : U64} {resources : Multiset KernelResource} (pointer : a ≠ 0#64) :
    owns a resources = resources := if_neg pointer

namespace KcrModule

def ownedCaches (s : KcrModule) : Multiset KernelResource := owns s.caches {.percpu s.caches}

def ownedTables (s : KcrModule) : Multiset KernelResource := owns s.l3Tables {.kmalloc s.l3Tables}

def ownedRegion (s : KcrModule) : Multiset KernelResource :=
  owns s.kcrRegion ({.kmalloc s.kcrRegion} + {.vmalloc (s.regions s.kcrRegion).kernelVaddr})

def ownedRoot (s : KcrModule) : Multiset KernelResource :=
  if isErrOrNull s.kcrDebugfsRoot then 0 else {.dentry s.kcrDebugfsRoot}

/-- What the globals point to. -/
def owned (s : KcrModule) : Multiset KernelResource :=
  s.ownedCaches + s.ownedTables + s.ownedRegion + s.ownedRoot

theorem owned_of_ne {s : KcrModule} (caches : s.caches ≠ 0#64) (tables : s.l3Tables ≠ 0#64)
    (region : s.kcrRegion ≠ 0#64) :
    s.owned = {.percpu s.caches} + {.kmalloc s.l3Tables} +
      ({.kmalloc s.kcrRegion} + {.vmalloc (s.regions s.kcrRegion).kernelVaddr}) + s.ownedRoot := by
  rw [owned, ownedCaches, ownedTables, ownedRegion, owns_of_ne caches, owns_of_ne tables,
    owns_of_ne region]

/-- Globals that own nothing point to nothing. -/
theorem null_of_owned {s : KcrModule} (empty : s.owned = 0) :
    s.caches = 0#64 ∧ s.l3Tables = 0#64 ∧ s.kcrRegion = 0#64 ∧ isErrOrNull s.kcrDebugfsRoot := by
  obtain ⟨others, root⟩ := add_eq_zero.mp empty
  obtain ⟨others, region⟩ := add_eq_zero.mp others
  obtain ⟨caches, tables⟩ := add_eq_zero.mp others
  refine ⟨?_, ?_, ?_, ?_⟩
  · by_contra pointer
    rw [ownedCaches, owns_of_ne pointer] at caches
    exact Multiset.singleton_ne_zero _ caches
  · by_contra pointer
    rw [ownedTables, owns_of_ne pointer] at tables
    exact Multiset.singleton_ne_zero _ tables
  · by_contra pointer
    rw [ownedRegion, owns_of_ne pointer] at region
    exact Multiset.singleton_ne_zero _ (add_eq_zero.mp region).1
  · by_contra pointer
    rw [ownedRoot, if_neg pointer] at root
    exact Multiset.singleton_ne_zero _ root

theorem not_kcrIsEnabled {s : KcrModule} (null : s.kcrRegion = 0#64) : s.kcrIsEnabled = false := by
  simp [kcrIsEnabled, null]

/-- The region, if there is one, is as it was allocated. -/
def Sized (s : KcrModule) : Prop :=
  s.kcrRegion ≠ 0#64 → (s.regions s.kcrRegion).kernelVaddr ≠ 0#64 ∧
    (s.regions s.kcrRegion).refcount = 1#32 ∧
    (s.regions s.kcrRegion).size = BitVec.ofNat 64 kcrRegionSize

/-- Beside what the globals own, the rest is outstanding. -/
structure Keeps (s : KcrModule) (rest : Multiset KernelResource) : Prop where
  owes : Owes s.ledger (s.owned + rest)
  sized : s.Sized

variable {s : KcrModule} {held rest : Multiset KernelResource}

theorem kcrAllocRegion_cases (owes : Owes s.ledger held) (kzalloc vmalloc : U64) :
    ∃ regions ledger, (s.kcrAllocRegion kzalloc vmalloc).2 =
        { s with regions := regions, ledger := ledger } ∧
      ((s.kcrAllocRegion kzalloc vmalloc).1 = 0#64 ∧ regions = s.regions ∧ Owes ledger held ∨
        (s.kcrAllocRegion kzalloc vmalloc).1 = kzalloc ∧ kzalloc ≠ 0#64 ∧
          Owes ledger ({.kmalloc kzalloc} + {.vmalloc vmalloc} + held) ∧
          regions kzalloc = ⟨0, vmalloc, BitVec.ofNat 64 kcrRegionSize, 0, 1⟩ ∧
          vmalloc ≠ 0#64) := by
  unfold kcrAllocRegion
  by_cases noDescriptor : kzalloc = 0#64
  · rw [if_pos noDescriptor]
    exact ⟨s.regions, s.ledger, rfl, .inl ⟨rfl, rfl, owes⟩⟩
  · rw [if_neg noDescriptor]
    by_cases noMemory : vmalloc = 0#64
    · simp only [if_pos noMemory]
      exact ⟨s.regions, _, rfl, .inl ⟨trivial, rfl, (owes.take (.kmalloc kzalloc)).give⟩⟩
    · simp only [if_neg noMemory]
      refine ⟨_, _, rfl, .inr ⟨trivial, noDescriptor, ?_, Function.update_self .., noMemory⟩⟩
      have both := (owes.take (.kmalloc kzalloc)).take (.vmalloc vmalloc)
      rwa [show ({.kmalloc kzalloc} + {.vmalloc vmalloc} + held : Multiset KernelResource) =
        {.vmalloc vmalloc} + ({.kmalloc kzalloc} + held) by abel]

/-- The last reference to a region gives back its memory and its descriptor. -/
theorem kcrFreeRegion_cases {a : U64} (pointer : a ≠ 0#64)
    (mapped : (s.regions a).kernelVaddr ≠ 0#64) (last : (s.regions a).refcount = 1#32)
    (owes : Owes s.ledger
      ({.kmalloc a} + {.vmalloc (s.regions a).kernelVaddr} + held)) :
    ∃ regions ledger, s.kcrFreeRegion a = { s with regions := regions, ledger := ledger } ∧
      Owes ledger held := by
  have none : ¬ (s.regions a).refcount - 1 ≠ 0#32 := by
    rw [last]
    decide
  have freed : Owes (s.ledger ++ [.gives (.vmalloc (s.regions a).kernelVaddr)])
      ({.kmalloc a} + held) := by
    apply Owes.give
    rwa [show ({.vmalloc (s.regions a).kernelVaddr} + ({.kmalloc a} + held) :
      Multiset KernelResource) =
        {.kmalloc a} + {.vmalloc (s.regions a).kernelVaddr} + held by abel]
  unfold kcrFreeRegion
  rw [if_neg pointer]
  simp only [if_neg none, if_pos mapped]
  exact ⟨_, _, rfl, freed.give⟩

/-- The directory is removed, if there is one. -/
theorem kcrDebugfsExit_cases (owes : Owes s.ledger (s.ownedRoot + held)) :
    ∃ ledger, s.kcrDebugfsExit = { s with kcrDebugfsRoot := 0#64, ledger := ledger } ∧
      Owes ledger held := by
  unfold kcrDebugfsExit
  unfold ownedRoot at owes
  by_cases absent : isErrOrNull s.kcrDebugfsRoot
  · rw [if_pos absent, zero_add] at owes
    simp only [if_pos absent]
    exact ⟨s.ledger, rfl, owes⟩
  · rw [if_neg absent] at owes
    simp only [if_neg absent]
    exact ⟨_, rfl, owes.give⟩

theorem freeCaches_cases (owes : Owes s.ledger (s.ownedCaches + held)) :
    ∃ ledger, s.freeCaches = { s with caches := 0#64, ledger := ledger } ∧ Owes ledger held := by
  unfold freeCaches
  unfold ownedCaches at owes
  by_cases null : s.caches = 0#64
  · rw [null, owns_null, zero_add] at owes
    exact ⟨s.ledger, by rw [if_neg (not_not.mpr null), ← null], owes⟩
  · rw [owns_of_ne null] at owes
    exact ⟨_, if_pos null, owes.give⟩

theorem freeTables_cases (owes : Owes s.ledger (s.ownedTables + held)) :
    ∃ ledger, s.freeTables = { s with l3Tables := 0#64, ledger := ledger } ∧ Owes ledger held := by
  unfold freeTables
  unfold ownedTables at owes
  by_cases null : s.l3Tables = 0#64
  · rw [null, owns_null, zero_add] at owes
    exact ⟨s.ledger, by rw [if_neg (not_not.mpr null), ← null], owes⟩
  · rw [owns_of_ne null] at owes
    exact ⟨_, if_pos null, owes.give⟩

theorem freeRegion_cases (sized : s.Sized) (owes : Owes s.ledger (s.ownedRegion + held)) :
    ∃ regions ledger, s.freeRegion =
      { s with kcrRegion := 0#64, regions := regions, ledger := ledger } ∧ Owes ledger held := by
  unfold freeRegion
  unfold ownedRegion at owes
  by_cases null : s.kcrRegion = 0#64
  · rw [null, owns_null, zero_add] at owes
    exact ⟨s.regions, s.ledger, by rw [if_neg (not_not.mpr null), ← null], owes⟩
  · rw [owns_of_ne null] at owes
    obtain ⟨mapped, last, _⟩ := sized null
    obtain ⟨regions, ledger, freed, owes'⟩ := kcrFreeRegion_cases null mapped last owes
    exact ⟨regions, ledger, by rw [if_pos null, freed], owes'⟩

/-- `kcr_exit` gives back all that the globals point to. -/
theorem Keeps.kcrExit (keeps : s.Keeps rest) :
    s.kcrExit.owned = 0 ∧ s.kcrExit.kcrEnable = s.kcrEnable ∧ s.kcrExit.Keeps rest := by
  have parts : s.owned + rest =
      s.ownedRoot + (s.ownedCaches + (s.ownedTables + (s.ownedRegion + rest))) := by
    unfold owned
    abel
  obtain ⟨ledger₁, root, owes₁⟩ := kcrDebugfsExit_cases (parts ▸ keeps.owes)
  obtain ⟨ledger₂, caches, owes₂⟩ := freeCaches_cases
    (s := { s with kcrDebugfsRoot := 0#64, ledger := ledger₁ }) owes₁
  obtain ⟨ledger₃, tables, owes₃⟩ := freeTables_cases
    (s := { s with kcrDebugfsRoot := 0#64, caches := 0#64, ledger := ledger₂ }) owes₂
  obtain ⟨regions, ledger₄, region, owes₄⟩ := freeRegion_cases
    (s := { s with kcrDebugfsRoot := 0#64, caches := 0#64, l3Tables := 0#64, ledger := ledger₃ })
    keeps.sized owes₃
  have none : s.kcrExit.owned = 0 := by
    rw [KcrModule.kcrExit, root, caches, tables, region]
    rfl
  refine ⟨none, ?_, ?_, ?_⟩
  · rw [KcrModule.kcrExit, root, caches, tables, region]
  · rw [none, zero_add, KcrModule.kcrExit, root, caches, tables, region]
    exact owes₄
  · rw [KcrModule.kcrExit, root, caches, tables, region]
    exact fun some => absurd rfl some

/-- What `kcr_debugfs_init` finds in the root is written over. -/
theorem kcrDebugfsInit_cases (owes : Owes s.ledger held) (debugfsCreateDir : U64) :
    ∃ ledger, (s.kcrDebugfsInit debugfsCreateDir).2 =
        { s with kcrDebugfsRoot := debugfsCreateDir, ledger := ledger } ∧
      Owes ledger ((if isErrOrNull debugfsCreateDir then 0 else {.dentry debugfsCreateDir}) +
        held) := by
  unfold kcrDebugfsInit
  by_cases failed : isErr debugfsCreateDir
  · rw [if_pos (show isErrOrNull debugfsCreateDir from .inr failed), zero_add]
    exact ⟨s.ledger, by simp only [if_pos failed], owes⟩
  · by_cases null : debugfsCreateDir = 0#64
    · rw [if_pos (show isErrOrNull debugfsCreateDir from .inl null), zero_add]
      exact ⟨s.ledger, by simp only [if_neg failed, if_pos null], owes⟩
    · rw [if_neg (show ¬ isErrOrNull debugfsCreateDir from not_or.mpr ⟨null, failed⟩)]
      exact ⟨_, by simp only [if_neg failed, if_neg null]; rfl, owes.take _⟩

/-- Without the tables the caches and the region are given back. -/
theorem initTables_cases {caches region : U64} {regions : U64 → SharedRegion}
    {ledger : Ledger KernelResource} (mapped : (regions region).kernelVaddr ≠ 0#64)
    (last : (regions region).refcount = 1#32) (pointer : region ≠ 0#64)
    (owes : Owes ledger ({.kmalloc region} + {.vmalloc (regions region).kernelVaddr} +
      ({.percpu caches} + held))) (P : Platform) (answers : InitAnswers) :
    let s₁ := { s with caches := caches, kcrRegion := region, regions := regions, ledger := ledger }
    answers.kcalloc = 0#64 ∧ (∃ regions ledger, s₁.initTables P answers = (-enomem,
        { s with
          kcrEnable := false
          caches := 0#64
          kcrRegion := 0#64
          l3Tables := 0#64
          numSockets := P.numSockets
          regions := regions
          ledger := ledger }) ∧ Owes ledger held) ∨
    answers.kcalloc ≠ 0#64 ∧ ∃ ledger s', s₁.initTables P answers = (0, s') ∧
      s' = { s with
        caches := caches
        kcrRegion := region
        l3Tables := answers.kcalloc
        numSockets := P.numSockets
        kcrDebugfsRoot := answers.debugfsCreateDir
        regions := regions
        ledger := ledger } ∧
      Owes ledger (s'.ownedRoot + ({.kmalloc answers.kcalloc} +
        ({.kmalloc region} + {.vmalloc (regions region).kernelVaddr} +
          ({.percpu caches} + held)))) := by
  intro s₁
  unfold initTables
  by_cases noTables : answers.kcalloc = 0#64
  · obtain ⟨regions', ledger', frees, owes'⟩ := kcrFreeRegion_cases
      (s := { s₁ with numSockets := P.numSockets, l3Tables := answers.kcalloc })
      pointer mapped last owes
    refine .inl ⟨noTables, regions', _, ?_, owes'.give⟩
    simp only [s₁] at frees
    simp only [if_pos noTables, errFreeRegion, s₁, frees]
    rw [noTables]
    rfl
  · obtain ⟨ledger', debugfs, owes'⟩ := kcrDebugfsInit_cases
      (s := { s₁ with numSockets := P.numSockets, l3Tables := answers.kcalloc }.take
        (.kmalloc answers.kcalloc)) (owes.take (.kmalloc answers.kcalloc)) answers.debugfsCreateDir
    refine .inr ⟨noTables, ledger', _, ?_, rfl, owes'⟩
    simp only [if_neg noTables, debugfs]
    rfl

/-- `kcr_init` drops what it writes over, the caches first. If it fails it gives back what it
has taken, and otherwise everything is there. -/
theorem Keeps.kcrInit (keeps : s.Keeps rest) (P : Platform) (answers : InitAnswers)
    (enabled : s.kcrEnable = true) :
    ∃ dropped, s.ownedCaches ≤ dropped ∧ dropped ≤ s.owned ∧
      (s.kcrInit P answers).2.Keeps (dropped + rest) ∧
      ((s.kcrInit P answers).1 = 0 ∧ (s.kcrInit P answers).2.caches ≠ 0#64 ∧
          (s.kcrInit P answers).2.l3Tables ≠ 0#64 ∧ (s.kcrInit P answers).2.kcrRegion ≠ 0#64 ∨
        (s.kcrInit P answers).1 = -enomem ∧ (s.kcrInit P answers).2.owned + dropped = s.owned) := by
  have on : ¬ s.kcrEnable = false := by simp [enabled]
  have whole : s.owned = s.ownedCaches + s.ownedTables + s.ownedRegion + s.ownedRoot := rfl
  by_cases noCaches : answers.allocPercpu = 0#64
  · -- Only the pointer to the caches has changed.
    have ran : s.kcrInit P answers = (-enomem, { s with caches := 0#64, kcrEnable := false }) := by
      unfold KcrModule.kcrInit
      rw [if_neg on, if_pos noCaches]
      rfl
    have owned : (s.kcrInit P answers).2.owned + s.ownedCaches = s.owned := by
      rw [ran, whole]
      change 0 + s.ownedTables + s.ownedRegion + s.ownedRoot + s.ownedCaches = _
      abel
    refine ⟨s.ownedCaches, le_rfl, owned ▸ Multiset.le_add_left _ _, ⟨?_, ?_⟩, .inr ⟨?_, owned⟩⟩
    · rw [← add_assoc, owned, ran]
      exact keeps.owes
    · rw [ran]
      exact keeps.sized
    · rw [ran]
  obtain ⟨regions, ledger, allocates, result⟩ := kcrAllocRegion_cases
    (s := { s.take (.percpu answers.allocPercpu) with caches := answers.allocPercpu })
    (keeps.owes.take (.percpu answers.allocPercpu)) answers.kzalloc answers.vmalloc
  obtain ⟨noRegion, -, owes⟩ | ⟨region, pointer, owes, sized, mapped⟩ := result
  · -- The caches are given back; the caches and the region from before are dropped.
    have ran : s.kcrInit P answers = (-enomem,
        { s with
          caches := 0#64
          kcrRegion := 0#64
          kcrEnable := false
          regions := regions
          ledger := ledger ++ [.gives (.percpu answers.allocPercpu)] }) := by
      unfold KcrModule.kcrInit
      rw [if_neg on, if_neg noCaches]
      simp only [allocates, noRegion, if_true]
      rfl
    have owned : (s.kcrInit P answers).2.owned + (s.ownedCaches + s.ownedRegion) = s.owned := by
      rw [ran, whole]
      change 0 + s.ownedTables + 0 + s.ownedRoot + (s.ownedCaches + s.ownedRegion) = _
      abel
    refine ⟨s.ownedCaches + s.ownedRegion, Multiset.le_add_right _ _,
      owned ▸ Multiset.le_add_left _ _, ⟨?_, ?_⟩, .inr ⟨?_, owned⟩⟩
    · rw [← add_assoc, owned, ran]
      exact owes.give
    · rw [ran]
      exact fun some => absurd rfl some
    · rw [ran]
  · have runs : s.kcrInit P answers = { s with
        caches := answers.allocPercpu
        kcrRegion := answers.kzalloc
        regions := regions
        ledger := ledger }.initTables P answers := by
      unfold KcrModule.kcrInit
      rw [if_neg on, if_neg noCaches]
      simp only [allocates, region, if_neg pointer]
      rfl
    have vaddr : (regions answers.kzalloc).kernelVaddr = answers.vmalloc := by rw [sized]
    have count : (regions answers.kzalloc).refcount = 1#32 := by
      rw [sized]
      rfl
    obtain ⟨_, regions', ledger', ran, owes'⟩ | ⟨tables, ledger', s', ran, after, owes'⟩ :=
      initTables_cases (s := s) (vaddr ▸ mapped) count pointer (vaddr ▸ owes) P answers
    · -- Only the directory is left.
      rw [← runs] at ran
      have owned : (s.kcrInit P answers).2.owned + (s.ownedCaches + s.ownedTables + s.ownedRegion) =
          s.owned := by
        rw [ran, whole]
        change 0 + 0 + 0 + s.ownedRoot + (s.ownedCaches + s.ownedTables + s.ownedRegion) = _
        abel
      refine ⟨s.ownedCaches + s.ownedTables + s.ownedRegion, ?_, owned ▸ Multiset.le_add_left _ _,
        ⟨?_, ?_⟩, .inr ⟨?_, owned⟩⟩
      · rw [add_assoc]
        exact Multiset.le_add_right _ _
      · rw [← add_assoc, owned, ran]
        exact owes'
      · rw [ran]
        exact fun some => absurd rfl some
      · rw [ran]
    · rw [← runs] at ran
      refine ⟨s.owned, ?_, le_rfl, ⟨?_, ?_⟩, .inl ?_⟩
      · rw [whole, add_assoc, add_assoc]
        exact Multiset.le_add_right _ _
      · rw [ran]
        have every : s'.owned = {.percpu answers.allocPercpu} + {.kmalloc answers.kcalloc} +
            ({.kmalloc answers.kzalloc} + {.vmalloc (regions answers.kzalloc).kernelVaddr}) +
            s'.ownedRoot := by
          rw [after]
          exact owned_of_ne noCaches tables pointer
        have ledgers : s'.ledger = ledger' := by rw [after]
        rw [every, ledgers]
        convert owes' using 1
        abel
      · rw [ran, after]
        have size : (regions answers.kzalloc).size = BitVec.ofNat 64 kcrRegionSize := by rw [sized]
        exact fun _ => ⟨vaddr ▸ mapped, count, size⟩
      · rw [ran, after]
        exact ⟨rfl, noCaches, tables, pointer⟩

end KcrModule

/-! ## Sequences of events -/

section Events

variable {P : Platform} {events : List LifecycleEvent} {rest : Multiset KernelResource}

theorem KcrModule.after_concat (event : LifecycleEvent) :
    KcrModule.after P (events ++ [event]) = execLifecycle P (KcrModule.after P events) event := by
  rw [KcrModule.after, List.foldl_append]
  rfl

/-- Whenever `kcr_init` goes to work, the globals point to nothing. -/
def Careful (P : Platform) (events : List LifecycleEvent) : Prop :=
  ∀ before answers, before ++ [.kcrInit answers] <+: events →
    (KcrModule.after P before).kcrEnable = false ∨ (KcrModule.after P before).owned = 0

theorem Careful.concat {event : LifecycleEvent} : Careful P (events ++ [event]) ↔
    Careful P events ∧ ∀ answers, event = .kcrInit answers →
      (KcrModule.after P events).kcrEnable = false ∨ (KcrModule.after P events).owned = 0 := by
  constructor
  · refine fun careful => ⟨fun before answers part => ?_, ?_⟩
    · exact careful before answers (part.trans (List.prefix_append _ _))
    · rintro answers rfl
      exact careful events answers List.prefix_rfl
  · rintro ⟨careful, last⟩ before answers part
    obtain same | shorter := List.prefix_concat_iff.mp part
    · obtain ⟨rfl, single⟩ := List.append_inj' same rfl
      exact last answers (List.singleton_inj.mp single).symm
    · exact careful before answers shorter

/-- Either everything is there or nothing. -/
def KcrModule.Whole (s : KcrModule) : Prop :=
  s.owned = 0 ∨ s.caches ≠ 0#64 ∧ s.l3Tables ≠ 0#64 ∧ s.kcrRegion ≠ 0#64

/-- What is outstanding beside what the globals own was dropped, and it was dropped where an
initialization was not careful. -/
structure Balanced (P : Platform) (events : List LifecycleEvent) (rest : Multiset KernelResource) :
    Prop where
  keeps : (KcrModule.after P events).Keeps rest
  careful : Careful P events → rest = 0 ∧ (KcrModule.after P events).Whole
  leaks : rest = 0 → Careful P events

theorem Balanced.concat (balanced : Balanced P events rest) (event : LifecycleEvent) :
    ∃ rest', Balanced P (events ++ [event]) rest' := by
  obtain ⟨keeps, careful, leaks⟩ := balanced
  cases event with
  | setKcrEnable value =>
      refine ⟨rest, ?_, fun all => ?_, fun none => ?_⟩
      · rw [KcrModule.after_concat]
        exact ⟨keeps.owes, keeps.sized⟩
      · rw [KcrModule.after_concat]
        exact careful (Careful.concat.mp all).1
      · exact Careful.concat.mpr ⟨leaks none, by simp⟩
  | kcrExit =>
      obtain ⟨none, _, keeps'⟩ := keeps.kcrExit
      refine ⟨rest, ?_, fun all => ?_, fun none => ?_⟩
      · rw [KcrModule.after_concat]
        exact keeps'
      · rw [KcrModule.after_concat]
        exact ⟨(careful (Careful.concat.mp all).1).1, .inl none⟩
      · exact Careful.concat.mpr ⟨leaks none, by simp⟩
  | kcrInit answers =>
      by_cases disabled : (KcrModule.after P events).kcrEnable = false
      · have same : KcrModule.after P (events ++ [.kcrInit answers]) = KcrModule.after P events := by
          rw [KcrModule.after_concat, execLifecycle, KcrModule.kcrInit, if_pos disabled]
        refine ⟨rest, same ▸ keeps, fun all => ?_, fun none => ?_⟩
        · rw [same]
          exact careful (Careful.concat.mp all).1
        · exact Careful.concat.mpr ⟨leaks none, fun _ _ => .inl disabled⟩
      · have enabled : (KcrModule.after P events).kcrEnable = true := by simpa using disabled
        obtain ⟨dropped, caches, all, keeps', result⟩ := keeps.kcrInit P answers enabled
        refine ⟨dropped + rest, ?_, fun guarded => ?_, fun none => ?_⟩
        · rw [KcrModule.after_concat]
          exact keeps'
        · obtain ⟨before, last⟩ := Careful.concat.mp guarded
          have empty : (KcrModule.after P events).owned = 0 :=
            (last answers rfl).resolve_left disabled
          have nothing : dropped = 0 := Multiset.le_zero.mp (empty ▸ all)
          rw [nothing, (careful before).1, KcrModule.after_concat]
          refine ⟨rfl, ?_⟩
          obtain ⟨_, there⟩ | ⟨_, owned⟩ := result
          · exact .inr there
          · rw [nothing, add_zero, empty] at owned
            exact .inl owned
        · obtain ⟨nothing, before⟩ := add_eq_zero.mp none
          refine Careful.concat.mpr ⟨leaks before, fun _ _ => .inr ?_⟩
          obtain empty | ⟨there, _⟩ := (careful (leaks before)).2
          · exact empty
          · rw [nothing, KcrModule.ownedCaches, owns_of_ne there, Multiset.le_zero] at caches
            exact absurd caches (Multiset.singleton_ne_zero _)

theorem balanced (P : Platform) (events : List LifecycleEvent) :
    ∃ rest, Balanced P events rest := by
  induction events using List.reverseRecOn with
  | nil =>
      refine ⟨0, ⟨rfl, fun some => absurd rfl some⟩, fun _ => ⟨rfl, .inl rfl⟩, fun _ => ?_⟩
      intro before answers part
      simp at part
  | append_singleton events event ih =>
      obtain ⟨rest, balanced⟩ := ih
      exact balanced.concat event

/-- Whatever happens: nothing is freed that is not allocated, what the globals point to is
allocated, and nothing else is, exactly if every initialization was careful. -/
theorem owes_of_events (P : Platform) (events : List LifecycleEvent) :
    ∃ held, Owes (KcrModule.after P events).ledger held ∧ (KcrModule.after P events).owned ≤ held ∧
      ((KcrModule.after P events).owned = held ↔ Careful P events) := by
  obtain ⟨rest, keeps, careful, leaks⟩ := balanced P events
  refine ⟨_, keeps.owes, Multiset.le_add_right _ _, fun same => ?_, fun all => ?_⟩
  · exact leaks (by simpa using same.symm)
  · rw [(careful all).1, add_zero]

/-- While every initialization is careful: enabled means that everything is there, the region at
its size with one reference; so do the files of debugfs; a failed initialization has given back
all it took and leaves the subsystem disabled; and `kcr_exit` leaves nothing behind. -/
theorem whole_of_careful (careful : Careful P events) :
    let s := KcrModule.after P events
    (s.kcrIsEnabled = true ∨ ¬ isErrOrNull s.kcrDebugfsRoot →
      s.caches ≠ 0#64 ∧ s.l3Tables ≠ 0#64 ∧ s.kcrRegion ≠ 0#64 ∧
      (s.regions s.kcrRegion).refcount = 1#32 ∧
      (s.regions s.kcrRegion).size = BitVec.ofNat 64 kcrRegionSize) ∧
    (∀ answers, Careful P (events ++ [.kcrInit answers]) → (s.kcrInit P answers).1 ≠ 0 →
      (s.kcrInit P answers).1 = -enomem ∧ Owes (s.kcrInit P answers).2.ledger 0 ∧
      (s.kcrInit P answers).2.kcrIsEnabled = false) ∧
    Owes s.kcrExit.ledger 0 ∧ s.kcrExit.kcrIsEnabled = false := by
  intro s
  obtain ⟨rest, keeps, all, _⟩ := balanced P events
  obtain ⟨rfl, whole⟩ := all careful
  refine ⟨fun some => ?_, fun answers guarded failed => ?_, ?_⟩
  · obtain empty | ⟨caches, tables, region⟩ := whole
    · obtain ⟨_, _, null, absent⟩ := KcrModule.null_of_owned empty
      obtain enabled | present := some
      · rw [KcrModule.not_kcrIsEnabled null] at enabled
        cases enabled
      · exact absurd absent present
    · exact ⟨caches, tables, region, (keeps.sized region).2⟩
  · obtain disabled | empty := (Careful.concat.mp guarded).2 answers rfl
    · rw [KcrModule.kcrInit, if_pos disabled] at failed
      exact absurd rfl failed
    · by_cases disabled : s.kcrEnable = false
      · rw [KcrModule.kcrInit, if_pos disabled] at failed
        exact absurd rfl failed
      · obtain ⟨dropped, _, below, keeps', result⟩ := keeps.kcrInit P answers (by simpa using disabled)
        have nothing : dropped = 0 := Multiset.le_zero.mp (empty ▸ below)
        obtain ⟨succeeded, _⟩ | ⟨status, owned⟩ := result
        · exact absurd succeeded failed
        · rw [nothing, add_zero, empty] at owned
          have owes := keeps'.owes
          rw [owned, nothing, add_zero, add_zero] at owes
          exact ⟨status, owes, KcrModule.not_kcrIsEnabled (KcrModule.null_of_owned owned).2.2.1⟩
  · obtain ⟨none, _, keeps'⟩ := keeps.kcrExit
    have owes := keeps'.owes
    rw [none, add_zero] at owes
    exact ⟨owes, KcrModule.not_kcrIsEnabled (KcrModule.null_of_owned none).2.2.1⟩

/-- An initialization that succeeds, a shutdown, an initialization that finds no memory for the
tables, and one that succeeds after the parameter has been set again. -/
def reloads : List LifecycleEvent :=
  [.kcrInit ⟨1, 2, 3, 4, 5⟩, .kcrExit, .kcrInit ⟨6, 7, 8, 0, 0⟩, .setKcrEnable true,
    .kcrInit ⟨9, 10, 11, 12, 13⟩]

theorem careful_reloads : Careful .oneNode reloads := by
  have none : Careful .oneNode [] := fun before answers part => by simp at part
  have first := (@Careful.concat .oneNode [] (.kcrInit ⟨1, 2, 3, 4, 5⟩)).mpr
    ⟨none, fun _ _ => .inr rfl⟩
  have second := (@Careful.concat .oneNode (reloads.take 1) .kcrExit).mpr ⟨first, by simp⟩
  have third := (@Careful.concat .oneNode (reloads.take 2) (.kcrInit ⟨6, 7, 8, 0, 0⟩)).mpr
    ⟨second, fun _ _ => .inr rfl⟩
  have fourth := (@Careful.concat .oneNode (reloads.take 3) (.setKcrEnable true)).mpr
    ⟨third, by simp⟩
  exact (@Careful.concat .oneNode (reloads.take 4) (.kcrInit ⟨9, 10, 11, 12, 13⟩)).mpr
    ⟨fourth, fun _ _ => .inr rfl⟩

theorem whole_of_careful_reloads :
    let s := KcrModule.after .oneNode reloads
    (s.kcrIsEnabled = true ∧ s.caches ≠ 0#64 ∧ s.l3Tables ≠ 0#64 ∧ s.kcrRegion ≠ 0#64 ∧
      (s.regions s.kcrRegion).refcount = 1#32 ∧
      (s.regions s.kcrRegion).size = BitVec.ofNat 64 kcrRegionSize) ∧
    Owes s.kcrExit.ledger 0 := by
  obtain ⟨there, _, back, _⟩ := whole_of_careful careful_reloads
  exact ⟨⟨rfl, there (.inl rfl)⟩, back⟩

end Events

/-! ## The subsystem -/

namespace KcrModule

variable {s : KcrModule} {subsystem : Subsystem} {rest : Multiset KernelResource}

theorem kcrExit_globals (s : Subsystem) : (Kcr.kcrExit s).caches = 0#64 ∧
    (Kcr.kcrExit s).l3Tables = 0#64 ∧ (Kcr.kcrExit s).kcrRegion = 0#64 ∧
    (Kcr.kcrExit s).kcrEnable = s.kcrEnable := by
  unfold Kcr.kcrExit
  by_cases caches : s.caches = 0#64
  all_goals by_cases tables : s.l3Tables = 0#64
  all_goals by_cases region : s.kcrRegion = 0#64
  all_goals simp [caches, tables, region, Subsystem.ask]

/-- The globals agree with those of the subsystem that takes a region as one allocation. -/
structure Agrees (s : KcrModule) (subsystem : Subsystem) : Prop where
  kcrEnable : s.kcrEnable = subsystem.kcrEnable
  caches : s.caches = subsystem.caches
  kcrRegion : s.kcrRegion = subsystem.kcrRegion
  l3Tables : s.l3Tables = subsystem.l3Tables

/-- `kcr_init` returns what that of the subsystem returns for some answer of
`kcr_alloc_region`, and the globals agree again. -/
theorem Agrees.kcrInit (agrees : s.Agrees subsystem) (keeps : s.Keeps rest) (P : Platform)
    (answers : InitAnswers) : ∃ allocRegion,
      (s.kcrInit P answers).1 =
        (Kcr.kcrInit answers.allocPercpu allocRegion answers.kcalloc subsystem).1 ∧
      (s.kcrInit P answers).2.Agrees
        (Kcr.kcrInit answers.allocPercpu allocRegion answers.kcalloc subsystem).2 := by
  unfold KcrModule.kcrInit Kcr.kcrInit
  rw [agrees.kcrEnable]
  by_cases disabled : subsystem.kcrEnable = false
  · simp only [if_pos disabled]
    exact ⟨0#64, trivial, agrees⟩
  by_cases noCaches : answers.allocPercpu = 0#64
  · simp only [if_neg disabled, if_pos noCaches]
    exact ⟨0#64, trivial, ⟨rfl, rfl, agrees.kcrRegion, agrees.l3Tables⟩⟩
  obtain ⟨regions, ledger, allocates, result⟩ := kcrAllocRegion_cases
    (s := { s.take (.percpu answers.allocPercpu) with caches := answers.allocPercpu })
    (keeps.owes.take (.percpu answers.allocPercpu)) answers.kzalloc answers.vmalloc
  obtain ⟨noRegion, -, owes⟩ | ⟨region, pointer, owes, sized, mapped⟩ := result
  · refine ⟨0#64, ?_⟩
    simp only [if_neg disabled, if_neg noCaches, allocates, noRegion, if_true]
    exact ⟨trivial, ⟨rfl, rfl, rfl, agrees.l3Tables⟩⟩
  · have vaddr : (regions answers.kzalloc).kernelVaddr = answers.vmalloc := by rw [sized]
    have count : (regions answers.kzalloc).refcount = 1#32 := by
      rw [sized]
      rfl
    refine ⟨answers.kzalloc, ?_⟩
    simp only [if_neg disabled, if_neg noCaches, allocates, region, if_neg pointer]
    obtain ⟨noTables, regions', ledger', ran, _⟩ | ⟨tables, ledger', s', ran, rfl, _⟩ :=
      initTables_cases (s := s) (vaddr ▸ mapped) count pointer (vaddr ▸ owes) P answers
    · simp only [take, ran, if_pos noTables]
      exact ⟨trivial, ⟨rfl, rfl, rfl, rfl⟩⟩
    · simp only [take, ran, if_neg tables]
      exact ⟨trivial, ⟨agrees.kcrEnable, rfl, rfl, rfl⟩⟩

/-- `kcr_exit` leaves the same globals as that of the subsystem. -/
theorem Agrees.kcrExit (agrees : s.Agrees subsystem) (keeps : s.Keeps rest) :
    s.kcrExit.Agrees (Kcr.kcrExit subsystem) := by
  obtain ⟨none, enable, _⟩ := keeps.kcrExit
  obtain ⟨caches, tables, region, _⟩ := null_of_owned none
  obtain ⟨caches', tables', region', enable'⟩ := kcrExit_globals subsystem
  exact ⟨by rw [enable, enable', agrees.kcrEnable], by rw [caches, caches'],
    by rw [region, region'], by rw [tables, tables']⟩

end KcrModule

/-- The events as the subsystem takes them, with some answer of `kcr_alloc_region` for each
initialization. -/
inductive Subsystem.After : List LifecycleEvent → Subsystem → Prop where
  | loaded : After [] .loaded
  | kcrInit {events : List LifecycleEvent} {s : Subsystem} (before : After events s)
      (answers : InitAnswers) (allocRegion : U64) :
      After (events ++ [.kcrInit answers])
        (Kcr.kcrInit answers.allocPercpu allocRegion answers.kcalloc s).2
  | kcrExit {events : List LifecycleEvent} {s : Subsystem} (before : After events s) :
      After (events ++ [.kcrExit]) (Kcr.kcrExit s)
  | setKcrEnable {events : List LifecycleEvent} {s : Subsystem} (before : After events s)
      (value : Bool) : After (events ++ [.setKcrEnable value]) { s with kcrEnable := value }

/-- With regions as single allocations the globals come out the same. -/
theorem subsystem_of_events (P : Platform) (events : List LifecycleEvent) :
    ∃ subsystem, Subsystem.After events subsystem ∧ (KcrModule.after P events).Agrees subsystem := by
  induction events using List.reverseRecOn with
  | nil => exact ⟨_, .loaded, ⟨rfl, rfl, rfl, rfl⟩⟩
  | append_singleton events event ih =>
      obtain ⟨subsystem, before, agrees⟩ := ih
      obtain ⟨_, keeps, _, _⟩ := balanced P events
      rw [KcrModule.after_concat]
      cases event with
      | kcrInit answers =>
          obtain ⟨allocRegion, _, agrees'⟩ := agrees.kcrInit keeps P answers
          exact ⟨_, before.kcrInit answers allocRegion, agrees'⟩
      | kcrExit => exact ⟨_, before.kcrExit, agrees.kcrExit keeps⟩
      | setKcrEnable value =>
          exact ⟨_, before.setKcrEnable value,
            ⟨rfl, agrees.caches, agrees.kcrRegion, agrees.l3Tables⟩⟩

end Kcr
