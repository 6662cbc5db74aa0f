import Kcr.Cache.Hits
import Kcr.Core.Operations

/-!
# What injection tells the user

A store, the lookup that finds its entry and the injection of that entry into a register
file, seen twice with different answers of the allocators. Every store sets the mask to
`RAX`, and `result[0]` shares its bytes with `ext_data`: a large result puts the address
of its kernel buffer into the user's register.
-/

namespace Kcr

open Hlist

/-- From the empty caches: a store for which the allocators return `n` and `kvmalloc`,
the lookup of its key, and the injection of the entry it returns. -/
def Injects (P : Platform) (writer reader : Caller) (fingerprint : U64) (data : Nat → U8)
    (len : U32) (mm : U64) (regs : PtRegs) (n : Node) (kvmalloc : U64) (regs' : PtRegs) : Prop :=
  ∃ s₁ s₂ found,
    (cache P).Step .initial
      ⟨writer, .storeResult fingerprint (some data) len mm (some n) kvmalloc, .stored 0⟩ s₁ ∧
    (cache P).Step s₁ ⟨reader, .lookupUnified fingerprint mm, .found (some found)⟩ s₂ ∧
    injectResult (some regs) (some (s₂.entry found)) = .ok (some regs')

/-- The registers after the injection are the same whatever addresses the allocators
return. -/
def AddressIndependent (P : Platform) (writer reader : Caller) (fingerprint : U64)
    (data : Nat → U8) (len : U32) (mm : U64) (regs : PtRegs) : Prop :=
  ∀ ⦃n kvmalloc regs' n' kvmalloc' regs''⦄, kvmalloc ≠ 0#64 → kvmalloc' ≠ 0#64 →
    Injects P writer reader fingerprint data len mm regs n kvmalloc regs' →
    Injects P writer reader fingerprint data len mm regs n' kvmalloc' regs'' → regs' = regs''

/-- Injection hides the addresses for all arguments. -/
def InjectionHides (P : Platform) : Prop :=
  ∀ ⦃writer reader fingerprint data len mm regs⦄, reader.cpu = writer.cpu → len ≠ 0#32 →
    timeBefore reader.jiffies (writer.jiffies + P.msecsToJiffies 1000) = true →
    AddressIndependent P writer reader fingerprint data len mm regs

/-- What is injected after a store: nothing for an inline result, since the first eight
bytes were cleared, and the buffer's address for an external one. -/
def injectedAx (len : U32) (kvmalloc : U64) : U64 :=
  if len.toNat ≤ kcrResultSizeMax then 0#64 else kvmalloc

section Execution

variable {P : Platform} {writer reader : Caller} {fingerprint mm : U64} {data : Nat → U8}
  {len : U32} {regs regs' : PtRegs} {n : Node} {kvmalloc : U64} {s s₀ s₁ s' : State}

/-- A filled entry injects its external pointer. -/
theorem Filled.inject (filled : Filled P writer fingerprint data len mm n kvmalloc s s₀) :
    injectResult (some regs) (some (s₀.entry n)) =
      .ok (some { regs with ax := injectedAx len kvmalloc }) := by
  have pointer : (s₀.entry n).payload.extData = injectedAx len kvmalloc := by
    unfold injectedAx
    split
    · next short =>
      rw [filled.inline short, storeInline]
      simp
    · next long => exact (filled.external (Nat.lt_of_not_le long)).1
  obtain ⟨payload, fields⟩ := filled.fields
  rw [injectResult_rax, pointer]
  · rw [fields]
    rfl
  · rw [fields]
    rfl

/-- Whatever run of the three calls, `RAX` is all that changes. -/
theorem Injects.result
    (injects : Injects P writer reader fingerprint data len mm regs n kvmalloc regs') :
    regs' = { regs with ax := injectedAx len kvmalloc } := by
  obtain ⟨s₁, s₂, found, store, lookup, injected⟩ := injects
  obtain ⟨fresh, _, returns⟩ := cacheStep_iff.mp store
  obtain ⟨_⟩ | ⟨read⟩ := cacheStep_iff.mp lookup
  have wellFormed := WellFormed.initial.step (cacheStep_iff.mp store)
  obtain ⟨error, _⟩ | ⟨_, _, bytes, entry, s₀, mid, given, allocated, insertion⟩ :=
    returns.cases .initial fresh
  · exact absurd rfl error
  · obtain rfl := Option.some.inj given
    obtain rfl := Option.some.inj allocated
    have inside := read.mem_live wellFormed
    rw [insertion.live_eq] at inside
    obtain rfl : found = n := by simpa [State.initial] using inside
    rw [read.entry, insertion.entry_eq, insertion.filled.inject] at injected
    exact (Option.some.inj (Except.ok.inj injected)).symm

theorem initial_freeExtSlot (socket : Nat) :
    ∃ slot, State.initial.freeExtSlot socket = some slot := by
  refine Option.isSome_iff_exists.mp (List.find?_isSome.mpr ⟨0, List.mem_finRange 0, ?_⟩)
  rfl

/-- From the empty caches the store and the lookup go through. -/
theorem injects (sameCpu : reader.cpu = writer.cpu) (nonempty : len ≠ 0#32)
    (unexpired : timeBefore reader.jiffies (writer.jiffies + P.msecsToJiffies 1000) = true)
    (got : kvmalloc ≠ 0#64) :
    Injects P writer reader fingerprint data len mm regs n kvmalloc
      { regs with ax := injectedAx len kvmalloc } := by
  obtain ⟨s₀, prepared⟩ : ∃ s₀,
      Prepares P writer fingerprint data len mm n kvmalloc .initial s₀ := by
    by_cases short : len.toNat ≤ kcrResultSizeMax
    · exact ⟨_, .inline short⟩
    · obtain ⟨slot, free⟩ := initial_freeExtSlot (P.socketIndex writer.cpu)
      exact ⟨_, .external (Nat.lt_of_not_le short) free got⟩
  have allocation := prepared.allocation .initial (by simp [State.initial])
  have empty : ∀ l, s₀.heap.read l = none := by
    intro l
    rw [allocation.heap]
    exact Heap.read_empty l
  let inL2 : State :=
    { s₀ with heap := s₀.heap.hlistAddHeadRcu n (l2Head writer.cpu fingerprint) }
  have pushedL2 := Heap.pushed_add s₀.heap n (l2Head writer.cpu fingerprint)
  have emptyL3 : inL2.heap.read (.head (l3Head P writer.cpu fingerprint)) = none :=
    (pushedL2.read_other (by simp [l2Head, l3Head]) (by simp)).trans (empty _)
  let inL3 : State :=
    { inL2 with heap := inL2.heap.hlistAddHeadRcu n (l3Head P writer.cpu fingerprint) }
  have pushedL3 := Heap.pushed_add inL2.heap n (l3Head P writer.cpu fingerprint)
  have first : inL3.heap.read (.head (l2Head writer.cpu fingerprint)) = some n :=
    (pushedL3.read_other (by simp [l2Head, l3Head]) (by simp)).trans pushedL2.read_head
  have store : StoreReturns P writer fingerprint (some data) len mm (some n) kvmalloc .initial 0
      inL3 :=
    .stored rfl nonempty rfl prepared (.inserted (.ends (empty _))) (.inserted (.ends emptyL3))
  have accepted : inL3.accepts fingerprint mm reader.jiffies n = true := by
    obtain ⟨key, space, expiry⟩ := allocation.key
    have same : inL3.entry n = s₀.entry n := rfl
    simp only [State.accepts, same, key, space, expiry, unexpired, beq_self_eq_true, Bool.and_self]
  have hit : inL3.heap.Finds (inL3.accepts fingerprint mm reader.jiffies)
      (.head (l2Head reader.cpu fingerprint)) (some n) := by
    rw [sameCpu]
    exact .here first accepted
  exact ⟨inL3, _, n,
    cacheStep_iff.mpr (.store (by simp [State.initial]) (fun _ => rfl) store),
    cacheStep_iff.mpr (.lookup (.l2Hit hit)), allocation.filled.inject⟩

/-- The final registers do not depend on the addresses exactly when the result is stored
inline. -/
theorem addressIndependent_iff (sameCpu : reader.cpu = writer.cpu) (nonempty : len ≠ 0#32)
    (unexpired : timeBefore reader.jiffies (writer.jiffies + P.msecsToJiffies 1000) = true) :
    AddressIndependent P writer reader fingerprint data len mm regs ↔
      len.toNat ≤ kcrResultSizeMax := by
  constructor
  · intro independent
    by_contra long
    have runs : ∀ kvmalloc, kvmalloc ≠ 0#64 → Injects P writer reader fingerprint data len mm regs
        1 kvmalloc { regs with ax := injectedAx len kvmalloc } :=
      fun _ got => injects sameCpu nonempty unexpired got
    have same := congrArg PtRegs.ax (independent (by decide) (by decide)
      (runs 1#64 (by decide)) (runs 2#64 (by decide)))
    simp only [injectedAx, if_neg long] at same
    exact absurd same (by decide)
  · intro short n kvmalloc regs' n' kvmalloc' regs'' _ _ left right
    rw [left.result, right.result, injectedAx, injectedAx, if_pos short, if_pos short]

end Execution

/-- A result of 65 bytes, whose two sides are both false. -/
theorem addressIndependent_iff_long :
    timeBefore (Caller.on 0 9).jiffies
      ((Caller.on 0 0).jiffies + Platform.oneNode.msecsToJiffies 1000) = true ∧
    (AddressIndependent .oneNode (.on 0 0) (.on 0 9) 5 (fun _ => 1#8) 65 1
        ⟨0, 0, 0, 0, 0, 0, 0, 0, 0⟩ ↔ (65 : U32).toNat ≤ kcrResultSizeMax) :=
  ⟨by decide, addressIndependent_iff rfl (by decide) (by decide)⟩

/-- The two buffers of a result of 65 bytes show in `RAX`. -/
theorem not_injectionHides : ¬ InjectionHides .oneNode := by
  intro hides
  have unexpired : timeBefore (Caller.on 0 9).jiffies
      ((Caller.on 0 0).jiffies + Platform.oneNode.msecsToJiffies 1000) = true := by decide
  have runs : ∀ kvmalloc, kvmalloc ≠ 0#64 → Injects .oneNode (.on 0 0) (.on 0 9) 5
      (fun _ => 1#8) 65 1 ⟨0, 0, 0, 0, 0, 0, 0, 0, 0⟩ 1 kvmalloc
      { (⟨0, 0, 0, 0, 0, 0, 0, 0, 0⟩ : PtRegs) with ax := injectedAx 65 kvmalloc } :=
    fun _ got => injects rfl (by decide) unexpired got
  have hidden : AddressIndependent .oneNode (.on 0 0) (.on 0 9) 5 (fun _ => 1#8) 65 1
      ⟨0, 0, 0, 0, 0, 0, 0, 0, 0⟩ := hides rfl (by decide) unexpired
  have same := congrArg PtRegs.ax (hidden (by decide) (by decide)
    (runs 1#64 (by decide)) (runs 2#64 (by decide)))
  simp [injectedAx, kcrResultSizeMax] at same

end Kcr
