import Kcr.Core.Fingerprint

/-!
# How a source is split

A scatterlist is one way to lay out a plaintext. The sample that `crypto_compute_fingerprint`
hashes is read on from the first piece, so it is the plaintext's as long as the memory behind
that piece goes on as the plaintext does, whether or not the other pieces lie there.
-/

namespace Kcr

/-- The bytes that are hashed as the source's sample; none without an address. -/
def SkcipherRequest.hashed (req : SkcipherRequest) (memory : Memory) : Option (List U8) :=
  if sgVirt req.src ≠ 0#64 then some (memory.read (sgVirt req.src) (min req.cryptlen.toNat 64))
  else none

/-- How much of the sample lies beyond the first piece. -/
def SkcipherRequest.beyond (req : SkcipherRequest) : Nat :=
  min req.cryptlen.toNat 64 - req.src.first.length

/-- The first piece has an address, and up to the end of the sample the memory behind it holds
what the other pieces hold. -/
structure SkcipherRequest.Continues (req : SkcipherRequest) (memory : Memory) : Prop where
  address : sgVirt req.src ≠ 0#64
  behind : memory.read (req.src.first.address + BitVec.ofNat 64 req.src.first.length) req.beyond =
    (req.src.rest.flatMap fun segment => memory.read segment.address segment.length).take req.beyond

/-- The request's fingerprint does not depend on the layout of its source. -/
structure LayoutIndependent {D : Type} (C : Crypto D) (memory memory' : Memory)
    (req req' : SkcipherRequest) (plaintext : List U8) : Prop where
  fingerprint :
    cryptoComputeFingerprint C memory (some req) = cryptoComputeFingerprint C memory' (some req')
  hashed : req.hashed memory = some (plaintext.take (min req.cryptlen.toNat 64))
  hashed' : req'.hashed memory' = some (plaintext.take (min req'.cryptlen.toNat 64))

/-- A layout of the plaintext: pieces that are not empty, the first of them at an address. -/
structure Scatterlist.Holds (src : Scatterlist) (memory : Memory) (plaintext : List U8) : Prop where
  bytes : src.bytes memory = plaintext
  nonempty : ∀ segment ∈ src.first :: src.rest, 0 < segment.length
  address : sgVirt src ≠ 0#64

/-- Two layouts of one plaintext have one fingerprint, of its first 64 bytes. -/
def SplitsAlike : Prop :=
  ∀ ⦃D : Type⦄ (C : Crypto D) (memory memory' : Memory) (tfm : Skcipher) (cryptlen : U32)
    (plaintext : List U8) (src src' : Scatterlist), plaintext.length = cryptlen.toNat →
    src.Holds memory plaintext → src'.Holds memory' plaintext →
    LayoutIndependent C memory memory' ⟨tfm, cryptlen, src⟩ ⟨tfm, cryptlen, src'⟩ plaintext

section Split

variable {D : Type} (C : Crypto D) {memory memory' : Memory} {req req' : SkcipherRequest}

/-- A read is a read of its first part and one from where that ends. -/
theorem Memory.read_add (memory : Memory) (address : U64) (count more : Nat) :
    memory.read address (count + more) =
      memory.read address count ++ memory.read (address + BitVec.ofNat 64 count) more := by
  unfold Memory.read
  rw [List.range_add, List.map_append, List.map_map]
  congr 2
  funext i
  simp [BitVec.ofNat_add, BitVec.add_assoc]

/-- The fingerprint hashes the sample into the record, or zero in its place. -/
theorem cryptoComputeFingerprint_hashed (memory : Memory) (req : SkcipherRequest) :
    cryptoComputeFingerprint C memory (some req) =
      computeFingerprint C (inputBytes C req.tfm.alg (C.maxKeysize req.tfm.alg) req.cryptlen
        (match req.hashed memory with
          | some bytes => computeFingerprint C bytes kcrSeedCrypto
          | none => C.zero)) kcrSeedBase := by
  unfold cryptoComputeFingerprint SkcipherRequest.hashed
  by_cases address : sgVirt req.src ≠ 0#64
  · simp [address]
  · simp [address]

/-- What is hashed is the sample of the source exactly when the memory continues. -/
theorem SkcipherRequest.hashed_eq_sample (req : SkcipherRequest) (memory : Memory) :
    req.hashed memory = some (req.sample memory) ↔ req.Continues memory := by
  have read : memory.read (sgVirt req.src) (min req.cryptlen.toNat 64) = req.sample memory ↔
      memory.read (req.src.first.address + BitVec.ofNat 64 req.src.first.length) req.beyond =
        (req.src.rest.flatMap fun segment => memory.read segment.address segment.length).take
          req.beyond := by
    obtain covered | short := Nat.le_total (min req.cryptlen.toNat 64) req.src.first.length
    · -- the first piece holds all of the sample
      have sampled : req.Sampled := covered
      have none : req.beyond = 0 := Nat.sub_eq_zero_of_le covered
      rw [sampled.sample_eq memory, none]
      simp [Memory.read]
    · have parts : min req.cryptlen.toNat 64 = req.src.first.length + req.beyond :=
        (Nat.add_sub_cancel' short).symm
      have sample : req.sample memory =
          memory.read (sgVirt req.src) req.src.first.length ++
            (req.src.rest.flatMap fun segment =>
              memory.read segment.address segment.length).take req.beyond := by
        unfold SkcipherRequest.sample Scatterlist.bytes
        rw [List.flatMap_cons, List.take_append, Memory.length_read, List.take_of_length_le]
        · rfl
        · rw [Memory.length_read]
          exact short
      rw [sample, parts, Memory.read_add, List.append_cancel_left_eq]
      rfl
  unfold SkcipherRequest.hashed
  constructor
  · intro hashed
    split at hashed
    · next address => exact ⟨address, read.mp (Option.some.inj hashed)⟩
    · cases hashed
  · rintro ⟨address, behind⟩
    rw [if_pos address, read.mpr behind]

end Split

/-- Two layouts of one plaintext are told apart by what the memory holds behind their first
pieces, and by nothing else. -/
theorem layoutIndependent_iff {D : Type} (C : Crypto D) {memory memory' : Memory} (tfm : Skcipher)
    {cryptlen : U32} {plaintext : List U8} {src src' : Scatterlist}
    (whole : src.bytes memory = plaintext) (whole' : src'.bytes memory' = plaintext) :
    LayoutIndependent C memory memory' ⟨tfm, cryptlen, src⟩ ⟨tfm, cryptlen, src'⟩ plaintext ↔
      SkcipherRequest.Continues ⟨tfm, cryptlen, src⟩ memory ∧
      SkcipherRequest.Continues ⟨tfm, cryptlen, src'⟩ memory' := by
  rw [← SkcipherRequest.hashed_eq_sample, ← SkcipherRequest.hashed_eq_sample,
    SkcipherRequest.sample, SkcipherRequest.sample, whole, whole']
  constructor
  · rintro ⟨_, hashed, hashed'⟩
    exact ⟨hashed, hashed'⟩
  · rintro ⟨hashed, hashed'⟩
    refine ⟨?_, hashed, hashed'⟩
    rw [cryptoComputeFingerprint_hashed, cryptoComputeFingerprint_hashed, hashed, hashed']

section Example

/-- Sixteen zero bytes in one piece. -/
def Scatterlist.onePiece : Scatterlist := ⟨⟨4096, 16⟩, []⟩

/-- The same bytes in two pieces that are not adjacent. -/
def Scatterlist.twoPieces : Scatterlist := ⟨⟨8192, 8⟩, [⟨4096, 8⟩]⟩

/-- Zero but for the byte behind the first of the two pieces. -/
def Memory.besides : Memory := fun address => if address = 8200 then 1 else 0

/-- And in two pieces of which the second follows the first in memory. -/
def Scatterlist.adjacent : Scatterlist := ⟨⟨12288, 8⟩, [⟨12296, 8⟩]⟩

/-- One piece and two adjacent ones. -/
theorem layoutIndependent_iff_adjacent :
    LayoutIndependent .transparent .besides .besides ⟨⟨64, []⟩, 16, .onePiece⟩
      ⟨⟨64, []⟩, 16, .adjacent⟩ (List.replicate 16 0) := by
  have one : Scatterlist.onePiece.bytes .besides = List.replicate 16 0 := by decide
  have two : Scatterlist.adjacent.bytes .besides = List.replicate 16 0 := by decide
  exact (layoutIndependent_iff _ _ one two).mpr ⟨⟨by decide, by decide⟩, by decide, by decide⟩

/-- The second layout hashes a byte that belongs to no piece of it. -/
theorem not_splitsAlike : ¬ SplitsAlike := by
  intro alike
  have same := alike .transparent .besides .besides ⟨64, []⟩ 16 (List.replicate 16 0) .onePiece
    .twoPieces (by decide) ⟨by decide, by decide, by decide⟩ ⟨by decide, by decide, by decide⟩
  exact absurd same.fingerprint (by decide)

end Example

end Kcr
