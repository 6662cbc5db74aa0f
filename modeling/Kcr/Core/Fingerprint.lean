import Kcr.Cache.State
import Mathlib.Data.List.Basic

/-!
# Fingerprints of cipher requests

`compute_fingerprint` and `crypto_compute_fingerprint` of `kcr_core.c`. The hash and the
cipher's key size come from elsewhere in the kernel and are parameters. A hash that loses
nothing keeps apart whatever the hashed record keeps apart: algorithm, length and, where
the source has an address, sample. The record holds the largest key size of the algorithm,
and nothing of the key.
-/

namespace Kcr

abbrev kcrSeedBase : U64 := 0x123456789ABCDEF0
abbrev kcrSeedCrypto : U64 := 0xFEDCBA9876543210

/-- Byte-addressed memory. -/
abbrev Memory := U64 → U8

/-- The bytes from an address on. -/
def Memory.read (memory : Memory) (address : U64) (count : Nat) : List U8 :=
  (List.range count).map fun i => memory (address + BitVec.ofNat 64 i)

/-- Where one piece of a scatterlist lies. -/
structure Segment where
  address : U64
  length : Nat

structure Scatterlist where
  first : Segment
  rest : List Segment

/-- The data of a scatterlist, piece after piece. -/
def Scatterlist.bytes (memory : Memory) (src : Scatterlist) : List U8 :=
  (src.first :: src.rest).flatMap fun segment => memory.read segment.address segment.length

/-- `sg_virt`: the address of the first piece. -/
def sgVirt (src : Scatterlist) : U64 := src.first.address

/-- A transform: the address of its algorithm and the key set on it. -/
structure Skcipher where
  alg : U64
  key : List U8

structure SkcipherRequest where
  tfm : Skcipher
  cryptlen : U32
  src : Scatterlist

/-- What the rest of the kernel supplies: `xxh64` with digests in `D`, how a digest is
laid out in a `u64` field and which one is zero, and each algorithm's `max_keysize`. -/
structure Crypto (D : Type) where
  xxh64 : List U8 → U64 → D
  digestBytes : D → List U8
  zero : D
  maxKeysize : U64 → U32

/-- The bytes of a machine word, least significant first. -/
def littleEndian {w : Nat} (count : Nat) (word : BitVec w) : List U8 :=
  (List.range count).map fun i => word.extractLsb' (8 * i) 8

section Fingerprint

variable {D : Type} (C : Crypto D)

/-- `compute_fingerprint` of the given bytes. -/
def computeFingerprint (data : List U8) (seed : U64) : D := C.xxh64 data seed

/-- The record that is hashed, in memory order; it has no padding. -/
def inputBytes (algo : U64) (keylen cryptlen : U32) (srcHash : D) : List U8 :=
  littleEndian 8 algo ++ littleEndian 4 keylen ++ littleEndian 4 cryptlen ++ C.digestBytes srcHash

/-- `crypto_compute_fingerprint`; `none` is a null request. -/
def cryptoComputeFingerprint (memory : Memory) (req : Option SkcipherRequest) : D :=
  match req with
  | none => C.zero
  | some req =>
      let algo := req.tfm.alg
      let keylen := C.maxKeysize algo
      let cryptlen := req.cryptlen
      let srcData := sgVirt req.src
      let srcHash :=
        if srcData ≠ 0#64 then
          computeFingerprint C (memory.read srcData (min cryptlen.toNat 64)) kcrSeedCrypto
        else C.zero
      computeFingerprint C (inputBytes C algo keylen cryptlen srcHash) kcrSeedBase

end Fingerprint

/-- The hash and the layout of its digests lose nothing. -/
structure Crypto.Ideal {D : Type} (C : Crypto D) : Prop where
  hash : ∀ seed, Function.Injective fun data => C.xxh64 data seed
  digest : Function.Injective C.digestBytes

/-- The first 64 bytes of the source, or all `cryptlen` of them. -/
def SkcipherRequest.sample (req : SkcipherRequest) (memory : Memory) : List U8 :=
  (req.src.bytes memory).take (min req.cryptlen.toNat 64)

/-- The first piece of the source covers the sample. -/
def SkcipherRequest.Sampled (req : SkcipherRequest) : Prop :=
  min req.cryptlen.toNat 64 ≤ req.src.first.length

/-- Two requests for the same result, as far as the fingerprint is to tell. -/
structure SameOperation (memory memory' : Memory) (req req' : SkcipherRequest) : Prop where
  alg : req.tfm.alg = req'.tfm.alg
  key : req.tfm.key = req'.tfm.key
  cryptlen : req.cryptlen = req'.cryptlen
  sample : req.sample memory = req'.sample memory'

/-- The sources look alike: they have the same sample, or one has no address, which is
recorded as zero. -/
def SameSource {D : Type} (C : Crypto D) (memory memory' : Memory) (req req' : SkcipherRequest) :
    Prop :=
  if sgVirt req.src ≠ 0#64 then
    if sgVirt req'.src ≠ 0#64 then req.sample memory = req'.sample memory'
    else computeFingerprint C (req.sample memory) kcrSeedCrypto = C.zero
  else if sgVirt req'.src ≠ 0#64 then
    C.zero = computeFingerprint C (req'.sample memory') kcrSeedCrypto
  else True

/-- Requests with one fingerprint are the same operation. -/
def FingerprintsSeparate : Prop :=
  ∀ ⦃D : Type⦄ (C : Crypto D), C.Ideal → ∀ (memory memory' : Memory) (req req' : SkcipherRequest),
    req.Sampled → req'.Sampled →
    cryptoComputeFingerprint C memory (some req) = cryptoComputeFingerprint C memory' (some req') →
    SameOperation memory memory' req req'

/-! ## What the record tells apart -/

@[simp] theorem Memory.length_read (memory : Memory) (address : U64) (count : Nat) :
    (memory.read address count).length = count := by
  simp [Memory.read]

theorem Memory.take_read (memory : Memory) (address : U64) {count more : Nat}
    (fewer : count ≤ more) :
    (memory.read address more).take count = memory.read address count := by
  simp [Memory.read, ← List.map_take, List.take_range, Nat.min_eq_left fewer]

@[simp] theorem length_littleEndian {w : Nat} (count : Nat) (word : BitVec w) :
    (littleEndian count word).length = count := by
  simp [littleEndian]

/-- The bytes of a word determine it. -/
theorem littleEndian_injective {w count : Nat} (enough : w ≤ 8 * count) {word word' : BitVec w}
    (same : littleEndian count word = littleEndian count word') : word = word' := by
  apply BitVec.eq_of_getLsbD_eq
  intro i bound
  have inside : i / 8 < count := by omega
  have byte : word.extractLsb' (8 * (i / 8)) 8 = word'.extractLsb' (8 * (i / 8)) 8 := by
    simp only [littleEndian, List.map_inj_left, List.mem_range] at same
    exact same (i / 8) inside
  have bit := congrArg (fun b : U8 => b.getLsbD (i % 8)) byte
  have place : 8 * (i / 8) + i % 8 = i := by omega
  have small : i % 8 < 8 := by omega
  simpa [BitVec.getLsbD_extractLsb', place, small] using bit

section Separation

variable {D : Type} {C : Crypto D} {memory memory' : Memory} {req req' : SkcipherRequest}

theorem SkcipherRequest.Sampled.sample_eq (sampled : req.Sampled) (memory : Memory) :
    req.sample memory = memory.read (sgVirt req.src) (min req.cryptlen.toNat 64) := by
  unfold SkcipherRequest.sample Scatterlist.bytes sgVirt
  rw [List.flatMap_cons, List.take_append_of_le_length, Memory.take_read _ _ sampled]
  rw [Memory.length_read]
  exact sampled

/-- The record determines its fields. -/
theorem inputBytes_inj (ideal : C.Ideal) {algo algo' : U64} {keylen keylen' : U32}
    {cryptlen cryptlen' : U32} {srcHash srcHash' : D}
    (same : inputBytes C algo keylen cryptlen srcHash =
      inputBytes C algo' keylen' cryptlen' srcHash') :
    algo = algo' ∧ keylen = keylen' ∧ cryptlen = cryptlen' ∧ srcHash = srcHash' := by
  unfold inputBytes at same
  obtain ⟨front, digests⟩ := List.append_inj same (by simp)
  obtain ⟨front, cryptlens⟩ := List.append_inj front (by simp)
  obtain ⟨algos, keylens⟩ := List.append_inj front (by simp)
  exact ⟨littleEndian_injective (by decide) algos, littleEndian_injective (by decide) keylens,
    littleEndian_injective (by decide) cryptlens, ideal.digest digests⟩

/-- Sources look alike when their hashes in the record agree. -/
theorem sameSource_iff (ideal : C.Ideal) : SameSource C memory memory' req req' ↔
    (if sgVirt req.src ≠ 0#64 then computeFingerprint C (req.sample memory) kcrSeedCrypto
      else C.zero) =
    (if sgVirt req'.src ≠ 0#64 then computeFingerprint C (req'.sample memory') kcrSeedCrypto
      else C.zero) := by
  unfold SameSource
  split <;> split
  · exact (ideal.hash kcrSeedCrypto).eq_iff.symm
  · rfl
  · rfl
  · exact iff_of_true trivial rfl

/-- An ideal fingerprint tells algorithm, length and source, and nothing else. -/
theorem cryptoComputeFingerprint_eq_iff (ideal : C.Ideal) (sampled : req.Sampled)
    (sampled' : req'.Sampled) :
    cryptoComputeFingerprint C memory (some req) = cryptoComputeFingerprint C memory' (some req') ↔
      req.tfm.alg = req'.tfm.alg ∧ req.cryptlen = req'.cryptlen ∧
        SameSource C memory memory' req req' := by
  rw [sameSource_iff ideal, sampled.sample_eq memory, sampled'.sample_eq memory']
  simp only [cryptoComputeFingerprint]
  constructor
  · intro same
    obtain ⟨alg, _, cryptlen, source⟩ := inputBytes_inj ideal (ideal.hash kcrSeedBase same)
    exact ⟨alg, cryptlen, source⟩
  · rintro ⟨alg, cryptlen, source⟩
    rw [source, alg, cryptlen]

/-- Two requests are kept apart unless they differ in the key or the sample, and the record
shows neither. -/
theorem cryptoComputeFingerprint_separates (ideal : C.Ideal) (sampled : req.Sampled)
    (sampled' : req'.Sampled) :
    (cryptoComputeFingerprint C memory (some req) = cryptoComputeFingerprint C memory' (some req') →
      SameOperation memory memory' req req') ↔
    (req.tfm.alg = req'.tfm.alg → req.cryptlen = req'.cryptlen →
      SameSource C memory memory' req req' →
      req.tfm.key = req'.tfm.key ∧ req.sample memory = req'.sample memory') := by
  rw [cryptoComputeFingerprint_eq_iff ideal sampled sampled']
  constructor
  · intro separates alg cryptlen source
    have same := separates ⟨alg, cryptlen, source⟩
    exact ⟨same.key, same.sample⟩
  · rintro shown ⟨alg, cryptlen, source⟩
    obtain ⟨key, sample⟩ := shown alg cryptlen source
    exact ⟨alg, key, cryptlen, sample⟩

end Separation

section Example

/-- A hash that keeps its arguments. -/
def Crypto.transparent : Crypto (List U8 × U64) where
  xxh64 data seed := (data, seed)
  digestBytes digest := littleEndian 8 digest.2 ++ digest.1
  zero := ([], 0)
  maxKeysize _ := 32

theorem Crypto.ideal_transparent : Crypto.transparent.Ideal where
  hash _ _ _ same := (Prod.mk.inj same).1
  digest left right same := by
    obtain ⟨seeds, data⟩ := List.append_inj same (by simp)
    exact Prod.ext data (littleEndian_injective (by decide) seeds)

/-- Sixteen bytes at address 4096, under the given key. -/
def SkcipherRequest.under (key : List U8) : SkcipherRequest where
  tfm := ⟨64, key⟩
  cryptlen := 16
  src := ⟨⟨4096, 16⟩, []⟩

theorem SkcipherRequest.Sampled.under (key : List U8) : (SkcipherRequest.under key).Sampled := by
  show min (16 : U32).toNat 64 ≤ 16
  decide

/-- Two keys, where both sides are false. -/
theorem cryptoComputeFingerprint_separates_under :
    (cryptoComputeFingerprint .transparent (fun _ => 0) (some (.under [1])) =
        cryptoComputeFingerprint .transparent (fun _ => 0) (some (.under [2])) →
      SameOperation (fun _ => 0) (fun _ => 0) (.under [1]) (.under [2])) ↔
    ((SkcipherRequest.under [1]).tfm.alg = (SkcipherRequest.under [2]).tfm.alg →
      (SkcipherRequest.under [1]).cryptlen = (SkcipherRequest.under [2]).cryptlen →
      SameSource .transparent (fun _ => 0) (fun _ => 0) (.under [1]) (.under [2]) →
      (SkcipherRequest.under [1]).tfm.key = (SkcipherRequest.under [2]).tfm.key ∧
        (SkcipherRequest.under [1]).sample (fun _ => 0) =
          (SkcipherRequest.under [2]).sample (fun _ => 0)) :=
  cryptoComputeFingerprint_separates Crypto.ideal_transparent (.under _) (.under _)

/-- Requests under two keys share a fingerprint. -/
theorem not_fingerprintsSeparate : ¬ FingerprintsSeparate := by
  intro separate
  have same := separate .transparent Crypto.ideal_transparent (fun _ => 0) (fun _ => 0)
    (.under [1]) (.under [2]) (.under _) (.under _) rfl
  exact absurd same.key (by decide)

end Example

end Kcr
