import Cosaci.Core.Attestation
import Cosaci.Foundation.Merkle

/-!
# The append-only Merkle log

The read side of `MerkleLog`, which works on the in-memory entries whatever the
store behind them, and the verification of inclusion proofs by an auditor who
only holds a root.
-/

namespace Cosaci.Core

open Foundation

/-- Inclusion proof bundle. -/
structure InclusionProof where
  position : Nat
  entry : Hash
  proofHashes : List Hash
  lengthAtProof : Nat
  deriving DecidableEq

/-- A log: the in-memory mirror of its entries and the store behind it. -/
structure MerkleLog (σ : Type) where
  entries : List Hash
  store : σ
  deriving DecidableEq

/-- The message hashed to combine two nodes; leaves get no separate tag. -/
def nodeMessage (left right : Hash) : List UInt8 :=
  left.toList ++ right.toList

def concatAndHash (crypto : Crypto) (left right : Hash) : Hash :=
  crypto.sha256 (nodeMessage left right)

namespace MerkleLog

variable {σ : Type}

def len (log : MerkleLog σ) : Nat :=
  log.entries.length

def entryAt (log : MerkleLog σ) (position : Nat) : Option Hash :=
  log.entries[position]?

/-- Root over the entire current log. -/
def root (crypto : Crypto) (log : MerkleLog σ) : Option Hash :=
  if log.entries.isEmpty then none else Merkle.root (concatAndHash crypto) log.entries

/-- Root over the first `n` entries. -/
def rootAt (crypto : Crypto) (log : MerkleLog σ) (n : Nat) : Option Hash :=
  if n = 0 ∨ log.len < n then
    none
  else
    Merkle.root (concatAndHash crypto) (log.entries.take n)

/-- Inclusion proof for the entry at `position`, against the root over the first
`length` entries. -/
def inclusionProofAt (crypto : Crypto) (log : MerkleLog σ) (position length : Nat) :
    Option InclusionProof :=
  if length = 0 ∨ log.len < length ∨ length ≤ position then
    none
  else
    let slice := log.entries.take length
    slice[position]?.map fun entry =>
      ⟨position, entry, Merkle.proof (concatAndHash crypto) slice position, length⟩

/-- Peak heights of a mountain range over `length` leaves, in descending order. -/
def peakHeights (length : Nat) : List Nat :=
  (List.range 64).reverse.filter fun h => (length >>> h) &&& 1 == 1

/-- The roots over consecutive slices of `2 ^ h` entries.  A slice out of range, or one
without a root, would be a panic. -/
def peaksFrom (crypto : Crypto) (entries : List Hash) : (start : Nat) → List Nat →
    Option (List Hash)
  | _, [] => some []
  | start, h :: heights => do
      let count := 1 <<< h
      if entries.length < start + count then
        none
      else
        let root ← Merkle.root (concatAndHash crypto) ((entries.drop start).take count)
        let peaks ← peaksFrom crypto entries (start + count) heights
        return root :: peaks

/-- Peak decomposition of the first `length` leaves. -/
def peakHashes (crypto : Crypto) (log : MerkleLog σ) (length : Nat) : Option (List Hash) :=
  if length = 0 ∨ log.len < length then
    some []
  else
    peaksFrom crypto log.entries 0 (peakHeights length)

/-- The messages hashed to compute the root over the first `n` entries. -/
def rootMessages (crypto : Crypto) (log : MerkleLog σ) (n : Nat) : List (List UInt8) :=
  (Merkle.treePairs (concatAndHash crypto) (Merkle.depth n) (log.entries.take n)).map
    fun pair => nodeMessage pair.1 pair.2

end MerkleLog

/-- Verify an inclusion proof against a root. -/
def verifyInclusion (crypto : Crypto) (proof : InclusionProof) (root : Hash) : Bool :=
  Merkle.proofRoot (concatAndHash crypto) proof.lengthAtProof proof.position proof.entry
    proof.proofHashes == some root

/-- The messages hashed to verify an inclusion proof. -/
def InclusionProof.messages (crypto : Crypto) (proof : InclusionProof) : List (List UInt8) :=
  (Merkle.climbPairs (concatAndHash crypto) (Merkle.depth proof.lengthAtProof)
    proof.lengthAtProof proof.position proof.entry proof.proofHashes).map
    fun pair => nodeMessage pair.1 pair.2

theorem nodeMessage_injective {first second : Hash × Hash}
    (same : nodeMessage first.1 first.2 = nodeMessage second.1 second.2) : first = second := by
  have split := List.append_inj same (by simp)
  exact Prod.ext (List.Vector.toList_injective split.1) (List.Vector.toList_injective split.2)

/-- A root exists exactly for the nonempty prefixes of the log. -/
theorem MerkleLog.rootAt_eq_some {σ : Type} {crypto : Crypto} {log : MerkleLog σ} {n : Nat}
    {root : Hash} (rooted : log.rootAt crypto n = some root) :
    n ≤ log.entries.length ∧
      Merkle.root (concatAndHash crypto) (log.entries.take n) = some root := by
  unfold rootAt at rooted
  split at rooted
  · cases rooted
  · next valid =>
      rw [len] at valid
      exact ⟨by omega, rooted⟩

/-- Roots over the first entries do not change as the log grows. -/
theorem MerkleLog.rootAt_of_grows {σ τ : Type} (crypto : Crypto) {log : MerkleLog σ}
    {later : MerkleLog τ} (grows : log.entries <+: later.entries) {n : Nat}
    (bounded : n ≤ log.len) : later.rootAt crypto n = log.rootAt crypto n := by
  rcases grows with ⟨rest, entries⟩
  have longer : later.len = log.len + rest.length := by
    rw [len, len, ← entries, List.length_append]
  have taken : later.entries.take n = log.entries.take n := by
    rw [← entries, List.take_append_of_le_length bounded]
  have range : (n = 0 ∨ later.len < n) ↔ (n = 0 ∨ log.len < n) := by omega
  simp only [rootAt, taken, range]

/-- Neither do the inclusion proofs against them. -/
theorem MerkleLog.inclusionProofAt_of_grows {σ τ : Type} (crypto : Crypto)
    {log : MerkleLog σ} {later : MerkleLog τ} (grows : log.entries <+: later.entries)
    (position : Nat) {length : Nat} (bounded : length ≤ log.len) :
    later.inclusionProofAt crypto position length =
      log.inclusionProofAt crypto position length := by
  rcases grows with ⟨rest, entries⟩
  have longer : later.len = log.len + rest.length := by
    rw [len, len, ← entries, List.length_append]
  have taken : later.entries.take length = log.entries.take length := by
    rw [← entries, List.take_append_of_le_length bounded]
  have range : (length = 0 ∨ later.len < length ∨ length ≤ position) ↔
      (length = 0 ∨ log.len < length ∨ length ≤ position) := by omega
  simp only [inclusionProofAt, taken, range]

/-- Inclusion completeness: every entry below a length has a proof against the root
over that length, and the proof verifies. -/
theorem verifyInclusion_complete {σ : Type} (crypto : Crypto) {log : MerkleLog σ}
    {position length : Nat} {entry : Hash} (found : log.entryAt position = some entry)
    (inside : position < length) (bounded : length ≤ log.len) :
    ∃ proof root, log.inclusionProofAt crypto position length = some proof ∧
      log.rootAt crypto length = some root ∧ proof.entry = entry ∧
      verifyInclusion crypto proof root = true := by
  have taken : (log.entries.take length).length = length := List.length_take_of_le bounded
  have leaf : (log.entries.take length)[position]? = some entry := by
    rw [List.getElem?_take_of_lt inside]
    exact found
  have nonempty : log.entries.take length ≠ [] := by
    rw [← List.length_pos_iff]
    omega
  have proved := Merkle.proofRoot_proof (concatAndHash crypto) leaf
  rcases Merkle.exists_root (concatAndHash crypto) nonempty with ⟨root, rooted⟩
  refine ⟨⟨position, entry,
    Merkle.proof (concatAndHash crypto) (log.entries.take length) position, length⟩, root,
    ?_, ?_, rfl, ?_⟩
  · rw [MerkleLog.inclusionProofAt, if_neg (by omega)]
    simp only [leaf, Option.map_some]
  · rw [MerkleLog.rootAt, if_neg (by omega), rooted]
  · rw [taken, rooted] at proved
    exact beq_of_eq proved

/-- Inclusion soundness: a proof for the length of the root and a position below
it only verifies for the entry that the log holds there. -/
theorem verifyInclusion_sound {σ : Type} (crypto : Crypto) (log : MerkleLog σ) (n : Nat)
    (root : Hash) (proof : InclusionProof)
    (rooted : log.rootAt crypto n = some root)
    (collisionFree : crypto.CollisionFree (log.rootMessages crypto n ++ proof.messages crypto))
    (length : proof.lengthAtProof = n) (inside : proof.position < n)
    (verified : verifyInclusion crypto proof root = true) :
    log.entryAt proof.position = some proof.entry := by
  rcases MerkleLog.rootAt_eq_some rooted with ⟨bounded, rooted⟩
  have taken : (log.entries.take n).length = n := by
    rw [List.length_take]
    omega
  have proved := eq_of_beq verified
  rw [length, ← taken] at proved
  have found : (log.entries.take n)[proof.position]? = some proof.entry := by
    apply Merkle.proofRoot_sound (concatAndHash crypto) (by omega) rooted proved
    intro built builtMember used usedMember same
    apply nodeMessage_injective
    apply collisionFree _ (List.mem_append_left _ ?_) _ (List.mem_append_right _ ?_) same
    · rw [taken] at builtMember
      exact List.mem_map_of_mem builtMember
    · rw [taken, ← length] at usedMember
      exact List.mem_map_of_mem usedMember
  rwa [List.getElem?_take_of_lt inside] at found

def sampleEntry (byte : UInt8) : Hash := List.Vector.replicate 32 byte

/-- A log of three distinct entries. -/
def sampleLog : MerkleLog Unit where
  entries := [sampleEntry 1, sampleEntry 2, sampleEntry 3]
  store := ()

/-- The inner node above the first two entries, and the root of the whole log. -/
def sampleInner : Hash := concatAndHash modelCrypto (sampleEntry 1) (sampleEntry 2)

def sampleRoot : Hash := concatAndHash modelCrypto sampleInner (sampleEntry 3)

theorem verifyInclusion_sound_sample :
    verifyInclusion modelCrypto ⟨1, sampleEntry 2, [sampleEntry 1, sampleEntry 3], 3⟩
        sampleRoot = true ∧
      sampleLog.entryAt 1 = some (sampleEntry 2) :=
  ⟨by decide +kernel, verifyInclusion_sound modelCrypto sampleLog 3 sampleRoot
    ⟨1, sampleEntry 2, [sampleEntry 1, sampleEntry 3], 3⟩ (by decide +kernel)
    (by decide +kernel) rfl (by decide) (by decide +kernel)⟩

/-- A proof that claims another length presents an inner node as a leaf and moves
the last entry to position one; a proof of the right length is accepted at a
position beyond the end. -/
theorem verifyInclusion_forged :
    (sampleLog.rootAt modelCrypto 3 = some sampleRoot ∧
      modelCrypto.CollisionFree (sampleLog.rootMessages modelCrypto 3 ++
        InclusionProof.messages modelCrypto ⟨1, sampleEntry 3, [sampleInner], 2⟩) ∧
      verifyInclusion modelCrypto ⟨1, sampleEntry 3, [sampleInner], 2⟩ sampleRoot = true ∧
      sampleLog.entryAt 1 ≠ some (sampleEntry 3)) ∧
    (sampleLog.rootAt modelCrypto 2 = some sampleInner ∧
      modelCrypto.CollisionFree (sampleLog.rootMessages modelCrypto 2 ++
        InclusionProof.messages modelCrypto ⟨2, sampleEntry 1, [sampleEntry 2], 2⟩) ∧
      verifyInclusion modelCrypto ⟨2, sampleEntry 1, [sampleEntry 2], 2⟩ sampleInner = true ∧
      ¬2 < 2 ∧ sampleLog.entryAt 2 ≠ some (sampleEntry 1)) := by
  decide +kernel

end Cosaci.Core
