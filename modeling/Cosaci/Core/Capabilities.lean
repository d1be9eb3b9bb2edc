import Cosaci.Foundation.Encoding
import Cosaci.Foundation.Ranking
import Mathlib.Data.Finset.Basic
import Mathlib.Data.List.Sort

/-!
# Capabilities and committee selection

What runners offer, what jobs require, and the choice of a committee among the
candidates of a VRF round: filter by capability, then rank by VRF output.
-/

namespace Cosaci.Core

open Foundation

/-- Target operating system and CPU architecture. -/
inductive Platform where
  | linuxX86_64
  | linuxAarch64
  | darwinX86_64
  | darwinAarch64
  deriving DecidableEq, Repr

/-- Sandbox runtimes. -/
inductive Runtime where
  | wasm
  | firecracker
  | docker
  deriving DecidableEq, Repr

/-- What a runner offers. -/
structure Capabilities where
  cpu : UInt32
  memoryMb : UInt32
  platform : Platform
  runtimes : Finset Runtime
  deriving DecidableEq

/-- What a job requires. -/
structure JobRequirements where
  cpu : UInt32
  memoryMb : UInt32
  platform : Platform
  runtimes : Finset Runtime
  deriving DecidableEq

/-- Whether a runner can run a job. -/
def Capabilities.matches (runner : Capabilities) (job : JobRequirements) : Bool :=
  decide (job.cpu ≤ runner.cpu) && decide (job.memoryMb ≤ runner.memoryMb) &&
    runner.platform == job.platform && decide (job.runtimes ⊆ runner.runtimes)

/-- A runner with its declared capabilities and its VRF output for the job
seed. -/
structure Candidate (ι : Type) where
  id : ι
  capabilities : Capabilities
  vrfOutput : Bytes 32
  deriving DecidableEq

/-- Byte strings are ranked lexicographically. -/
def Candidate.ranksBefore {ι : Type} (first second : Candidate ι) : Prop :=
  first.vrfOutput.toList ≤ second.vrfOutput.toList

instance {ι : Type} (first second : Candidate ι) : Decidable (first.ranksBefore second) :=
  inferInstanceAs (Decidable (first.vrfOutput.toList ≤ second.vrfOutput.toList))

/-- The `committeeSize` eligible candidates of least VRF output, or nothing when
there are fewer.  The sort is stable. -/
def selectCapabilityAwareCommittee {ι : Type} (candidates : List (Candidate ι))
    (requirements : JobRequirements) (committeeSize : Nat) : Option (List ι) :=
  let eligible := candidates.filter fun candidate =>
    candidate.capabilities.matches requirements
  if eligible.length < committeeSize then
    none
  else
    some (((eligible.insertionSort Candidate.ranksBefore).take committeeSize).map
      Candidate.id)

variable {requirements : JobRequirements}

/-- A selected committee has the wanted size, and its ids are ids of candidates, each
as often as there are candidates with it at most. -/
theorem subperm_of_selectCapabilityAwareCommittee {ι : Type} {candidates : List (Candidate ι)}
    {committeeSize : Nat} {committee : List ι}
    (selected : selectCapabilityAwareCommittee candidates requirements committeeSize =
      some committee) :
    committee.length = committeeSize ∧ committee.Subperm (candidates.map Candidate.id) := by
  unfold selectCapabilityAwareCommittee at selected
  dsimp only at selected
  split at selected
  · cases selected
  next enough =>
  rw [not_lt] at enough
  cases selected
  constructor
  · simpa using enough
  · have ranked := List.perm_insertionSort Candidate.ranksBefore
      (candidates.filter fun candidate => candidate.capabilities.matches requirements)
    have best := (List.take_sublist committeeSize (List.insertionSort Candidate.ranksBefore
      (candidates.filter fun candidate => candidate.capabilities.matches requirements))).map
        Candidate.id
    exact best.subperm.trans
      ((ranked.map Candidate.id).subperm.trans (List.filter_sublist.map Candidate.id).subperm)

/-! ## The least eligible candidates -/

section Selection

variable {ι : Type}

instance : Std.Total (@Candidate.ranksBefore ι) where
  total first second := List.le_total first.vrfOutput.toList second.vrfOutput.toList

instance : IsTrans (Candidate ι) Candidate.ranksBefore where
  trans _ _ _ := List.le_trans

/-- The candidates that can run a job. -/
def eligible (requirements : JobRequirements) (candidates : List (Candidate ι)) :
    List (Candidate ι) :=
  candidates.filter fun candidate => candidate.capabilities.matches requirements

/-- The committee depends on the eligible candidates alone. -/
theorem selectCapabilityAwareCommittee_eq (candidates : List (Candidate ι))
    (requirements : JobRequirements) (committeeSize : Nat) :
    selectCapabilityAwareCommittee candidates requirements committeeSize =
      if (eligible requirements candidates).length < committeeSize then none
      else some ((((eligible requirements candidates).insertionSort
        Candidate.ranksBefore).take committeeSize).map Candidate.id) :=
  rfl

/-- The ids are those of as many eligible candidates as wanted, and none of the other
eligible candidates has a smaller VRF output. -/
structure LeastEligible (candidates : List (Candidate ι)) (requirements : JobRequirements)
    (committeeSize : Nat) (committee : List ι) (chosen rest : List (Candidate ι)) : Prop where
  ids : committee = chosen.map Candidate.id
  size : chosen.length = committeeSize
  parts : (chosen ++ rest).Perm (eligible requirements candidates)
  least : ∀ member ∈ chosen, ∀ other ∈ rest,
    member.vrfOutput.toList ≤ other.vrfOutput.toList

theorem exists_leastEligible {candidates : List (Candidate ι)} {committeeSize : Nat}
    {committee : List ι}
    (selected : selectCapabilityAwareCommittee candidates requirements committeeSize =
      some committee) :
    ∃ chosen rest,
      LeastEligible candidates requirements committeeSize committee chosen rest := by
  rw [selectCapabilityAwareCommittee_eq] at selected
  split at selected
  · cases selected
  next enough =>
  rw [not_lt] at enough
  cases selected
  refine ⟨_, _, rfl, ?_, ranked_parts_perm Candidate.ranksBefore _ committeeSize, ?_⟩
  · rw [List.length_take, List.length_insertionSort]
    exact Nat.min_eq_left enough
  · intro member chosen other left
    exact before_of_mem_ranked_parts Candidate.ranksBefore chosen left

/-- Candidates that cannot run the job do not count. -/
theorem selectCapabilityAwareCommittee_of_ineligible {front outsiders back : List (Candidate ι)}
    (committeeSize : Nat)
    (unfit : ∀ outsider ∈ outsiders, outsider.capabilities.matches requirements = false) :
    selectCapabilityAwareCommittee (front ++ outsiders ++ back) requirements committeeSize =
      selectCapabilityAwareCommittee (front ++ back) requirements committeeSize := by
  have none : eligible requirements outsiders = [] := by
    rw [eligible, List.filter_eq_nil_iff]
    intro outsider member
    rw [unfit outsider member]
    exact Bool.false_ne_true
  have same : eligible requirements (front ++ outsiders ++ back) =
      eligible requirements (front ++ back) := by
    simp only [eligible, List.filter_append] at none ⊢
    rw [none, List.append_nil]
  rw [selectCapabilityAwareCommittee_eq, selectCapabilityAwareCommittee_eq, same]

/-- Distinct VRF outputs leave only one ranking. -/
theorem selectCapabilityAwareCommittee_of_perm {candidates permuted : List (Candidate ι)}
    (requirements : JobRequirements) (committeeSize : Nat)
    (distinct : (candidates.map Candidate.vrfOutput).Nodup)
    (perm : permuted.Perm candidates) :
    selectCapabilityAwareCommittee permuted requirements committeeSize =
      selectCapabilityAwareCommittee candidates requirements committeeSize := by
  have eligiblePerm : (eligible requirements permuted).Perm (eligible requirements candidates) :=
    perm.filter _
  have ranked := ranked_eq_of_perm Candidate.ranksBefore eligiblePerm (by
    intro left leftMember right rightMember before after
    apply List.inj_on_of_nodup_map distinct (List.mem_of_mem_filter leftMember)
      (List.mem_of_mem_filter rightMember)
    exact List.Vector.eq _ _ (List.le_antisymm before after))
  rw [selectCapabilityAwareCommittee_eq, selectCapabilityAwareCommittee_eq, ranked,
    eligiblePerm.length_eq]

/-- The committee consists of the least eligible candidates, and is not formed exactly
when there are too few.  Candidates that do not match change nothing, nor does the order
of candidates with distinct VRF outputs. -/
theorem selectCapabilityAwareCommittee_spec (candidates : List (Candidate ι))
    (requirements : JobRequirements) (committeeSize : Nat) :
    (selectCapabilityAwareCommittee candidates requirements committeeSize = none ↔
      (eligible requirements candidates).length < committeeSize) ∧
    (∀ committee,
      selectCapabilityAwareCommittee candidates requirements committeeSize = some committee →
      ∃ chosen rest,
        LeastEligible candidates requirements committeeSize committee chosen rest) ∧
    (∀ front outsiders back, candidates = front ++ back →
      (∀ outsider ∈ outsiders, outsider.capabilities.matches requirements = false) →
      selectCapabilityAwareCommittee (front ++ outsiders ++ back) requirements committeeSize =
        selectCapabilityAwareCommittee candidates requirements committeeSize) ∧
    ((candidates.map Candidate.vrfOutput).Nodup → ∀ permuted, permuted.Perm candidates →
      selectCapabilityAwareCommittee permuted requirements committeeSize =
        selectCapabilityAwareCommittee candidates requirements committeeSize) := by
  refine ⟨?_, ?_, ?_, ?_⟩
  · rw [selectCapabilityAwareCommittee_eq]
    split
    · next few => exact iff_of_true rfl few
    · next enough =>
        apply iff_of_false _ enough
        intro formed
        cases formed
  · intro committee selected
    exact exists_leastEligible selected
  · rintro front outsiders back rfl unfit
    exact selectCapabilityAwareCommittee_of_ineligible committeeSize unfit
  · intro distinct permuted perm
    exact selectCapabilityAwareCommittee_of_perm requirements committeeSize distinct perm

end Selection

/-- Two runners with enough cores, one with too few. -/
def sampleCandidates : List (Candidate Nat) :=
  [⟨1, ⟨4, 1024, .linuxX86_64, ∅⟩, List.Vector.replicate 32 3⟩,
    ⟨2, ⟨1, 1024, .linuxX86_64, ∅⟩, List.Vector.replicate 32 1⟩,
    ⟨3, ⟨4, 1024, .linuxX86_64, ∅⟩, List.Vector.replicate 32 2⟩]

theorem selectCapabilityAwareCommittee_spec_sample :
    (sampleCandidates.map Candidate.vrfOutput).Nodup ∧
      selectCapabilityAwareCommittee sampleCandidates.reverse ⟨2, 512, .linuxX86_64, ∅⟩ 1 =
        selectCapabilityAwareCommittee sampleCandidates ⟨2, 512, .linuxX86_64, ∅⟩ 1 ∧
      selectCapabilityAwareCommittee sampleCandidates ⟨2, 512, .linuxX86_64, ∅⟩ 1 =
        some [3] := by
  have distinct : (sampleCandidates.map Candidate.vrfOutput).Nodup := by decide
  have spec := selectCapabilityAwareCommittee_spec sampleCandidates ⟨2, 512, .linuxX86_64, ∅⟩ 1
  exact ⟨distinct, spec.2.2.2 distinct _ (List.reverse_perm sampleCandidates), by decide +kernel⟩

end Cosaci.Core
