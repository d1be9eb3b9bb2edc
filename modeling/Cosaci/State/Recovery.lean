import Cosaci.Foundation.Table
import Cosaci.State.Journal

/-!
# State derived from the journal

What a restarted coordinator knows about its jobs.  The entries are applied in order
and the last one wins; the state of a job depends on the entries of that job alone.
-/

namespace Cosaci.State

open Foundation
open Cosaci.Core (JobId RunnerId)

/-- Per-job state derived from the journal up to some replay point. -/
inductive JobState where
  | submitted
  | inFlight
  | aggregatedNotAnchored (outcome : JournalOutcome) (artifactHex : String)
  | anchored (position : Nat)
  deriving DecidableEq, Repr

/-- Snapshot of journal-derived state. -/
structure JournalState where
  jobs : Table JobId JobState

namespace JournalState

def new : JournalState :=
  ⟨∅⟩

/-- The jobs that are offered for anchoring, whatever their outcome; their order is
unspecified. -/
def pendingReAnchor (state : JournalState) : List JobId :=
  state.jobs.entries.filterMap fun entry =>
    match entry.2 with
    | .aggregatedNotAnchored _ _ => some entry.1
    | _ => none

/-- Apply one entry. -/
def apply (state : JournalState) : JournalEntry → JournalState
  | .jobSubmitted jobId => ⟨state.jobs.insert jobId .submitted⟩
  | .committeeSelected jobId _ => ⟨state.jobs.insert jobId .inFlight⟩
  | .attestationReceived jobId _ =>
      if jobId ∈ state.jobs then state else ⟨state.jobs.insert jobId .inFlight⟩
  | .aggregated jobId outcome artifactHex =>
      ⟨state.jobs.insert jobId (.aggregatedNotAnchored outcome artifactHex)⟩
  | .anchored jobId position => ⟨state.jobs.insert jobId (.anchored position)⟩

/-- The state of one job. -/
def stateOf (state : JournalState) (jobId : JobId) : Option JobState :=
  state.jobs.lookup jobId

end JournalState

/-- Reconstruct journal state from a sequence of entries. -/
def reconstructState (entries : List JournalEntry) : JournalState :=
  entries.foldl JournalState.apply .new

/-! ## One job at a time -/

/-- The job an entry is about. -/
def JournalEntry.jobId : JournalEntry → JobId
  | .jobSubmitted jobId => jobId
  | .committeeSelected jobId _ => jobId
  | .attestationReceived jobId _ => jobId
  | .aggregated jobId _ _ => jobId
  | .anchored jobId _ => jobId

/-- The state of a job after an entry about it. -/
def JobState.advance (before : Option JobState) : JournalEntry → JobState
  | .jobSubmitted _ => .submitted
  | .committeeSelected _ _ => .inFlight
  | .attestationReceived _ _ => before.getD .inFlight
  | .aggregated _ outcome artifactHex => .aggregatedNotAnchored outcome artifactHex
  | .anchored _ position => .anchored position

/-- The state of a job after a sequence of entries about it. -/
def JobState.advanceAll (before : Option JobState) (entries : List JournalEntry) :
    Option JobState :=
  entries.foldl (fun state entry => some (JobState.advance state entry)) before

theorem JournalState.stateOf_insert (state : JournalState) (job jobId : JobId)
    (value : JobState) :
    (JournalState.mk (state.jobs.insert job value)).stateOf jobId =
      if job = jobId then some value else state.stateOf jobId := by
  rw [stateOf, Table.lookup_insert_eq]
  simp only [eq_comm]
  rfl

/-- An attestation only starts a job that is not known yet. -/
theorem JournalState.stateOf_entry (state : JournalState) (job jobId : JobId) :
    (if job ∈ state.jobs then state
      else ⟨state.jobs.insert job .inFlight⟩ : JournalState).stateOf jobId =
      if job = jobId then some ((state.stateOf jobId).getD .inFlight)
      else state.stateOf jobId := by
  by_cases known : job ∈ state.jobs
  · rw [if_pos known]
    by_cases same : job = jobId
    · subst same
      rcases Option.isSome_iff_exists.mp (AList.lookup_isSome.mpr known) with ⟨value, found⟩
      simp only [↓reduceIte, stateOf, found, Option.getD_some]
    · rw [if_neg same]
  · rw [if_neg known, stateOf_insert]
    by_cases same : job = jobId
    · subst same
      have missing : state.stateOf job = none := AList.lookup_eq_none.mpr known
      simp only [↓reduceIte, missing, Option.getD_none]
    · rw [if_neg same, if_neg same]

/-- An entry moves the job it is about. -/
theorem JournalState.stateOf_apply (state : JournalState) (entry : JournalEntry)
    (jobId : JobId) :
    (state.apply entry).stateOf jobId =
      if entry.jobId = jobId then some (JobState.advance (state.stateOf jobId) entry)
      else state.stateOf jobId := by
  cases entry with
  | jobSubmitted job => exact state.stateOf_insert job jobId .submitted
  | committeeSelected job committee => exact state.stateOf_insert job jobId .inFlight
  | attestationReceived job runner => exact state.stateOf_entry job jobId
  | aggregated job outcome artifactHex =>
      exact state.stateOf_insert job jobId (.aggregatedNotAnchored outcome artifactHex)
  | anchored job position => exact state.stateOf_insert job jobId (.anchored position)

private theorem stateOf_foldl (entries : List JournalEntry) (state : JournalState)
    (jobId : JobId) :
    (entries.foldl JournalState.apply state).stateOf jobId =
      JobState.advanceAll (state.stateOf jobId)
        (entries.filter fun entry => entry.jobId = jobId) := by
  induction entries generalizing state with
  | nil => rfl
  | cons entry rest ih =>
      rw [List.foldl_cons, ih, JournalState.stateOf_apply]
      by_cases same : entry.jobId = jobId
      · rw [if_pos same, List.filter_cons_of_pos (by simpa using same)]
        rfl
      · rw [if_neg same, List.filter_cons_of_neg (by simpa using same)]

/-- The state of a job depends on its own entries alone. -/
theorem stateOf_reconstructState (entries : List JournalEntry) (jobId : JobId) :
    (reconstructState entries).stateOf jobId =
      JobState.advanceAll none (entries.filter fun entry => entry.jobId = jobId) :=
  stateOf_foldl entries .new jobId

theorem JournalState.mem_pendingReAnchor {state : JournalState} {jobId : JobId} :
    jobId ∈ state.pendingReAnchor ↔
      ∃ outcome artifactHex,
        state.stateOf jobId = some (.aggregatedNotAnchored outcome artifactHex) := by
  simp only [pendingReAnchor, List.mem_filterMap]
  constructor
  · rintro ⟨⟨job, value⟩, member, picked⟩
    cases value with
    | aggregatedNotAnchored outcome artifactHex =>
        cases picked
        exact ⟨outcome, artifactHex, AList.mem_lookup_iff.mpr member⟩
    | submitted => cases picked
    | inFlight => cases picked
    | anchored position => cases picked
  · rintro ⟨outcome, artifactHex, found⟩
    exact ⟨⟨jobId, _⟩, AList.mem_lookup_iff.mp found, rfl⟩

/-- A job is only reported as aggregated if the journal says so. -/
theorem aggregated_mem_of_stateOf {entries : List JournalEntry} {jobId : JobId}
    {outcome : JournalOutcome} {artifactHex : String}
    (state : (reconstructState entries).stateOf jobId =
      some (.aggregatedNotAnchored outcome artifactHex)) :
    .aggregated jobId outcome artifactHex ∈ entries := by
  induction entries using List.reverseRecOn with
  | nil => cases state
  | append_singleton entries last ih =>
      rw [reconstructState, List.foldl_append, List.foldl_cons, List.foldl_nil,
        ← reconstructState, JournalState.stateOf_apply] at state
      split at state
      · next same =>
          cases last with
          | jobSubmitted job => cases state
          | committeeSelected job committee => cases state
          | attestationReceived job runner =>
              cases before : (reconstructState entries).stateOf jobId with
              | none => simp [before, JobState.advance] at state
              | some job =>
                  simp only [before, JobState.advance, Option.getD_some] at state
                  rw [state] at before
                  exact List.mem_append_left _ (ih before)
          | aggregated job journaled hex =>
              cases state
              cases same
              exact List.mem_append_right _ List.mem_cons_self
          | anchored job position => cases state
      · exact List.mem_append_left _ (ih state)

end Cosaci.State
