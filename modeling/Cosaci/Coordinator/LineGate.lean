import Cosaci.Coordinator.Submission
import Cosaci.State.Admission

/-!
# The gate, line by line

The reader hands every line of its input that holds a submission to the gate, while the
registry may be replaced between two lines.  Over whole runs: the admissions of one and
the same line are at least a replay window apart, and whether a line is taken for a
replay depends only on the lines that share its replay key.
-/

namespace Cosaci.Coordinator

open Foundation Cosaci.Core State

/-- What reaches the state behind the auth mutex: a line with the clock readings that it
meets, or a new registry. -/
inductive GateInput where
  | line (text : List Char) (nowNs : UInt64) (readings : GateReadings)
  | replace (registry : TenantRegistry)

namespace SubmissionReader

variable (reader : SubmissionReader)

/-- The verdict on an input, if it gets one. -/
def gateStep (state : AuthState) : GateInput → Option AuthCheck × AuthState
  | .line text nowNs readings =>
      match reader.submissionOf text with
      | .error _ => (none, state)
      | .ok sub =>
          let (verdict, gate) :=
            checkSubmission reader.crypto nowNs readings state.registry state.gate sub
          (some verdict, { state with gate := gate })
  | .replace registry => (none, { state with registry := registry })

def gateReadings : GateInput → List UInt64
  | .line _ _ readings => [readings.sweepAt, readings.acceptAt, readings.limitAt]
  | .replace _ => []

def gateMachine : Machine AuthState GateInput (Option AuthCheck) where
  step := reader.gateStep

/-! ## The call of a line -/

/-- The call of the gate that a line leads to. -/
def lineCall (text : List Char) (nowNs : UInt64) (readings : GateReadings) : Option GateCall :=
  (reader.submissionOf text).toOption.bind fun sub => sub.gateCall nowNs readings

/-- The replay key of a line, which does not depend on when the line arrives. -/
def lineKey (text : List Char) : Option UInt64 :=
  (reader.lineCall text 0 ⟨0, 0, 0⟩).map (Gate.replayKey reader.crypto)

theorem gateCall_eq_map (sub : JobSubmission) (nowNs : UInt64) (readings : GateReadings) :
    sub.gateCall nowNs readings = (sub.gateCall 0 ⟨0, 0, 0⟩).map fun call =>
      { call with nowNs := nowNs, readings := readings } := by
  cases sub with
  | legacy sub =>
      simp only [JobSubmission.gateCall]
      cases sub.credentials <;> rfl
  | pipeline sub =>
      simp only [JobSubmission.gateCall]
      cases sub.credentials with
      | none => rfl
      | some credentials => cases parseHexBytes sub.pipelineCborHex <;> rfl

variable {reader} {text : List Char} {nowNs : UInt64} {readings : GateReadings}

variable {call : GateCall} {inputs : List GateInput}

theorem lineCall_eq_some (called : reader.lineCall text nowNs readings = some call) :
    reader.lineKey text = some (Gate.replayKey reader.crypto call) ∧
      call.readings = readings := by
  obtain ⟨sub, parsed, gated⟩ := Option.bind_eq_some_iff.mp called
  rw [gateCall_eq_map, Option.map_eq_some_iff] at gated
  obtain ⟨early, found, rfl⟩ := gated
  refine ⟨?_, rfl⟩
  rw [lineKey, lineCall, parsed, Option.bind_some, found]
  rfl

theorem gateStep_of_call (state : AuthState)
    (called : reader.lineCall text nowNs readings = some call) :
    reader.gateStep state (.line text nowNs readings) =
      (some (Gate.step reader.crypto state.registry state.gate call).1,
        { state with gate := (Gate.step reader.crypto state.registry state.gate call).2 }) := by
  obtain ⟨sub, parsed, gated⟩ := Option.bind_eq_some_iff.mp called
  have checked := checkSubmission_eq reader.crypto nowNs readings state.registry state.gate sub
  rw [gated] at checked
  cases found : reader.submissionOf text with
  | error result =>
      rw [found] at parsed
      cases parsed
  | ok other =>
      rw [found] at parsed
      obtain rfl := Option.some.inj parsed
      simp only [gateStep, found, checked]

variable (reader) in
/-- The input is a line that leads to the call. -/
def Calls (input : GateInput) (call : GateCall) : Prop :=
  ∃ text nowNs readings, input = .line text nowNs readings ∧
    reader.lineCall text nowNs readings = some call

/-- On lines that lead to calls, the verdicts are those of the gate on these calls. -/
theorem run_of_calls {calls : List GateCall} (called : List.Forall₂ reader.Calls inputs calls)
    (state : AuthState) :
    reader.gateMachine.run state inputs =
      ((Gate.machine reader.crypto state.registry).run state.gate calls).map some := by
  induction called generalizing state with
  | nil => rfl
  | @cons input call inputs calls here _ ih =>
      obtain ⟨text, nowNs, readings, rfl, leads⟩ := here
      have stepped := gateStep_of_call state leads
      have later := ih (reader.gateStep state (.line text nowNs readings)).2
      rw [stepped] at later
      simp only [Machine.run, gateMachine, Gate.machine, stepped, List.map_cons] at later ⊢
      rw [later]

/-- A line without a call leaves the state alone. -/
theorem gateStep_of_no_call (state : AuthState)
    (uncalled : reader.lineCall text nowNs readings = none) :
    (reader.gateStep state (.line text nowNs readings)).2 = state ∧
      ((reader.gateStep state (.line text nowNs readings)).1 = none ∨
        (reader.gateStep state (.line text nowNs readings)).1 = some .badSignature) := by
  rw [lineCall] at uncalled
  cases found : reader.submissionOf text with
  | error result => exact ⟨by simp only [gateStep, found], Or.inl (by simp only [gateStep, found])⟩
  | ok sub =>
      rw [found] at uncalled
      have gated : sub.gateCall nowNs readings = none := uncalled
      have checked := checkSubmission_eq reader.crypto nowNs readings state.registry state.gate
        sub
      rw [gated] at checked
      simp only [gateStep, found, checked, or_true, and_self]

/-- The readings of a call are those of its line. -/
theorem ordered_of_call {start : UInt64} (called : reader.lineCall text nowNs readings = some call)
    (ordered : (start :: gateReadings (.line text nowNs readings)).Pairwise (· ≤ ·)) :
    (start :: Gate.readings call).Pairwise (· ≤ ·) := by
  rw [Gate.readings, (lineCall_eq_some called).2]
  exact ordered

/-! ## Admissions of one line -/

variable (reader)

/-- The reading at which the line was admitted, if it was. -/
def lineAdmittedAt (text : List Char) : GateInput → Option AuthCheck → Option UInt64
  | .line other _ readings, verdict =>
      if verdict = some .ok ∧ other = text then some readings.acceptAt else none
  | .replace _, _ => none

/-- The readings at which a run admitted the line, in order. -/
def lineAdmissions (text : List Char) (state : AuthState) (inputs : List GateInput) :
    List UInt64 :=
  reader.gateMachine.observe (lineAdmittedAt text) state inputs

/-- The readings at which the line reaches the gate. -/
def lineSightings (text : List Char) (inputs : List GateInput) : List UInt64 :=
  inputs.filterMap fun input =>
    match input with
    | .line other _ readings => if other = text then some readings.acceptAt else none
    | .replace _ => none

variable {reader}

theorem lineAdmittedAt_eq_some {input : GateInput} {verdict : Option AuthCheck} {time : UInt64}
    (admitted : lineAdmittedAt text input verdict = some time) :
    ∃ nowNs readings, input = .line text nowNs readings ∧ verdict = some .ok ∧
      time = readings.acceptAt := by
  cases input with
  | replace registry => cases admitted
  | line other nowNs readings =>
      simp only [lineAdmittedAt, Option.ite_none_right_eq_some] at admitted
      rcases admitted with ⟨⟨ok, rfl⟩, same⟩
      exact ⟨nowNs, readings, rfl, ok, (Option.some.inj same).symm⟩

/-- A line that is admitted leads to a call, which the gate admits. -/
theorem exists_call_of_ok {state : AuthState}
    (ok : (reader.gateStep state (.line text nowNs readings)).1 = some .ok) :
    ∃ call next, reader.lineCall text nowNs readings = some call ∧
      reader.gateStep state (.line text nowNs readings) =
        (some .ok, { state with gate := next }) ∧
      Gate.Decided reader.crypto state.registry state.gate call .ok next := by
  cases called : reader.lineCall text nowNs readings with
  | none =>
      rcases (gateStep_of_no_call state called).2 with none | refused
      · rw [none] at ok
        cases ok
      · rw [refused] at ok
        cases ok
  | some call =>
      have stepped := gateStep_of_call state called
      rw [stepped] at ok
      have admitted := Option.some.inj ok
      have decided : Gate.Decided reader.crypto state.registry state.gate call .ok _ :=
        admitted ▸ Gate.decided_step state.gate call
      exact ⟨call, _, rfl, by rw [stepped, admitted], decided⟩

theorem ttlNs_gateStep (state : AuthState) (input : GateInput) :
    (reader.gateStep state input).2.gate.replayGuard.ttlNs = state.gate.replayGuard.ttlNs := by
  cases input with
  | replace registry => rfl
  | line text nowNs readings =>
      cases called : reader.lineCall text nowNs readings with
      | none => rw [(gateStep_of_no_call state called).1]
      | some call =>
          rw [gateStep_of_call state called]
          exact (Gate.decided_step state.gate call).ttlNs

/-- Every input keeps the floor of every replay key. -/
theorem held_gateStep {start key : UInt64} {floor : Nat} {state : AuthState}
    {input : GateInput} (ordered : (start :: gateReadings input).Pairwise (· ≤ ·))
    (held : state.gate.replayGuard.Held key floor start) :
    (reader.gateStep state input).2.gate.replayGuard.Held key floor
      (Machine.lastReading gateReadings start input) := by
  cases input with
  | replace registry => exact held
  | line text nowNs readings =>
      have limit : Machine.lastReading gateReadings start (.line text nowNs readings) =
          readings.limitAt := rfl
      cases called : reader.lineCall text nowNs readings with
      | none =>
          rw [(gateStep_of_no_call state called).1]
          exact held.later ((List.pairwise_cons.mp ordered).1 _ (by simp [limit, gateReadings]))
      | some call =>
          rw [gateStep_of_call state called, limit, ← (lineCall_eq_some called).2]
          exact (Gate.decided_step state.gate call).held (ordered_of_call called ordered) held

/-- Admissions of one line are at least a window apart. -/
theorem lineAdmissions_spaced (text : List Char) (state : AuthState) {start : UInt64}
    (monotone : Machine.Monotone gateReadings start inputs) :
    (reader.lineAdmissions text state inputs).Pairwise fun first second =>
      first.toNat + state.gate.replayGuard.ttlNs.toNat ≤ second.toNat := by
  apply reader.gateMachine.observe_pairwise gateReadings
    (fun first start later => ∀ key, reader.lineKey text = some key →
      later.gate.replayGuard.Held key (first.toNat + state.gate.replayGuard.ttlNs.toNat) start)
    (fun later => later.gate.replayGuard.ttlNs = state.gate.replayGuard.ttlNs)
  · intro input later window
    exact (ttlNs_gateStep later input).trans window
  · intro first start input later ordered window admitted key keyed
    obtain ⟨nowNs, readings, rfl, ok, rfl⟩ := lineAdmittedAt_eq_some admitted
    obtain ⟨call, next, called, stepped, decided⟩ := exists_call_of_ok ok
    obtain ⟨own, rfl⟩ := lineCall_eq_some called
    obtain rfl := Option.some.inj (own.symm.trans keyed)
    have after : (reader.gateMachine.step later (.line text nowNs call.readings)).2.gate = next :=
      congrArg (fun result => result.2.gate) stepped
    rw [after, ← window]
    exact decided.held_of_ok (ordered_of_call called ordered)
  · intro first start input later ordered held key keyed
    exact held_gateStep ordered (held key keyed)
  · intro first second start input later ordered held admitted
    obtain ⟨nowNs, readings, rfl, ok, rfl⟩ := lineAdmittedAt_eq_some admitted
    obtain ⟨call, next, called, -, decided⟩ := exists_call_of_ok ok
    obtain ⟨own, rfl⟩ := lineCall_eq_some called
    exact decided.floor_le_of_ok (ordered_of_call called ordered) (held _ own)
  · exact monotone
  · rfl

theorem lineAdmissions_subset (text : List Char) (state : AuthState) (inputs : List GateInput) :
    reader.lineAdmissions text state inputs ⊆ lineSightings text inputs := by
  induction inputs generalizing state with
  | nil => exact List.Subset.refl _
  | cons input rest ih =>
      intro time member
      rw [lineAdmissions, Machine.observe_cons, List.mem_append, Option.mem_toList] at member
      rcases member with here | later
      · obtain ⟨nowNs, readings, rfl, -, rfl⟩ := lineAdmittedAt_eq_some here
        exact List.mem_filterMap.mpr ⟨_, List.mem_cons_self, if_pos rfl⟩
      · obtain ⟨other, present, seen⟩ := List.mem_filterMap.mp (ih _ later)
        exact List.mem_filterMap.mpr ⟨other, List.mem_cons_of_mem _ present, seen⟩

/-- A line that only arrives within one window is admitted at most once. -/
theorem length_lineAdmissions_le_one (text : List Char) (state : AuthState) {start : UInt64}
    (monotone : Machine.Monotone gateReadings start inputs)
    (within : ∀ first ∈ lineSightings text inputs, ∀ second ∈ lineSightings text inputs,
      second.toNat < first.toNat + state.gate.replayGuard.ttlNs.toNat) :
    (reader.lineAdmissions text state inputs).length ≤ 1 := by
  have spaced : (reader.lineAdmissions text state inputs).Pairwise _ :=
    lineAdmissions_spaced text state monotone
  have seen : reader.lineAdmissions text state inputs ⊆ _ :=
    lineAdmissions_subset text state inputs
  generalize reader.lineAdmissions text state inputs = times at spaced seen
  match times with
  | [] => exact Nat.zero_le 1
  | [_] => exact Nat.le_refl 1
  | first :: second :: rest =>
      have apart := (List.pairwise_cons.mp spaced).1 second List.mem_cons_self
      have near := within first (seen List.mem_cons_self) second
        (seen (List.mem_cons_of_mem _ List.mem_cons_self))
      omega

/-! ## Replay verdicts -/

variable (reader)

/-- The gate, observed only in whether some of the lines are taken for replays. -/
def replayMachine (watched : List (List Char)) :
    Machine AuthState GateInput (Option Bool) where
  step state input :=
    match input with
    | .line text nowNs readings =>
        let (verdict, next) := reader.gateStep state (.line text nowNs readings)
        (if watched.contains text then some (verdict == some .replayDetected) else none, next)
    | .replace registry => (none, (reader.gateStep state (.replace registry)).2)

/-- Whether an input is something else than one of the given lines. -/
def otherThan (lines : List (List Char)) : GateInput → Bool
  | .line text _ _ => !lines.contains text
  | .replace _ => true

/-- The states have the same registry, and their guards agree on the relevant keys. -/
structure SameReplays (relevant : UInt64 → Prop) (start : UInt64) (left right : AuthState) :
    Prop where
  registry : left.registry = right.registry
  replayGuard : ReplayGuard.AlikeOn relevant start left.gate.replayGuard
    right.gate.replayGuard

variable {reader} {relevant : UInt64 → Prop} {start : UInt64} {left right : AuthState}

theorem SameReplays.later {now : UInt64} (same : SameReplays relevant start left right)
    (passes : start ≤ now) : SameReplays relevant now left right :=
  ⟨same.registry, same.replayGuard.later passes⟩

private theorem limitAt_of_ordered
    (ordered : (start :: gateReadings (.line text nowNs readings)).Pairwise (· ≤ ·)) :
    start ≤ readings.limitAt :=
  (List.pairwise_cons.mp ordered).1 _ (by simp [gateReadings])

/-- The same line leaves the states the same, and if its key is relevant it is taken for
a replay in both or in neither. -/
theorem SameReplays.line (same : SameReplays relevant start left right)
    (ordered : (start :: gateReadings (.line text nowNs readings)).Pairwise (· ≤ ·)) :
    ((∀ key, reader.lineKey text = some key → relevant key) →
        ((reader.gateStep left (.line text nowNs readings)).1 = some .replayDetected ↔
          (reader.gateStep right (.line text nowNs readings)).1 = some .replayDetected)) ∧
      SameReplays relevant readings.limitAt
        (reader.gateStep left (.line text nowNs readings)).2
        (reader.gateStep right (.line text nowNs readings)).2 := by
  cases called : reader.lineCall text nowNs readings with
  | none =>
      have leftStep := gateStep_of_no_call left called
      have rightStep := gateStep_of_no_call right called
      rw [leftStep.1, rightStep.1]
      refine ⟨fun _ => ?_, same.later (limitAt_of_ordered ordered)⟩
      rcases leftStep.2 with none | refused <;> rcases rightStep.2 with none' | refused' <;>
        simp_all
  | some call =>
      obtain ⟨keyed, rfl⟩ := lineCall_eq_some called
      have calledInOrder := ordered_of_call called ordered
      rw [gateStep_of_call left called, gateStep_of_call right called, same.registry]
      refine ⟨fun known => ?_, rfl, Gate.alikeOn_step same.replayGuard calledInOrder⟩
      rw [Option.some_inj, Option.some_inj]
      exact Gate.replayDetected_congr same.replayGuard calledInOrder (known _ keyed)

/-- A line whose key is not relevant goes unnoticed. -/
theorem SameReplays.line_left (same : SameReplays relevant start left right)
    (ordered : (start :: gateReadings (.line text nowNs readings)).Pairwise (· ≤ ·))
    (foreign : ∀ key, reader.lineKey text = some key → ¬relevant key) :
    SameReplays relevant readings.limitAt
      (reader.gateStep left (.line text nowNs readings)).2 right := by
  cases called : reader.lineCall text nowNs readings with
  | none =>
      rw [(gateStep_of_no_call left called).1]
      exact same.later (limitAt_of_ordered ordered)
  | some call =>
      obtain ⟨keyed, rfl⟩ := lineCall_eq_some called
      rw [gateStep_of_call left called]
      exact ⟨same.registry, Gate.alikeOn_step_left same.replayGuard
        (ordered_of_call called ordered) (foreign _ keyed)⟩

/-- Whether the watched lines are taken for replays does not depend on the erased lines,
if no replay key belongs to both. -/
theorem replays_unaffected {watched erased : List (List Char)}
    (apart : ∀ first ∈ erased, ∀ second ∈ watched, ∀ key,
      reader.lineKey first = some key → reader.lineKey second ≠ some key) (state : AuthState)
    (monotone : Machine.Monotone gateReadings start inputs) :
    (reader.replayMachine watched).runKept (otherThan erased) state inputs =
      (reader.replayMachine watched).run state (inputs.filter (otherThan erased)) := by
  let relevant : UInt64 → Prop := fun key =>
    ∃ text ∈ watched, reader.lineKey text = some key
  apply (reader.replayMachine watched).runKept_eq_run_filter gateReadings (otherThan erased)
    (fun _ _ _ => True) (SameReplays relevant)
  · intro start input left right _ ordered _ same
    cases input with
    | replace registry => exact ⟨rfl, rfl, same.replayGuard⟩
    | line text nowNs readings =>
        obtain ⟨verdicts, states⟩ : _ ∧ SameReplays relevant readings.limitAt
            (reader.gateStep left (.line text nowNs readings)).2 _ := same.line ordered
        refine ⟨?_, states⟩
        by_cases seen : text ∈ watched
        · have agree := verdicts fun key keyed => ⟨text, seen, keyed⟩
          simp only [replayMachine, List.contains_iff_mem.mpr seen, if_true, Option.some_inj]
          rw [Bool.eq_iff_iff, beq_iff_eq, beq_iff_eq]
          exact agree
        · simp [replayMachine, seen]
  · intro start input left right dropped ordered _ same
    cases input with
    | replace registry => cases dropped
    | line text nowNs readings =>
        have member : text ∈ erased := by simpa [otherThan] using dropped
        apply same.line_left ordered
        rintro key keyed ⟨other, present, shared⟩
        exact apart text member other present key keyed shared
  · exact monotone
  · exact (reader.replayMachine watched).along_of_forall (fun _ _ _ _ => trivial) state state
  · exact ⟨rfl, .refl _ _ _⟩

end SubmissionReader

end Cosaci.Coordinator
