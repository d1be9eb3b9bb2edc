import Cosaci.Foundation.Address
import Cosaci.Jobs.Pipeline

/-!
# Network policies

`network.rs`: the decision about one outbound connection.  An entry of a policy stands for
a set of connections, and a policy allows the union of what its entries stand for, whatever
their order.
-/

namespace Cosaci.Jobs

open Foundation

inductive Decision where
  | allow
  | deny
  | audit
  deriving DecidableEq, Repr

/-- What an outbound connection is trying to reach. -/
structure EgressAttempt where
  hostname : Option String
  addr : IpAddr
  port : UInt16
  scheme : Scheme
  deriving DecidableEq, Repr

/-! ## Evaluation -/

/-- `Tcp` matches every protocol. -/
def schemeMatches (allowed attempted : Scheme) : Bool :=
  allowed = .tcp || allowed = attempted

/-- The comparison of `cidr_contains`, for either family. -/
def maskedEqual {width : Nat} (count : Nat) (base target : BitVec width) : Bool :=
  if width < count then false
  else if count = 0 then true
  else base &&& leadingMask width count == target &&& leadingMask width count

def cidrContains (cidr : String) (addr : IpAddr) : Bool :=
  match splitFirst ['/'] cidr.toList with
  | none => false
  | some (baseStr, countStr) =>
      match readUnsigned (2 ^ 8) countStr with
      | .error _ => false
      | .ok count =>
          match parseIpAddr baseStr, addr with
          | some (.v4 base), .v4 target => maskedEqual count base target
          | some (.v6 base), .v6 target => maskedEqual count base target
          | _, _ => false

def matchesTarget (target : EgressTarget) (attempt : EgressAttempt) : Bool :=
  match target with
  | .host hostname port scheme =>
      attempt.hostname == some hostname && (port == 0 || port == attempt.port) &&
        schemeMatches scheme attempt.scheme
  | .cidr cidr portRangeStart portRangeEnd =>
      ((portRangeStart == 0 && portRangeEnd == 0) ||
        (portRangeStart ≤ attempt.port && attempt.port ≤ portRangeEnd)) &&
      cidrContains cidr attempt.addr

/-- What is decided without a matching entry. -/
def EgressDefault.decision : EgressDefault → Decision
  | .deny => .deny
  | .audit => .audit

/-- The walk over the entries; the first match decides. -/
def evaluateFrom (default : EgressDefault) (attempt : EgressAttempt) :
    List EgressTarget → Decision
  | [] => default.decision
  | target :: rest =>
      if matchesTarget target attempt then .allow else evaluateFrom default attempt rest

def evaluate (policy : NetworkPolicy) (attempt : EgressAttempt) : Decision :=
  evaluateFrom policy.default attempt policy.allow

/-! ## What entries stand for -/

/-- An address and the number of leading bits that count. -/
def parseCidr (cidr : String) : Option (IpAddr × Nat) :=
  match splitFirst ['/'] cidr.toList with
  | none => none
  | some (baseStr, countStr) =>
      match parseIpAddr baseStr, readUnsigned (2 ^ 8) countStr with
      | some base, .ok count => some (base, count)
      | _, _ => none

/-- The addresses of the family of `base` that agree with it on the leading bits; none if
the family has fewer bits. -/
def addressBlock (base : IpAddr) (count : Nat) : Set IpAddr :=
  match base with
  | .v4 base => {addr | count ≤ 32 ∧ ∃ target, addr = .v4 target ∧ AgreeOn count base target}
  | .v6 base => {addr | count ≤ 128 ∧ ∃ target, addr = .v6 target ∧ AgreeOn count base target}

/-- A closed range of ports; two zeros stand for all of them. -/
def portRange (first last : UInt16) : Set UInt16 :=
  {port | (first = 0 ∧ last = 0) ∨ first ≤ port ∧ port ≤ last}

/-- The connections that an entry stands for. -/
def EgressTarget.meaning : EgressTarget → Set EgressAttempt
  | .host hostname port scheme => {attempt | attempt.hostname = some hostname ∧
      (port = 0 ∨ port = attempt.port) ∧ (scheme = .tcp ∨ scheme = attempt.scheme)}
  | .cidr block portRangeStart portRangeEnd => {attempt |
      attempt.port ∈ portRange portRangeStart portRangeEnd ∧
        ∃ base count, parseCidr block = some (base, count) ∧
          attempt.addr ∈ addressBlock base count}

/-- The connections that a policy allows. -/
def NetworkPolicy.meaning (policy : NetworkPolicy) : Set EgressAttempt :=
  ⋃ target ∈ policy.allow, target.meaning

/-! ## Evaluation decides membership -/

theorem maskedEqual_iff {width count : Nat} {base target : BitVec width} :
    maskedEqual count base target = true ↔ count ≤ width ∧ AgreeOn count base target := by
  unfold maskedEqual
  split
  · next large => exact ⟨nofun, fun inside => absurd inside.1 (Nat.not_le.mpr large)⟩
  · next fits =>
      have fits := Nat.not_lt.mp fits
      split
      · next zero =>
          refine iff_of_true rfl ⟨fits, ?_⟩
          rw [zero]
          exact fun i inside => absurd inside (Nat.not_lt_zero i)
      · rw [beq_iff_eq, and_leadingMask_eq_iff fits]
        exact (and_iff_right fits).symm

theorem cidrContains_iff {cidr : String} {addr : IpAddr} :
    cidrContains cidr addr = true ↔
      ∃ base count, parseCidr cidr = some (base, count) ∧ addr ∈ addressBlock base count := by
  unfold cidrContains parseCidr
  cases splitFirst ['/'] cidr.toList with
  | none => simp
  | some parts =>
      obtain ⟨baseStr, countStr⟩ := parts
      dsimp only
      cases readUnsigned (2 ^ 8) countStr with
      | error error => simp
      | ok count =>
          cases parseIpAddr baseStr with
          | none => simp
          | some base =>
              have only : (∃ base' count', some (base, count) = some (base', count') ∧
                  addr ∈ addressBlock base' count') ↔ addr ∈ addressBlock base count := by
                simp
              refine Iff.trans ?_ only.symm
              cases base <;> cases addr <;> simp [maskedEqual_iff, addressBlock]

example : cidrContains "10.0.0.0/8" (.v4 0x0a010203) = true := by decide
example : cidrContains "10.0.0.0/33" (.v4 0x0a000000) = false := by decide
example : cidrContains "::ffff:10.0.0.0/+104" (.v6 0xffff0a010203) = true := by decide
example : cidrContains "010.0.0.0/8" (.v4 0x0a010203) = false := by decide

variable {attempt : EgressAttempt}

theorem matchesTarget_iff {target : EgressTarget} :
    matchesTarget target attempt = true ↔ attempt ∈ target.meaning := by
  cases target with
  | host hostname port scheme =>
      simp [matchesTarget, EgressTarget.meaning, schemeMatches, and_assoc]
  | cidr cidr portRangeStart portRangeEnd =>
      simp [matchesTarget, EgressTarget.meaning, portRange, cidrContains_iff]

/-- The walk ends at an entry that the attempt belongs to, or at the default. -/
theorem evaluateFrom_cases (default : EgressDefault) (attempt : EgressAttempt)
    (targets : List EgressTarget) :
    (∃ target ∈ targets, attempt ∈ target.meaning) ∧
        evaluateFrom default attempt targets = .allow ∨
      (∀ target ∈ targets, attempt ∉ target.meaning) ∧
        evaluateFrom default attempt targets = default.decision := by
  induction targets with
  | nil => exact Or.inr ⟨by simp, rfl⟩
  | cons target rest ih =>
      rw [evaluateFrom]
      split
      · next matched => exact Or.inl ⟨⟨target, by simp, matchesTarget_iff.mp matched⟩, rfl⟩
      · next unmatched =>
          rcases ih with ⟨⟨other, member, inside⟩, allowed⟩ | ⟨outside, denied⟩
          · exact Or.inl ⟨⟨other, List.mem_cons_of_mem _ member, inside⟩, allowed⟩
          · refine Or.inr ⟨List.forall_mem_cons.mpr ⟨?_, outside⟩, denied⟩
            exact fun inside => unmatched (matchesTarget_iff.mpr inside)

theorem decision_ne_allow (default : EgressDefault) : default.decision ≠ .allow := by
  cases default <;> exact nofun

theorem evaluate_eq_allow_iff {policy : NetworkPolicy} :
    evaluate policy attempt = .allow ↔ attempt ∈ policy.meaning := by
  rw [evaluate, NetworkPolicy.meaning, Set.mem_iUnion₂]
  rcases evaluateFrom_cases policy.default attempt policy.allow with
    ⟨⟨target, member, inside⟩, allowed⟩ | ⟨outside, denied⟩
  · exact iff_of_true allowed ⟨target, member, inside⟩
  · rw [denied]
    refine iff_of_false (decision_ne_allow _) ?_
    rintro ⟨target, member, inside⟩
    exact outside target member inside

theorem evaluate_of_not_mem {policy : NetworkPolicy} (outside : attempt ∉ policy.meaning) :
    evaluate policy attempt = policy.default.decision := by
  rcases evaluateFrom_cases policy.default attempt policy.allow with ⟨-, allowed⟩ | ⟨-, denied⟩
  · exact absurd (evaluate_eq_allow_iff.mp allowed) outside
  · exact denied

/-- A policy with fewer entries allows less. -/
theorem meaning_mono {policy other : NetworkPolicy} (fewer : policy.allow ⊆ other.allow) :
    policy.meaning ⊆ other.meaning := by
  intro attempt inside
  obtain ⟨target, member, belongs⟩ := Set.mem_iUnion₂.mp inside
  exact Set.mem_iUnion₂.mpr ⟨target, fewer member, belongs⟩

/-- Only the set of the entries matters. -/
theorem evaluate_congr {policy other : NetworkPolicy}
    (same : ∀ target, target ∈ policy.allow ↔ target ∈ other.allow)
    (default : policy.default = other.default) (attempt : EgressAttempt) :
    evaluate policy attempt = evaluate other attempt := by
  have meaning : policy.meaning = other.meaning :=
    (meaning_mono fun _ => (same _).mp).antisymm (meaning_mono fun _ => (same _).mpr)
  by_cases inside : attempt ∈ policy.meaning
  · rw [evaluate_eq_allow_iff.mpr inside]
    rw [meaning] at inside
    exact (evaluate_eq_allow_iff.mpr inside).symm
  · rw [evaluate_of_not_mem inside, default]
    rw [meaning] at inside
    exact (evaluate_of_not_mem inside).symm

theorem addressBlock_antitone (base : IpAddr) {fewer count : Nat} (le : fewer ≤ count) :
    addressBlock base count ⊆ addressBlock base fewer := by
  intro addr inside
  cases base with
  | v4 base =>
      obtain ⟨fits, target, rfl, agree⟩ := inside
      exact ⟨le.trans fits, target, rfl, agree.mono le⟩
  | v6 base =>
      obtain ⟨fits, target, rfl, agree⟩ := inside
      exact ⟨le.trans fits, target, rfl, agree.mono le⟩

/-- A longer block is contained in a shorter one with the same base. -/
theorem meaning_cidr_antitone {longer shorter : String} {base : IpAddr} {p q : Nat}
    (parsed : parseCidr shorter = some (base, p)) (parsed' : parseCidr longer = some (base, q))
    (le : p ≤ q) (first last : UInt16) :
    (EgressTarget.cidr longer first last).meaning ⊆
      (EgressTarget.cidr shorter first last).meaning := by
  rintro attempt ⟨port, base', q', found, inside⟩
  rw [parsed', Option.some.injEq, Prod.mk.injEq] at found
  obtain ⟨rfl, rfl⟩ := found
  exact ⟨port, base, p, parsed, addressBlock_antitone base le inside⟩

theorem mem_repeated_iff {front back : List EgressTarget} {repeated : EgressTarget}
    (member : repeated ∈ front ++ back) (target : EgressTarget) :
    target ∈ front ++ repeated :: back ↔ target ∈ front ++ back := by
  simp only [List.mem_append, List.mem_cons] at member ⊢
  constructor
  · rintro (here | rfl | there)
    · exact Or.inl here
    · exact member
    · exact Or.inr there
  · exact Or.imp_right Or.inr

/-- A policy allows the connections that its entries stand for: their order and their
repetition do not matter, more entries allow more, and a longer block is contained in a
shorter one. -/
theorem evaluate_denotes (policy : NetworkPolicy) (attempt : EgressAttempt) :
    (evaluate policy attempt = .allow ↔ attempt ∈ ⋃ target ∈ policy.allow, target.meaning) ∧
      (∀ allow : List EgressTarget, allow.Perm policy.allow →
        evaluate ⟨allow, policy.default⟩ attempt = evaluate policy attempt) ∧
      (∀ front repeated back, policy.allow = front ++ back → repeated ∈ policy.allow →
        evaluate ⟨front ++ repeated :: back, policy.default⟩ attempt =
          evaluate policy attempt) ∧
      (∀ front added back, policy.allow = front ++ back → evaluate policy attempt = .allow →
        evaluate ⟨front ++ added :: back, policy.default⟩ attempt = .allow) ∧
      ∀ longer shorter base p q first last, parseCidr shorter = some (base, p) →
        parseCidr longer = some (base, q) → p ≤ q →
        (EgressTarget.cidr longer first last).meaning ⊆
          (EgressTarget.cidr shorter first last).meaning := by
  refine ⟨evaluate_eq_allow_iff, ?_, ?_, ?_, ?_⟩
  · intro allow permuted
    apply evaluate_congr
    · exact fun target => permuted.mem_iff
    · rfl
  · intro front repeated back whole member
    apply evaluate_congr
    · rw [whole] at member ⊢
      exact mem_repeated_iff member
    · rfl
  · intro front added back whole allowed
    have more : policy.allow ⊆ front ++ added :: back := by
      rw [whole]
      exact ((List.sublist_cons_self added back).append_left front).subset
    exact evaluate_eq_allow_iff.mpr (meaning_mono more (evaluate_eq_allow_iff.mp allowed))
  · intro longer shorter base p q first last parsed parsed' le
    exact meaning_cidr_antitone parsed parsed' le first last

/-- The block of ten, and the shorter one that contains it. -/
theorem evaluate_denotes_internal :
    evaluate ⟨[.cidr "10.0.0.0/8" 0 0], .deny⟩ ⟨none, .v4 0x0a010203, 443, .tcp⟩ = .allow ∧
      evaluate ⟨[.host "a" 0 .tcp, .cidr "10.0.0.0/8" 0 0], .deny⟩
        ⟨none, .v4 0x0a010203, 443, .tcp⟩ = .allow ∧
      (EgressTarget.cidr "10.0.0.0/8" 0 0).meaning ⊆
        (EgressTarget.cidr "10.0.0.0/4" 0 0).meaning := by
  obtain ⟨-, -, -, added, contained⟩ :=
    evaluate_denotes ⟨[.cidr "10.0.0.0/8" 0 0], .deny⟩ ⟨none, .v4 0x0a010203, 443, .tcp⟩
  refine ⟨by decide, added [] (.host "a" 0 .tcp) [.cidr "10.0.0.0/8" 0 0] rfl (by decide), ?_⟩
  exact contained "10.0.0.0/8" "10.0.0.0/4" (.v4 0x0a000000) 4 8 0 0 (by decide) (by decide)
    (by decide)

end Cosaci.Jobs
