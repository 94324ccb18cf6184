import Fcfn.Engine.Planner

/-!
# The offline commands

`fcfnctl plan` computes a plan from three files and writes its encoding (`commandPlan`), and
`fcfnctl verify` reads such a file back and checks the plan's boundary (`commandVerify`). The text
files are taken as they are parsed: the description of a topology, a list of observations, a policy.
The verifier builds its instance from the topology, the policy and the lists of the plan; the
evidence is loaded, and not read. -/

namespace Fcfn

open Words

/-! ## Inputs -/

/-- What the files that are given to a command hold; the evidence and the policy may be left out. -/
structure OfflineFiles where
  topology : TopologySpec
  evidence : Option (List FailureObservation) := none
  policy : Option ContainmentPolicy := none

/-- The files once they are loaded. -/
structure OfflineInputs where
  topology : Topology
  evidence : EvidenceVector
  policy : ContainmentPolicy

/-- The evidence of a file, or none. -/
def loadEvidence (observations : Option (List FailureObservation)) : Result EvidenceVector :=
  match observations with
  | none => EvidenceVector.build []
  | some observations => EvidenceVector.build (observations.map EvidenceVector.entryOf)

/-- The policy of a file, or the default one. -/
def loadPolicy (policy : Option ContainmentPolicy) : ContainmentPolicy :=
  policy.getD defaultPolicy

/-- Load the files. -/
def OfflineFiles.load (files : OfflineFiles) : Result OfflineInputs := do
  let topology ← Topology.build files.topology
  let evidence ← loadEvidence files.evidence
  return ⟨topology, evidence, loadPolicy files.policy⟩

/-! ## Planning -/

/-- What the plan command hands to the planner: no confirmation is asked for. -/
def OfflineInputs.planInputs (inputs : OfflineInputs) (boundary_generation : BoundaryGeneration) :
    PlanInputs where
  topology := inputs.topology
  evidence := inputs.evidence
  policy := inputs.policy
  freshness := { confirmations := none, current_boot := ⟨0, 0⟩,
                 require_current_boot_confirmation := false }
  boundary_generation := boundary_generation

/-- The plan with the note that nothing has authorized it. -/
def offlinePlan (plan : ContainmentPlan) : ContainmentPlan :=
  (addReason plan .authorizationRequired
    "offline planning aid: this plan carries no coordinator authority").sealed

/-- The plan that the command prints, and of which it writes the encoding. -/
def commandPlan (files : OfflineFiles) (boundary_generation : BoundaryGeneration) :
    Result ContainmentPlan := do
  let inputs ← files.load
  let computed ← computePlan (inputs.planInputs boundary_generation) {} 1
  return offlinePlan computed.plan

/-! ## Verifying -/

/-- The instance that a plan is verified against: its own sources and obligations under the
policy's bounds. -/
def verifySpec (policy : ContainmentPolicy) (plan : ContainmentPlan) :
    ContainmentInstanceSpec where
  failure_sources := plan.failure_sources
  protected_obligations := plan.protected_obligations
  require_source_inclusion := policy.require_failure_source_inclusion
  allow_protected_inclusion := policy.allow_protected_inclusion
  minimize_protected_inclusions := policy.minimize_protected_inclusions
  max_total_weight := policy.max_boundary_weight
  max_members := policy.max_boundary_members

/-- Why a plan was not checked, or did not pass. -/
inductive VerifyReason
  | text (message : String)
  | status (status : Status)
  deriving DecidableEq

/-- The document that the verify command prints. Of the plan it shows the generation, the digest and
the claim and, beside an objective, the total weight and the member count. -/
structure VerifyReport where
  plan : ContainmentPlan
  verified : Bool
  reason : Option VerifyReason := none
  objective : Option ObjectiveVector := none
  deriving DecidableEq

/-- The indices of a boundary's members, when all of them are in the topology. -/
def resolveMembers (topology : Topology) (boundary : ContainmentBoundary) :
    Option (List NodeIndex) :=
  boundary.members.mapM fun member => topology.find member.resource

/-- The verdict on the members of a boundary. -/
def verifyMembers (problem : ContainmentProblem) (members : List NodeIndex)
    (plan : ContainmentPlan) : VerifyReport :=
  match verifyCut problem members with
  | .error status => { plan := plan, verified := false, reason := some (.status status) }
  | .ok objective => { plan := plan, verified := true, objective := some objective }

/-- The verdict on a plan. -/
def verifyPlan (topology : Topology) (policy : ContainmentPolicy) (plan : ContainmentPlan) :
    VerifyReport :=
  let spec := verifySpec policy plan
  if spec.failure_sources.isEmpty || spec.protected_obligations.isEmpty then
    -- Degenerate instances are verified structurally only.
    { plan := plan
      verified := plan.boundary.members.isEmpty
      reason := some (.text "instance has no failure sources or no protected obligations") }
  else
    match ContainmentProblem.build (.build topology) spec with
    | .error status => { plan := plan, verified := false, reason := some (.status status) }
    | .ok problem =>
      match resolveMembers topology plan.boundary with
      | none =>
        { plan := plan
          verified := false
          reason := some (.text "boundary names a resource that is not in the topology") }
      | some members => verifyMembers problem members plan

/-- Read a plan back from a file and verify it. -/
def commandVerify (files : OfflineFiles) (plan_file : Bytes) : Result VerifyReport := do
  let inputs ← files.load
  require (plan_file.length ≤ kMaxRecordPayloadBytes) .limitExceeded
    "durable file exceeds the configured bound"
  let plan ← ContainmentPlan.decode plan_file
  return verifyPlan inputs.topology inputs.policy plan

end Fcfn
