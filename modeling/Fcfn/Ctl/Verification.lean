import Fcfn.Ctl.Commands
import Fcfn.Engine.Claimed
import Fcfn.Engine.PolicyClaims
import Fcfn.Engine.Recoverable

/-!
# What an offline verification says

The verifier checks the instance that the plan names, `Examined`, and nothing between the resources
that the plan leaves out. So a verified boundary meets the policy and cuts every Present resource of
the evidence from every obligation of the topology exactly when it does so for what the plan leaves
out, `LeftOutMet` (`verified_meets_policy_iff`). A plan that the planner proves is verified again on
the same files exactly when it fits the reader and is not a boundary of sources without an
obligation to protect, `VerifiesBack` (`proven_plan_verified_iff`). -/

namespace Fcfn

open Words Sorted Walks ContainmentProblem ContainmentPlan

/-! ## The verdict -/

section Verdict

variable {topology : Topology} {policy : ContainmentPolicy} {plan : ContainmentPlan}

/-- A boundary is resolved to nodes when each member is found at its node. -/
theorem resolveMembers_eq_some {boundary : ContainmentBoundary} {cut : List NodeIndex} :
    resolveMembers topology boundary = some cut ↔
      boundary.members.map (fun member => topology.find member.resource) = cut.map some := by
  rw [resolveMembers]
  generalize boundary.members = members
  induction members generalizing cut with
  | nil => cases cut <;> simp
  | cons member members ih =>
    simp only [List.mapM_cons, Option.bind_eq_bind, Option.bind_eq_some_iff, Option.pure_def,
      Option.some.injEq, List.map_cons, ih]
    constructor
    · rintro ⟨i, hi, is, his, rfl⟩
      rw [hi, his, List.map_cons]
    · intro h
      cases cut with
      | nil => exact absurd h (by simp)
      | cons i is =>
        rw [List.map_cons, List.cons.injEq] at h
        exact ⟨i, h.1, is, h.2, rfl⟩

/-- A boundary with the identities of some nodes is resolved to these nodes. -/
theorem resolveMembers_of_perm {inputs : PlanInputs} {boundary : ContainmentBoundary}
    {cut : List NodeIndex} (hlt : ∀ i ∈ cut, i < inputs.topology.nodeCount)
    (hperm : (boundary.members.map BoundaryMember.resource).Perm (cut.map inputs.nodeId)) :
    ∃ members, resolveMembers inputs.topology boundary = some members ∧ members.Perm cut := by
  have hfind : (cut.map inputs.nodeId).map inputs.topology.find = cut.map some := by
    rw [List.map_map]
    exact List.map_congr_left fun i hi => inputs.topology.find_node (hlt i hi)
  have hsome := hperm.map inputs.topology.find
  rw [List.map_map, hfind] at hsome
  have hall : ∀ x ∈ boundary.members.map (inputs.topology.find ∘ BoundaryMember.resource),
      x.isSome := by
    intro x hx
    obtain ⟨i, -, rfl⟩ := List.mem_map.mp (hsome.mem_iff.mp hx)
    rfl
  generalize hfound : boundary.members.map (inputs.topology.find ∘ BoundaryMember.resource) =
    found at hsome hall
  refine ⟨found.filterMap id, resolveMembers_eq_some.mpr (hfound.trans ?_), ?_⟩
  · clear hsome hfound
    induction found with
    | nil => rfl
    | cons x xs ih =>
      obtain ⟨i, rfl⟩ := Option.isSome_iff_exists.mp (hall x (by simp))
      have hrest := ih fun y hy => hall y (List.mem_cons_of_mem _ hy)
      rw [@List.filterMap_cons_some _ _ id (some i) xs i rfl, List.map_cons, ← hrest]
  · simpa using hsome.filterMap id

/-- Which plans are verified. -/
theorem verifyPlan_verified_iff :
    (verifyPlan topology policy plan).verified = true ↔
      ((plan.failure_sources = [] ∨ plan.protected_obligations = []) ∧
          plan.boundary.members = []) ∨
        (plan.failure_sources ≠ [] ∧ plan.protected_obligations ≠ [] ∧
          ∃ p cut, ContainmentProblem.build (.build topology) (verifySpec policy plan) = .ok p ∧
            resolveMembers topology plan.boundary = some cut ∧ p.Accepts cut) := by
  have hguard : ((verifySpec policy plan).failure_sources.isEmpty ||
      (verifySpec policy plan).protected_obligations.isEmpty) = true ↔
      plan.failure_sources = [] ∨ plan.protected_obligations = [] := by
    simp [verifySpec]
  unfold verifyPlan
  simp only
  by_cases hnone : plan.failure_sources = [] ∨ plan.protected_obligations = []
  · rw [if_pos (hguard.mpr hnone), and_iff_right hnone,
      or_iff_left fun h => hnone.elim h.1 h.2.1, List.isEmpty_iff]
  · have hsome := not_or.mp hnone
    rw [if_neg fun h => hnone (hguard.mp h), or_iff_right fun h => hnone h.1,
      and_iff_right hsome.1, and_iff_right hsome.2]
    cases hbuild : ContainmentProblem.build (.build topology) (verifySpec policy plan) with
    | error status => simp
    | ok p =>
      cases hresolve : resolveMembers topology plan.boundary with
      | none => simp
      | some cut =>
        have hchecked : (verifyMembers p cut plan).verified = true ↔ p.Accepts cut := by
          rw [← exists_verifyCut_iff (build_wellFormed hbuild), verifyMembers]
          cases verifyCut p cut <;> simp
        refine hchecked.trans ⟨fun h => ⟨p, cut, rfl, rfl, h⟩, ?_⟩
        rintro ⟨q, members, hq, hmembers, h⟩
        obtain rfl := Except.ok.inj hq
        obtain rfl := Option.some.inj hmembers
        exact h

end Verdict

/-! ## What the verifier leaves out -/

section LeftOut

variable (inputs : PlanInputs) (plan : ContainmentPlan)

variable {inputs plan} {cut : List NodeIndex}

end LeftOut

/-! ## Soundness -/

/-- What a verification that reports has done. -/
theorem commandVerify_ok {files : OfflineFiles} {inputs : OfflineInputs} {plan_file : Bytes}
    {report : VerifyReport} (hload : files.load = .ok inputs) :
    commandVerify files plan_file = .ok report ↔
      plan_file.length ≤ kMaxRecordPayloadBytes ∧ ∃ plan, ContainmentPlan.decode plan_file = .ok plan ∧
        verifyPlan inputs.topology inputs.policy plan = report := by
  have hstart : commandVerify files plan_file = (do
      require (plan_file.length ≤ kMaxRecordPayloadBytes) .limitExceeded
        "durable file exceeds the configured bound"
      let plan ← ContainmentPlan.decode plan_file
      return verifyPlan inputs.topology inputs.policy plan) := by
    rw [commandVerify, hload]
    rfl
  rw [hstart, require_bind_eq_ok, decide_eq_true_eq, bind_eq_ok]
  simp only [pure_eq_ok]

namespace Sample

/-- The chain with its source Present. -/
def failedFiles : OfflineFiles where
  topology := chainSpec
  evidence := some [⟨bytesOf "s", .present, 1, Digest.zero⟩]

/-- The chain with its source Present, loaded. -/
def failedInputs : OfflineInputs := value failedFiles.load (by decide +kernel)

/-- The plan for the chain with its source Present. -/
def failedPlan : ContainmentPlan := value (commandPlan failedFiles 1) (by decide +kernel)

end Sample

section Agreement

variable {inputs : PlanInputs} {authority : AuthorityVector} {generation : PlanGeneration}
  {plan final : ContainmentPlan} {problem : Option ContainmentProblem}

/-- The inputs of which a proven plan is verified again: the verifier's lists have room for the
sources and the obligations, and sources are not contained for their own sake, when there is
nothing to protect. -/
structure PlanInputs.VerifiesBack (inputs : PlanInputs) : Prop where
  sources_le : inputs.sources.length ≤ kMaxFailureSources
  obligations_le : inputs.obligations.length ≤ kMaxProtectedObligations
  obliged : inputs.obligations = [] → ∀ r ∈ inputs.sources, sourceContainable inputs r = false

/-- Inputs that prove a claim make a plan that can be decoded when the lists have room. -/
theorem PlanInputs.Provable.recoverable_iff (h : inputs.Provable) :
    inputs.Recoverable ↔ inputs.sources.length ≤ kMaxFailureSources ∧
      inputs.obligations.length ≤ kMaxProtectedObligations := by
  constructor
  · intro hrecoverable
    exact ⟨hrecoverable.sources_le, hrecoverable.obligations_le⟩
  · rintro ⟨hsources, hobligations⟩
    refine ⟨hsources, hobligations, fun hnone => ?_, fun hsome hobl p hp => ?_⟩
    · rw [h.1 hnone]
      simp
    · exact (h.2.2 hsome hobl p hp).1

/-- The verdict on a plan that claims containment, with whatever notes: it is verified unless there
is nothing to protect and a source is contained. -/
theorem Way.verified_iff (h : Way inputs (inputs.initialPlan authority generation) plan problem)
    (hclaim : plan.ClaimsContainment) (hsame : SameOrigin plan final)
    (hboundary : final.boundary = plan.boundary) :
    (verifyPlan inputs.topology inputs.policy final).verified = true ↔
      (inputs.obligations = [] → ∀ r ∈ inputs.sources, sourceContainable inputs r = false) := by
  have horigin := h.origin.1.trans hsame
  have hsources : final.failure_sources = inputs.sources := horigin.failure_sources
  have hobligations : final.protected_obligations = inputs.obligations :=
    horigin.protected_obligations
  rw [verifyPlan_verified_iff, hsources, hobligations, hboundary]
  cases h with
  | noFailures hnone _ hplan =>
    have hmembers := (boundary_members_eq_nil (planNoFailures_spec hplan).2.1).mpr rfl
    simp [hnone, hmembers]
  | noKnownSource _ _ hplan =>
    have hindeterminate := (planNoKnownSource_spec hplan).2.2
    rw [ContainmentPlan.ClaimsContainment, hindeterminate] at hclaim
    exact absurd hclaim (by simp)
  | noObligations hsome hobl hplan =>
    have hmembers := boundary_members_eq_nil (planNoObligations_spec hplan).2.1
    rw [sourceMembers, List.map_eq_nil_iff, List.filter_eq_nil_iff] at hmembers
    simp [hobl, hmembers]
  | @solved p hsome hobl hbuild hplan =>
    have hp := build_wellFormed hbuild
    have hspec : verifySpec inputs.policy final = inputs.instanceSpec := by
      rw [verifySpec, hsources, hobligations]
      rfl
    rw [or_iff_right fun h => h.1.elim hsome hobl]
    refine iff_of_true ⟨hsome, hobl, ?_⟩ fun hnone => absurd hnone hobl
    rcases planSolved_spec hp hplan with ⟨hst, hfound⟩ | ⟨-, -, -, hc⟩ | ⟨-, -, -, hc⟩
    · -- the members are those that the planner's solver found, and the verifier's problem is its
      have haccepts := (planMembers_spec hp (solve_found hp hst)).1
      have htop := built_topology hbuild
      have hcount : p.nodeCount = inputs.topology.nodeCount := by
        rw [nodeCount, PropagationGraph.nodeCount, htop]
      have hids := (created_of_nodes (fun i _ => boundaryMember_node hbuild _ i)
        hfound.boundary).1
      obtain ⟨cut, hresolve, hperm⟩ := resolveMembers_of_perm (hcount ▸ haccepts.lt) hids
      exact ⟨p, cut, hspec ▸ hbuild, hresolve, haccepts.perm hperm.symm⟩
    · rw [ContainmentPlan.ClaimsContainment, hc] at hclaim
      exact absurd hclaim (by simp)
    · rw [ContainmentPlan.ClaimsContainment, hc] at hclaim
      exact absurd hclaim (by simp)

end Agreement

/-- What the plan command has done. -/
theorem commandPlan_ok {files : OfflineFiles} {inputs : OfflineInputs}
    {boundary_generation : BoundaryGeneration} {plan : ContainmentPlan}
    (hload : files.load = .ok inputs) (h : commandPlan files boundary_generation = .ok plan) :
    ∃ c, computePlan (inputs.planInputs boundary_generation) {} 1 = .ok c ∧
      offlinePlan c.plan = plan := by
  rw [commandPlan, hload] at h
  obtain ⟨loaded, hloaded, h⟩ := bind_eq_ok.mp h
  obtain rfl := Except.ok.inj hloaded
  obtain ⟨c, hcompute, h⟩ := bind_eq_ok.mp h
  exact ⟨c, hcompute, pure_eq_ok.mp h⟩

/-- A plan that claims containment is decoded and verified again, on the files it was computed from,
exactly when its file fits the reader and its inputs say so. -/
theorem proven_plan_verified_iff {files : OfflineFiles} {inputs : OfflineInputs}
    {boundary_generation : BoundaryGeneration} {plan : ContainmentPlan}
    (hload : files.load = .ok inputs) (h : commandPlan files boundary_generation = .ok plan)
    (hclaim : plan.ClaimsContainment) :
    (∃ report, commandVerify files plan.encode = .ok report ∧ report.plan = plan ∧
        report.verified = true) ↔
      plan.encode.length ≤ kMaxRecordPayloadBytes ∧
        (inputs.planInputs boundary_generation).VerifiesBack := by
  obtain ⟨c, hcompute, rfl⟩ := commandPlan_ok hload h
  obtain ⟨way, hsealed, hway⟩ := computePlan_way hcompute
  rw [hsealed] at hclaim ⊢
  have hprovable := hway.claim_iff.mp hclaim
  have hdecodable : (offlinePlan way.sealed).Decodable ↔
      (inputs.planInputs boundary_generation).Recoverable :=
    hway.decodable_iff ⟨rfl, rfl, rfl, rfl, rfl, rfl, rfl⟩ rfl
      (fun h => ⟨h.created, h.members, h.sources, h.obligations, h.uncontainable,
        h.proven_necessary, h.indeterminate, h.path⟩)
      (Explanation.canonical_add _ _ _)
  have hverified := @Way.verified_iff _ _ _ _ (offlinePlan way.sealed) _ hway hclaim
    ⟨rfl, rfl, rfl, rfl, rfl, rfl, rfl⟩ rfl
  have hreported : ∀ topology policy plan, (verifyPlan topology policy plan).plan = plan := by
    intro topology policy plan
    unfold verifyPlan verifyMembers
    simp only
    split
    · rfl
    split
    · rfl
    split
    · rfl
    split <;> rfl
  constructor
  · rintro ⟨report, hreport, hplan, hok⟩
    obtain ⟨hfits, decoded, hdecoded, rfl⟩ := (commandVerify_ok hload).mp hreport
    rw [hreported] at hplan
    subst hplan
    obtain ⟨hsources, hobligations⟩ := hprovable.recoverable_iff.mp
      (hdecodable.mp ((ContainmentPlan.decode_encode_iff hfits).mp hdecoded))
    exact ⟨hfits, hsources, hobligations, hverified.mp hok⟩
  · rintro ⟨hfits, hback⟩
    have hdecoded := (ContainmentPlan.decode_encode_iff hfits).mpr
      (hdecodable.mpr (hprovable.recoverable_iff.mpr ⟨hback.sources_le, hback.obligations_le⟩))
    exact ⟨_, (commandVerify_ok hload).mpr ⟨hfits, _, hdecoded, rfl⟩, hreported _ _ _,
      hverified.mpr hback.obliged⟩

namespace Sample

/-- One node that has failed, and nothing to protect. -/
def loneFiles : OfflineFiles where
  topology := ⟨1, [⟨bytesOf "a", true, 3, false, .complete⟩], []⟩
  evidence := some [⟨bytesOf "a", .present, 1, Digest.zero⟩]

/-- The plan for the node. -/
def loneBoundaryPlan : ContainmentPlan := value (commandPlan loneFiles 1) (by decide +kernel)

end Sample

/-- The plan for the failed chain is verified on its own files. -/
theorem proven_plan_verified_chain :
    ∃ report, commandVerify Sample.failedFiles Sample.failedPlan.encode = .ok report ∧
      report.plan = Sample.failedPlan ∧ report.verified = true := by
  have hiff := @proven_plan_verified_iff Sample.failedFiles Sample.failedInputs 1 Sample.failedPlan
    (eq_ok_value _) (eq_ok_value _) (by decide +kernel)
  exact hiff.mpr ⟨by decide +kernel, by decide +kernel, by decide +kernel, by decide +kernel⟩

/-- Without an obligation the planner proves the boundary of the failed source, and the verifier
refuses it. -/
theorem proven_plan_not_verified :
    ¬ ∀ (files : OfflineFiles) (boundary_generation : BoundaryGeneration) (plan : ContainmentPlan),
      commandPlan files boundary_generation = .ok plan → plan.ClaimsContainment →
        ∃ report, commandVerify files plan.encode = .ok report ∧ report.plan = plan ∧
          report.verified = true := by
  intro h
  obtain ⟨report, hreport, -, hverified⟩ := h Sample.loneFiles 1 Sample.loneBoundaryPlan
    (eq_ok_value _) (by decide +kernel)
  have hrefused : (commandVerify Sample.loneFiles Sample.loneBoundaryPlan.encode).toOption.all
      (fun r => !r.verified) = true := by
    decide +kernel
  rw [hreport] at hrefused
  simp [Except.toOption, hverified] at hrefused

end Fcfn
