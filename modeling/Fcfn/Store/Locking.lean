import Fcfn.Lib.Runs
import Fcfn.Store.Reading
import Mathlib.Logic.Function.Basic

/-!
# The lock

Processes open and close the store of one directory, and the steps that they take on its lock
interleave: whether the lock exists, what it says, whether the process that it names is alive, its
removal and its replacement. Opening looks first and writes later, so two processes that have both
looked may both write. When nothing is written between the look of a process and what it then does
to the lock, at most one process holds the store (`one_holder`). -/

namespace Fcfn

open Words Files Program

/-- How far a process has got. -/
inductive LockStage
  /-- The store is not open: the next step of an open is to see whether the lock exists. -/
  | closed
  /-- The lock exists: it is read next. -/
  | found
  /-- The lock was read: whether the process that it names is alive is checked next. -/
  | examining (existing : Bytes)
  /-- The lock is taken over: it is removed next. -/
  | removing
  /-- There is no lock: it is written next. -/
  | writing
  /-- The lock is held: it is given back next. -/
  | holding
  deriving DecidableEq

/-- The lock, and the live processes by their numbers. -/
structure LockSystem where
  lock : Option Bytes
  process : UInt64 → Option LockStage

/-- What happens: a process starts, takes its next step, or dies. -/
inductive LockEvent
  | start (pid : UInt64)
  | step (pid : UInt64)
  | stop (pid : UInt64)
  deriving DecidableEq

namespace LockSystem

variable (signals : UInt64 → UInt64 → Bool)

/-- Whether a process takes another one to be alive: it must be, and the process must be allowed to
signal it. -/
def processIsAlive (sys : LockSystem) (pid owner : UInt64) : Bool :=
  owner == pid || (owner != 0 && (sys.process owner).isSome && signals pid owner)

/-- The next step of a process: its stage and the lock after it. -/
def stepOf (sys : LockSystem) (pid : UInt64) : LockStage → LockStage × Option Bytes
  | .closed => (if sys.lock.isSome then .found else .writing, sys.lock)
  | .found =>
    match sys.lock with
    | none => (.removing, none)
    | some existing => (if existing.length > 64 then .removing else .examining existing, sys.lock)
  | .examining existing =>
    (if (lockOwner existing).any (sys.processIsAlive signals pid) then .closed else .removing, sys.lock)
  | .removing => (.writing, none)
  | .writing => (.holding, some (toDecimal pid))
  | .holding => (.closed, none)

/-- The system after an event. -/
def next (sys : LockSystem) : LockEvent → LockSystem
  | .start pid =>
    if pid ≠ 0 ∧ sys.process pid = none then
      { sys with process := Function.update sys.process pid (some .closed) }
    else sys
  | .step pid =>
    match sys.process pid with
    | none => sys
    | some stage =>
      ⟨(sys.stepOf signals pid stage).2,
        Function.update sys.process pid (some (sys.stepOf signals pid stage).1)⟩
  | .stop pid => { sys with process := Function.update sys.process pid none }

/-- A process holds the store. -/
def Holding (sys : LockSystem) (pid : UInt64) : Prop := sys.process pid = some .holding

instance (sys : LockSystem) (pid : UInt64) : Decidable (sys.Holding pid) :=
  inferInstanceAs (Decidable (_ = _))

/-- No two processes hold the store. -/
def OneHolder (sys : LockSystem) : Prop := ∀ p q, sys.Holding p → sys.Holding q → p = q

/-- Where a run starts: no process is opening the store, and at most one holds it, which the lock
names. The lock may also be absent, or say anything. -/
def Starts (sys : LockSystem) : Prop :=
  sys.process 0 = none ∧ ∀ pid stage, sys.process pid = some stage →
    stage = .closed ∨ stage = .holding ∧ sys.lock = some (toDecimal pid)

end LockSystem

/-! ## What a process has seen of the lock -/

/-- The processes that have not seen the last write of the lock. -/
abbrev LockViews := UInt64 → Bool

/-- A process sees the lock when it finds that there is none, or reads it. What is written then, the
others have not seen. -/
def noteViews (sys : LockSystem) (event : LockEvent) (outdated : LockViews) : LockViews :=
  match event with
  | .start _ | .stop _ => outdated
  | .step pid =>
    match sys.process pid with
    | some .closed | some .found => Function.update outdated pid false
    | some .writing => fun other => other != pid || outdated other
    | _ => outdated

/-- What is asked of a process before a step, by the stage it is in. -/
def UndisturbedAt (signals : UInt64 → UInt64 → Bool) (p : LockSystem × LockViews) (pid : UInt64) :
    Option LockStage → Prop
  | some .removing | some .writing => p.2 pid = false
  | some (.examining existing) =>
    ∀ owner ∈ lockOwner existing, p.1.Holding owner → signals pid owner = true
  | none | some .closed | some .found | some .holding => True

instance (signals : UInt64 → UInt64 → Bool) (p : LockSystem × LockViews) (pid : UInt64) :
    (stage : Option LockStage) → Decidable (UndisturbedAt signals p pid stage)
  | some .removing | some .writing => inferInstanceAs (Decidable (p.2 pid = false))
  | some (.examining existing) =>
    (Option.decidableForallMem _ : Decidable (∀ owner ∈ lockOwner existing,
      p.1.Holding owner → signals pid owner = true))
  | none | some .closed | some .found | some .holding => isTrue trivial

/-- A process removes or writes the lock only when nothing was written since it has seen it, and it
may signal the holder that it checks. -/
def Undisturbed (signals : UInt64 → UInt64 → Bool) (p : LockSystem × LockViews) : LockEvent → Prop
  | .start _ | .stop _ => True
  | .step pid => UndisturbedAt signals p pid (p.1.process pid)

instance (signals : UInt64 → UInt64 → Bool) (p : LockSystem × LockViews) :
    (event : LockEvent) → Decidable (Undisturbed signals p event)
  | .start _ | .stop _ => isTrue trivial
  | .step pid => inferInstanceAs (Decidable (UndisturbedAt signals p pid (p.1.process pid)))

/-! ## Steps in a row -/

/-- A process that takes its steps in a row does to the lock what taking the lock does, and holds the
store when it succeeds. -/
theorem acquire_in_a_row {signals : UInt64 → UInt64 → Bool} {env : FileEnv} (hfaults : env.faults = [])
    {sys : LockSystem} {dir : StoreDir} (hlock : dir.read lockPath = sys.lock)
    (hclosed : sys.process env.process_id = some .closed)
    (halive : processIsAlive env = sys.processIsAlive signals env.process_id) :
    ∃ n sys', Runs.exec (LockSystem.next signals) sys
        (List.replicate n (.step env.process_id)) = sys' ∧
      (run dir (acquireLock env dir).2).read lockPath = sys'.lock ∧
        sys'.process env.process_id = some
          (if (acquireLock env dir).1.isOk then LockStage.holding else .closed) := by
  have hstep : ∀ lock stage, LockSystem.next signals
      ⟨lock, Function.update sys.process env.process_id (some stage)⟩ (.step env.process_id) =
        ⟨(LockSystem.stepOf signals ⟨lock, Function.update sys.process env.process_id (some stage)⟩
          env.process_id stage).2, Function.update sys.process env.process_id
            (some (LockSystem.stepOf signals ⟨lock, Function.update sys.process env.process_id
              (some stage)⟩ env.process_id stage).1)⟩ := by
    intro lock stage
    simp only [LockSystem.next, Function.update_self, Function.update_idem]
  have hstart : sys = ⟨sys.lock, Function.update sys.process env.process_id (some .closed)⟩ := by
    rw [← hclosed, Function.update_eq_self]
  have hwritten : ∀ dir : StoreDir, (run dir (atomicSteps lockPath
      (toDecimal env.process_id))).read lockPath = some (toDecimal env.process_id) :=
    fun dir => read_atomicSteps dir _ _
  -- a stage of its own does not change who is taken to be alive
  have hsees : ∀ lock stage, LockSystem.processIsAlive signals
      ⟨lock, Function.update sys.process env.process_id (some stage)⟩ env.process_id =
        processIsAlive env := by
    intro lock stage
    rw [halive]
    funext owner
    unfold LockSystem.processIsAlive
    by_cases hsame : owner = env.process_id
    · simp [hsame]
    · simp only [Function.update_of_ne hsame]
  cases hread : sys.lock with
  | none =>
    rw [hread] at hlock hstart
    have hcheck : (checkLock env dir).isOk := by
      simp [checkLock, readFile, hlock, fail, require, Except.toOption, Except.isOk, Except.toBool]
    rw [acquireLock_faultless hfaults hcheck, hlock]
    refine ⟨2, _, rfl, ?_⟩
    rw [hstart]
    simp only [List.replicate, Runs.exec_cons, Runs.exec_nil, hstep, LockSystem.stepOf,
      Function.update_self]
    exact ⟨hwritten dir, rfl⟩
  | some existing =>
    rw [hread] at hlock hstart
    have htaken : ∀ dir : StoreDir, (run dir ([.remove lockPath] ++ atomicSteps lockPath
        (toDecimal env.process_id))).read lockPath = some (toDecimal env.process_id) := by
      intro dir
      rw [run_append]
      exact hwritten _
    by_cases hlong : existing.length > 64
    · have hcheck : (checkLock env dir).isOk := by
        simp [checkLock, readFile, hlock, hlong, fail, require, Except.toOption, Except.isOk,
          Except.toBool]
      rw [acquireLock_faultless hfaults hcheck, hlock]
      refine ⟨4, _, rfl, ?_⟩
      rw [hstart]
      simp only [List.replicate, Runs.exec_cons, Runs.exec_nil, hstep, LockSystem.stepOf, hlong,
        Option.isSome_some, if_true, Function.update_self]
      exact ⟨htaken dir, rfl⟩
    have hexisting : (readFile lockPath 64 dir).toOption = some existing := by
      simp [readFile, hlock, hlong, Except.toOption]
    cases hdead : (lockOwner existing).any (processIsAlive env) with
    | true =>
      have hcheck : (checkLock env dir).isOk = false := by
        simp [checkLock, hexisting, hdead, fail, require, Except.isOk, Except.toBool]
      obtain ⟨status, hrefused⟩ := acquireLock_refused hcheck
      rw [hrefused]
      refine ⟨3, _, rfl, ?_⟩
      rw [hstart]
      simp only [List.replicate, Runs.exec_cons, Runs.exec_nil, hstep, LockSystem.stepOf, hlong,
        Option.isSome_some, if_true, if_false, hsees, hdead, Function.update_self]
      exact ⟨hlock, rfl⟩
    | false =>
      have hcheck : (checkLock env dir).isOk := by
        simp [checkLock, hexisting, hdead, require, Except.isOk, Except.toBool]
      rw [acquireLock_faultless hfaults hcheck, hlock]
      refine ⟨5, _, rfl, ?_⟩
      rw [hstart]
      simp only [List.replicate, Runs.exec_cons, Runs.exec_nil, hstep, LockSystem.stepOf, hlong,
        Option.isSome_some, if_true, if_false, hsees, hdead, Bool.false_eq_true, Function.update_self]
      exact ⟨htaken dir, rfl⟩

/-! ## The invariant -/

/-- The lock names the process that holds the store. What a process has seen rules out that another
one holds it, as long as nothing was written since. -/
structure LockInv (sys : LockSystem) (outdated : LockViews) : Prop where
  nobody : sys.process 0 = none
  locked : ∀ q, sys.Holding q → sys.lock = some (toDecimal q)
  examined : ∀ p existing, sys.process p = some (.examining existing) → outdated p = false →
    ∀ q, sys.Holding q → existing = toDecimal q
  free : ∀ p, sys.process p = some .removing ∨ sys.process p = some .writing → outdated p = false →
    ∀ q, ¬ sys.Holding q

/-- A process number is read back from the lock. -/
theorem lockOwner_toDecimal (pid : UInt64) : lockOwner (toDecimal pid) = some pid := by
  have hall : ∀ c ∈ toDecimal pid, (c != 0) = true := by
    intro c hc
    obtain ⟨d, hd, rfl⟩ := List.mem_map.mp hc
    have hrange := (digit_byteOf (Nat.isDigit_of_mem_toDigits (by decide) (by decide) hd)).1
    simp only [bne_iff_ne, ne_eq]
    intro hzero
    rw [hzero] at hrange
    exact hrange (by decide)
  rw [lockOwner, List.takeWhile_eq_self_iff.mpr hall, parseU64_toDecimal]

section Invariant

variable {signals : UInt64 → UInt64 → Bool} {sys : LockSystem} {outdated : LockViews}

/-- At most one process holds the store. -/
theorem LockInv.oneHolder (h : LockInv sys outdated) : sys.OneHolder := by
  intro p q hp hq
  have hsame := Option.some.inj ((h.locked p hp).symm.trans (h.locked q hq))
  have howner := congrArg lockOwner hsame
  rw [lockOwner_toDecimal, lockOwner_toDecimal] at howner
  exact Option.some.inj howner

/-- The invariant where a run starts. -/
theorem LockSystem.Starts.inv (h : sys.Starts) : LockInv sys fun _ => false := by
  obtain ⟨hnobody, hstages⟩ := h
  refine ⟨hnobody, fun q hq => ?_, fun p existing hp => ?_, fun p hp => ?_⟩
  · rcases hstages q _ hq with hclosed | ⟨-, hlock⟩
    · exact absurd hclosed (by simp)
    · exact hlock
  · rcases hstages p _ hp with hclosed | ⟨hholding, -⟩
    · exact absurd hclosed (by simp)
    · exact absurd hholding (by simp)
  · rcases hp with hp | hp
    · rcases hstages p _ hp with hclosed | ⟨hholding, -⟩
      · exact absurd hclosed (by simp)
      · exact absurd hholding (by simp)
    · rcases hstages p _ hp with hclosed | ⟨hholding, -⟩
      · exact absurd hclosed (by simp)
      · exact absurd hholding (by simp)

/-- A process that starts or dies, or only gets to a stage in which it does not hold the store, adds
no holder. -/
theorem LockInv.of_update (h : LockInv sys outdated) {pid : UInt64} {stage : Option LockStage}
    (hpid : pid = 0 → stage = none) (hholding : stage ≠ some .holding) {outdated' : LockViews}
    (hviews : ∀ p ≠ pid, outdated' p = false → outdated p = false)
    (hexamined : ∀ existing, stage = some (.examining existing) → outdated' pid = false →
      ∀ q, sys.Holding q → existing = toDecimal q)
    (hfree : stage = some .removing ∨ stage = some .writing → outdated' pid = false →
      ∀ q, ¬ sys.Holding q) :
    LockInv { sys with process := Function.update sys.process pid stage } outdated' := by
  have hheld : ∀ q, LockSystem.Holding
      { sys with process := Function.update sys.process pid stage } q → sys.Holding q := by
    intro q hq
    unfold LockSystem.Holding at hq
    by_cases hsame : q = pid
    · subst hsame
      simp only [Function.update_self] at hq
      exact absurd hq hholding
    · simp only [Function.update_of_ne hsame] at hq
      exact hq
  refine ⟨?_, fun q hq => h.locked q (hheld q hq), fun p existing hp hview q hq => ?_,
    fun p hp hview q hq => ?_⟩
  · by_cases hsame : 0 = pid
    · subst hsame
      simp only [Function.update_self]
      exact hpid rfl
    · simp only [Function.update_of_ne hsame]
      exact h.nobody
  · by_cases hsame : p = pid
    · subst hsame
      simp only [Function.update_self] at hp
      exact hexamined existing hp hview q (hheld q hq)
    · simp only [Function.update_of_ne hsame] at hp
      exact h.examined p existing hp (hviews p hsame hview) q (hheld q hq)
  · by_cases hsame : p = pid
    · subst hsame
      simp only [Function.update_self] at hp
      exact hfree hp hview q (hheld q hq)
    · simp only [Function.update_of_ne hsame] at hp
      exact h.free p hp (hviews p hsame hview) q (hheld q hq)

/-- A lock without a holder may be removed. -/
theorem LockInv.removed (h : LockInv sys outdated) (hnone : ∀ q, ¬ sys.Holding q) :
    LockInv { sys with lock := none } outdated :=
  ⟨h.nobody, fun q hq => absurd hq (hnone q), h.examined, h.free⟩

/-- A process that holds the store is not outside the system. -/
theorem LockInv.ne_zero (h : LockInv sys outdated) {pid : UInt64} {stage : LockStage}
    (hstage : sys.process pid = some stage) : pid ≠ 0 := by
  rintro rfl
  rw [h.nobody] at hstage
  exact absurd hstage (by simp)

/-- An examined lock whose process is not taken to be alive has no holder. -/
theorem LockInv.stale (h : LockInv sys outdated) {pid : UInt64} {existing : Bytes}
    (hstage : sys.process pid = some (.examining existing))
    (hsignals : ∀ owner ∈ lockOwner existing, sys.Holding owner → signals pid owner = true)
    (hdead : (lockOwner existing).any (sys.processIsAlive signals pid) = false)
    (hview : outdated pid = false) (q : UInt64) : ¬ sys.Holding q := by
  intro hq
  have howner : lockOwner existing = some q := by
    rw [h.examined pid existing hstage hview q hq, lockOwner_toDecimal]
  have hne : q ≠ 0 := h.ne_zero hq
  have hallowed := hsignals q howner hq
  have hlive : (sys.process q).isSome = true := by
    rw [hq]
    rfl
  rw [howner] at hdead
  simp [LockSystem.processIsAlive, hne, hlive, hallowed] at hdead

/-- Every undisturbed step of a process keeps the invariant. -/
theorem LockInv.next_step (h : LockInv sys outdated) {pid : UInt64} {stage : LockStage}
    (hstage : sys.process pid = some stage)
    (hundisturbed : Undisturbed signals (sys, outdated) (.step pid)) :
    LockInv (sys.next signals (.step pid)) (noteViews sys (.step pid) outdated) := by
  have hpid : ∀ {stage : Option LockStage}, pid = 0 → stage = none := fun hzero =>
    absurd hzero (h.ne_zero hstage)
  have hlook : ∀ p ≠ pid, Function.update outdated pid false p = false → outdated p = false := by
    intro p hp hview
    rwa [Function.update_of_ne hp] at hview
  have hnext : sys.next signals (.step pid) = ⟨(sys.stepOf signals pid stage).2,
      Function.update sys.process pid (some (sys.stepOf signals pid stage).1)⟩ := by
    simp only [LockSystem.next, hstage]
  rw [Undisturbed, hstage] at hundisturbed
  rw [hnext]
  simp only [noteViews, hstage]
  cases stage with
  | closed =>
    by_cases hlock : sys.lock.isSome
    · simp only [LockSystem.stepOf, if_pos hlock]
      exact h.of_update hpid (by simp) hlook (by simp) (by simp)
    · simp only [LockSystem.stepOf, if_neg hlock]
      refine h.of_update hpid (by simp) hlook (by simp) fun _ _ q hq => ?_
      rw [h.locked q hq] at hlock
      exact hlock rfl
  | found =>
    cases hlock : sys.lock with
    | none =>
      simp only [LockSystem.stepOf, hlock]
      rw [← hlock]
      refine h.of_update hpid (by simp) hlook (by simp) fun _ _ q hq => ?_
      have hlocked := h.locked q hq
      rw [hlock] at hlocked
      exact absurd hlocked (by simp)
    | some existing =>
      have hnamed : ∀ q, sys.Holding q → existing = toDecimal q := fun q hq =>
        Option.some.inj (hlock.symm.trans (h.locked q hq))
      by_cases hlong : existing.length > 64
      · simp only [LockSystem.stepOf, hlock, if_pos hlong]
        rw [← hlock]
        refine h.of_update hpid (by simp) hlook (by simp) fun _ _ q hq => ?_
        have hshort := length_toDecimal_le q
        rw [hnamed q hq] at hlong
        omega
      · simp only [LockSystem.stepOf, hlock, if_neg hlong]
        rw [← hlock]
        refine h.of_update hpid (by simp) hlook (fun examined hexamining _ q hq => ?_) (by simp)
        simp only [Option.some.injEq, LockStage.examining.injEq] at hexamining
        rw [← hexamining, hnamed q hq]
  | examining existing =>
    cases hdead : (lockOwner existing).any (sys.processIsAlive signals pid) with
    | true =>
      simp only [LockSystem.stepOf, hdead, if_true]
      exact h.of_update hpid (by simp) (fun _ _ hview => hview) (by simp) (by simp)
    | false =>
      simp only [LockSystem.stepOf, hdead, Bool.false_eq_true, if_false]
      exact h.of_update hpid (by simp) (fun _ _ hview => hview) (by simp) fun _ hview =>
        h.stale hstage hundisturbed hdead hview
  | removing =>
    have hnone := h.free pid (Or.inl hstage) hundisturbed
    simp only [LockSystem.stepOf]
    exact (h.removed hnone).of_update hpid (by simp) (fun _ _ hview => hview) (by simp)
      fun _ _ => hnone
  | writing =>
    have hnone := h.free pid (Or.inr hstage) hundisturbed
    have hholds : ∀ q, LockSystem.Holding ⟨some (toDecimal pid),
        Function.update sys.process pid (some .holding)⟩ q → q = pid := by
      intro q hq
      by_contra hne
      unfold LockSystem.Holding at hq
      simp only [Function.update_of_ne hne] at hq
      exact hnone q hq
    -- what the others have seen is outdated
    have hother : ∀ p stage, (Function.update sys.process pid (some .holding)) p = some stage →
        stage ≠ .holding → (p != pid || outdated p) = true := by
      intro p stage hp hne
      by_cases hsame : p = pid
      · subst hsame
        rw [Function.update_self] at hp
        exact absurd (Option.some.inj hp).symm hne
      · simp [hsame]
    refine ⟨?_, fun q hq => ?_, fun p existing hp hview => ?_, fun p hp hview => ?_⟩
    · simp only [Function.update_of_ne (h.ne_zero hstage).symm]
      exact h.nobody
    · rw [hholds q hq]
      rfl
    · exact absurd (hother p _ hp (by simp)) (by simp [hview])
    · rcases hp with hp | hp
      · exact absurd (hother p _ hp (by simp)) (by simp [hview])
      · exact absurd (hother p _ hp (by simp)) (by simp [hview])
  | holding =>
    have hnone : ∀ q, ¬ LockSystem.Holding ⟨none,
        Function.update sys.process pid (some .closed)⟩ q := by
      intro q hq
      unfold LockSystem.Holding at hq
      by_cases hsame : q = pid
      · subst hsame
        simp only [Function.update_self] at hq
        exact absurd hq (by simp)
      · simp only [Function.update_of_ne hsame] at hq
        exact hsame (h.oneHolder q pid hq hstage)
    refine ⟨?_, fun q hq => absurd hq (hnone q), fun p existing _ _ q hq => absurd hq (hnone q),
      fun p _ _ => hnone⟩
    simp only [LockSystem.stepOf, Function.update_of_ne (h.ne_zero hstage).symm]
    exact h.nobody

/-- Every undisturbed event keeps the invariant. -/
theorem LockInv.next (h : LockInv sys outdated) {event : LockEvent}
    (hundisturbed : Undisturbed signals (sys, outdated) event) :
    LockInv (sys.next signals event) (noteViews sys event outdated) := by
  cases event with
  | start pid =>
    by_cases hfresh : pid ≠ 0 ∧ sys.process pid = none
    · simp only [LockSystem.next, if_pos hfresh]
      exact h.of_update (fun hzero => absurd hzero hfresh.1) (by simp) (fun _ _ hview => hview)
        (by simp) (by simp)
    · simp only [LockSystem.next, if_neg hfresh]
      exact h
  | stop pid => exact h.of_update (fun _ => rfl) (by simp) (fun _ _ hview => hview) (by simp) (by simp)
  | step pid =>
    cases hstage : sys.process pid with
    | none =>
      simp only [LockSystem.next, noteViews, hstage]
      exact h
    | some stage => exact h.next_step hstage hundisturbed

end Invariant

/-- At every moment of a run in which no process removes or writes the lock after another one has
written what it has not seen, at most one process holds the store. -/
theorem one_holder {signals : UInt64 → UInt64 → Bool} {sys : LockSystem} (hstart : sys.Starts)
    {events : List LockEvent}
    (h : Runs.Along (Runs.observe (LockSystem.next signals) noteViews) (Undisturbed signals)
      (sys, fun _ => false) events) :
    Runs.Along (LockSystem.next signals) (fun sys event => (sys.next signals event).OneHolder) sys
      events := by
  have halong := Runs.Along.of_invariant (I := fun p : LockSystem × LockViews => LockInv p.1 p.2)
    (Q := fun p event => (p.1.next signals event).OneHolder) (fun p event hinv hundisturbed =>
      ⟨hinv.next hundisturbed, (hinv.next hundisturbed).oneHolder⟩) hstart.inv h
  exact halong.of_observe

namespace Sample

/-- Nobody has opened a store. -/
def unlocked : LockSystem := ⟨none, fun _ => none⟩

/-- Every process may signal every other one. -/
def anySignal (_ _ : UInt64) : Bool := true

/-- A second process looks while the first one holds the store, and again after its death. -/
def takeover : List LockEvent :=
  [.start 1, .start 2, .step 1, .step 1, .step 2, .step 2, .step 2, .stop 1, .step 2, .step 2, .step 2,
    .step 2, .step 2]

/-- Two processes look before either of them writes. -/
def race : List LockEvent := [.start 1, .start 2, .step 1, .step 2, .step 1, .step 2]

end Sample

/-- Nobody holds anything yet. -/
theorem Sample.unlocked_starts : Sample.unlocked.Starts :=
  ⟨rfl, fun _ _ h => absurd h (by simp [Sample.unlocked])⟩

/-- A process takes the lock of a dead one over. -/
theorem one_holder_takeover :
    Runs.Along (LockSystem.next Sample.anySignal)
      (fun sys event => (sys.next Sample.anySignal event).OneHolder) Sample.unlocked
        Sample.takeover :=
  one_holder Sample.unlocked_starts (by decide +kernel)

/-- Two processes that have both found no lock both write it, and both hold the store. -/
theorem two_holders :
    ¬ ∀ (signals : UInt64 → UInt64 → Bool) (sys : LockSystem) (events : List LockEvent), sys.Starts →
      Runs.Along (LockSystem.next signals) (fun sys event => (sys.next signals event).OneHolder) sys
        events := by
  intro hall
  have hlast := (hall Sample.anySignal Sample.unlocked Sample.race Sample.unlocked_starts)
  obtain ⟨-, -, -, -, -, hone, -⟩ := hlast
  exact absurd (hone 1 2 (by decide +kernel) (by decide +kernel)) (by decide)

end Fcfn
