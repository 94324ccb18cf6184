import Mathlib.Data.List.Basic

/-!
# Files and crashes

A directory maps names to contents. A program reads it and changes it in steps: a step creates a
file with a content, renames a file over another, appends to one or removes one. A crash leaves the
steps that were done and, of the step in progress, a prefix of the bytes it writes, or nothing of
it; a rename is atomic. What a crash may leave is therefore again what some steps lead to
(`crashed`), a file that no step touches is as it was (`read_run`), and so is the list of the files
of a kind that no step touches (`listing_run`). -/

namespace Fcfn.Files

variable {ν β : Type} [DecidableEq ν]

/-- The files of a directory, by name. -/
abbrev Dir (ν β : Type) := List (ν × List β)

namespace Dir

/-- The content of a file. -/
def read (dir : Dir ν β) (name : ν) : Option (List β) :=
  (dir.find? fun file => file.1 = name).map Prod.snd

/-- Remove a file, if it is there. -/
def remove (dir : Dir ν β) (name : ν) : Dir ν β := dir.filter fun file => file.1 ≠ name

/-- Give a file a content. -/
def write (dir : Dir ν β) (name : ν) (bytes : List β) : Dir ν β := (name, bytes) :: dir.remove name

@[simp] theorem read_write (dir : Dir ν β) (name : ν) (bytes : List β) :
    (dir.write name bytes).read name = some bytes := by
  simp [read, write]

@[simp] theorem read_remove (dir : Dir ν β) (name : ν) : (dir.remove name).read name = none := by
  simp [read, remove]

/-- The other files stay. -/
theorem read_remove_of_ne (dir : Dir ν β) {name other : ν} (h : other ≠ name) :
    (dir.remove name).read other = dir.read other := by
  have htest : ∀ file : ν × List β, (decide (file.1 ≠ name) = true ∧ decide (file.1 = other) = true) =
      (file.1 = other) := by
    intro file
    by_cases hfile : file.1 = other
    · simp [hfile, h]
    · simp [hfile]
  simp only [read, remove, List.find?_filter, htest]

/-- The other files stay. -/
theorem read_write_of_ne (dir : Dir ν β) {name other : ν} (bytes : List β) (h : other ≠ name) :
    (dir.write name bytes).read other = dir.read other := by
  have hhead : read (write dir name bytes) other = read (dir.remove name) other := by
    simp [read, write, Ne.symm h]
  rw [hhead, read_remove_of_ne dir h]

end Dir

/-! ## Steps -/

/-- One change of a directory. -/
inductive Step (ν β : Type)
  | create (name : ν) (bytes : List β)
  | rename (source target : ν)
  | append (name : ν) (bytes : List β)
  | remove (name : ν)
  deriving DecidableEq

/-- The names whose files a step may change. -/
def Step.touches : Step ν β → List ν
  | .create name _ | .append name _ | .remove name => [name]
  | .rename source target => [source, target]

/-- What a step makes of a directory. -/
def Step.run (dir : Dir ν β) : Step ν β → Dir ν β
  | .create name bytes => dir.write name bytes
  | .rename source target =>
    match dir.read source with
    | none => dir
    | some bytes => (dir.remove source).write target bytes
  | .append name bytes => dir.write name ((dir.read name).getD [] ++ bytes)
  | .remove name => dir.remove name

/-- What is done of a step that stops after so many bytes. -/
def Step.cut (written : ℕ) : Step ν β → List (Step ν β)
  | .create name bytes => [.create name (bytes.take written)]
  | .append name bytes => [.append name (bytes.take written)]
  | .rename _ _ | .remove _ => []

/-- Take the steps one after the other. -/
def run (dir : Dir ν β) (steps : List (Step ν β)) : Dir ν β := steps.foldl Step.run dir

/-- What a crash leaves of some steps: the first of them, and of the next one what was written when
it was in progress. -/
def crashed (done : ℕ) (written : Option ℕ) (steps : List (Step ν β)) : List (Step ν β) :=
  steps.take done ++ match written with
    | none => []
    | some written => (steps[done]?.map (Step.cut written)).getD []

@[simp] theorem run_nil (dir : Dir ν β) : run dir [] = dir := rfl

@[simp] theorem run_cons (dir : Dir ν β) (step : Step ν β) (steps : List (Step ν β)) :
    run dir (step :: steps) = run (step.run dir) steps := rfl

theorem run_append (dir : Dir ν β) (steps steps' : List (Step ν β)) :
    run dir (steps ++ steps') = run (run dir steps) steps' :=
  List.foldl_append

omit [DecidableEq ν] in
@[simp] theorem crashed_nil (done : ℕ) (written : Option ℕ) :
    crashed done written ([] : List (Step ν β)) = [] := by
  cases written <;> simp [crashed]

/-- What the files hold after an append. -/
theorem read_append (dir : Dir ν β) (name : ν) (bytes : List β) (other : ν) :
    (run dir [.append name bytes]).read other =
      if other = name then some ((dir.read name).getD [] ++ bytes) else dir.read other := by
  show (dir.write name ((dir.read name).getD [] ++ bytes)).read other = _
  split
  · rename_i heq
    rw [heq, Dir.read_write]
  · rename_i hne
    exact Dir.read_write_of_ne dir _ hne

/-- A step leaves the files alone that it does not touch. -/
theorem Step.read_run (dir : Dir ν β) {step : Step ν β} {name : ν} (h : name ∉ step.touches) :
    (step.run dir).read name = dir.read name := by
  cases step with
  | create other bytes => exact dir.read_write_of_ne bytes (by simpa [touches] using h)
  | append other bytes => exact dir.read_write_of_ne _ (by simpa [touches] using h)
  | remove other => exact dir.read_remove_of_ne (by simpa [touches] using h)
  | rename source target =>
    simp only [touches, List.mem_cons, List.not_mem_nil, or_false, not_or] at h
    cases hsource : dir.read source with
    | none => rw [run, hsource]
    | some bytes =>
      rw [run, hsource]
      show ((dir.remove source).write target bytes).read name = _
      rw [Dir.read_write_of_ne _ _ h.2, Dir.read_remove_of_ne _ h.1]

/-- None of the steps touches the file. -/
def Avoids (name : ν) (steps : List (Step ν β)) : Prop := ∀ step ∈ steps, name ∉ step.touches

section Avoids

variable {name : ν} {steps steps' : List (Step ν β)}

/-- A file that no step touches is as it was. -/
theorem read_run (dir : Dir ν β) (h : Avoids name steps) :
    (run dir steps).read name = dir.read name := by
  induction steps generalizing dir with
  | nil => rfl
  | cons step steps ih =>
    rw [run_cons, ih _ fun other hmem => h other (by simp [hmem])]
    exact Step.read_run dir (h step (by simp))

omit [DecidableEq ν] in
theorem Avoids.append (h : Avoids name steps) (h' : Avoids name steps') :
    Avoids name (steps ++ steps') :=
  fun step hmem => (List.mem_append.mp hmem).elim (h step) (h' step)

omit [DecidableEq ν] in
/-- What is left of a step touches what the step touches. -/
theorem touches_cut {step part : Step ν β} {written : ℕ} (h : part ∈ step.cut written) :
    part.touches = step.touches := by
  cases step with
  | create _ _ | append _ _ =>
    obtain rfl := List.mem_singleton.mp h
    rfl
  | rename _ _ | remove _ => exact absurd h (by simp [Step.cut])

omit [DecidableEq ν] in
/-- A file that the steps do not touch is not touched by what a crash leaves of them. -/
theorem Avoids.crashed (h : Avoids name steps) (done : ℕ) (written : Option ℕ) :
    Avoids name (Files.crashed done written steps) := by
  intro part hmem
  rcases List.mem_append.mp hmem with hdone | hcut
  · exact h part (List.mem_of_mem_take hdone)
  · cases written with
    | none => exact absurd hcut (by simp)
    | some written =>
      cases hstep : steps[done]? with
      | none => exact absurd hcut (by simp [hstep])
      | some step =>
        rw [hstep] at hcut
        rw [touches_cut hcut]
        exact h step (List.mem_of_getElem? hstep)

end Avoids

omit [DecidableEq ν] in
/-- A crash of some steps and then others is one of the first, or comes after all of them. -/
theorem crashed_append (done : ℕ) (written : Option ℕ) (steps steps' : List (Step ν β)) :
    (done < steps.length ∧ crashed done written (steps ++ steps') = crashed done written steps) ∨
      steps.length ≤ done ∧ crashed done written (steps ++ steps') =
        steps ++ crashed (done - steps.length) written steps' := by
  rcases Nat.lt_or_ge done steps.length with hlt | hge
  · refine Or.inl ⟨hlt, ?_⟩
    unfold crashed
    rw [List.take_append_of_le_length (Nat.le_of_lt hlt), List.getElem?_append_left hlt]
  · refine Or.inr ⟨hge, ?_⟩
    unfold crashed
    rw [List.take_append, List.take_of_length_le hge, List.getElem?_append_right hge,
      List.append_assoc]

omit [DecidableEq ν] in
/-- A crash after all of the steps. -/
theorem crashed_all {steps : List (Step ν β)} {done : ℕ} (h : steps.length ≤ done)
    (written : Option ℕ) : crashed done written steps = steps := by
  unfold crashed
  rw [List.take_of_length_le h, List.getElem?_eq_none h]
  cases written <;> simp

/-! ## Listings -/

/-- The names in a directory that pass a test, in the order in which the directory lists them. -/
def Dir.listing (p : ν → Bool) (dir : Dir ν β) : List ν := (dir.map Prod.fst).filter p

section Listing

variable {p : ν → Bool} {name : ν}

/-- A file that is removed is not listed. -/
theorem Dir.listing_remove (dir : Dir ν β) (name : ν) :
    (dir.remove name).listing p = (dir.listing p).filter (· ≠ name) := by
  unfold listing remove
  rw [List.filter_filter, List.filter_map, List.filter_map, List.filter_filter]
  congr 2
  funext file
  exact Bool.and_comm _ _

/-- A name that fails the test is not listed. -/
theorem Dir.listing_filter_ne (dir : Dir ν β) (h : p name = false) :
    (dir.listing p).filter (· ≠ name) = dir.listing p := by
  rw [List.filter_eq_self]
  intro other hmem
  have hother : p other = true := (List.mem_filter.mp hmem).2
  simp only [decide_eq_true_eq]
  rintro rfl
  exact absurd (h.symm.trans hother) (by simp)

/-- A file that is written is listed first. -/
theorem Dir.listing_write (dir : Dir ν β) (name : ν) (bytes : List β) :
    (dir.write name bytes).listing p =
      (if p name then [name] else []) ++ (dir.listing p).filter (· ≠ name) := by
  rw [← Dir.listing_remove]
  unfold Dir.listing Dir.write
  rw [List.map_cons, List.filter_cons]
  split <;> rfl

/-- A step that touches only names that fail the test leaves the listing. -/
theorem Step.listing_run (dir : Dir ν β) {step : Step ν β} (h : ∀ name ∈ step.touches, p name = false) :
    (step.run dir).listing p = dir.listing p := by
  cases step with
  | create name bytes | append name bytes =>
    have hname : p name = false := h name (by simp [touches])
    simp only [run, Dir.listing_write, hname, Bool.false_eq_true, if_false, List.nil_append,
      Dir.listing_filter_ne dir hname]
  | remove name =>
    have hname : p name = false := h name (by simp [touches])
    simp only [run, Dir.listing_remove, Dir.listing_filter_ne dir hname]
  | rename source target =>
    have hsource : p source = false := h source (by simp [touches])
    have htarget : p target = false := h target (by simp [touches])
    cases hread : dir.read source with
    | none => simp only [run, hread]
    | some bytes =>
      simp only [run, hread, Dir.listing_write, htarget, Bool.false_eq_true, if_false, List.nil_append,
        Dir.listing_filter_ne _ htarget, Dir.listing_remove, Dir.listing_filter_ne _ hsource]

/-- Steps that touch only names that fail the test leave the listing. -/
theorem listing_run (dir : Dir ν β) {steps : List (Step ν β)}
    (h : ∀ step ∈ steps, ∀ name ∈ step.touches, p name = false) :
    (run dir steps).listing p = dir.listing p := by
  induction steps generalizing dir with
  | nil => rfl
  | cons step steps ih =>
    rw [run_cons, ih _ fun other hmem => h other (by simp [hmem])]
    exact Step.listing_run dir (h step (by simp))

/-- The files that are removed are not listed any more. -/
theorem listing_removes (dir : Dir ν β) (names : List ν) :
    (run dir (names.map .remove)).listing p = (dir.listing p).filter (· ∉ names) := by
  induction names generalizing dir with
  | nil => simp
  | cons name names ih =>
    rw [List.map_cons, run_cons, ih]
    show ((dir.remove name).listing p).filter (· ∉ names) = _
    rw [Dir.listing_remove, List.filter_filter]
    congr 1
    funext other
    simp [Bool.and_comm]

end Listing

/-! ## Programs -/

/-- The steps that the file system fails, and after how many bytes. -/
abbrev Faults (ν β : Type) := List (Step ν β × ℕ)

/-- A program: what it returns on a directory, and the steps it takes. -/
def Program (ν β ε α : Type) := Dir ν β → Except ε α × List (Step ν β)

namespace Program

variable {ε α γ : Type}

/-- One program after another, which sees what the first has done. -/
def andThen (p : Program ν β ε α) (f : α → Program ν β ε γ) : Program ν β ε γ := fun dir =>
  match p dir with
  | (.error e, steps) => (.error e, steps)
  | (.ok a, steps) =>
    let (outcome, later) := f a (run dir steps)
    (outcome, steps ++ later)

instance : Monad (Program ν β ε) where
  pure a := fun _ => (.ok a, [])
  bind := andThen

/-- Look at the directory. -/
def look (f : Dir ν β → Except ε α) : Program ν β ε α := fun dir => (f dir, [])

/-- Stop with an error. -/
def throw (e : ε) : Program ν β ε α := fun _ => (.error e, [])

/-- Try a step, which the file system may fail part of the way. -/
def attempt [DecidableEq β] (faults : Faults ν β) (step : Step ν β) : Program ν β ε Bool := fun _ =>
  match faults.lookup step with
  | none => (.ok true, [step])
  | some written => (.ok false, step.cut written)

/-- Whether a program succeeds, as a value. -/
def outcome (p : Program ν β ε α) : Program ν β ε (Except ε α) := fun dir =>
  let (outcome, steps) := p dir
  (.ok outcome, steps)

theorem pure_apply (a : α) (dir : Dir ν β) : (pure a : Program ν β ε α) dir = (.ok a, []) := rfl

omit [DecidableEq ν] in
theorem outcome_apply (p : Program ν β ε α) (dir : Dir ν β) :
    p.outcome dir = (.ok (p dir).1, (p dir).2) := rfl

/-- A program goes on after what succeeds. -/
theorem bind_ok {p : Program ν β ε α} {f : α → Program ν β ε γ} {dir : Dir ν β} {a : α}
    {steps : List (Step ν β)} (h : p dir = (.ok a, steps)) :
    (p >>= f) dir = ((f a (run dir steps)).1, steps ++ (f a (run dir steps)).2) := by
  show p.andThen f dir = _
  rw [andThen, h]

/-- A program ends with the first error. -/
theorem bind_error {p : Program ν β ε α} {f : α → Program ν β ε γ} {dir : Dir ν β} {e : ε}
    {steps : List (Step ν β)} (h : p dir = (.error e, steps)) :
    (p >>= f) dir = (.error e, steps) := by
  show p.andThen f dir = _
  rw [andThen, h]

/-- A look that succeeds. -/
theorem look_bind {look : Dir ν β → Except ε α} {f : α → Program ν β ε γ} {dir : Dir ν β} {a : α}
    (h : look dir = .ok a) : (Program.look look >>= f) dir = f a dir := by
  have hlook : Program.look look dir = (.ok a, []) := by rw [Program.look, h]
  rw [bind_ok hlook]
  rfl

/-- A look that cannot fail. -/
theorem look_pure_bind (look : Dir ν β → α) (f : α → Program ν β ε γ) (dir : Dir ν β) :
    (Program.look (fun dir => .ok (look dir)) >>= f) dir = f (look dir) dir := rfl

/-- A program whose value is not looked at. -/
theorem bind_pure_ok {p : Program ν β ε γ} {dir : Dir ν β} {c : γ} (h : (p dir).1 = .ok c) (a : α) :
    (p >>= fun _ => Pure.pure a) dir = (.ok a, (p dir).2) := by
  rw [bind_ok (Prod.ext h rfl)]
  simp only [pure_apply, List.append_nil]

/-- A program that goes on after another and succeeds. -/
theorem of_bind_ok {p : Program ν β ε α} {f : α → Program ν β ε γ} {dir : Dir ν β} {c : γ}
    {steps : List (Step ν β)} (h : (p >>= f) dir = (.ok c, steps)) :
    ∃ a first later, p dir = (.ok a, first) ∧ f a (run dir first) = (.ok c, later) ∧
      steps = first ++ later := by
  cases hp : p dir with
  | mk outcome first =>
    cases outcome with
    | error e =>
      rw [bind_error hp] at h
      exact absurd (Prod.mk.inj h).1 (by simp)
    | ok a =>
      rw [bind_ok hp] at h
      obtain ⟨hc, hsteps⟩ := Prod.mk.inj h
      exact ⟨a, first, _, rfl, Prod.ext hc rfl, hsteps.symm⟩

/-- A program that looks first and succeeds has found something and goes on in the same
directory. -/
theorem of_look_bind_ok {look : Dir ν β → Except ε α} {f : α → Program ν β ε γ} {dir : Dir ν β} {c : γ}
    {steps : List (Step ν β)} (h : (Program.look look >>= f) dir = (.ok c, steps)) :
    ∃ a, look dir = .ok a ∧ f a dir = (.ok c, steps) := by
  obtain ⟨a, first, later, hlook, hrest, rfl⟩ := of_bind_ok h
  obtain ⟨hfound, rfl⟩ := Prod.mk.inj hlook
  exact ⟨a, hfound, hrest⟩

/-- A step that does not fail. -/
theorem attempt_bind [DecidableEq β] {faults : Faults ν β} {step : Step ν β} {f : Bool → Program ν β ε γ}
    {dir : Dir ν β} (h : faults.lookup step = none) :
    (attempt faults step >>= f) dir =
      ((f true (step.run dir)).1, step :: (f true (step.run dir)).2) := by
  have hattempt : attempt (ε := ε) faults step dir = (.ok true, [step]) := by rw [attempt, h]
  rw [bind_ok hattempt]
  rfl

/-- A step that was tried and did not fail. -/
theorem attempt_of_ok [DecidableEq β] {faults : Faults ν β} {step : Step ν β} {dir : Dir ν β}
    {steps : List (Step ν β)} (h : attempt (ε := ε) faults step dir = (.ok true, steps)) :
    steps = [step] := by
  unfold attempt at h
  split at h
  · exact (Prod.mk.inj h).2.symm
  · exact absurd (Prod.mk.inj h).1 (by simp)

/-! ## What a program may do -/

/-- On every directory, the program takes only steps with a property. -/
def Only (P : Step ν β → Prop) (p : Program ν β ε α) : Prop := ∀ dir, ∀ step ∈ (p dir).2, P step

section Only

variable {P : Step ν β → Prop}

theorem Only.pure (a : α) : Only P (Pure.pure a : Program ν β ε α) :=
  fun _ _ hmem => absurd hmem (by simp [pure_apply])

omit [DecidableEq ν] in
theorem Only.look (f : Dir ν β → Except ε α) : Only P (look f) :=
  fun _ _ hmem => absurd hmem (by simp [Program.look])

omit [DecidableEq ν] in
theorem Only.throw (e : ε) : Only P (throw e : Program ν β ε α) :=
  fun _ _ hmem => absurd hmem (by simp [Program.throw])

omit [DecidableEq ν] in
theorem Only.outcome {p : Program ν β ε α} (h : Only P p) : Only P p.outcome := h

/-- One program after another. -/
theorem Only.bind {p : Program ν β ε α} {f : α → Program ν β ε γ} (hp : Only P p)
    (hf : ∀ a, Only P (f a)) : Only P (p >>= f) := by
  intro dir step hmem
  cases hpd : p dir with
  | mk outcome first =>
    have hfirst : ∀ step ∈ first, P step := by
      have hdir := hp dir
      rwa [hpd] at hdir
    cases outcome with
    | error e =>
      rw [bind_error hpd] at hmem
      exact hfirst step hmem
    | ok a =>
      rw [bind_ok hpd] at hmem
      rcases List.mem_append.mp hmem with hmem | hmem
      · exact hfirst step hmem
      · exact hf a _ step hmem

/-- A step that is tried, or what is done of it. -/
theorem Only.attempt [DecidableEq β] {step : Step ν β} (faults : Faults ν β) (hstep : P step)
    (hcut : ∀ written, ∀ part ∈ step.cut written, P part) :
    Only P (attempt faults step : Program ν β ε Bool) := by
  intro dir part hmem
  unfold Program.attempt at hmem
  split at hmem
  · exact List.mem_singleton.mp hmem ▸ hstep
  · exact hcut _ part hmem

end Only

end Program

end Fcfn.Files
