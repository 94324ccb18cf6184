import Fcfn.Lib.Words

/-!
# Readers that undo writers

A writer is a byte string; a reader consumes a prefix of its input and may fail with an error.
`Reads r bs a` says that `r`, on any input that starts with `bs`, returns `a` and leaves the rest.
It composes along the reader's binds (`Reads.bind`), so that a decoder is shown to undo an encoder
by following its text, one field at a time. `Returns r P` says that what `r` returns, on any input,
has the property `P`; it composes in the same way. `Recovers r bs a` is the part of `Reads` that
holds of a reader with bounds and checks of its own: when it returns anything on such an input, it
returns `a` and leaves the rest. Sizes are written in 32 bits, so it asks this of strings shorter
than `2^32` only. `Consumes r R` is the converse of `Reads`: it relates what `r` returns, on any
input, to the bytes it took. -/

namespace Fcfn.Codec

open Words (Bytes)

variable {ε α β : Type}

/-- A reader of byte strings that may fail. -/
abbrev Reader (ε α : Type) := StateT Bytes (Except ε) α

/-- On any input that starts with `bs` the reader returns `a` and leaves what follows. -/
def Reads (r : Reader ε α) (bs : Bytes) (a : α) : Prop :=
  ∀ rest, r.run (bs ++ rest) = .ok (a, rest)

/-- Returning a value reads nothing. -/
theorem Reads.pure (a : α) : Reads (ε := ε) (Pure.pure a) [] a :=
  fun _ => rfl

/-- One reader after another reads the concatenation. -/
theorem Reads.bind {r : Reader ε α} {f : α → Reader ε β} {bs bs' : Bytes} {a : α} {b : β}
    (hr : Reads r bs a) (hf : Reads (f a) bs' b) : Reads (r >>= f) (bs ++ bs') b := by
  intro rest
  rw [List.append_assoc, StateT.run_bind, hr]
  exact hf rest

/-- A reader whose last step reads nothing more. -/
theorem Reads.bind_pure {r : Reader ε α} {f : α → Reader ε β} {bs : Bytes} {a : α} {b : β}
    (hr : Reads r bs a) (hf : Reads (f a) [] b) : Reads (r >>= f) bs b := by
  simpa using hr.bind hf

/-- A step that reads nothing, before the rest of a reader. -/
theorem Reads.skip {r : Reader ε α} {f : α → Reader ε β} {bs : Bytes} {a : α} {b : β}
    (hr : Reads r [] a) (hf : Reads (f a) bs b) : Reads (r >>= f) bs b := by
  simpa using hr.bind hf

/-- Read `n` items, one after the other. -/
def many (item : Reader ε α) : ℕ → Reader ε (List α)
  | 0 => Pure.pure []
  | n + 1 => do
    let a ← item
    let as ← many item n
    return a :: as

/-- A list of items is read back from the concatenation of their forms. -/
theorem Reads.many {item : Reader ε α} {write : α → Bytes} (as : List α)
    (h : ∀ a ∈ as, Reads item (write a) a) :
    Reads (Codec.many item as.length) (as.flatMap write) as := by
  induction as with
  | nil => exact Reads.pure []
  | cons a as ih =>
    rw [List.flatMap_cons]
    refine (h a (by simp)).bind (Reads.bind_pure (ih fun b hb => h b (by simp [hb])) ?_)
    exact Reads.pure _

/-- Run a reader on a whole input, which must leave nothing; `trailing` is the error for what is
left. -/
def runAll (trailing : ε) (r : Reader ε α) (input : Bytes) : Except ε α :=
  match r.run input with
  | .error e => .error e
  | .ok (a, []) => .ok a
  | .ok (_, _ :: _) => .error trailing

/-- A reader run on exactly the bytes it reads returns their value. -/
theorem Reads.runAll {r : Reader ε α} {bs : Bytes} {a : α} (h : Reads r bs a) (trailing : ε) :
    Codec.runAll trailing r bs = .ok a := by
  have h' := h []
  rw [List.append_nil] at h'
  rw [Codec.runAll, h']

/-- A reader that starts with a field goes on after the field's bytes. -/
theorem Reads.runAll_bind {r : Reader ε α} {f : α → Reader ε β} {bs : Bytes} {a : α}
    (h : Reads r bs a) (trailing : ε) (rest : Bytes) :
    Codec.runAll trailing (r >>= f) (bs ++ rest) = Codec.runAll trailing (f a) rest := by
  have hrun : (r >>= f).run (bs ++ rest) = (f a).run rest := by
    rw [StateT.run_bind, h]
    rfl
  rw [Codec.runAll, Codec.runAll, hrun]

/-! ## What a reader returns -/

/-- Whatever the reader returns has the property. -/
def Returns (r : Reader ε α) (P : α → Prop) : Prop :=
  ∀ input a rest, r.run input = .ok (a, rest) → P a

/-- Every reader returns something. -/
theorem Returns.trivial (r : Reader ε α) : Returns r fun _ => True :=
  fun _ _ _ _ => True.intro

/-- A weaker property. -/
theorem Returns.mono {r : Reader ε α} {P Q : α → Prop} (h : Returns r P) (hpq : ∀ a, P a → Q a) :
    Returns r Q :=
  fun input a rest hrun => hpq a (h input a rest hrun)

/-- A returned value has what it has. -/
theorem Returns.pure {P : α → Prop} {a : α} (h : P a) :
    Returns (Pure.pure a : Reader ε α) P := by
  intro input b rest hrun
  obtain ⟨rfl, -⟩ := Prod.mk.inj (Except.ok.inj hrun)
  exact h

/-- A failing reader returns nothing. -/
theorem Returns.throw {P : α → Prop} {e : ε} : Returns (throw e : Reader ε α) P := by
  intro input a rest hrun
  have herr : (Except.error e : Except ε (α × Bytes)) = .ok (a, rest) := hrun
  exact absurd herr (by simp)

/-- One reader after another. -/
theorem Returns.bind {r : Reader ε α} {f : α → Reader ε β} {P : α → Prop} {Q : β → Prop}
    (hr : Returns r P) (hf : ∀ a, P a → Returns (f a) Q) : Returns (r >>= f) Q := by
  intro input b rest hrun
  rw [StateT.run_bind] at hrun
  cases hstep : r.run input with
  | error e => rw [hstep] at hrun; exact absurd hrun (by simp [Bind.bind, Except.bind])
  | ok p =>
    obtain ⟨a, mid⟩ := p
    rw [hstep] at hrun
    exact hf a (hr input a mid hstep) mid b rest hrun

/-- One reader after another, when nothing is known of what the first returns. -/
theorem Returns.after {r : Reader ε α} {f : α → Reader ε β} {Q : β → Prop}
    (hf : ∀ a, Returns (f a) Q) : Returns (r >>= f) Q :=
  (Returns.trivial r).bind fun a _ => hf a

/-- The items of a list. -/
theorem Returns.many {item : Reader ε α} {P : α → Prop} (h : Returns item P) (n : ℕ) :
    Returns (Codec.many item n) fun as => as.length = n ∧ ∀ a ∈ as, P a := by
  induction n with
  | zero => exact Returns.pure (by simp)
  | succ n ih =>
    refine h.bind fun a ha => ih.bind fun as has => Returns.pure ?_
    exact ⟨by rw [List.length_cons, has.1], by simpa [ha] using has.2⟩

/-- What a reader run on a whole input returns. -/
theorem Returns.runAll {r : Reader ε α} {P : α → Prop} (h : Returns r P) {trailing : ε}
    {input : Bytes} {a : α} (hrun : Codec.runAll trailing r input = .ok a) : P a := by
  rw [Codec.runAll] at hrun
  split at hrun
  · exact absurd hrun (by simp)
  · rename_i b heq
    obtain rfl := Except.ok.inj hrun
    exact h _ _ _ heq
  · exact absurd hrun (by simp)

/-! ## What a reader recovers -/

/-- On any input that starts with `bs` the reader returns `a` and leaves what follows, or fails. -/
def Recovers (r : Reader ε α) (bs : Bytes) (a : α) : Prop :=
  bs.length < 2 ^ 32 → ∀ rest b rest', r.run (bs ++ rest) = .ok (b, rest') → b = a ∧ rest' = rest

section Recovers

variable {r : Reader ε α} {f : α → Reader ε β} {bs bs' : Bytes} {a : α} {b : β}

/-- A reader that undoes a writer recovers what was written. -/
theorem Reads.recovers (h : Reads r bs a) : Recovers r bs a := by
  intro _ rest b rest' hrun
  rw [h rest] at hrun
  obtain ⟨rfl, rfl⟩ := Prod.mk.inj (Except.ok.inj hrun)
  exact ⟨rfl, rfl⟩

/-- The bound on the string may be used. -/
theorem Recovers.of_length (h : bs.length < 2 ^ 32 → Recovers r bs a) : Recovers r bs a :=
  fun hlen => h hlen hlen

/-- Returning a value recovers it from nothing. -/
theorem Recovers.pure (a : α) : Recovers (Pure.pure a : Reader ε α) [] a :=
  (Reads.pure a).recovers

/-- One reader after another recovers from the concatenation. -/
theorem Recovers.bind (hr : Recovers r bs a) (hf : Recovers (f a) bs' b) :
    Recovers (r >>= f) (bs ++ bs') b := by
  intro hlen rest c rest' hrun
  rw [List.length_append] at hlen
  rw [List.append_assoc, StateT.run_bind] at hrun
  cases hstep : r.run (bs ++ (bs' ++ rest)) with
  | error e =>
    rw [hstep] at hrun
    exact absurd hrun (by simp [Bind.bind, Except.bind])
  | ok p =>
    obtain ⟨a', mid⟩ := p
    obtain ⟨rfl, rfl⟩ := hr (by omega) _ _ _ hstep
    rw [hstep] at hrun
    exact hf (by omega) rest c rest' hrun

/-- A reader whose last step reads nothing more. -/
theorem Recovers.bind_pure (hr : Recovers r bs a) (hf : Recovers (f a) [] b) :
    Recovers (r >>= f) bs b := by
  simpa using hr.bind hf

/-- A step that reads nothing, before the rest of a reader. -/
theorem Recovers.skip (hr : Recovers r [] a) (hf : Recovers (f a) bs b) :
    Recovers (r >>= f) bs b := by
  simpa using hr.bind hf

/-- The items of a list are recovered from the concatenation of their forms. -/
theorem Recovers.many {item : Reader ε α} {write : α → Bytes} (as : List α)
    (h : ∀ a ∈ as, Recovers item (write a) a) :
    Recovers (Codec.many item as.length) (as.flatMap write) as := by
  induction as with
  | nil => exact Recovers.pure []
  | cons a as ih =>
    rw [List.flatMap_cons]
    refine (h a (by simp)).bind (Recovers.bind_pure (ih fun b hb => h b (by simp [hb])) ?_)
    exact Recovers.pure _

/-- A reader that accepts exactly what was written returns it. -/
theorem Recovers.runAll (h : Recovers r bs a) (hlen : bs.length < 2 ^ 32) {trailing : ε} {b : α}
    (hrun : Codec.runAll trailing r bs = .ok b) : b = a := by
  rw [Codec.runAll] at hrun
  split at hrun
  · exact absurd hrun (by simp)
  · rename_i c heq
    obtain rfl := Except.ok.inj hrun
    rw [← List.append_nil bs] at heq
    exact (h hlen _ _ _ heq).1
  · exact absurd hrun (by simp)

end Recovers

/-! ## What a reader consumes -/

/-- Whatever the reader returns, the bytes it has taken from its input are related to it. -/
def Consumes (r : Reader ε α) (R : Bytes → α → Prop) : Prop :=
  ∀ input a rest, r.run input = .ok (a, rest) → ∃ bs, input = bs ++ rest ∧ R bs a

section Consumes

variable {r : Reader ε α} {f : α → Reader ε β} {R : Bytes → α → Prop} {P : Bytes → β → Prop}

/-- A weaker relation. -/
theorem Consumes.mono {R' : Bytes → α → Prop} (h : Consumes r R)
    (hRR' : ∀ bs a, R bs a → R' bs a) : Consumes r R' := by
  intro input a rest hrun
  obtain ⟨bs, hbs, hR⟩ := h input a rest hrun
  exact ⟨bs, hbs, hRR' bs a hR⟩

/-- What a reader takes, together with what it returns. -/
theorem Consumes.and_returns {Q : α → Prop} (h : Consumes r R) (hreturns : Returns r Q) :
    Consumes r fun bs a => R bs a ∧ Q a := by
  intro input a rest hrun
  obtain ⟨bs, hbs, hR⟩ := h input a rest hrun
  exact ⟨bs, hbs, hR, hreturns input a rest hrun⟩

/-- Returning a value takes nothing. -/
theorem Consumes.pure {a : α} (h : R [] a) : Consumes (Pure.pure a : Reader ε α) R := by
  intro input b rest hrun
  obtain ⟨rfl, rfl⟩ := Prod.mk.inj (Except.ok.inj hrun)
  exact ⟨[], rfl, h⟩

/-- A failing reader returns nothing. -/
theorem Consumes.throw {e : ε} : Consumes (throw e : Reader ε α) R := by
  intro input a rest hrun
  have herr : (Except.error e : Except ε (α × Bytes)) = .ok (a, rest) := hrun
  exact absurd herr (by simp)

/-- One reader after another takes the concatenation. -/
theorem Consumes.bind (hr : Consumes r R)
    (hf : ∀ bs a, R bs a → Consumes (f a) fun bs' b => P (bs ++ bs') b) :
    Consumes (r >>= f) P := by
  intro input b rest hrun
  rw [StateT.run_bind] at hrun
  cases hstep : r.run input with
  | error e => rw [hstep] at hrun; exact absurd hrun (by simp [Bind.bind, Except.bind])
  | ok p =>
    obtain ⟨a, mid⟩ := p
    rw [hstep] at hrun
    obtain ⟨bs, rfl, hR⟩ := hr input a mid hstep
    obtain ⟨bs', rfl, hP⟩ := hf bs a hR mid b rest hrun
    exact ⟨bs ++ bs', (List.append_assoc bs bs' rest).symm, hP⟩

/-- A reader that takes the written form of what it returns, before the rest of a reader. -/
theorem Consumes.field {write : α → Bytes} (hr : Consumes r fun bs a => bs = write a)
    (hf : ∀ a, Consumes (f a) fun bs b => P (write a ++ bs) b) : Consumes (r >>= f) P :=
  hr.bind fun _ a hbs => hbs ▸ hf a

/-- A step that takes nothing, before the rest of a reader. -/
theorem Consumes.skip {Q : α → Prop} (hr : Consumes r fun bs a => bs = [] ∧ Q a)
    (hf : ∀ a, Q a → Consumes (f a) P) : Consumes (r >>= f) P := by
  refine hr.bind fun bs a hbs => ?_
  obtain ⟨rfl, hQ⟩ := hbs
  exact hf a hQ

/-- The items of a list take the concatenation of what they take. -/
theorem Consumes.many {item : Reader ε α} {write : β → Bytes} {describe : β → α} {Q : β → Prop}
    (h : Consumes item fun bs a => ∃ b, Q b ∧ bs = write b ∧ a = describe b) (n : ℕ) :
    Consumes (Codec.many item n) fun bs as =>
      ∃ forms : List β, (∀ b ∈ forms, Q b) ∧ forms.length = n ∧ bs = forms.flatMap write ∧
        as = forms.map describe := by
  induction n with
  | zero => exact Consumes.pure ⟨[], by simp, rfl, rfl, rfl⟩
  | succ n ih =>
    refine h.bind fun bs a hbs => ih.bind fun bs' as hbs' => Consumes.pure ?_
    obtain ⟨b, hb, rfl, rfl⟩ := hbs
    obtain ⟨forms, hforms, rfl, rfl, rfl⟩ := hbs'
    refine ⟨b :: forms, ?_, rfl, by rw [List.flatMap_cons, List.append_nil], rfl⟩
    simpa [hb] using hforms

/-- The items of a list that take their written form take the concatenation of the forms. -/
theorem Consumes.manyFields {item : Reader ε α} {write : α → Bytes}
    (h : Consumes item fun bs a => bs = write a) (n : ℕ) :
    Consumes (Codec.many item n) fun bs as => bs = as.flatMap write ∧ as.length = n := by
  have hitem : Consumes item fun bs a => ∃ b, True ∧ bs = write b ∧ a = id b :=
    h.mono fun bs a hbs => ⟨a, trivial, hbs, rfl⟩
  refine (Consumes.many hitem n).mono fun bs as hbs => ?_
  obtain ⟨forms, -, hlength, rfl, rfl⟩ := hbs
  rw [List.map_id]
  exact ⟨rfl, hlength⟩

/-- What a reader run on a whole input takes is the input. -/
theorem Consumes.runAll (h : Consumes r R) {trailing : ε} {input : Bytes} {a : α}
    (hrun : Codec.runAll trailing r input = .ok a) : R input a := by
  rw [Codec.runAll] at hrun
  split at hrun
  · exact absurd hrun (by simp)
  · rename_i b heq
    obtain rfl := Except.ok.inj hrun
    obtain ⟨bs, rfl, hR⟩ := h _ _ _ heq
    rw [List.append_nil]
    exact hR
  · exact absurd hrun (by simp)

end Consumes

end Fcfn.Codec
