import Fcfn.Core.Canonical

/-!
# Explanations

A bounded list of reasons. An item is added within the bound, with its text cut to the text bound,
and dropped past it, which sets the truncation flag. The type carries the bounds. The reason codes
are the numbers of the durable contract; only those that a modelled function uses are named. -/

namespace Fcfn

open Words Codec

/-- Highest defined reason code. -/
def kMaxReasonCodeValue : ℕ := 98

/-- Stable reason code. -/
structure ReasonCode where
  value : UInt16
  le_max : value.toNat ≤ kMaxReasonCodeValue
  deriving DecidableEq, Repr

namespace ReasonCode

def unknownEdgesPresent : ReasonCode := ⟨10, by decide⟩
def incompleteAdjacencyOnFrontier : ReasonCode := ⟨11, by decide⟩
def evidenceConflicting : ReasonCode := ⟨13, by decide⟩
def optimalityProven : ReasonCode := ⟨20, by decide⟩
def feasibilityProven : ReasonCode := ⟨21, by decide⟩
def searchLimitReached : ReasonCode := ⟨22, by decide⟩
def infeasibleCertificateIneligiblePath : ReasonCode := ⟨23, by decide⟩
def infeasibleByExhaustiveSearch : ReasonCode := ⟨24, by decide⟩
def noFeasibleSolutionFound : ReasonCode := ⟨25, by decide⟩
def boundedSolutionNotMinimal : ReasonCode := ⟨26, by decide⟩
def heuristicConstructionUsed : ReasonCode := ⟨27, by decide⟩
def localMinimalityRestored : ReasonCode := ⟨28, by decide⟩
def topologyEmpty : ReasonCode := ⟨30, by decide⟩
def noFailureSources : ReasonCode := ⟨31, by decide⟩
def noProtectedObligations : ReasonCode := ⟨32, by decide⟩
def sourceNotContainable : ReasonCode := ⟨33, by decide⟩
def failureSourceNotInTopology : ReasonCode := ⟨38, by decide⟩
def evidenceNotConfirmedSinceRestart : ReasonCode := ⟨39, by decide⟩
def authorityStaleEpoch : ReasonCode := ⟨41, by decide⟩
def authorityFenced : ReasonCode := ⟨46, by decide⟩
def authorizationRequired : ReasonCode := ⟨47, by decide⟩
def applySubmitted : ReasonCode := ⟨50, by decide⟩
def applyAcknowledged : ReasonCode := ⟨51, by decide⟩
def effectVerified : ReasonCode := ⟨52, by decide⟩
def effectAmbiguous : ReasonCode := ⟨53, by decide⟩
def effectNotApplied : ReasonCode := ⟨54, by decide⟩
def effectVerificationDigestMismatch : ReasonCode := ⟨55, by decide⟩
def attemptFencedByRestart : ReasonCode := ⟨57, by decide⟩
def transitionAccepted : ReasonCode := ⟨70, by decide⟩
def transitionDeniedUnverifiedEffect : ReasonCode := ⟨71, by decide⟩
def transitionDeniedActiveFailures : ReasonCode := ⟨72, by decide⟩
def transitionStaleGeneration : ReasonCode := ⟨73, by decide⟩
def transitionSupersededByNewerPlan : ReasonCode := ⟨74, by decide⟩
def transitionContractNotASubset : ReasonCode := ⟨76, by decide⟩
def transitionExpandNotASuperset : ReasonCode := ⟨77, by decide⟩

end ReasonCode

/-- One bounded explanation item. The subject is there exactly when the source's flag for it is. -/
structure ExplanationItem where
  code : ReasonCode
  subject : Option ResourceId := none
  value : UInt64 := 0
  has_value : Bool := false
  text : Bytes := []
  deriving DecidableEq, Repr

/-- The bounds of an explanation. -/
structure ExplanationBounded (items : List ExplanationItem) : Prop where
  length_le : items.length ≤ kMaxExplanationItems
  text_le : ∀ item ∈ items, item.text.length ≤ kMaxExplanationTextLength

/-- Bounded explanation document. -/
structure Explanation where
  items : List ExplanationItem
  truncated : Bool
  bounded : ExplanationBounded items

/-- Explanations with equal content are equal. -/
theorem Explanation.ext' {x y : Explanation} (hi : x.items = y.items)
    (ht : x.truncated = y.truncated) : x = y := by
  cases x; cases y; simp_all

instance : DecidableEq Explanation := fun x y =>
  decidable_of_iff (x.items = y.items ∧ x.truncated = y.truncated)
    ⟨fun h => Explanation.ext' h.1 h.2, fun h => h ▸ ⟨rfl, rfl⟩⟩

namespace Explanation

/-- The explanation without items. -/
def empty : Explanation := ⟨[], false, ⟨by simp, by simp⟩⟩

/-- Append an item with its text cut to the bound, or set the flag when the bound is reached. -/
def addItem (x : Explanation) (item : ExplanationItem) : Explanation :=
  if h : x.items.length ≥ kMaxExplanationItems then ⟨x.items, true, x.bounded⟩
  else
    ⟨x.items ++ [{ item with text := item.text.take kMaxExplanationTextLength }], x.truncated, by
      refine ⟨by rw [List.length_append, List.length_singleton]; omega, fun i hi => ?_⟩
      rcases List.mem_append.mp hi with hi | hi
      · exact x.bounded.text_le i hi
      · rw [List.mem_singleton.mp hi]
        exact List.length_take_le _ _⟩

/-- Add a reason. -/
def add (x : Explanation) (code : ReasonCode) (text : String) : Explanation :=
  x.addItem { code := code, text := bytesOf text }

/-- Add a reason about a resource. -/
def addResource (x : Explanation) (code : ReasonCode) (subject : ResourceId) (text : String) :
    Explanation :=
  x.addItem { code := code, subject := some subject, text := bytesOf text }

/-- Add a reason with a value. -/
def addValue (x : Explanation) (code : ReasonCode) (value : UInt64) (text : String) : Explanation :=
  x.addItem { code := code, value := value, has_value := true, text := bytesOf text }

/-- Set the truncation flag. -/
def markTruncated (x : Explanation) : Explanation := ⟨x.items, true, x.bounded⟩

/-- The subjects an explanation names are in canonical form. -/
def Canonical (x : Explanation) : Prop :=
  ∀ item ∈ x.items, ∀ subject, item.subject = some subject → isValidResourceId subject = true

/-- An added item keeps the subjects canonical when its own is. -/
theorem Canonical.addItem {x : Explanation} (h : x.Canonical) {item : ExplanationItem}
    (hitem : ∀ subject, item.subject = some subject → isValidResourceId subject = true) :
    (x.addItem item).Canonical := by
  unfold Explanation.addItem
  split
  · exact h
  · intro i hi subject hs
    rcases List.mem_append.mp hi with hi | hi
    · exact h i hi subject hs
    · rw [List.mem_singleton.mp hi] at hs
      exact hitem subject hs

/-- Adding an item keeps the subjects canonical exactly when they were and, unless it is dropped, its
own is. -/
theorem canonical_addItem (x : Explanation) (item : ExplanationItem) :
    (x.addItem item).Canonical ↔ x.Canonical ∧ (x.items.length < kMaxExplanationItems →
      ∀ subject, item.subject = some subject → isValidResourceId subject = true) := by
  constructor
  · intro h
    unfold Explanation.addItem at h
    split at h
    · rename_i hfull
      exact ⟨h, fun hroom => absurd hroom (by omega)⟩
    · refine ⟨fun i hi => h i (List.mem_append_left _ hi), fun _ subject hs => ?_⟩
      exact h _ (List.mem_append_right _ (List.mem_singleton.mpr rfl)) subject hs
  · rintro ⟨hx, hitem⟩
    by_cases hroom : x.items.length < kMaxExplanationItems
    · exact hx.addItem (hitem hroom)
    · unfold Explanation.addItem
      rw [dif_pos (by omega)]
      exact hx

/-- A reason without a subject does not matter. -/
@[simp] theorem canonical_add (x : Explanation) (code : ReasonCode) (text : String) :
    (x.add code text).Canonical ↔ x.Canonical := by
  simp [add, canonical_addItem]

@[simp] theorem canonical_addValue (x : Explanation) (code : ReasonCode) (value : UInt64)
    (text : String) : (x.addValue code value text).Canonical ↔ x.Canonical := by
  simp [addValue, canonical_addItem]

/-- Of a list of resources those are named that still fit. -/
theorem canonical_addResources (x : Explanation) (code : ReasonCode) (ids : List ResourceId)
    (text : String) :
    (ids.foldl (fun x id => x.addResource code id text) x).Canonical ↔
      x.Canonical ∧ ∀ id ∈ ids.take (kMaxExplanationItems - x.items.length),
        isValidResourceId id = true := by
  induction ids generalizing x with
  | nil => simp
  | cons id ids ih =>
    rw [List.foldl_cons, ih, addResource, canonical_addItem]
    by_cases hroom : x.items.length < kMaxExplanationItems
    · have hlength : (x.addItem { code := code, subject := some id, text := bytesOf text }).items.length
          = x.items.length + 1 := by
        unfold Explanation.addItem
        rw [dif_neg (by omega), List.length_append, List.length_singleton]
      have htake : kMaxExplanationItems - x.items.length =
          (kMaxExplanationItems - (x.items.length + 1)) + 1 := by omega
      rw [hlength, htake, List.take_succ_cons]
      simp [hroom, and_assoc]
    · have hsame : (x.addItem { code := code, subject := some id, text := bytesOf text }).items.length
          = x.items.length := by
        unfold Explanation.addItem
        rw [dif_pos (by omega)]
      have hzero : kMaxExplanationItems - x.items.length = 0 := by omega
      rw [hsame, hzero]
      simp [hroom]

/-- The explanation without items names nothing. -/
theorem canonical_empty : empty.Canonical := by simp [Canonical, empty]

/-- The bytes of an item in the plan digest. -/
def digestItem (item : ExplanationItem) : Bytes :=
  Write.u16 item.code.value ++ Write.resourceId (item.subject.getD []) ++
    Write.boolean item.subject.isSome ++ Write.u64 item.value ++ Write.boolean item.has_value ++
    Write.blob item.text

/-- The bytes of an item in the encoding. -/
def encodeItem (item : ExplanationItem) : Bytes :=
  Write.u16 item.code.value ++ Write.boolean item.subject.isSome ++
    (match item.subject with
      | some subject => Write.resourceId subject
      | none => []) ++
    Write.u64 item.value ++ Write.boolean item.has_value ++ Write.blob item.text

/-- Canonical byte encoding. -/
def encode (x : Explanation) : Bytes :=
  Write.size x.items.length ++ x.items.flatMap encodeItem ++ Write.boolean x.truncated

/-- Read the subject of an item when it has one. -/
def readSubject (has_subject : Bool) : Read (Option ResourceId) := do
  if has_subject then
    let subject ← Read.resourceId
    return some subject
  else return none

/-- Read a reason code. The check on it comes after the item's other fields. -/
def checkCode (code : UInt16) : Read ReasonCode :=
  if h : code.toNat ≤ kMaxReasonCodeValue then pure ⟨code, h⟩
  else Read.poison .invalidArgument "invalid explanation reason code"

/-- Read one item. -/
def readItem : Read ExplanationItem := do
  let code ← Read.u16
  let has_subject ← Read.boolean
  let subject ← readSubject has_subject
  let value ← Read.u64
  let has_value ← Read.boolean
  let text ← Read.text kMaxExplanationTextLength
  let code ← checkCode code
  return ⟨code, subject, value, has_value, text⟩

/-- Read an explanation: its items are added one by one. `message` is the text of the refusal of
too many. -/
def readWithin (message : String) : Read Explanation := do
  let count ← Read.count kMaxExplanationItems message
  let items ← many readItem count
  let truncated ← Read.boolean
  let x := items.foldl addItem empty
  return if truncated then x.markTruncated else x

/-- Read the explanation of a plan. -/
def read : Read Explanation := readWithin "encoded explanation exceeds bound"

/-- Items within the bounds are added as they are. -/
theorem foldl_addItem (items : List ExplanationItem) (x : Explanation)
    (hlen : x.items.length + items.length ≤ kMaxExplanationItems)
    (htext : ∀ item ∈ items, item.text.length ≤ kMaxExplanationTextLength) :
    (items.foldl addItem x).items = x.items ++ items ∧
      (items.foldl addItem x).truncated = x.truncated := by
  induction items generalizing x with
  | nil => simp
  | cons item items ih =>
    rw [List.length_cons] at hlen
    have hadd : (x.addItem item).items = x.items ++ [item] ∧
        (x.addItem item).truncated = x.truncated := by
      rw [addItem, dif_neg (by omega)]
      refine ⟨?_, rfl⟩
      simp only [List.take_of_length_le (htext item (by simp))]
    obtain ⟨h1, h2⟩ := ih (x.addItem item)
      (by rw [hadd.1, List.length_append, List.length_singleton]; omega)
      (fun i hi => htext i (List.mem_cons_of_mem _ hi))
    rw [List.foldl_cons, h1, h2, hadd.1, hadd.2, List.append_assoc]
    exact ⟨rfl, rfl⟩

/-- An item with a canonical subject is read back from its bytes. -/
theorem reads_item {item : ExplanationItem}
    (htext : item.text.length ≤ kMaxExplanationTextLength)
    (hsubject : ∀ subject, item.subject = some subject → isValidResourceId subject = true) :
    Reads readItem (encodeItem item) item := by
  obtain ⟨code, subject, value, has_value, text⟩ := item
  simp only [encodeItem, List.append_assoc]
  refine (reads_u16 _).bind ((reads_boolean _).bind (Reads.bind (a := subject) ?_
    ((reads_u64 _).bind ((reads_boolean _).bind ((reads_blob htext (by decide)).bind_pure ?_)))))
  · cases subject with
    | none => exact Reads.pure _
    | some s => exact (reads_resourceId (hsubject s rfl)).bind_pure (Reads.pure _)
  · have hcode : checkCode code.value = pure code := by
      rw [checkCode, dif_pos code.le_max]
    rw [hcode]
    exact Reads.pure _

/-- An item within the text bound is recovered. -/
theorem recovers_item (item : ExplanationItem) : Recovers readItem (encodeItem item) item := by
  obtain ⟨code, subject, value, has_value, text⟩ := item
  simp only [encodeItem, List.append_assoc]
  have hcode : checkCode code.value = pure code := by
    rw [checkCode, dif_pos code.le_max]
  refine (reads_u16 _).recovers.bind ((reads_boolean _).recovers.bind (Recovers.bind (a := subject) ?_
    ((reads_u64 _).recovers.bind ((reads_boolean _).recovers.bind (recovers_blob.bind_pure ?_)))))
  · cases subject with
    | none => exact Recovers.pure _
    | some s => exact (recovers_resourceId s).bind_pure (Recovers.pure _)
  · rw [hcode]
    exact Recovers.pure _

/-- Adding the items of an explanation again gives it back. -/
theorem rebuilt (x : Explanation) :
    (if x.truncated then (x.items.foldl addItem empty).markTruncated
      else x.items.foldl addItem empty) = x := by
  obtain ⟨hitems, htrunc⟩ := foldl_addItem x.items empty
    (by rw [show empty.items = [] from rfl, List.length_nil, Nat.zero_add]
        exact x.bounded.length_le) x.bounded.text_le
  split
  · rename_i ht
    exact ext' (hitems.trans (List.nil_append _)) ht.symm
  · rename_i ht
    exact ext' (hitems.trans (List.nil_append _)) (htrunc.trans (Bool.eq_false_iff.mpr ht).symm)

/-- An explanation is recovered. -/
theorem recovers_explanation (x : Explanation) {message : String} :
    Recovers (readWithin message) x.encode x := by
  have hitems : Recovers (do let n ← Read.count kMaxExplanationItems message; many readItem n) _
      x.items :=
    recovers_counted (fun item _ => recovers_item item) fun item _ => by
      rw [encodeItem]
      simp [Write.u16, ← List.length_eq_zero_iff, length_le16]
  have hflag : Recovers (do
      let truncated ← Read.boolean
      return if truncated then (x.items.foldl addItem empty).markTruncated
        else x.items.foldl addItem empty) (Write.boolean x.truncated) x := by
    refine (reads_boolean x.truncated).recovers.bind_pure ?_
    rw [rebuilt]
    exact Recovers.pure x
  have hread := hitems.bind (f := fun items => do
      let truncated ← Read.boolean
      return if truncated then (items.foldl addItem empty).markTruncated
        else items.foldl addItem empty) hflag
  simpa only [readWithin, encode, bind_assoc] using hread

/-- An explanation with canonical subjects is read back from its encoding. -/
theorem reads_explanation {x : Explanation} {message : String} (h : x.Canonical) :
    Reads (readWithin message) x.encode x := by
  simp only [encode, List.append_assoc]
  refine (reads_count x.bounded.length_le (by decide)).bind ((Reads.many _ fun item hitem =>
    reads_item (x.bounded.text_le item hitem) (h item hitem)).bind
      ((reads_boolean _).bind_pure ?_))
  simp only [rebuilt]
  exact Reads.pure x

/-- What is read has canonical subjects. -/
theorem returns_explanation {message : String} : Returns (readWithin message) Canonical := by
  have hitem : Returns readItem fun item =>
      ∀ subject, item.subject = some subject → isValidResourceId subject = true := by
    have hsubject (b : Bool) : Returns (readSubject b) fun subject =>
        ∀ s, subject = some s → isValidResourceId s = true := by
      cases b with
      | true => exact returns_resourceId.bind fun _ hid => Returns.pure (by rintro s ⟨⟩; exact hid)
      | false => exact Returns.pure (by simp)
    exact Returns.after fun _ => Returns.after fun _ => (hsubject _).bind fun _ hs =>
      Returns.after fun _ => Returns.after fun _ => Returns.after fun _ => Returns.after fun _ =>
      Returns.pure hs
  have hfold (items : List ExplanationItem) (x : Explanation) (hx : x.Canonical)
      (h : ∀ item ∈ items, ∀ subject, item.subject = some subject →
        isValidResourceId subject = true) : (items.foldl addItem x).Canonical := by
    induction items generalizing x with
    | nil => exact hx
    | cons item items ih =>
      exact ih _ (hx.addItem (h item (by simp))) fun i hi => h i (List.mem_cons_of_mem _ hi)
  refine Returns.after fun _ => (Returns.many hitem _).bind fun items hitems =>
    Returns.after fun truncated => Returns.pure ?_
  have hx := hfold items empty canonical_empty hitems.2
  cases truncated
  · exact hx
  · exact hx

end Explanation

end Fcfn
