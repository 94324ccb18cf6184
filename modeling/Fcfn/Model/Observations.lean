import Mathlib.Data.List.Dedup
import Fcfn.Model.Evidence

/-!
# Observations commute

Observations reach the runtime from several reporters in any order, and those that `merged` refuses
leave the vector as it is. What a vector ends with does not depend on that order: its entries are
the newest candidates, where a candidate is an entry it started with or the entry of an observation.

`Newest` says what the entries are, over the set of candidates alone. `Holds` is the invariant of a
run: every entry is a candidate, and no candidate is newer than the entry of its resource. Two
candidates of one resource and generation must be equal, since the first of them to arrive stays. -/

namespace Fcfn

open Sorted

namespace EvidenceVector

/-- Take in an observation, or leave the vector as it is when the merge is refused. -/
def absorb (v : EvidenceVector) (observation : FailureObservation) : EvidenceVector :=
  (v.merged observation).toOption.getD v

/-- Take in a list of observations, the first one first. -/
def absorbAll (v : EvidenceVector) (observations : List FailureObservation) : EvidenceVector :=
  observations.foldl absorb v

/-- What an entry can come from: the starting vector and the observations. -/
def candidates (v : EvidenceVector) (observations : List FailureObservation) :
    List EvidenceEntry :=
  v.entries ++ observations.map entryOf

/-- Two candidates of the same resource and generation say the same. -/
def Consistent (candidates : List EvidenceEntry) : Prop :=
  ∀ a ∈ candidates, ∀ b ∈ candidates, a.resource = b.resource → a.generation = b.generation →
    a.state = b.state ∧ a.source_digest = b.source_digest

/-- A candidate that no candidate of its resource is newer than. -/
def Newest (candidates : List EvidenceEntry) (entry : EvidenceEntry) : Prop :=
  entry ∈ candidates ∧
    ∀ c ∈ candidates, c.resource = entry.resource → c.generation ≤ entry.generation

/-- The resources that candidates name. -/
def resourcesNamed (candidates : List EvidenceEntry) : List ResourceId :=
  (candidates.map EvidenceEntry.resource).dedup

/-- What a vector holds after the candidates have been taken in. -/
structure Holds (candidates : List EvidenceEntry) (v : EvidenceVector) : Prop where
  sound : ∀ e ∈ v.entries, e ∈ candidates
  newest : ∀ c ∈ candidates, ∃ e ∈ v.entries, e.resource = c.resource ∧
    c.generation ≤ e.generation

variable {candidates : List EvidenceEntry} {v w : EvidenceVector} {o : FailureObservation}

/-- Candidates of the same resource and generation are equal. -/
theorem Consistent.eq {a b : EvidenceEntry} (h : Consistent candidates) (ha : a ∈ candidates)
    (hb : b ∈ candidates) (hresource : a.resource = b.resource)
    (hgeneration : a.generation = b.generation) : a = b := by
  obtain ⟨hstate, hsource⟩ := h a ha b hb hresource hgeneration
  cases a
  cases b
  simp only at hresource hgeneration hstate hsource
  rw [hresource, hgeneration, hstate, hsource]

/-- The entries of a vector that holds the candidates are the newest of them. -/
theorem Holds.mem_entries_iff (h : Holds candidates v) (hc : Consistent candidates)
    (entry : EvidenceEntry) : entry ∈ v.entries ↔ Newest candidates entry := by
  constructor
  · intro hentry
    refine ⟨h.sound entry hentry, fun c hcand hresource => ?_⟩
    obtain ⟨e, he, heq, hle⟩ := h.newest c hcand
    have hsame : e = entry := v.valid.ascending.eq_of_key he hentry (heq.trans hresource)
    exact hsame ▸ hle
  · rintro ⟨hcand, hmax⟩
    obtain ⟨e, he, heq, hle⟩ := h.newest entry hcand
    have hge : e.generation ≤ entry.generation := hmax e (h.sound e he) heq
    have hsame : e = entry := hc.eq (h.sound e he) hcand heq (UInt64.le_antisymm hge hle)
    exact hsame ▸ he

/-- Vectors with the same entries, of which there are some, are equal. -/
theorem eq_of_entries (hne : v.entries ≠ []) (h : v.entries = w.entries) : v = w := by
  obtain ⟨ventries, vdigest, vvalid⟩ := v
  obtain ⟨wentries, wdigest, wvalid⟩ := w
  simp only at h hne
  subst h
  have hv : vdigest = digestOf (encodeEntries ventries) :=
    vvalid.digest_eq.resolve_right fun hempty => hne hempty.1
  have hw : wdigest = digestOf (encodeEntries ventries) :=
    wvalid.digest_eq.resolve_right fun hempty => hne hempty.1
  subst hv hw
  rfl

/-! ## One observation -/

/-- Entries within the bound, with distinct resources, are built into a vector. -/
theorem build_succeeds {entries : List EvidenceEntry} (hlen : entries.length ≤ kMaxTopologyNodes)
    (hvalid : ∀ entry ∈ entries, entry.resource ≠ [] ∧ entry.generation ≠ 0)
    (hdistinct : (entries.map EvidenceEntry.resource).Nodup) : ∃ built, build entries = .ok built := by
  have hperm : (sortBy EvidenceEntry.resource entries).Perm entries := perm_sortBy
  have hascending : Ascending EvidenceEntry.resource (sortBy EvidenceEntry.resource entries) := by
    refine ascending_of_isChain pairwise_sortBy ?_
    have hsorted := (hperm.map EvidenceEntry.resource).nodup_iff.mpr hdistinct
    rw [List.Nodup, List.pairwise_map] at hsorted
    exact hsorted.isChain
  have harrange : arrange entries = .ok (sortBy EvidenceEntry.resource entries) := by
    simp only [arrange, require_bind_eq_ok]
    refine ⟨decide_eq_true hlen, ?_⟩
    rw [bind_eq_ok]
    exact ⟨(), checkEntries_of_ascending (fun entry he => hvalid entry (mem_sortBy.mp he)) hascending
      (by simp), rfl⟩
  unfold build
  split
  · rename_i e he
    exact absurd (he.symm.trans harrange) (by simp)
  · exact ⟨_, rfl⟩

/-- Entries are no more than the resources that the candidates name. -/
theorem length_le_of_mem {entries : List EvidenceEntry}
    (hdistinct : (entries.map EvidenceEntry.resource).Nodup)
    (hmem : ∀ e ∈ entries, e ∈ candidates) :
    entries.length ≤ (resourcesNamed candidates).length := by
  have hsub : ∀ r ∈ entries.map EvidenceEntry.resource, r ∈ resourcesNamed candidates := by
    intro r hr
    obtain ⟨e, he, rfl⟩ := List.mem_map.mp hr
    exact List.mem_dedup.mpr (List.mem_map.mpr ⟨e, hmem e he, rfl⟩)
  calc entries.length = (entries.map EvidenceEntry.resource).length := (List.length_map _).symm
    _ ≤ (resourcesNamed candidates).length :=
        (List.subperm_of_subset hdistinct hsub).length_le

/-- Replacing the entry of a resource keeps the resources. -/
theorem map_resource_replace (entries : List EvidenceEntry) (next : EvidenceEntry) :
    (entries.map fun e => if e.resource = next.resource then next else e).map
      EvidenceEntry.resource = entries.map EvidenceEntry.resource := by
  rw [List.map_map]
  refine List.map_congr_left fun e _ => ?_
  simp only [Function.comp_apply]
  split
  · rename_i heq
    exact heq.symm
  · rfl

/-- The entry of a new resource is put in. -/
theorem merged_new (hid : o.resource ≠ []) (hgen : o.generation ≠ 0)
    (hnone : v.find o.resource = none)
    (hlen : v.entries.length < kMaxTopologyNodes) : ∃ w, v.merged o = .ok w := by
  have hother : ∀ e ∈ v.entries, e.resource ≠ o.resource :=
    fun e he => by simpa using List.find?_eq_none.mp hnone e he
  have hsplit := List.takeWhile_append_dropWhile
    (p := fun entry : EvidenceEntry => decide (entry.resource < o.resource)) (l := v.entries)
  have hperm : (v.entries.takeWhile (fun entry => entry.resource < o.resource) ++
      entryOf o :: v.entries.dropWhile (fun entry => entry.resource < o.resource)).Perm
        (entryOf o :: v.entries) := by
    refine List.perm_middle.trans ?_
    rw [hsplit]
  have hbuilds := build_succeeds (hperm.length_eq.trans_le hlen)
    (fun entry he => ?_) ((hperm.map _).nodup_iff.mpr ?_)
  · obtain ⟨w, hw⟩ := hbuilds
    refine ⟨w, ?_⟩
    simp only [EvidenceVector.merged, require_bind_eq_ok, bne_iff_ne, hnone]
    exact ⟨hid, hgen, hw⟩
  · rcases List.mem_cons.mp (hperm.mem_iff.mp he) with rfl | he
    · exact ⟨hid, hgen⟩
    · exact ⟨v.valid.resource_ne_nil entry he, v.valid.generation_ne_zero entry he⟩
  · rw [List.map_cons, List.nodup_cons]
    refine ⟨fun hin => ?_, v.valid.ascending.nodup⟩
    obtain ⟨e, he, heq⟩ := List.mem_map.mp hin
    exact hother e he heq

/-- A newer observation takes the place of the entry of its resource. -/
theorem merged_newer {entry : EvidenceEntry} (hid : o.resource ≠ []) (hgen : o.generation ≠ 0)
    (hsome : v.find o.resource = some entry) (hnewer : entry.generation < o.generation) :
    ∃ w, v.merged o = .ok w := by
  have hbuilds : ∃ w, build (v.entries.map fun e =>
      if e.resource = o.resource then entryOf o else e) = .ok w := by
    refine build_succeeds ?_ (fun e he => ?_) ?_
    · rw [List.length_map]
      exact v.valid.length_le
    · obtain ⟨e', he', rfl⟩ := List.mem_map.mp he
      split
      · exact ⟨hid, hgen⟩
      · exact ⟨v.valid.resource_ne_nil e' he', v.valid.generation_ne_zero e' he'⟩
    · have hkept := map_resource_replace v.entries (entryOf o)
      exact hkept.symm ▸ v.valid.ascending.nodup
  obtain ⟨w, hw⟩ := hbuilds
  refine ⟨w, ?_⟩
  simp only [EvidenceVector.merged, require_bind_eq_ok, bne_iff_ne, hsome]
  refine ⟨hid, hgen, ?_⟩
  rw [if_neg (UInt64.not_lt.mpr (UInt64.le_of_lt hnewer)), if_neg (UInt64.ne_of_lt hnewer).symm]
  exact hw

/-- Taking in one more observation. -/
theorem Holds.absorb (h : Holds candidates v) (hid : o.resource ≠ []) (hgen : o.generation ≠ 0)
    (hlen : (resourcesNamed (candidates ++ [entryOf o])).length ≤ kMaxTopologyNodes) :
    Holds (candidates ++ [entryOf o]) (v.absorb o) := by
  -- what a merge that is taken in leads to
  have hmerged : ∀ {w}, v.merged o = .ok w → Holds (candidates ++ [entryOf o]) w := by
    intro w hw
    rcases merged_spec hw with ⟨rfl, hfind⟩ | ⟨hnewer, hfind⟩
    · obtain ⟨hmem, -⟩ := find_eq_some.mp hfind
      refine ⟨fun e he => List.mem_append_left _ (h.sound e he), fun c hcand => ?_⟩
      rcases List.mem_append.mp hcand with hcand | hcand
      · exact h.newest c hcand
      · obtain rfl := List.mem_singleton.mp hcand
        exact ⟨_, hmem, rfl, UInt64.le_refl _⟩
    · refine ⟨fun e he => ?_, fun c hcand => ?_⟩
      · have hin : w.find e.resource = some e := find_eq_some.mpr ⟨he, rfl⟩
        rw [hfind] at hin
        split at hin
        · obtain rfl := Option.some.inj hin
          exact List.mem_append_right _ (List.mem_singleton_self _)
        · exact List.mem_append_left _ (h.sound e (find_eq_some.mp hin).1)
      · have hof : ∀ e, w.find c.resource = some e → e.resource = c.resource ∧ e ∈ w.entries :=
          fun e he => ⟨(find_eq_some.mp he).2, (find_eq_some.mp he).1⟩
        by_cases hsame : c.resource = o.resource
        · have hnext : w.find c.resource = some (entryOf o) := by rw [hfind, if_pos hsame]
          refine ⟨entryOf o, (hof _ hnext).2, (hof _ hnext).1, ?_⟩
          rcases List.mem_append.mp hcand with hcand | hcand
          · obtain ⟨e, he, heq, hle⟩ := h.newest c hcand
            have hlt := hnewer e (find_eq_some.mpr ⟨he, heq.trans hsame⟩)
            exact UInt64.le_trans hle (UInt64.le_of_lt hlt)
          · rw [List.mem_singleton.mp hcand]
            exact UInt64.le_refl _
        · rcases List.mem_append.mp hcand with hcand | hcand
          · obtain ⟨e, he, heq, hle⟩ := h.newest c hcand
            have hkept : w.find c.resource = some e := by
              rw [hfind, if_neg hsame]
              exact find_eq_some.mpr ⟨he, heq⟩
            exact ⟨e, (hof _ hkept).2, heq, hle⟩
          · rw [List.mem_singleton.mp hcand] at hsame
            exact absurd rfl hsame
  cases hfind : v.find o.resource with
  | none =>
    have hlt : v.entries.length < kMaxTopologyNodes := by
      -- the observation names a resource beyond those of the entries
      have hother : ∀ e ∈ v.entries, e.resource ≠ o.resource :=
        fun e he => by simpa using List.find?_eq_none.mp hfind e he
      have hdistinct : ((entryOf o :: v.entries).map EvidenceEntry.resource).Nodup := by
        rw [List.map_cons, List.nodup_cons]
        refine ⟨fun hin => ?_, v.valid.ascending.nodup⟩
        obtain ⟨e, he, heq⟩ := List.mem_map.mp hin
        exact hother e he heq
      have hle : (entryOf o :: v.entries).length ≤
          (resourcesNamed (candidates ++ [entryOf o])).length := length_le_of_mem hdistinct (by
        intro e he
        rcases List.mem_cons.mp he with rfl | he
        · exact List.mem_append_right _ (List.mem_singleton_self _)
        · exact List.mem_append_left _ (h.sound e he))
      rw [List.length_cons] at hle
      omega
    obtain ⟨w, hw⟩ := merged_new hid hgen hfind hlt
    have habsorb : v.absorb o = w := by rw [EvidenceVector.absorb, hw]; rfl
    exact habsorb ▸ hmerged hw
  | some entry =>
    obtain ⟨hmem, hresource⟩ := find_eq_some.mp hfind
    by_cases hnewer : entry.generation < o.generation
    · obtain ⟨w, hw⟩ := merged_newer hid hgen hfind hnewer
      have habsorb : v.absorb o = w := by rw [EvidenceVector.absorb, hw]; rfl
      exact habsorb ▸ hmerged hw
    · -- the entry in force is as new, whether the merge returns it or refuses
      have hstay : v.absorb o = v := by
        rw [EvidenceVector.absorb]
        cases hw : v.merged o with
        | error e => rfl
        | ok w =>
          rcases merged_spec hw with ⟨rfl, -⟩ | ⟨hlt, -⟩
          · rfl
          · exact absurd (hlt entry hfind) hnewer
      rw [hstay]
      refine ⟨fun e he => List.mem_append_left _ (h.sound e he), fun c hcand => ?_⟩
      rcases List.mem_append.mp hcand with hcand | hcand
      · exact h.newest c hcand
      · rw [List.mem_singleton.mp hcand]
        exact ⟨entry, hmem, hresource, UInt64.not_lt.mp hnewer⟩

/-! ## A list of observations -/

/-- The starting vector holds its own entries. -/
theorem Holds.start (v : EvidenceVector) : Holds v.entries v :=
  ⟨fun _ he => he, fun c hcand => ⟨c, hcand, rfl, UInt64.le_refl _⟩⟩

/-- A part of consistent candidates is consistent. -/
theorem Consistent.sublist {part : List EvidenceEntry} (h : Consistent candidates)
    (hsub : ∀ e ∈ part, e ∈ candidates) : Consistent part :=
  fun a ha b hb => h a (hsub a ha) b (hsub b hb)

/-- Fewer candidates name no more resources. -/
theorem resourcesNamed_length_le {part : List EvidenceEntry}
    (hsub : ∀ e ∈ part, e ∈ candidates) :
    (resourcesNamed part).length ≤ (resourcesNamed candidates).length := by
  refine (List.subperm_of_subset (List.nodup_dedup _) fun r hr => ?_).length_le
  obtain ⟨e, he, rfl⟩ := List.mem_map.mp (List.mem_dedup.mp hr)
  exact List.mem_dedup.mpr (List.mem_map.mpr ⟨e, hsub e he, rfl⟩)

/-- Taking in a list of observations. -/
theorem Holds.absorbAll {observations : List FailureObservation} (h : Holds candidates v)
    (hvalid : ∀ o ∈ observations, o.resource ≠ [] ∧ o.generation ≠ 0)
    (hlen : (resourcesNamed (candidates ++ observations.map entryOf)).length ≤ kMaxTopologyNodes) :
    Holds (candidates ++ observations.map entryOf) (v.absorbAll observations) := by
  induction observations generalizing candidates v with
  | nil =>
    rw [List.map_nil, List.append_nil]
    exact h
  | cons o rest ih =>
    have hsplit : candidates ++ (o :: rest).map entryOf =
        (candidates ++ [entryOf o]) ++ rest.map entryOf := by simp
    rw [hsplit] at hlen ⊢
    have hsub : ∀ e ∈ candidates ++ [entryOf o],
        e ∈ (candidates ++ [entryOf o]) ++ rest.map entryOf := fun e he => List.mem_append_left _ he
    have ho := hvalid o (List.mem_cons_self ..)
    have hnext : Holds (candidates ++ [entryOf o]) (v.absorb o) :=
      h.absorb ho.1 ho.2 (le_trans (resourcesNamed_length_le hsub) hlen)
    exact ih hnext (fun o' ho' => hvalid o' (List.mem_cons_of_mem _ ho')) hlen

/-- Permuted observations give the same candidates. -/
theorem mem_candidates_perm {observations permuted : List FailureObservation}
    (hperm : observations.Perm permuted) (e : EvidenceEntry) :
    e ∈ v.candidates observations ↔ e ∈ v.candidates permuted :=
  (hperm.map entryOf).append_left v.entries |>.mem_iff

/-- Consistent observations commute: taken in in any order they lead to the same vector, with the
same digest, in which the entry of each resource is the newest of those that the observations and
the starting vector have for it. -/
theorem observations_commute (v : EvidenceVector) (observations : List FailureObservation)
    (hvalid : ∀ o ∈ observations, o.resource ≠ [] ∧ o.generation ≠ 0)
    (hconsistent : Consistent (v.candidates observations))
    (hbound : (resourcesNamed (v.candidates observations)).length ≤ kMaxTopologyNodes) :
    (∀ permuted, observations.Perm permuted →
        v.absorbAll permuted = v.absorbAll observations ∧
          (v.absorbAll permuted).digest = (v.absorbAll observations).digest) ∧
      ∀ resource entry, (v.absorbAll observations).find resource = some entry ↔
        entry.resource = resource ∧ Newest (v.candidates observations) entry := by
  have hholds : Holds (v.candidates observations) (v.absorbAll observations) :=
    (Holds.start v).absorbAll hvalid hbound
  refine ⟨fun permuted hperm => ?_, fun resource entry => ?_⟩
  · have hmem := fun e => mem_candidates_perm (v := v) hperm e
    have hpermuted : Holds (v.candidates permuted) (v.absorbAll permuted) := by
      refine (Holds.start v).absorbAll (fun o ho => hvalid o (hperm.mem_iff.mpr ho))
        (le_trans (resourcesNamed_length_le fun e he => (hmem e).mpr he) hbound)
    have hsame : v.absorbAll permuted = v.absorbAll observations := by
      cases observations with
      | nil =>
        rw [hperm.nil_eq]
      | cons o rest =>
        have hentries : (v.absorbAll permuted).entries = (v.absorbAll (o :: rest)).entries := by
          refine (v.absorbAll permuted).valid.ascending.eq_of_mem_iff
            (v.absorbAll (o :: rest)).valid.ascending fun e => ?_
          rw [hpermuted.mem_entries_iff (hconsistent.sublist fun e he => (hmem e).mpr he),
            hholds.mem_entries_iff hconsistent, Newest, Newest]
          simp only [hmem]
        refine eq_of_entries (fun hnil => ?_) hentries
        -- the first observation has an entry
        have hfirst : entryOf o ∈ v.candidates permuted :=
          (hmem _).mp (List.mem_append_right _ (List.mem_cons_self ..))
        obtain ⟨e, he, -⟩ := hpermuted.newest _ hfirst
        rw [hnil] at he
        exact List.not_mem_nil he
    exact ⟨hsame, congrArg EvidenceVector.digest hsame⟩
  · rw [find_eq_some, hholds.mem_entries_iff hconsistent]
    exact and_comm

/-- Two reports of one resource, the newer of which arrives first in the other order. -/
theorem observations_commute_two :
    let older : FailureObservation := ⟨[97], .present, 1, Digest.zero⟩
    let newer : FailureObservation := ⟨[97], .absent, 2, Digest.zero⟩
    (empty.absorbAll [newer, older]) = empty.absorbAll [older, newer] ∧
      (empty.absorbAll [older, newer]).find [97] = some (entryOf newer) := by
  intro older newer
  have hcommute := observations_commute empty [older, newer] (by decide) (by
    unfold Consistent
    decide) (by decide)
  exact ⟨(hcommute.1 [newer, older] (List.Perm.swap ..)).1,
    (hcommute.2 [97] (entryOf newer)).mpr ⟨rfl, by unfold Newest; decide⟩⟩

end EvidenceVector

end Fcfn
