import LocalTransfer.Discovery.PerKey

/-!
# Pruning tombstones

What age pruning and capacity eviction take away: only tombstones, and only those older
than the retention or with 256 others at least as recent (`pruneTombstones_cases`). Two
abstractions of it follow: a `SafePruning` drops tombstones only, which is all that
the visible peers depend on.
-/

namespace LocalTransfer

open Lib

namespace DiscoveredPeerState

variable {self : DiscoveredPeerState} {records : Std.ExtTreeMap TransientDiscoveryKey PeerRecord}
  {k : TransientDiscoveryKey} {now last : Duration}

theorem mem_tombstones : toLex (last, k) ∈ tombstones records ↔
    records[k]? = some ⟨none, last⟩ := by
  simp only [tombstones, List.mem_map, List.mem_filter, Option.isNone_iff_eq_none, Prod.exists,
    EmbeddingLike.apply_eq_iff_eq, Prod.mk.injEq]
  constructor
  · rintro ⟨key, ⟨visible, last'⟩, ⟨hmem, rfl⟩, rfl, rfl⟩
    exact Std.ExtTreeMap.mem_toList_iff_getElem?_eq_some.mp hmem
  · intro h
    exact ⟨k, _, ⟨Std.ExtTreeMap.mem_toList_iff_getElem?_eq_some.mpr h, rfl⟩, rfl, rfl⟩

theorem nodup_tombstones :
    ((tombstones records).map fun tomb => (ofLex tomb).2).Nodup := by
  have : ((tombstones records).map fun tomb => (ofLex tomb).2) =
      (records.toList.filter fun entry => entry.2.visible.isNone).map Prod.fst := by
    simp [tombstones, Function.comp_def]
  rw [this]
  exact (nodup_keys records).sublist (List.filter_sublist.map _)

/-- Erasing a list of entries. -/
theorem getElem?_foldl_erase (tombs : List (Duration ×ₗ TransientDiscoveryKey)) :
    (tombs.foldl (fun records tomb => records.erase (ofLex tomb).2) records)[k]? =
      if k ∈ tombs.map (fun tomb => (ofLex tomb).2) then none else records[k]? := by
  induction tombs generalizing records with
  | nil => simp
  | cons tomb tombs ih =>
      rw [List.foldl_cons, ih, Std.ExtTreeMap.getElem?_erase]
      by_cases hk : k ∈ tombs.map (fun tomb => (ofLex tomb).2)
      · rw [if_pos hk, if_pos (by simp [hk])]
      · by_cases heq : (ofLex tomb).2 = k
        · simp [heq]
        · simp [hk, heq, Ne.symm heq]

/-- The age rule keeps visible records, and tombstones within the retention. -/
theorem getElem?_filter_retained :
    (self.records.filter fun _ record => retained now record)[k]? = self.records[k]? ∨
      ((self.records.filter fun _ record => retained now record)[k]? = none ∧
        ∃ last, self.records[k]? = some ⟨none, last⟩ ∧ last + tombstoneRetention < now) := by
  rw [Std.ExtTreeMap.getElem?_filter']
  cases hrecord : self.records[k]? with
  | none => exact .inl rfl
  | some record =>
      by_cases hkeep : retained now record
      · exact .inl (by simp [Option.filter, hkeep])
      · obtain ⟨visible, last⟩ := record
        simp only [retained, Bool.or_eq_true, decide_eq_true_eq, not_or, not_lt, not_le,
          Bool.not_eq_true, Option.isSome_eq_false_iff, Option.isNone_iff_eq_none] at hkeep
        obtain ⟨⟨rfl, hle⟩, hold⟩ := hkeep
        refine .inr ⟨?_, last, rfl, Nat.lt_sub_iff_add_lt'.mp hold⟩
        have : retained now ⟨none, last⟩ = false := by
          simp only [retained, Option.isSome_none, Bool.false_or, Bool.or_eq_false_iff,
            decide_eq_false_iff_not]
          exact ⟨Nat.not_lt.mpr hle, Nat.not_le.mpr hold⟩
        simp [Option.filter, this]

/-- A tombstone evicted for capacity has 256 others at least as recent. -/
theorem exists_later_of_oldest {excess : Nat}
    (hexcess : excess + maxRetainedTombstones = (tombstones records).length)
    (h : k ∈ ((sortByKey id (tombstones records)).take excess).map fun tomb => (ofLex tomb).2) :
    ∃ last, records[k]? = some ⟨none, last⟩ ∧
      ∃ keys : Finset TransientDiscoveryKey, maxRetainedTombstones < keys.card ∧
        ∀ k' ∈ keys, ∃ last', records[k']? = some ⟨none, last'⟩ ∧ last ≤ last' := by
  obtain ⟨tomb, htomb, rfl⟩ := List.mem_map.mp h
  let sorted := sortByKey id (tombstones records)
  have hmem : ∀ t ∈ sorted, records[(ofLex t).2]? = some ⟨none, (ofLex t).1⟩ := fun t ht =>
    mem_tombstones.mp (mem_sortByKey.mp ht)
  have hsplit : sorted.take excess ++ sorted.drop excess = sorted := List.take_append_drop ..
  have hsub : List.Sublist (tomb :: sorted.drop excess) sorted := by
    conv_rhs => rw [← hsplit]
    exact (List.singleton_sublist.mpr htomb).append (List.Sublist.refl _)
  have hnodup : ((tomb :: sorted.drop excess).map fun t => (ofLex t).2).Nodup :=
    (((sortByKey_perm _).map _).nodup_iff.mpr nodup_tombstones).sublist (hsub.map _)
  have hle : ∀ t ∈ sorted.drop excess, tomb ≤ t := by
    have hsorted : sorted.Pairwise (· ≤ ·) := sortByKey_pairwise (tombstones records)
    rw [← hsplit, List.pairwise_append] at hsorted
    exact fun t ht => hsorted.2.2 tomb htomb t ht
  refine ⟨(ofLex tomb).1, hmem tomb (List.mem_of_mem_take htomb),
    ((tomb :: sorted.drop excess).map fun t => (ofLex t).2).toFinset, ?_, ?_⟩
  · have hlen : sorted.length = (tombstones records).length := length_sortByKey _
    rw [List.toFinset_card_of_nodup hnodup, List.length_map, List.length_cons, List.length_drop]
    omega
  · intro k' hk'
    obtain ⟨t, ht, rfl⟩ := List.mem_map.mp (List.mem_toFinset.mp hk')
    refine ⟨_, hmem t (hsub.subset ht), ?_⟩
    rcases List.mem_cons.mp ht with rfl | ht
    · exact le_refl _
    · rcases Prod.Lex.le_iff.mp (hle t ht) with hlt | ⟨heq, -⟩
      · exact hlt.le
      · exact heq.le

/-- Pruning takes away a tombstone past its retention, or one of the oldest of too many. -/
theorem pruneTombstones_cases (self : DiscoveredPeerState) (now : Duration)
    (k : TransientDiscoveryKey) :
    (self.pruneTombstones now).records[k]? = self.records[k]? ∨
      ((self.pruneTombstones now).records[k]? = none ∧
        ∃ last, self.records[k]? = some ⟨none, last⟩ ∧
          (last + tombstoneRetention < now ∨
            ∃ keys : Finset TransientDiscoveryKey, maxRetainedTombstones < keys.card ∧
              ∀ k' ∈ keys, ∃ last', self.records[k']? = some ⟨none, last'⟩ ∧ last ≤ last')) := by
  -- age first, then capacity: both only take tombstones away
  let young := self.records.filter fun _ record => retained now record
  have hyoung : ∀ k : TransientDiscoveryKey, young[k]? = self.records[k]? ∨ (young[k]? = none ∧
      ∃ last, self.records[k]? = some ⟨none, last⟩ ∧ last + tombstoneRetention < now) :=
    fun k => getElem?_filter_retained
  have hback : ∀ (k : TransientDiscoveryKey) record, young[k]? = some record →
      self.records[k]? = some record := by
    intro k record hrecord
    rcases hyoung k with h | ⟨h, -⟩
    · rw [← h, hrecord]
    · rw [h] at hrecord
      cases hrecord
  by_cases hfew : (tombstones young).length ≤ maxRetainedTombstones
  · have hprune : self.pruneTombstones now = { self with records := young } := if_pos hfew
    rw [hprune]
    rcases hyoung k with h | ⟨hnone, last, hrecord, hold⟩
    · exact .inl h
    · exact .inr ⟨hnone, last, hrecord, .inl hold⟩
  · have hprune : self.pruneTombstones now = { self with
        records := ((sortByKey id (tombstones young)).take
          ((tombstones young).length - maxRetainedTombstones)).foldl
            (fun records tomb => records.erase (ofLex tomb).2) young } := if_neg hfew
    rw [hprune, getElem?_foldl_erase]
    split
    -- evicted for capacity: 256 others are left, none of them older
    · next hevicted =>
        obtain ⟨last, hrecord, keys, hcard, hkeys⟩ :=
          exists_later_of_oldest (Nat.sub_add_cancel (Nat.le_of_not_le hfew)) hevicted
        refine .inr ⟨rfl, last, hback k _ hrecord, .inr ⟨keys, hcard, fun k' hk' => ?_⟩⟩
        obtain ⟨last', hrecord', hle⟩ := hkeys k' hk'
        exact ⟨last', hback k' _ hrecord', hle⟩
    · rcases hyoung k with h | ⟨hnone, last, hrecord, hold⟩
      · exact .inl h
      · exact .inr ⟨hnone, last, hrecord, .inl hold⟩

end DiscoveredPeerState

end LocalTransfer
