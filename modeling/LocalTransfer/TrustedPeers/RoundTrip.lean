import LocalTransfer.TrustedPeers.Sequential

/-!
# Storing and loading again

What a load finds after a successful mutation, and after a whole run of them. The
set a run leaves is the finite map its calls describe, as long as every stored label
takes at most 128 bytes; a longer label, although valid, is written to a file that
no later call accepts.
-/

namespace LocalTransfer

open Lib TrustedPeers

variable {Pid : Type} [DecidableEq Pid]

/-- The map a list of calls leads to from the empty one. -/
def appliedMap (ms : List Mutation) : PeerKeyIdentity → Option (Option TrustedPeerLabel) :=
  ms.foldl Mutation.update fun _ => none

/-- Nothing is stored under a label the reader rejects. -/
def Mutation.Fits : Mutation → Prop
  | .store record => LabelFits record.label
  | .remove _ => True

/-- What a call returns on a loaded set, if the set it writes is not too large. -/
def Mutation.replyOn (S : TrustedPeers) : Mutation → Reply
  | .store _ => .stored
  | .remove identity => .removal (if S.contains identity then .removed else .alreadyAbsent)

/-- A call without anything to write leaves the map as it is. -/
theorem update_of_next_eq_none {m : Mutation} {S : TrustedPeers} (h : m.next S = none) :
    m.update S.toMap = S.toMap := by
  cases m with
  | store record => cases h
  | remove identity =>
      have habsent : S.toMap identity = none := by
        simp only [Mutation.next] at h
        split at h
        · cases h
        · rename_i hcontains
          simpa [contains_eq_toMap] using hcontains
      exact Function.update_eq_self_iff.mpr habsent.symm

theorem replyOn_of_next {m : Mutation} {S T : TrustedPeers} (h : m.next S = some T) :
    m.replyOn S = m.reply := by
  cases m with
  | store record => rfl
  | remove identity =>
      simp only [Mutation.next] at h
      split at h
      · rename_i hcontains
        simp [Mutation.replyOn, Mutation.reply, hcontains]
      · cases h

theorem replyOn_of_next_eq_none {m : Mutation} {S : TrustedPeers} (h : m.next S = none) :
    m.replyOn S = .removal .alreadyAbsent := by
  cases m with
  | store record => cases h
  | remove identity =>
      simp only [Mutation.next] at h
      split at h
      · cases h
      · rename_i hcontains
        simp [Mutation.replyOn, hcontains]

/-! ## Which files can be read -/

theorem storable_of_loadNode {n : Node} {S : TrustedPeers} (h : loadNode n = .ok S) :
    Storable S.records := by
  cases n with
  | missing =>
      cases h
      exact ⟨Nat.zero_le _, fun _ hr => absurd hr List.not_mem_nil⟩
  | regular contents => exact storable_of_decode h
  | symlink | other => cases h

/-- A set within the count can be read back exactly when its new label fits. -/
theorem labels_next_iff {m : Mutation} {S T : TrustedPeers} (hS : Storable S.records)
    (hnext : m.next S = some T) : (∀ record ∈ T.records, LabelFits record.label) ↔ m.Fits := by
  cases m with
  | store record =>
      cases hnext
      constructor
      · exact fun h => h record (mem_replace.mpr (.inl rfl))
      · intro hfits r hr
        rcases mem_replace.mp hr with rfl | ⟨hr, -⟩
        · exact hfits
        · exact hS.labels r hr
  | remove identity =>
      simp only [Mutation.next] at hnext
      split at hnext
      · cases hnext
        exact ⟨fun _ => trivial, fun _ r hr => hS.labels r (mem_without.mp hr).1⟩
      · cases hnext

/-- What was written is read back exactly when the call's label fits. -/
theorem loadNode_written_iff {m : Mutation} {n : Node} {S T T' : TrustedPeers}
    (hS : loadNode n = .ok S) (hnext : m.next S = some T) (hacc : Accepted T.records) :
    loadNode (.regular (encode T.records)) = .ok T' ↔ T' = T ∧ m.Fits := by
  rw [← labels_next_iff (storable_of_loadNode hS) hnext]
  refine decode_encode_eq_ok_iff.trans (and_congr_right fun _ => ?_)
  exact ⟨fun h => h.labels, fun h => ⟨hacc.count, h⟩⟩

/-- The only reason to write nothing is a full store and a new identity. -/
theorem rejects_of_fits {m : Mutation} {n : Node} {S T : TrustedPeers}
    {e : TrustedPeerStoreError} (hS : loadNode n = .ok S) (hnext : m.next S = some T)
    (hfits : m.Fits) (h : Rejects T.records e) :
    e = .capacityExceeded (maxTrustedPeers + 1) maxTrustedPeers ∧ S.len = maxTrustedPeers ∧
      ∃ record, m = .store record ∧ S.contains record.identity = false := by
  have hstorable := storable_of_loadNode hS
  have hlabels := (labels_next_iff hstorable hnext).mpr hfits
  have hcount := hstorable.count
  cases h with
  | size hT hsize => exact absurd (length_encode_le ⟨hT, hlabels⟩) (Nat.not_le.mpr hsize)
  | capacity hT =>
      cases m with
      | store record =>
          cases hnext
          have hkeep : (S.remaining record.identity).length ≤ S.records.length :=
            List.length_filter_le _ _
          have hlen : (S.replace record).records.length =
              (S.remaining record.identity).length + 1 := by
            simp [replace, stored, remaining]
          have hall : (S.remaining record.identity).length = S.records.length := by omega
          have hfull : S.records.length = maxTrustedPeers := by omega
          refine ⟨by rw [hlen, hall, hfull], hfull, record, rfl, contains_eq_false_iff.mpr ?_⟩
          intro r hr
          simpa using List.length_filter_eq_length_iff.mp hall r hr
      | remove identity =>
          simp only [Mutation.next] at hnext
          split at hnext
          · cases hnext
            have : (S.without identity).records.length ≤ S.records.length :=
              List.length_filter_le _ _
            omega
          · cases hnext

/-! ## One call -/

section Call

variable {self : TrustedPeerStore} {p : Pid} {m : Mutation} {oracle : Nat → Answer} {s : Fs Pid}
  {S : TrustedPeers} {reply : Reply}

/-- What a successful call without faults leaves in the store file: the set it read, if
it had nothing to write, or the next one. -/
theorem node_of_ok (hs : AtRest s) (hS : loadNode (s.node .trustedPeers) = .ok S)
    (hrun : (m.run self p oracle s).1 = .ok reply) :
    (m.next S = none ∧ reply = .removal .alreadyAbsent ∧
        (m.run self p oracle s).2.node .trustedPeers = s.node .trustedPeers) ∨
      ∃ T, m.next S = some T ∧ reply = m.reply ∧ Accepted T.records ∧
        (m.run self p oracle s).2.node .trustedPeers = .regular (encode T.records) := by
  obtain ⟨S', hload, heffect⟩ := ok_effect hs.idle hrun
  rw [hS] at hload
  cases hload
  rcases heffect with ⟨hnext, hreply, hcarried⟩ | ⟨T, hnext, hreply, hacc, hnode, -⟩
  · exact .inl ⟨hnext, hreply, hcarried.store⟩
  · exact .inr ⟨T, hnext, hreply, hacc, hnode⟩

/-- What a call without faults returns on a file that loads. -/
theorem result_faultless (hs : AtRest s) (hS : loadNode (s.node .trustedPeers) = .ok S)
    (horacle : ∀ n, (oracle n).Faultless) (hfits : m.Fits) :
    (m.run self p oracle s).1 = .ok (m.replyOn S) ∨
      ((m.run self p oracle s).1 =
          .error (.capacityExceeded (maxTrustedPeers + 1) maxTrustedPeers) ∧
        S.len = maxTrustedPeers ∧
        ∃ record, m = .store record ∧ S.contains record.identity = false) := by
  have hfaults : ∀ n, False ∨ (oracle n).Faultless := fun n => .inr (horacle n)
  obtain ⟨heffect, -, -⟩ := call_effect self p m hs.idle hfaults
  have hrest : AtRest (m.run self p oracle s).2 := run_atRest hs horacle
  generalize m.run self p oracle s = x at heffect hrest ⊢
  obtain ⟨r, s'⟩ := x
  dsimp only at heffect hrest ⊢
  cases heffect with
  | kept hcarried herr =>
      rcases herr with h | ⟨S', T, hload, hnext, hrej⟩ | hexc
      · rw [hS] at h
        cases h
      · rw [hS] at hload
        cases hload
        obtain ⟨rfl, hfull, hstore⟩ := rejects_of_fits hS hnext hfits hrej
        exact .inr ⟨rfl, hfull, hstore⟩
      · exact absurd hexc hrest.not_excused
  | absent hcarried hload hnext =>
      rw [hS] at hload
      cases hload
      exact .inl (by rw [replyOn_of_next_eq_none hnext])
  | unsynced hload hnext hnode hdur herr hexc => exact absurd hexc hrest.not_excused
  | synced hload hnext hacc hnode hdur =>
      rw [hS] at hload
      cases hload
      exact .inl (by rw [replyOn_of_next hnext])

/-- After a successful store the file holds the set with its record replaced, or
nothing that can be read. -/
theorem loads_after_store_iff {record : TrustedPeerRecord} (hs : AtRest s)
    (hS : loadNode (s.node .trustedPeers) = .ok S)
    (hrun : ((Mutation.store record).run self p oracle s).1 = .ok reply) :
    (∃ T, loadNode (((Mutation.store record).run self p oracle s).2.node .trustedPeers) = .ok T ∧
      T.toMap = Function.update S.toMap record.identity (some record.label)) ↔
      LabelFits record.label := by
  rcases node_of_ok hs hS hrun with ⟨hnext, -, -⟩ | ⟨T, hnext, -, hacc, hnode⟩
  · cases hnext
  · rw [hnode]
    constructor
    · rintro ⟨T', hload, -⟩
      exact ((loadNode_written_iff hS hnext hacc).mp hload).2
    · intro hfits
      exact ⟨T, (loadNode_written_iff hS hnext hacc).mpr ⟨rfl, hfits⟩, toMap_next hnext⟩

end Call

/-! ## Runs of calls -/

/-- A run of successful mutating calls without faults, from one state to another. -/
inductive SuccessfulRun (self : TrustedPeerStore) (p : Pid) (s : Fs Pid) :
    List Mutation → Fs Pid → Prop
  | nil : SuccessfulRun self p s [] s
  | snoc {ms s' m oracle reply} : SuccessfulRun self p s ms s' → (∀ n, (oracle n).Faultless) →
      (m.run self p oracle s').1 = .ok reply →
      SuccessfulRun self p s (ms ++ [m]) (m.run self p oracle s').2

section Run

variable {self : TrustedPeerStore} {p : Pid} {s s' : Fs Pid} {ms : List Mutation}

/-- A run whose labels all fit leaves the file of the map its calls describe. -/
theorem SuccessfulRun.loads (h : SuccessfulRun self p s ms s') (hs : AtRest s)
    (habsent : s.node .trustedPeers = .missing) (hfits : ∀ m ∈ ms, m.Fits) :
    AtRest s' ∧ ∃ T, loadNode (s'.node .trustedPeers) = .ok T ∧ T.toMap = appliedMap ms := by
  induction h with
  | nil => exact ⟨hs, TrustedPeers.empty, by rw [habsent]; rfl, toMap_empty⟩
  | @snoc ms s' m oracle reply _ horacle hrun ih =>
      obtain ⟨hs', S, hS, hmap⟩ := ih fun m' hm' => hfits m' (List.mem_append_left _ hm')
      refine ⟨run_atRest hs' horacle, ?_⟩
      have happlied : appliedMap (ms ++ [m]) = m.update S.toMap := by
        rw [hmap, appliedMap, appliedMap, List.foldl_append]
        rfl
      rcases node_of_ok hs' hS hrun with ⟨hnext, -, hnode⟩ | ⟨T, hnext, -, hacc, hnode⟩
      · exact ⟨S, by rw [hnode, hS], by rw [happlied, update_of_next_eq_none hnext]⟩
      · refine ⟨T, ?_, by rw [happlied, toMap_next hnext]⟩
        rw [hnode]
        exact (loadNode_written_iff hS hnext hacc).mpr ⟨rfl, hfits m (by simp)⟩

end Run

/-! ## The store as a map -/

/-- **Storing and loading again.** After a successful store without faults, loads return
the previous set with the record's binding replaced, exactly when the record's label
takes at most 128 bytes. A run of successful calls whose labels all do leaves the set
its calls describe, and a file that every further call accepts. -/
theorem store_round_trip (self : TrustedPeerStore) (p : Pid) :
    (∀ (s : Fs Pid) (S : TrustedPeers) (record : TrustedPeerRecord) (oracle : Nat → Answer)
        (reply : Reply), AtRest s → loadNode (s.node .trustedPeers) = .ok S →
        (∀ n, (oracle n).Faultless) →
        ((Mutation.store record).run self p oracle s).1 = .ok reply →
        ((∀ oracle', (∀ n, (oracle' n).Faultless) →
          ∃ T, (loadRun self p oracle' ((Mutation.store record).run self p oracle s).2).1 = .ok T ∧
            T.toMap = Function.update S.toMap record.identity (some record.label)) ↔
          LabelFits record.label)) ∧
    ∀ (s s' : Fs Pid) (ms : List Mutation), AtRest s → s.node .trustedPeers = .missing →
      SuccessfulRun self p s ms s' → (∀ m ∈ ms, m.Fits) →
      ∃ T : TrustedPeers, T.toMap = appliedMap ms ∧
        (∀ oracle, (∀ n, (oracle n).Faultless) → (loadRun self p oracle s').1 = .ok T) ∧
        ∀ (m : Mutation) (oracle : Nat → Answer), m.Fits → (∀ n, (oracle n).Faultless) →
          (m.run self p oracle s').1 = .ok (m.replyOn T) ∨
            ((m.run self p oracle s').1 =
                .error (.capacityExceeded (maxTrustedPeers + 1) maxTrustedPeers) ∧
              T.len = maxTrustedPeers ∧
              ∃ record, m = .store record ∧ T.contains record.identity = false) := by
  constructor
  · intro s S record oracle reply hs hS horacle hrun
    rw [← loads_after_store_iff hs hS hrun]
    have hs' : AtRest ((Mutation.store record).run self p oracle s).2 := run_atRest hs horacle
    constructor
    · intro h
      obtain ⟨T, hload, hmap⟩ := h oracle horacle
      exact ⟨T, by rw [← hload, load_faultless hs' horacle], hmap⟩
    · rintro ⟨T, hload, hmap⟩ oracle' horacle'
      exact ⟨T, by rw [load_faultless hs' horacle', hload], hmap⟩
  · intro s s' ms hs habsent hrun hfits
    obtain ⟨hs', T, hload, hmap⟩ := hrun.loads hs habsent hfits
    refine ⟨T, hmap, fun oracle horacle => ?_, fun m oracle hm horacle => ?_⟩
    · rw [load_faultless hs' horacle, hload]
    · exact result_faultless hs' hload horacle hm

def recordWith (label : Option TrustedPeerLabel) : TrustedPeerRecord :=
  ⟨⟨1, [1], by decide, by decide⟩, label⟩

/-- A label of 64 two-byte characters, the longest that fits. -/
def wideLabel : TrustedPeerLabel :=
  ⟨List.replicate 64 'é', by decide, by decide, by decide, by decide⟩

theorem wideLabel_fits : LabelFits (some wideLabel) := by decide +kernel

/-- A record gets the longest label, after a removal that failed and a crash that undid it. -/
theorem store_round_trip_fresh :
    let bare := Mutation.store (recordWith none)
    let wide := Mutation.store (recordWith (some wideLabel))
    let remove := Mutation.remove (recordWith none).identity
    let stored := (bare.run ⟨false⟩ () calm (Fs.fresh : Fs Unit)).2
    let s := (remove.run ⟨false⟩ () (failingAt 23) stored).2.crash
    (∃ T, (loadRun ⟨false⟩ () calm (wide.run ⟨false⟩ () calm s).2).1 = .ok T ∧
      T.toMap = Function.update
        (TrustedPeers.toMap ⟨[recordWith none], List.pairwise_singleton _ _⟩)
        (recordWith none).identity (some (some wideLabel))) ∧
    ∃ T : TrustedPeers, T.toMap = appliedMap [bare, wide, remove] := by
  intro bare wide remove stored s
  have hbare : (bare.run ⟨false⟩ () calm (Fs.fresh : Fs Unit)).1 = .ok .stored := by
    decide +kernel
  constructor
  · have hs : AtRest s := ⟨rfl, .inr ⟨[], by decide +kernel⟩⟩
    have hload : loadNode (s.node .trustedPeers) =
        .ok ⟨[recordWith none], List.pairwise_singleton _ _⟩ := by decide +kernel
    have hwide : (wide.run ⟨false⟩ () calm s).1 = .ok .stored := by decide +kernel
    exact ((store_round_trip ⟨false⟩ ()).1 s _ (recordWith (some wideLabel)) calm .stored hs hload
      calm_faultless hwide).mpr wideLabel_fits calm calm_faultless
  · have hwide : (wide.run ⟨false⟩ () calm stored).1 = .ok .stored := by decide +kernel
    have hremove : (remove.run ⟨false⟩ () calm (wide.run ⟨false⟩ () calm stored).2).1 =
        .ok (.removal .removed) := by decide +kernel
    have hrun : SuccessfulRun ⟨false⟩ () (Fs.fresh : Fs Unit) [bare, wide, remove] _ :=
      .snoc (.snoc (.snoc .nil calm_faultless hbare) calm_faultless hwide) calm_faultless hremove
    have hfits : ∀ m ∈ [bare, wide, remove], m.Fits := by
      intro m hm
      simp only [List.mem_cons, List.not_mem_nil, or_false] at hm
      rcases hm with rfl | rfl | rfl
      · exact trivial
      · exact wideLabel_fits
      · exact trivial
    obtain ⟨T, hmap, -⟩ :=
      (store_round_trip ⟨false⟩ ()).2 Fs.fresh _ _ atRest_fresh rfl hrun hfits
    exact ⟨T, hmap⟩

/-- A label of 64 three-byte characters. -/
def longLabel : TrustedPeerLabel :=
  ⟨List.replicate 64 '界', by decide, by decide, by decide, by decide⟩

/-- **A valid label that locks the store out.** The record is stored, and then neither a
load nor a removal succeeds. -/
theorem long_label_locks_out :
    ((Mutation.store (recordWith (some longLabel))).run ⟨false⟩ () calm Fs.fresh).1 =
        .ok .stored ∧
      (∀ T, (loadRun ⟨false⟩ () calm
        ((Mutation.store (recordWith (some longLabel))).run ⟨false⟩ () calm Fs.fresh).2).1 ≠
          .ok T) ∧
      ∀ reply, ((Mutation.remove (recordWith none).identity).run ⟨false⟩ () calm
        ((Mutation.store (recordWith (some longLabel))).run ⟨false⟩ () calm Fs.fresh).2).1 ≠
          .ok reply := by
  have hstored : ((Mutation.store (recordWith (some longLabel))).run ⟨false⟩ () calm Fs.fresh).1 =
      .ok .stored := by decide +kernel
  have hrest : AtRest
      ((Mutation.store (recordWith (some longLabel))).run ⟨false⟩ () calm Fs.fresh).2 :=
    run_atRest atRest_fresh calm_faultless
  have hload : ∀ T, loadNode (((Mutation.store (recordWith (some longLabel))).run ⟨false⟩ () calm
      Fs.fresh).2.node .trustedPeers) ≠ .ok T := by
    intro T hT
    have hempty : loadNode .missing = .ok TrustedPeers.empty := rfl
    rcases node_of_ok atRest_fresh hempty hstored with
      ⟨hnext, -, -⟩ | ⟨T', hnext, -, hacc, hnode⟩
    · cases hnext
    · rw [hnode, loadNode_written_iff hempty hnext hacc] at hT
      exact absurd hT.2 (show ¬ LabelFits (some longLabel) by decide +kernel)
  refine ⟨hstored, fun T => ?_, fun reply hreply => ?_⟩
  · rw [load_faultless hrest calm_faultless]
    exact hload T
  · have hfaults : ∀ n, False ∨ (calm n).Faultless := fun n => .inr (calm_faultless n)
    obtain ⟨heffect, -, -⟩ :=
      call_effect ⟨false⟩ () (.remove (recordWith none).identity) hrest.idle hfaults
    rw [hreply] at heffect
    generalize hr : (Except.ok reply : Except TrustedPeerStoreError Reply) = r at heffect
    cases heffect with
    | kept | unsynced => cases hr
    | absent _ hS _ => exact hload _ hS
    | synced hS _ _ _ _ => exact hload _ hS

end LocalTransfer
