import LocalTransfer.TrustedPeers.Concurrent

/-!
# The history of a shared store

What holds of the store file in every run of any number of processes: its successive
contents form one chain of the calls' own updates, a removed identity stays out until
it is stored again, calls that fail before their rename leave no trace, and every load
returns one element of the chain, never an older one than its process read before.
-/

namespace LocalTransfer

open Lib TrustedPeers

variable {Pid : Type}

/-- Contents that do not hold an identity: written from a set without it, and decoded, if
at all, to a set without it. -/
structure Lacks (id : PeerKeyIdentity) (n : Node) : Prop where
  written : ∃ T : TrustedPeers, n = .regular (encode T.records) ∧ T.contains id = false
  decoded : ∀ S, loadNode n = .ok S → S.contains id = false

theorem lacks_of_contains {id : PeerKeyIdentity} {T : TrustedPeers}
    (h : T.contains id = false) : Lacks id (.regular (encode T.records)) := by
  refine ⟨⟨T, rfl, h⟩, fun S hS => ?_⟩
  obtain ⟨rfl, -⟩ := decode_encode_eq_ok_iff.mp hS
  exact h

/-- A removal leaves contents that lack the identity. -/
theorem lacks_of_remove {id : PeerKeyIdentity} {S T : TrustedPeers}
    (h : (Mutation.remove id).next S = some T) : Lacks id (.regular (encode T.records)) := by
  apply lacks_of_contains
  simp only [Mutation.next] at h
  split at h
  · cases h
    simp [contains_eq_toMap, toMap_without]
  · cases h

/-- Any update but a store of the identity keeps it out. -/
theorem lacks_next {id : PeerKeyIdentity} {n : Node} {m : Mutation} {S T : TrustedPeers}
    (hlacks : Lacks id n) (hS : loadNode n = .ok S) (hnext : m.next S = some T)
    (hm : ∀ record, m = .store record → record.identity ≠ id) :
    Lacks id (.regular (encode T.records)) := by
  have habsent := hlacks.decoded S hS
  apply lacks_of_contains
  rw [contains_eq_toMap] at habsent ⊢
  cases m with
  | store record =>
      cases hnext
      rw [toMap_replace, Function.update_of_ne (Ne.symm (hm record rfl))]
      exact habsent
  | remove identity =>
      simp only [Mutation.next] at hnext
      split at hnext
      · cases hnext
        rw [toMap_without]
        by_cases hid : id = identity
        · rw [hid, Function.update_self]
          rfl
        · rw [Function.update_of_ne hid]
          exact habsent
      · cases hnext

/-- In a chain, a removed identity stays out until it is stored again. -/
theorem Chain.dropped {first : Node} {s : Shared Pid} (hchain : Chain first s) {i : Nat}
    {c : Commit Pid} {id : PeerKeyIdentity} (hi : s.history[i]? = some c)
    (hc : c.call = .mutate (.remove id)) {j : Nat} (hij : i < j) (hj : j ≤ s.history.length)
    (hstore : ∀ k d record, i < k → k < j → s.history[k]? = some d →
      d.call = .mutate (.store record) → record.identity ≠ id) :
    Lacks id (version first s.history j) := by
  induction j, hij using Nat.le_induction with
  | base =>
      obtain ⟨m, S, T, hm, -, hnext, hcontents⟩ := hchain.follows i c hi
      rw [hc] at hm
      cases hm
      rw [version_succ hi, hcontents]
      exact lacks_of_remove hnext
  | succ j hij ih =>
      have hlacks := ih (by omega) fun k d record hik hkj => hstore k d record hik (by omega)
      obtain ⟨d, hd⟩ : ∃ d, s.history[j]? = some d :=
        ⟨_, List.getElem?_eq_getElem (show j < s.history.length by omega)⟩
      obtain ⟨m, S, T, hm, hS, hnext, hcontents⟩ := hchain.follows j d hd
      rw [version_succ hd, hcontents]
      refine lacks_next hlacks hS hnext fun record hrecord => ?_
      exact hstore j d record (by omega) (by omega) hd (by rw [hm, hrecord])

theorem version_of_prefix {first : Node} {history history' : List (Commit Pid)} {i : Nat}
    (h : history <+: history') (hi : i ≤ history.length) :
    version first history' i = version first history i := by
  obtain ⟨new, rfl⟩ := h
  exact version_append hi

/-! ## What a run tells -/

/-- A configuration of the shared store. -/
abbrev StoreConfig (Pid : Type) :=
  Config Pid StoreCall (Shared Pid) FsOp FsOp.Result (Except TrustedPeerStoreError Reply)

/-- A completed call. -/
abbrev StoreDone (Pid : Type) :=
  Finished Pid StoreCall (Shared Pid) (Except TrustedPeerStoreError Reply)

/-- A load returned what the `i`-th contents decode to, which were current at some moment
between its start and its end, or an I/O error where steps may fail. -/
def Reads (faults : Prop) (first : Node) (history : List (Commit Pid)) (d : StoreDone Pid)
    (i : Nat) : Prop :=
  d.start.history.length ≤ i ∧ i ≤ d.finish.history.length ∧
    (d.result = (loadNode (version first history i)).map Reply.loaded ∨
      (faults ∧ ∃ operation path source, d.result = .error (.io operation path source)))

variable [DecidableEq Pid]

/-- What a run has done to the store file with these first contents. -/
structure StoreHistory (faults : Prop) (first : Node) (cfg : StoreConfig Pid) : Prop where
  /-- The store file is the last element of the chain. -/
  current : cfg.shared.fs.node .trustedPeers =
    version first cfg.shared.history cfg.shared.history.length
  /-- Each element is its call's own update of what the one before decodes to. -/
  follows : ∀ i c, cfg.shared.history[i]? = some c → ∃ m S T, c.call = .mutate m ∧
    loadNode (version first cfg.shared.history i) = .ok S ∧ m.next S = some T ∧
    T.toMap = m.update S.toMap ∧
    version first cfg.shared.history (i + 1) = .regular (encode T.records)
  /-- A removed identity stays out until it is stored again. -/
  dropped : ∀ i j c id, cfg.shared.history[i]? = some c → c.call = .mutate (.remove id) →
    i < j → j ≤ cfg.shared.history.length →
    (∀ k d record, i < k → k < j → cfg.shared.history[k]? = some d →
      d.call = .mutate (.store record) → record.identity ≠ id) →
    Lacks id (version first cfg.shared.history j)
  /-- The histories at the start and the end of a call are earlier parts of this one. -/
  within : ∀ d ∈ cfg.finished,
    d.start.history <+: d.finish.history ∧ d.finish.history <+: cfg.shared.history
  /-- A mutating call adds one rename if it reports a change, and none if it reports no
  change, a busy store, or any error but a failed sync after the rename. -/
  contributed : ∀ d ∈ cfg.finished, ∀ m, d.call = .mutate m →
    ∃ own, Contributes d.pid own d.start d.finish ∧ Contribution d.pid m own d.result
  /-- Loads read elements of the chain, each process in order. -/
  loaded : ∃ seen : Nat → Nat,
    (∀ k d, cfg.finished[k]? = some d → d.call = .load →
      Reads faults first cfg.shared.history d (seen k)) ∧
    ∀ j k d d', j < k → cfg.finished[j]? = some d → cfg.finished[k]? = some d' →
      d.pid = d'.pid → d.call = .load → d'.call = .load → seen j ≤ seen k

/-- **The shared store is linear.** Whatever the processes do, in whatever order, and
wherever they fail or crash. -/
theorem store_history (faults : Prop) (self : TrustedPeerStore) {fs : Fs Pid}
    (hfree : fs.lockOwner = none) {cfg : StoreConfig Pid}
    (h : ((storeSystem faults self Pid).runs ⟨fs, []⟩).Reachable cfg) :
    StoreHistory faults (fs.node .trustedPeers) cfg := by
  let D : Discipline (storeSystem faults self Pid) :=
    storeDiscipline faults self (fs.node .trustedPeers)
  have hinv : D.inv ⟨fs, []⟩ := ⟨rfl, fun i c hc => by simp at hc⟩
  have hidle : ∀ p, D.idle p ⟨fs, []⟩ := fun p howner => by
    rw [show fs.lockOwner = some p from howner] at hfree
    cases hfree
  have hholds := D.sound hinv hidle h
  -- the discipline of the processes gives the chain, the order of their calls the rest
  have hchain : Chain (fs.node .trustedPeers) cfg.shared := hholds.inv
  obtain ⟨hwithin, hordered⟩ := D.finished_ordered
    (fun s s' => s.history <+: s'.history) (fun s => List.prefix_rfl)
    (fun h h' => h.trans h') hinv hidle
    (by
      rintro p c s s' (hstep | ⟨contents, hstep⟩)
      · exact hstep.history ▸ List.prefix_rfl
      · exact hstep.history ▸ List.prefix_append _ _)
    (fun {p s} => List.prefix_rfl) h
  have hpost := hholds.completed
  refine ⟨hchain.current, ?_, ?_, hwithin, ?_, ?_⟩
  · intro i c hc
    obtain ⟨m, S, T, hm, hS, hnext, hcontents⟩ := hchain.follows i c hc
    exact ⟨m, S, T, hm, hS, hnext, toMap_next hnext, by rw [version_succ hc, hcontents]⟩
  · exact fun i j c id hi hc hij hj hstore => hchain.dropped hi hc hij hj hstore
  · intro d hd m hm
    have := hpost d hd
    rw [hm] at this
    exact this
  -- a load reads some element between its start and its end; choose one for each
  · have hloads : ∀ k : Nat, ∃ i, ∀ d : StoreDone Pid, cfg.finished[k]? = some d →
        d.call = .load → Reads faults (fs.node .trustedPeers) cfg.shared.history d i := by
      intro k
      cases hk : cfg.finished[k]? with
      | none => exact ⟨0, fun d hd => by cases hd⟩
      | some d =>
          have hd := List.mem_of_getElem? hk
          obtain ⟨hstart, hfinish⟩ := hwithin d hd
          by_cases hcall : d.call = .load
          · have hd' := hpost d hd
            rw [hcall] at hd'
            rcases hd'.2 with ⟨i, hlo, hhi, hr⟩ | hio
            · refine ⟨i, fun d' hd' _ => ?_⟩
              cases hd'
              exact ⟨hlo, hhi, .inl (by rw [hr, version_of_prefix hfinish hhi])⟩
            · refine ⟨d.start.history.length, fun d' hd' _ => ?_⟩
              cases hd'
              exact ⟨Nat.le_refl _, hstart.length_le, .inr hio⟩
          · exact ⟨0, fun d' hd' hload => by cases hd'; exact absurd hload hcall⟩
    choose seen hseen using hloads
    refine ⟨seen, hseen, fun j k d d' hjk hj hk hpid hd hd' => ?_⟩
    obtain ⟨hj', hdj⟩ := List.getElem?_eq_some_iff.mp hj
    obtain ⟨hk', hdk⟩ := List.getElem?_eq_some_iff.mp hk
    have hle := List.pairwise_iff_getElem.mp hordered j k hj' hk' hjk
    rw [hdj, hdk] at hle
    calc seen j ≤ d.finish.history.length := (hseen j d hj hd).2.1
      _ ≤ d'.start.history.length := (hle hpid).length_le
      _ ≤ seen k := (hseen k d' hk hd').1

/-- One process loads while another stores; the next one crashes right after its rename. -/
def crowded : List (Turn Bool StoreCall (Env False)) :=
  let calm : Env False := Env.calm
  .start true (.mutate (.store (recordOf 1))) :: List.replicate 12 (.perform true calm) ++
    .start false .load :: List.replicate 40 (.perform false calm) ++
    .finish false :: List.replicate 40 (.perform true calm) ++
    .finish true :: .start false (.mutate (.store (recordOf 2))) ::
    List.replicate 21 (.perform false calm) ++ .crash false ::
    .start true .load :: List.replicate 40 (.perform true calm) ++ [.finish true]

/-- The first load finds nothing, the last one what both calls have renamed into place. -/
theorem store_history_stored : ∃ cfg : StoreConfig Bool, StoreHistory False .missing cfg ∧
    cfg.shared.history.length = 2 ∧
    cfg.finished.map (fun d => d.result.toOption) =
      [some (.loaded TrustedPeers.empty), some .stored,
        some (.loaded ((TrustedPeers.empty.replace (recordOf 1)).replace (recordOf 2)))] := by
  let fs : Fs Bool := ⟨fun _ => .missing, fun _ => .missing, none⟩
  have hinit : ((storeSystem False ⟨false⟩ Bool).runs ⟨fs, []⟩).Reachable
      ⟨⟨fs, []⟩, fun _ => none, []⟩ := .init rfl
  have h := System.reachable_schedule _ hinit crowded
  refine ⟨_, store_history False ⟨false⟩ rfl h, ?_, ?_⟩
  · decide +kernel
  · decide +kernel

end LocalTransfer
