import LocalTransfer.TrustedPeers.RoundTrip

/-!
# One map, one file

The file a run of successful calls leaves is the encoding of the map the calls describe,
whatever the calls were. No bound on the labels is needed: a call that follows an
unreadable file does not succeed.
-/

namespace LocalTransfer

open Lib TrustedPeers

variable {Pid : Type} [DecidableEq Pid]

/-- A run of mutating calls that all succeed, by any processes. -/
inductive OkRun (s : Fs Pid) : List Mutation → Fs Pid → Prop
  | nil : OkRun s [] s
  | snoc {ms s' m reply} (self : TrustedPeerStore) (p : Pid) (oracle : Nat → Answer) :
      OkRun s ms s' → (m.run self p oracle s').1 = .ok reply →
      OkRun s (ms ++ [m]) (m.run self p oracle s').2

/-- What the store file says after calls that describe a map. -/
inductive Describes (M : PeerKeyIdentity → Option (Option TrustedPeerLabel)) : Node → Prop
  | missing : M = (fun _ => none) → Describes M .missing
  | written (T : TrustedPeers) : T.toMap = M → Describes M (.regular (encode T.records))

section Runs

variable {s s' : Fs Pid} {ms : List Mutation}
  {M : PeerKeyIdentity → Option (Option TrustedPeerLabel)}

/-- What a described file loads as, if it loads, is its map. -/
theorem Describes.toMap_of_loadNode {n : Node} {S : TrustedPeers} (h : Describes M n)
    (hS : loadNode n = .ok S) : S.toMap = M := by
  cases h with
  | missing hM =>
      cases hS
      rw [hM]
      exact toMap_empty
  | written T hT =>
      obtain ⟨rfl, -⟩ := decode_encode_eq_ok_iff.mp hS
      exact hT

/-- A successful call takes a described file to a described file. -/
theorem Describes.step {m : Mutation} {self : TrustedPeerStore} {p : Pid} {oracle : Nat → Answer}
    {reply : Reply} (hidle : s.lockOwner = none) (h : Describes M (s.node .trustedPeers))
    (hrun : (m.run self p oracle s).1 = .ok reply) :
    Describes (m.update M) ((m.run self p oracle s).2.node .trustedPeers) := by
  obtain ⟨S, hload, heffect⟩ := ok_effect hidle hrun
  have hM := h.toMap_of_loadNode hload
  rcases heffect with ⟨hnext, -, hcarried⟩ | ⟨T, hnext, -, -, hnode, -⟩
  · have hupdate := update_of_next_eq_none hnext
    rw [hM] at hupdate
    rw [hupdate, hcarried.store]
    exact h
  · rw [hnode]
    exact .written T (by rw [toMap_next hnext, hM])

theorem OkRun.describes (h : OkRun s ms s') (hidle : s.lockOwner = none)
    (habsent : s.node .trustedPeers = .missing) :
    s'.lockOwner = none ∧ Describes (appliedMap ms) (s'.node .trustedPeers) := by
  induction h with
  | nil =>
      rw [habsent]
      exact ⟨hidle, .missing rfl⟩
  | @snoc ms s' m reply self p oracle _ hrun ih =>
      obtain ⟨hidle', hdescribes⟩ := ih
      have hfaults : ∀ n, True ∨ (oracle n).Faultless := fun _ => .inl trivial
      refine ⟨(call_effect self p m hidle' hfaults).2.2, ?_⟩
      have happlied : appliedMap (ms ++ [m]) = m.update (appliedMap ms) := by
        rw [appliedMap, List.foldl_append]
        rfl
      rw [happlied]
      exact hdescribes.step hidle' hrun

end Runs

/-- **The bytes depend on the map only.** Two runs of successful calls from an absent file
that describe the same map and each end with a file end with the same file. -/
theorem store_bytes_canonical (s₁ s₂ s₁' s₂' : Fs Pid) (ms₁ ms₂ : List Mutation)
    (contents₁ contents₂ : Bytes)
    (hidle₁ : s₁.lockOwner = none) (habsent₁ : s₁.node .trustedPeers = .missing)
    (hidle₂ : s₂.lockOwner = none) (habsent₂ : s₂.node .trustedPeers = .missing)
    (hrun₁ : OkRun s₁ ms₁ s₁') (hrun₂ : OkRun s₂ ms₂ s₂')
    (hfile₁ : s₁'.node .trustedPeers = .regular contents₁)
    (hfile₂ : s₂'.node .trustedPeers = .regular contents₂)
    (hmap : appliedMap ms₁ = appliedMap ms₂) : contents₁ = contents₂ := by
  obtain ⟨-, h₁⟩ := hrun₁.describes hidle₁ habsent₁
  obtain ⟨-, h₂⟩ := hrun₂.describes hidle₂ habsent₂
  rw [hfile₁, hmap] at h₁
  rw [hfile₂] at h₂
  cases h₁ with
  | written T₁ hT₁ =>
      cases h₂ with
      | written T₂ hT₂ => rw [toMap_injective (hT₁.trans hT₂.symm)]

/-- A run that stores something ends with a file. -/
theorem OkRun.exists_file {s s' : Fs Pid} {ms : List Mutation} (h : OkRun s ms s')
    (hidle : s.lockOwner = none) (habsent : s.node .trustedPeers = .missing)
    {id : PeerKeyIdentity} (hbound : appliedMap ms id ≠ none) :
    ∃ contents, s'.node .trustedPeers = .regular contents := by
  obtain ⟨-, hdescribes⟩ := h.describes hidle habsent
  generalize s'.node .trustedPeers = n at hdescribes
  cases hdescribes with
  | missing hM => exact absurd (congrFun hM id) hbound
  | written T _ => exact ⟨_, rfl⟩

/-- Storing a record, and storing it after a removal of nothing. -/
theorem store_bytes_canonical_twice :
    let r := recordWith none
    let once : Fs Unit := ((Mutation.store r).run ⟨false⟩ () calm Fs.fresh).2
    let removed : Fs Unit := ((Mutation.remove r.identity).run ⟨true⟩ () calm Fs.fresh).2
    let again : Fs Unit := ((Mutation.store r).run ⟨false⟩ () calm removed).2
    ∃ contents, once.node .trustedPeers = .regular contents ∧
      again.node .trustedPeers = .regular contents := by
  intro r once removed again
  have hstored : ((Mutation.store r).run ⟨false⟩ () calm (Fs.fresh : Fs Unit)).1 = .ok .stored := by
    decide
  have hremoved : ((Mutation.remove r.identity).run ⟨true⟩ () calm (Fs.fresh : Fs Unit)).1 =
      .ok (.removal .alreadyAbsent) := by decide
  have hagain : ((Mutation.store r).run ⟨false⟩ () calm removed).1 = .ok .stored := by decide
  have hrun₁ : OkRun Fs.fresh [.store r] once := .snoc ⟨false⟩ () calm .nil hstored
  have hrun₂ : OkRun Fs.fresh [.remove r.identity, .store r] again :=
    .snoc ⟨false⟩ () calm (.snoc ⟨true⟩ () calm .nil hremoved) hagain
  have hmap : appliedMap [.store r] = appliedMap [.remove r.identity, .store r] := by
    simp [appliedMap, Mutation.update]
  have hbound : appliedMap [.store r] r.identity ≠ none := by
    simp [appliedMap, Mutation.update]
  obtain ⟨contents₁, hfile₁⟩ := hrun₁.exists_file rfl rfl hbound
  obtain ⟨contents₂, hfile₂⟩ := hrun₂.exists_file rfl rfl (hmap ▸ hbound)
  have heq := store_bytes_canonical _ _ _ _ _ _ contents₁ contents₂ rfl rfl rfl rfl hrun₁ hrun₂
    hfile₁ hfile₂ hmap
  exact ⟨contents₁, hfile₁, heq ▸ hfile₂⟩

end LocalTransfer
