import LocalTransfer.Lib.BoundedMap
import LocalTransfer.TrustedPeers.Atomicity
import LocalTransfer.TrustedPeers.Concurrent

/-!
# The store as a bounded map

What the trusted-peer store is for: a map of at most 128 identities to labels. Calls made one at
a time refine it, under every placement of faults: a call answers as the map does, or it fails
and has changed nothing, or it fails after it has taken effect, and only when a step failed
(`store_refines_book`).
-/

namespace LocalTransfer

open Lib TrustedPeers

/-! ## The map -/

abbrev PeerBook := BoundedMap PeerKeyIdentity (Option TrustedPeerLabel) maxTrustedPeers

/-- What a call returns on a map, and what it makes of it. -/
inductive Answers (book : PeerBook) : StoreCall → Reply → PeerBook → Prop
  | loaded {S : TrustedPeers} : S.toMap = book.lookup → Answers book .load (.loaded S) book
  | stored {record : TrustedPeerRecord} (h : book.HasRoom record.identity) :
      Answers book (.mutate (.store record)) .stored (book.insert record.identity record.label h)
  | removed {identity : PeerKeyIdentity} : (book.lookup identity).isSome →
      Answers book (.mutate (.remove identity)) (.removal .removed) (book.erase identity)
  | absent {identity : PeerKeyIdentity} : book.lookup identity = none →
      Answers book (.mutate (.remove identity)) (.removal .alreadyAbsent) book

/-- What comes of a call: an answer, or a refusal for lack of room, or a failure of a step,
before or after the call has taken effect. -/
inductive Outcome (book : PeerBook) (faulty : Prop) :
    StoreCall → Except TrustedPeerStoreError Reply → PeerBook → Prop
  | answered {call reply book'} : Answers book call reply book' →
      Outcome book faulty call (.ok reply) book'
  | full {record : TrustedPeerRecord} : ¬ book.HasRoom record.identity →
      Outcome book faulty (.mutate (.store record))
        (.error (.capacityExceeded (maxTrustedPeers + 1) maxTrustedPeers)) book
  | failed {call e} : faulty → Outcome book faulty call (.error e) book
  | unsynced {m e reply book'} : faulty → SyncError e → Answers book (.mutate m) reply book' →
      Outcome book faulty (.mutate m) (.error e) book'

theorem Outcome.mono {book book' : PeerBook} {faulty faulty' : Prop} {call : StoreCall}
    {result : Except TrustedPeerStoreError Reply} (h : Outcome book faulty call result book')
    (himp : faulty → faulty') : Outcome book faulty' call result book' := by
  cases h with
  | answered h => exact .answered h
  | full h => exact .full h
  | failed h => exact .failed (himp h)
  | unsynced h herr hanswers => exact .unsynced (himp h) herr hanswers

/-- What a call shows: what it was, if a step of it failed, and what it returned. -/
structure Called where
  call : StoreCall
  faulty : Prop
  result : Except TrustedPeerStoreError Reply

/-- What comes of calls, one after the other. -/
inductive BookRun : PeerBook → List Called → PeerBook → Prop
  | nil {book} : BookRun book [] book
  | cons {book next last called rest} :
      Outcome book called.faulty called.call called.result next → BookRun next rest last →
      BookRun book (called :: rest) last

/-! ## Calls on the filesystem -/

variable {Pid : Type}

/-- A call of a process, with what its steps meet. -/
structure StoreUse (Pid : Type) where
  store : TrustedPeerStore
  pid : Pid
  oracle : Nat → Answer
  call : StoreCall

/-- A label that is stored can be read again. -/
def StoreUse.Fits (use : StoreUse Pid) : Prop := ∀ m, use.call = .mutate m → m.Fits

/-- What a file that holds a map is: a usable store whose file loads as the map. -/
structure Holds (s : Fs Pid) (book : PeerBook) : Prop where
  rest : AtRest s
  loads : ∃ S, loadNode (s.node .trustedPeers) = .ok S ∧ S.toMap = book.lookup

theorem Holds.of_carried {s s' : Fs Pid} {book : PeerBook} (h : Holds s book)
    (hcarried : s.Carried s') (hidle : s'.lockOwner = none) : Holds s' book :=
  ⟨⟨hidle, hcarried.usable.mpr h.rest.usable⟩, hcarried.store ▸ h.loads⟩

theorem holds_fresh : Holds (Fs.fresh : Fs Pid) BoundedMap.empty := by
  refine ⟨atRest_fresh, TrustedPeers.empty, rfl, ?_⟩
  rw [toMap_empty]
  funext id
  exact BoundedMap.lookup_empty.symm

/-- The map of a set has as many bindings as the set has records. -/
theorem size_eq_len {S : TrustedPeers} {book : PeerBook} (h : S.toMap = book.lookup) :
    book.size = S.len := by
  have hsize : book.size = (S.records.map TrustedPeerRecord.identity).length := by
    refine BoundedMap.size_eq_length S.ordered.nodup_keys ?_
    intro id
    rw [← h, ← contains_eq_toMap, contains_iff, List.mem_map]
  rw [hsize, List.length_map]
  rfl

/-- There is no room exactly when the set is full and has no record of the identity. -/
theorem not_hasRoom_iff {S : TrustedPeers} {book : PeerBook} (h : S.toMap = book.lookup)
    {id : PeerKeyIdentity} :
    ¬ book.HasRoom id ↔ S.len = maxTrustedPeers ∧ S.contains id = false := by
  rw [BoundedMap.not_hasRoom_iff, size_eq_len h, contains_eq_toMap, h, and_comm]
  simp

/-- A call that writes answers as the map does, if what it writes is within the count. -/
theorem answers_of_next {S T : TrustedPeers} {book : PeerBook} (h : S.toMap = book.lookup)
    {m : Mutation} (hnext : m.next S = some T) (hcount : T.records.length ≤ maxTrustedPeers)
    (hS : S.records.length ≤ maxTrustedPeers) :
    ∃ book', Answers book (.mutate m) m.reply book' ∧ T.toMap = book'.lookup := by
  have hmap := toMap_next hnext
  cases m with
  | store record =>
      cases hnext
      have hroom : book.HasRoom record.identity := by
        by_contra hfull
        have hmany := (length_stored_gt_iff hS).mpr ((not_hasRoom_iff h).mp hfull)
        have hlength : (S.replace record).records.length = (S.stored record).length :=
          length_sortByKey _
        omega
      refine ⟨_, .stored hroom, ?_⟩
      rw [hmap, BoundedMap.lookup_insert, Mutation.update, h]
  | remove identity =>
      simp only [Mutation.next] at hnext
      split at hnext
      · next hcontains =>
          rw [contains_eq_toMap, h] at hcontains
          refine ⟨_, .removed hcontains, ?_⟩
          rw [hmap, BoundedMap.lookup_erase, Mutation.update, h]
      · cases hnext

/-- So does a call without anything to write. -/
theorem answers_of_next_eq_none {S : TrustedPeers} {book : PeerBook} (h : S.toMap = book.lookup)
    {m : Mutation} (hnext : m.next S = none) :
    Answers book (.mutate m) (.removal .alreadyAbsent) book := by
  cases m with
  | store record => cases hnext
  | remove identity =>
      simp only [Mutation.next] at hnext
      split at hnext
      · cases hnext
      · next hcontains =>
          refine .absent ?_
          rw [← h]
          simpa [contains_eq_toMap] using hcontains

variable [DecidableEq Pid]

/-- What a call returns, and the filesystem after it. -/
def StoreUse.run (use : StoreUse Pid) (s : Fs Pid) :
    Except TrustedPeerStoreError Reply × Fs Pid :=
  (use.call.code use.store).exec (Fs.step use.pid) use.oracle s

/-- A step that the call takes fails. -/
def StoreUse.Faulty (use : StoreUse Pid) (s : Fs Pid) : Prop :=
  ∃ step ∈ (use.call.code use.store).trace (Fs.step use.pid) use.oracle s,
    step.1.Failed step.2

/-- Calls one after the other. -/
def runAll : List (StoreUse Pid) → Fs Pid → List Called × Fs Pid
  | [], s => ([], s)
  | use :: uses, s =>
      let (result, next) := use.run s
      let (rest, last) := runAll uses next
      (⟨use.call, use.Faulty s, result⟩ :: rest, last)

/-! ## One call -/

section Call

variable {s s' : Fs Pid} {book : PeerBook} {faults : Prop} {p : Pid} {m : Mutation}
  {r : Except TrustedPeerStoreError Reply}

/-- A transaction leaves the store as it is, or has accepted what it wrote. -/
theorem transacted_accepts (h : (sequential faults p).Transacted m s r s') :
    s.Carried s' ∨ ∃ S T, loadNode (s.node .trustedPeers) = .ok S ∧ m.next S = some T ∧
      Accepted T.records := by
  cases h with
  | unread h₁ h₂ _ => exact .inl (h₁.trans h₂).toCarried
  | absent h₁ _ _ h₂ => exact .inl (h₁.trans h₂).toCarried
  | @wrote S T s₁ _ _ _ h₁ hload hnext h₂ hwrite =>
      have hread : loadNode (s.node .trustedPeers) = .ok S := by
        rw [← h₁.store]
        exact hload
      cases hwrite with
      | rejected h₃ _ => exact .inl ((h₁.trans h₂).trans h₃).toCarried
      | unsynced hacc _ _ _ _ _ => exact .inr ⟨S, T, hread, hnext, hacc⟩
      | synced hacc _ _ _ _ _ => exact .inr ⟨S, T, hread, hnext, hacc⟩

theorem mutated_accepts (h : (sequential faults p).Mutated m s r s') :
    s.Carried s' ∨ ∃ S T, loadNode (s.node .trustedPeers) = .ok S ∧ m.next S = some T ∧
      Accepted T.records := by
  cases h with
  | failed h _ => exact .inl h.toCarried
  | busy h₁ _ h₂ => exact .inl (h₁.trans h₂).toCarried
  | ran h₁ h₂ h₃ hrun h₅ h₆ h₇ =>
      obtain ⟨hacq, howner⟩ := carried_acquired h₂
      obtain ⟨-, -, howner'⟩ := transacted_effect hrun
      obtain ⟨hrel, -⟩ :=
        carried_released h₆ (h₅.owner.trans (howner'.trans (h₃.owner.trans howner)))
      have hbefore := h₁.toCarried.trans (hacq.trans h₃.toCarried)
      have hafter := h₅.toCarried.trans (hrel.trans h₇.toCarried)
      rcases transacted_accepts hrun with hcarried | ⟨S, T, hload, hnext, hacc⟩
      · exact .inl (hbefore.trans (hcarried.trans hafter))
      · exact .inr ⟨S, T, hbefore.store ▸ hload, hnext, hacc⟩

theorem mutation_outcome (store : TrustedPeerStore) (pid : Pid) {oracle : Nat → Answer}
    {m : Mutation} (h : Holds s book) (hfits : m.Fits)
    (horacle : ∀ n, faults ∨ (oracle n).Faultless) :
    ∃ next, Outcome book faults (.mutate m) (m.run store pid oracle s).1 next ∧
      Holds (m.run store pid oracle s).2 next := by
  obtain ⟨S, hload, hmap⟩ := h.loads
  have hcount := (storable_of_loadNode hload).count
  obtain ⟨heffect, husable, hidle⟩ := call_effect store pid m h.rest.idle horacle
  have haccepts : s.Carried (m.run store pid oracle s).2 ∨ ∃ S T,
      loadNode (s.node .trustedPeers) = .ok S ∧ m.next S = some T ∧ Accepted T.records :=
    mutated_accepts (exec_of_wp ((sequential faults pid).mutation_spec
      (lockUsable_sequential _ _) store m fun _ _ _ _ _ _ => trivial) horacle)
  have hrest : AtRest (m.run store pid oracle s).2 := ⟨hidle, husable.mpr h.rest.usable⟩
  generalize m.run store pid oracle s = ran at heffect haccepts hrest ⊢
  obtain ⟨result, s'⟩ := ran
  dsimp only at heffect haccepts hrest ⊢
  -- what was written loads as the map that the call makes
  have hwritten : ∀ {T}, m.next S = some T → Accepted T.records →
      s'.node .trustedPeers = .regular (encode T.records) →
      ∃ next, Answers book (.mutate m) m.reply next ∧ Holds s' next := by
    intro T hnext hacc hnode
    obtain ⟨next, hanswers, hmap'⟩ := answers_of_next hmap hnext hacc.count hcount
    refine ⟨next, hanswers, hrest, T, ?_, hmap'⟩
    rw [hnode]
    exact (loadNode_written_iff hload hnext hacc).mpr ⟨rfl, hfits⟩
  cases heffect with
  | kept hcarried herr =>
      have hkept := h.of_carried hcarried hrest.idle
      rcases herr with herr | ⟨S', T, hload', hnext, hrejects⟩ | hexcused
      · rw [hload] at herr
        cases herr
      · rw [hload] at hload'
        cases hload'
        obtain ⟨rfl, hlen, record, rfl, habsent⟩ :=
          rejects_of_fits hload hnext hfits hrejects
        exact ⟨book, .full ((not_hasRoom_iff hmap).mpr ⟨hlen, habsent⟩), hkept⟩
      · exact ⟨book, .failed (hexcused.resolve_right fun hu => hu hrest.usable), hkept⟩
  | absent hcarried hload' hnext =>
      rw [hload] at hload'
      cases hload'
      exact ⟨book, .answered (answers_of_next_eq_none hmap hnext),
        h.of_carried hcarried hrest.idle⟩
  | unsynced hload' hnext hnode _ herr hexcused =>
      rw [hload] at hload'
      cases hload'
      have hfaulty := hexcused.resolve_right fun hu => hu hrest.usable
      rcases haccepts with hcarried | ⟨S', T', hload', hnext', hacc⟩
      · exact ⟨book, .failed hfaulty, h.of_carried hcarried hrest.idle⟩
      · rw [hload] at hload'
        cases hload'
        rw [hnext] at hnext'
        cases hnext'
        obtain ⟨next, hanswers, hholds⟩ := hwritten hnext hacc hnode
        exact ⟨next, .unsynced hfaulty herr hanswers, hholds⟩
  | synced hload' hnext hacc hnode _ =>
      rw [hload] at hload'
      cases hload'
      obtain ⟨next, hanswers, hholds⟩ := hwritten hnext hacc hnode
      exact ⟨next, .answered hanswers, hholds⟩

theorem load_outcome (store : TrustedPeerStore) (pid : Pid) {oracle : Nat → Answer}
    (h : Holds s book) (horacle : ∀ n, faults ∨ (oracle n).Faultless) :
    Outcome book faults .load ((loadRun store pid oracle s).1.map Reply.loaded) book ∧
      Holds (loadRun store pid oracle s).2 book := by
  obtain ⟨S, hload, hmap⟩ := h.loads
  have hspec := exec_of_wp ((sequential faults pid).load_spec store s) horacle
  generalize hran : loadRun store pid oracle s = ran
  rw [show (TrustedPeerStore.load store).run.exec (Fs.step pid) oracle s = ran from hran] at hspec
  obtain ⟨result, s'⟩ := ran
  dsimp only at hspec ⊢
  rcases hspec with ⟨s₁, h₁, h₂, rfl⟩ | ⟨hq, hexcused, operation, path, source, rfl⟩
  · have hq := h₁.trans h₂
    have hread : loadNode (s₁.node .trustedPeers) = .ok S := by
      rw [h₁.store]
      exact hload
    refine ⟨?_, h.of_carried hq.toCarried (hq.owner.trans h.rest.idle)⟩
    rw [show (sequential _ pid).node s₁ = s₁.node from rfl, hread]
    exact .answered (.loaded hmap)
  · have hholds := h.of_carried hq.toCarried (hq.owner.trans h.rest.idle)
    exact ⟨.failed (hexcused.resolve_right fun hu => hu hholds.rest.usable), hholds⟩

end Call

/-! ## Runs -/

/-- A load, and what it is wrapped in. -/
theorem load_run (store : TrustedPeerStore) (pid : Pid) (oracle : Nat → Answer) (s : Fs Pid) :
    StoreUse.run ⟨store, pid, oracle, .load⟩ s =
      ((loadRun store pid oracle s).1.map Reply.loaded, (loadRun store pid oracle s).2) := by
  have hbind := Prog.exec_bind (Fs.step pid) (TrustedPeerStore.load store).run
    (ExceptT.bindCont fun S => pure (Reply.loaded S)) oracle s
  rw [show StoreUse.run ⟨store, pid, oracle, .load⟩ s = _ from hbind, loadRun]
  generalize (TrustedPeerStore.load store).run.exec (Fs.step pid) oracle s = ran
  obtain ⟨result, s'⟩ := ran
  cases result <;> rfl

/-- One call, if its steps can fail only where faults are allowed. -/
theorem StoreUse.outcome_of_faults (use : StoreUse Pid) (faults : Prop) {s : Fs Pid}
    {book : PeerBook} (h : Holds s book) (hfits : use.Fits)
    (horacle : ∀ n, faults ∨ (use.oracle n).Faultless) :
    ∃ next, Outcome book faults use.call (use.run s).1 next ∧ Holds (use.run s).2 next := by
  obtain ⟨store, pid, oracle, call⟩ := use
  cases call with
  | load =>
      refine ⟨book, ?_⟩
      rw [load_run]
      exact load_outcome store pid h horacle
  | mutate m => exact mutation_outcome store pid h (hfits m rfl) horacle

/-- One call of a run. A call none of whose steps failed ran as in an environment without
faults. -/
theorem StoreUse.outcome {use : StoreUse Pid} {s : Fs Pid} {book : PeerBook} (h : Holds s book)
    (hfits : use.Fits) : ∃ next, Outcome book (use.Faulty s) use.call (use.run s).1 next ∧
      Holds (use.run s).2 next := by
  by_cases hfaulty : use.Faulty s
  · obtain ⟨next, houtcome, hholds⟩ :=
      use.outcome_of_faults True h hfits fun _ => .inl trivial
    exact ⟨next, houtcome.mono fun _ => hfaulty, hholds⟩
  · have hunfailed : ∀ step ∈ (use.call.code use.store).trace (Fs.step use.pid) use.oracle s,
        ¬ step.1.Failed step.2 := fun step hstep hfailed => hfaulty ⟨step, hstep, hfailed⟩
    let spared : StoreUse Pid := { use with oracle := fun n => { use.oracle n with error := none } }
    have hrun : spared.run s = use.run s := Prog.exec_calm step_calm hunfailed
    obtain ⟨next, houtcome, hholds⟩ :=
      spared.outcome_of_faults False h hfits fun _ => .inr rfl
    rw [hrun] at houtcome hholds
    exact ⟨next, houtcome.mono False.elim, hholds⟩

/-- Whatever fails on the way, calls made one after the other on a store that holds a map do what
they say to the map, and the store holds what comes of it. -/
theorem store_refines_book (uses : List (StoreUse Pid)) (s : Fs Pid) (book : PeerBook)
    (h : Holds s book) (hfits : ∀ use ∈ uses, use.Fits) :
    ∃ last, BookRun book (runAll uses s).1 last ∧ Holds (runAll uses s).2 last := by
  induction uses generalizing s book with
  | nil => exact ⟨book, .nil, h⟩
  | cons use uses ih =>
      obtain ⟨next, houtcome, hholds⟩ := use.outcome h (hfits use List.mem_cons_self)
      obtain ⟨last, hrun, hlast⟩ := ih (use.run s).2 next hholds
        fun other hother => hfits other (List.mem_cons_of_mem _ hother)
      exact ⟨last, .cons houtcome hrun, hlast⟩

/-- A record is stored, and then nothing works. -/
theorem store_refines_book_stored :
    let broken : Nat → Answer := fun _ => ⟨some ⟨5⟩, none⟩
    let uses : List (StoreUse Unit) :=
      [⟨⟨false⟩, (), calm, .mutate (.store (recordWith none))⟩, ⟨⟨true⟩, (), broken, .load⟩]
    ∃ last, BookRun BoundedMap.empty (runAll uses Fs.fresh).1 last := by
  intro broken uses
  have hfits : ∀ use ∈ uses, use.Fits := by
    intro use huse m hm
    rcases List.mem_cons.mp huse with rfl | huse
    · cases hm
      exact trivial
    · rw [List.mem_singleton.mp huse] at hm
      cases hm
  obtain ⟨last, hrun, -⟩ := store_refines_book uses Fs.fresh BoundedMap.empty holds_fresh hfits
  exact ⟨last, hrun⟩

end LocalTransfer
