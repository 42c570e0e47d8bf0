import LocalTransfer.LocalDevice.Shared

/-!
# One identity

`LocalDeviceManager` used by any number of processes, with failing steps and crashes. The
identifier file is written at most once and never changes once it is there; every load that
succeeds returns the identifier in it, and touches the name file only when there is one.
-/

namespace LocalTransfer

open Lib

variable {Pid : Type} {U : UuidCrate}

/-- A call of `LocalDeviceManager`, a load with the identifier `DeviceId::random` gives it. -/
inductive DeviceCall (U : UuidCrate)
  | load (random : DeviceId U)
  | updateName (value : Text)

inductive DeviceReply (U : UuidCrate)
  | loaded (device : LocalDevice U)
  | renamed (name : DeviceName)

/-- The program of a call. -/
def DeviceCall.code (self : LocalDeviceManager) (links : FileName → Node) :
    DeviceCall U → Prog FsOp FsOp.Result (Except LocalDeviceError (DeviceReply U))
  | .load random => (DeviceReply.loaded <$> self.load links random).run
  | .updateName value => (DeviceReply.renamed <$> self.updateName value).run

/-- The identifier a node holds, if it holds one. -/
def storedId (U : UuidCrate) (node target : Node) : Option (DeviceId U) :=
  (node.text target).bind fun text => (DeviceId.fromStr (withoutLineFeed text)).toOption

theorem storedId_missing (target : Node) : storedId U .missing target = none := rfl

/-- The file of an identifier holds it. -/
theorem storedId_encoded (hU : U.RoundTrips) (id : DeviceId U) (target : Node) :
    storedId U (.regular ((DeviceIdStore.valueFile U).encoded id)) target = some id := by
  have htext : Node.text (.regular ((DeviceIdStore.valueFile U).encoded id)) target =
      some (id.display ++ ['\n']) := fromUtf8_utf8 _
  simp [storedId, htext, DeviceId.fromStr_display hU]
  rfl

theorem storedId_of_parsePersisted {node target : Node} {text : Text} {id : DeviceId U}
    (htext : node.text target = some text)
    (h : (DeviceIdStore.valueFile U).parsePersisted text = .ok id) :
    storedId U node target = some id := by
  have hparse : (DeviceId.fromStr (withoutLineFeed text)).mapError
      (DeviceIdError.invalid (.file .deviceId)) = .ok id := h
  cases hid : (DeviceId.fromStr (withoutLineFeed text) : Except _ (DeviceId U)) with
  | error e =>
      rw [hid] at hparse
      cases hparse
  | ok id' =>
      rw [hid] at hparse
      cases hparse
      simp [storedId, htext, hid]
      rfl

/-- The identifier file is only ever created, with an identifier; a load touches the name
file only where there is an identifier. -/
def deviceProtocol (U : UuidCrate) (links : FileName → Node) : Protocol Pid (DeviceCall U) :=
  fun s c f contents => match f with
    | .deviceId => s.fs.node .deviceId = .missing ∧
        ∃ id : DeviceId U, contents = (DeviceIdStore.valueFile U).encoded id
    | .deviceName => ∀ random, c = .load random →
        storedId U (s.fs.node .deviceId) (links .deviceId) ≠ none
    | _ => False

section Protocol

variable {links : FileName → Node} {s s' : Logged Pid (DeviceCall U)}
  {es : List (Entry Pid (DeviceCall U))}

/-- Once the identifier file is there, it stays as it is. -/
theorem node_deviceId_stable (h : Later (deviceProtocol U links) s s')
    (hpresent : s.fs.node .deviceId ≠ .missing) :
    s'.fs.node .deviceId = s.fs.node .deviceId := by
  obtain ⟨es, hes⟩ := h
  refine hes.keeps (K := fun s' => s'.fs.node .deviceId = s.fs.node .deviceId) ?_ rfl
  intro s₁ s₂ e hs₁ htook hkeeps
  rw [htook.node]
  cases hwrote : e.wrote .deviceId with
  | none => exact hs₁
  | some contents =>
      have hmissing := (hkeeps _ _ hwrote).1
      rw [hs₁] at hmissing
      exact absurd hmissing hpresent

theorem storedId_stable {id : DeviceId U} (h : Later (deviceProtocol U links) s s')
    (hid : storedId U (s.fs.node .deviceId) (links .deviceId) = some id) :
    storedId U (s'.fs.node .deviceId) (links .deviceId) = some id := by
  have hpresent : s.fs.node .deviceId ≠ .missing := by
    intro hmissing
    rw [hmissing, storedId_missing] at hid
    cases hid
  rw [node_deviceId_stable h hpresent, hid]

/-- The identifier file is written at most once. -/
theorem length_writes_le (h : Steps (deviceProtocol U links) s es s') :
    (es.filterMap (Entry.wrote .deviceId)).length ≤ 1 := by
  induction h with
  | nil => exact Nat.zero_le _
  | @snoc es s₁ s₂ e hsteps htook hkeeps ih =>
      rw [List.filterMap_append]
      cases hwrote : e.wrote .deviceId with
      | none => simpa [hwrote] using ih
      | some contents =>
          -- what was written before would still be there
          have hmissing := (hkeeps _ _ hwrote).1
          rw [hsteps.node] at hmissing
          cases hlast : (es.filterMap (Entry.wrote .deviceId)).getLast? with
          | none => simp [List.getLast?_eq_none_iff.mp hlast, hwrote]
          | some contents' =>
              rw [hlast] at hmissing
              cases hmissing

end Protocol

/-! ## One call among others -/

variable [DecidableEq Pid]

section Calls

variable {links : FileName → Node} {p : Pid} {s s' : Logged Pid (DeviceCall U)}

/-- A load may create the identifier file. -/
def createsId (links : FileName → Node) (random : DeviceId U) :
    Licence (deviceProtocol U links : Protocol Pid (DeviceCall U)) (.load random) .deviceId where
  knows _ := True
  creates contents := ∃ id : DeviceId U, contents = (DeviceIdStore.valueFile U).encoded id
  replaces _ := False
  kept _ _ _ _ _ _ := trivial
  may_create _ _ hcreates _ hmissing := ⟨hmissing, hcreates⟩
  may_replace _ _ h := h.elim

/-- Once it knows an identifier, it may create the name file. -/
def createsName (links : FileName → Node) (random : DeviceId U) :
    Licence (deviceProtocol U links : Protocol Pid (DeviceCall U)) (.load random) .deviceName where
  knows s := ∃ id, storedId U (s.fs.node .deviceId) (links .deviceId) = some id
  creates _ := True
  replaces _ := False
  kept := by
    rintro s s' e ⟨id, hid⟩ htook hkeeps
    exact ⟨id, storedId_stable ⟨_, .one htook hkeeps⟩ hid⟩
  may_create := by
    rintro s contents - ⟨id, hid⟩ - _ _ hnone
    rw [hid] at hnone
    cases hnone
  may_replace _ _ h := h.elim

/-- An update may replace the name file. -/
def replacesName (links : FileName → Node) (value : Text) :
    Licence (deviceProtocol U links : Protocol Pid (DeviceCall U)) (.updateName value)
      .deviceName where
  knows _ := True
  creates _ := False
  replaces _ := True
  kept _ _ _ _ _ _ := trivial
  may_create _ _ h := h.elim
  may_replace _ _ _ _ h := by cases h

/-- An identifier that was loaded or created is the one in the file. -/
theorem storedId_of_outcome (hU : U.RoundTrips) {random id initial : DeviceId U}
    (h : (among True p (.load random) .deviceId (createsId links random)).Outcome
      (DeviceIdStore.valueFile U) (links .deviceId) initial s (.ok id) s') :
    storedId U (s'.fs.node .deviceId) (links .deviceId) = some id := by
  have hlook : ∀ {node : Node} {text : Text} {s s' : Logged Pid (DeviceCall U)},
      (among True p (.load random) .deviceId (createsId links random)).Look node s s' →
      node.text (links .deviceId) = some text →
      (DeviceIdStore.valueFile U).parsePersisted text = .ok id →
      storedId U (s'.fs.node .deviceId) (links .deviceId) = some id := by
    rintro node text s s'
      ⟨s₁, s₂, -, ⟨e, ⟨-, -, htook, hkeeps⟩, hopened⟩, ⟨es, hes, -⟩⟩ htext hparse
    have hid := storedId_of_parsePersisted htext hparse
    rw [htook.opened _ _ hopened] at hid
    exact storedId_stable ⟨es, hes⟩ (storedId_stable ⟨_, .one htook hkeeps⟩ hid)
  generalize hr : (Except.ok id : Except DeviceIdError (DeviceId U)) = r at h
  cases h with
  | read h htext => exact hlook h htext hr.symm
  | reread _ h htext => exact hlook h htext hr.symm
  | @created _ s₁ s₂ _ _ _ _ hcreated hquiet hresult =>
      obtain ⟨-, e, ⟨-, -, htook, -⟩, hwrote⟩ := hcreated
      obtain ⟨es, hes, -⟩ := hquiet
      rcases hresult with rfl | ⟨-, e', rfl⟩
      · cases hr
        refine storedId_stable ⟨es, hes⟩ ?_
        rw [htook.node, hwrote]
        exact storedId_encoded hU id _
      · cases hr
  | unreadable | lost | failed => cases hr

/-- A load that succeeds returns the identifier in the file. -/
def LoadsStored (links : FileName → Node) (r : Except LocalDeviceError (DeviceReply U))
    (s' : Logged Pid (DeviceCall U)) : Prop :=
  ∀ device, r = .ok (.loaded device) →
    storedId U (s'.fs.node .deviceId) (links .deviceId) = some device.id

theorem load_callSpec (hU : U.RoundTrips) (self : LocalDeviceManager) (random : DeviceId U) :
    wp (loggedLogic (deviceProtocol U links) True p (.load random))
      ((DeviceCall.load random).code self links) (LoadsStored links) s := by
  have herror : ∀ (e : LocalDeviceError) (s' : Logged Pid (DeviceCall U)),
      LoadsStored links (.error e) s' := fun e s' device h => by cases h
  have hload : wp (loggedLogic (deviceProtocol U links) True p (.load random))
      (self.load links random).run
      (fun r s' => LoadsStored links (r.map DeviceReply.loaded) s') s := by
    unfold LocalDeviceManager.load
    cases Platform.fromTargetOs self.platform with
    | error e => exact fun s' _ => herror _ s'
    | ok platform =>
        refine wp_bind (wp_pure (a := platform) fun s₀ _ => ?_)
        have hmay : (among True p (.load random) .deviceId (createsId links random)).mayCreate
            ((DeviceIdStore.valueFile U).encoded random) s₀ := ⟨⟨random, rfl⟩, trivial⟩
        refine wp_bind (wp_adapt (wp_mono (FileLogic.loadOrCreate_spec _ _ _ _ hmay) ?_))
        rintro (e | id) s₁ hid
        · exact fun s' _ => herror _ s'
        have hid := storedId_of_outcome hU hid
        have hmay : (among True p (.load random) .deviceName (createsName links random)).mayCreate
            (DeviceNameStore.valueFile.encoded .default) s₁ := ⟨trivial, id, hid⟩
        -- whatever becomes of the name, the identifier stays
        have hname := wp_later (FileLogic.loadOrCreate_spec (F := DeviceNameStore.valueFile) _
          (links .deviceName) self.nameStore.hardenExistingParent .default hmay)
        refine wp_bind (wp_adapt (wp_mono hname ?_))
        rintro (e | name) s₂ ⟨hlater, -⟩
        · exact fun s' _ => herror _ s'
        · intro s' hs' device hdevice
          cases hdevice
          obtain ⟨es, hes, -⟩ := hs'
          exact storedId_stable (hlater.trans ⟨es, hes⟩) hid
  refine wp_bind (wp_mono hload ?_)
  rintro (e | device) s₁ h
  · exact fun s' _ => herror _ s'
  · intro s' ⟨es, hes, _⟩ device' hdevice
    exact storedId_stable ⟨es, hes⟩ (h device' hdevice)

theorem updateName_callSpec (self : LocalDeviceManager) (value : Text) :
    wp (loggedLogic (deviceProtocol U links) True p (.updateName value))
      ((DeviceCall.updateName value).code self links) (LoadsStored links) s := by
  let A : FileLogic (loggedLogic (deviceProtocol U links) True p (.updateName value)) .deviceName :=
    among True p _ .deviceName (replacesName links value)
  have hupdate := A.update_spec (s := s) self.nameStore value fun _ _ => trivial
  refine wp_bind (wp_adapt (wp_mono hupdate ?_))
  rintro (e | name) s₁ - s' -
  · intro device h
    cases h
  · intro device h
    cases h

end Calls

/-! ## Every interleaving -/

/-- What holds of the identifier in every run that starts from `first` at its path. -/
structure OneIdentity (self : LocalDeviceManager) (links : FileName → Node) (first : Node)
    (cfg : Config Pid (DeviceCall U) (Logged Pid (DeviceCall U)) FsOp FsOp.Result
      (Except LocalDeviceError (DeviceReply U))) : Prop where
  /-- The file holds what it held first, or the one thing that was written to it. -/
  current : cfg.shared.fs.node .deviceId =
    (((cfg.shared.log.filterMap (Entry.wrote .deviceId)).getLast?).map Node.regular).getD first
  written_once : (cfg.shared.log.filterMap (Entry.wrote .deviceId)).length ≤ 1
  written_absent : cfg.shared.log.filterMap (Entry.wrote .deviceId) ≠ [] → first = .missing
  /-- Once it is there, it never changes. -/
  stable : ∀ cfg', Relation.ReflTransGen
      (fileSystem Pid True (DeviceCall.code self links)).Step cfg cfg' →
    cfg.shared.fs.node .deviceId ≠ .missing →
    cfg'.shared.fs.node .deviceId = cfg.shared.fs.node .deviceId
  /-- Every load that succeeded returned the identifier in it. -/
  agreed : ∀ d ∈ cfg.finished, ∀ device, d.result = .ok (.loaded device) →
    storedId U (cfg.shared.fs.node .deviceId) (links .deviceId) = some device.id
  /-- Where it holds no identifier, no load succeeds or touches the name file. -/
  invalid : first ≠ .missing → storedId U first (links .deviceId) = none →
    (∀ d ∈ cfg.finished, ∀ device, d.result ≠ .ok (.loaded device)) ∧
    ∀ e ∈ cfg.shared.log, ∀ random, e.call = .load random → e.wrote .deviceName = none

/-- **Processes agree on one identity**, whatever they call in whatever order, and wherever
their steps fail. -/
theorem one_identity (U : UuidCrate) (hU : U.RoundTrips) (self : LocalDeviceManager)
    (links : FileName → Node) (fs : Fs Pid)
    (cfg : Config Pid (DeviceCall U) (Logged Pid (DeviceCall U)) FsOp FsOp.Result
      (Except LocalDeviceError (DeviceReply U)))
    (h : ((fileSystem Pid True (DeviceCall.code self links)).runs ⟨fs, []⟩).Reachable cfg) :
    OneIdentity self links (fs.node .deviceId) cfg := by
  have hcode : ∀ p c s, Later (deviceProtocol U links) ⟨fs, []⟩ s →
      wp (loggedLogic (deviceProtocol U links) True p c) (DeviceCall.code self links c)
        (LoadsStored links) s := by
    intro p c s _
    cases c with
    | load random => exact load_callSpec hU self random
    | updateName value => exact updateName_callSpec self value
  obtain ⟨hsteps, hlater, hdone⟩ := run_spec hcode h
  have hfirst : fs.node .deviceId ≠ .missing →
      cfg.shared.fs.node .deviceId = fs.node .deviceId :=
    fun hpresent => node_deviceId_stable ⟨_, hsteps⟩ hpresent
  have hagreed : ∀ d ∈ cfg.finished, ∀ device, d.result = .ok (.loaded device) →
      storedId U (cfg.shared.fs.node .deviceId) (links .deviceId) = some device.id := by
    intro d hd device hdevice
    obtain ⟨hpost, -, -, hafter⟩ := hdone d hd
    exact storedId_stable hafter (hpost device hdevice)
  refine ⟨hsteps.node .deviceId, length_writes_le hsteps, ?_, ?_, hagreed, ?_⟩
  · intro hwritten
    -- a write needs the file to be missing, which it never is again once it is there
    by_contra hpresent
    obtain ⟨contents, hcontents⟩ := List.exists_mem_of_ne_nil _ hwritten
    obtain ⟨e, he, hwrote⟩ := List.mem_filterMap.mp hcontents
    obtain ⟨es, s', hes, hkeeps⟩ := hsteps.of_mem he
    have hmissing := (hkeeps _ _ hwrote).1
    rw [node_deviceId_stable ⟨es, hes⟩ hpresent] at hmissing
    exact hpresent hmissing
  · intro cfg' hrun hpresent
    exact node_deviceId_stable (hlater cfg' hrun) hpresent
  · intro hpresent hnone
    constructor
    · intro d hd device hdevice
      have hid := hagreed d hd device hdevice
      rw [hfirst hpresent, hnone] at hid
      cases hid
    · intro e he random hcall
      by_contra hwrote
      obtain ⟨contents, hcontents⟩ := Option.ne_none_iff_exists'.mp hwrote
      obtain ⟨es, s', hes, hkeeps⟩ := hsteps.of_mem he
      have hsome := hkeeps _ _ hcontents random hcall
      rw [node_deviceId_stable ⟨es, hes⟩ hpresent] at hsome
      exact hsome hnone

/-! ### Two processes -/

/-- A crate whose parser knows two forms: with hyphens and without. -/
def plainUuids : UuidCrate where
  parseStr text :=
    (decodeHex (text.filter (· ≠ '-'))).bind fun bytes =>
      if h : bytes.length = 16 then
        if text = Uuid.hyphenated ⟨bytes, h⟩ ∨ text = pushHex bytes then some ⟨bytes, h⟩ else none
      else none

/-- Without its hyphens, the text of an identifier is the hex of its bytes. -/
theorem filter_hyphenated (uuid : Uuid) :
    uuid.hyphenated.filter (· ≠ '-') = pushHex uuid.bytes := by
  have hdigits : ∀ bytes : Bytes, (pushHex bytes).filter (· ≠ '-') = pushHex bytes := by
    intro bytes
    refine List.filter_eq_self.mpr ?_
    intro c hc
    have hdash : '-' ∉ hexDigits := by decide
    have hne : c ≠ '-' := fun h => hdash (h ▸ mem_hexDigits_of_mem_pushHex hc)
    exact decide_eq_true hne
  obtain ⟨bytes, hsize⟩ := uuid
  simp only [Uuid.hyphenated, List.filter_append, List.filter_cons_of_neg, hdigits, ne_eq,
    not_true_eq_false, decide_false, Bool.false_eq_true, not_false_eq_true]
  match bytes, hsize with
  | [_, _, _, _, _, _, _, _, _, _, _, _, _, _, _, _], _ => rfl

theorem plainUuids_roundTrips : plainUuids.RoundTrips := by
  intro uuid
  have hne : uuid.bytes ≠ [] := by
    intro hnil
    have := uuid.size
    rw [hnil] at this
    cases this
  have hread : decodeHex (uuid.hyphenated.filter (· ≠ '-')) = some uuid.bytes :=
    decodeHex_eq_some_iff.mpr ⟨hne, filter_hyphenated uuid⟩
  show Option.bind (decodeHex _) _ = _
  rw [hread, Option.bind_some, dif_pos uuid.size, if_pos (.inl rfl)]

/-- An identifier of version 4. -/
def idOf (byte : UInt8) : DeviceId plainUuids where
  uuid := ⟨[byte, 1, 2, 3, 4, 5, 0x4a, 7, 8, 9, 10, 11, 12, 13, 14, 15], rfl⟩
  version := by
    show ((0x4a : UInt8) >>> 4).toNat = 4
    decide

/-- Two processes that both find no identifier: one creates the file, the other then reads what
the first one has made. -/
def firstLoads : List (Turn Bool (DeviceCall plainUuids) (Env True)) :=
  let calm : Env True := Env.calm
  .start true (.load (idOf 1)) :: .start false (.load (idOf 2)) ::
    List.replicate 6 (.perform false calm) ++ List.replicate 40 (.perform true calm) ++
    .finish true :: List.replicate 40 (.perform false calm) ++ [.finish false]

/-- Both loads return the identifier that was written, which is not the second's own. -/
theorem one_identity_first : ∃ cfg : Config Bool (DeviceCall plainUuids)
      (Logged Bool (DeviceCall plainUuids)) FsOp FsOp.Result
      (Except LocalDeviceError (DeviceReply plainUuids)),
    OneIdentity ⟨⟨true⟩, ⟨true⟩, "linux".toList⟩ (fun _ => .missing) .missing cfg ∧
      (cfg.finished.map fun d => (d.pid, d.result.toOption.isSome)) =
        [(true, true), (false, true)] ∧
      cfg.shared.fs.node .deviceId =
        .regular ((DeviceIdStore.valueFile plainUuids).encoded (idOf 1)) := by
  let fs : Fs Bool := ⟨fun _ => .missing, fun _ => .missing, none⟩
  let self : LocalDeviceManager := ⟨⟨true⟩, ⟨true⟩, "linux".toList⟩
  have hinit : ((fileSystem Bool True (DeviceCall.code (U := plainUuids) self
      fun _ => .missing)).runs ⟨fs, []⟩).Reachable ⟨⟨fs, []⟩, fun _ => none, []⟩ := .init rfl
  have h := System.reachable_schedule _ hinit firstLoads
  refine ⟨_, one_identity plainUuids plainUuids_roundTrips self (fun _ => .missing) fs _ h, ?_, ?_⟩
  · decide +kernel
  · decide +kernel

end LocalTransfer
