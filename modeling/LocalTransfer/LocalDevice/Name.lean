import LocalTransfer.LocalDevice.Shared

/-!
# The last written name

`DeviceNameStore` used by any number of processes, from an absent file. The file holds what
was last written to it, and every write is an update's normal form or the first creation of
the default. A load returns what was last written before it read.
-/

namespace LocalTransfer

open Lib

variable {Pid : Type}

/-- A call of `DeviceNameStore`. -/
inductive NameCall
  | load
  | update (value : Text)

/-- The program of a call. -/
def NameCall.code (self : DeviceNameStore) (target : Node) :
    NameCall → Prog FsOp FsOp.Result (Except DeviceNameError DeviceName)
  | .load => (self.loadOrCreate target).run
  | .update value => (self.update value).run

/-- The contents of the file of a name. -/
abbrev nameFile (name : DeviceName) : Bytes := DeviceNameStore.valueFile.encoded name

theorem text_nameFile (name : DeviceName) (target : Node) :
    Node.text (.regular (nameFile name)) target = some (name.asStr ++ ['\n']) :=
  fromUtf8_utf8 _

/-- A written name is parsed back to itself. -/
theorem parsePersisted_nameFile (name : DeviceName) :
    DeviceNameStore.valueFile.parsePersisted (name.asStr ++ ['\n']) = .ok name := by
  show (DeviceName.new (withoutLineFeed (name.asStr ++ ['\n']))).mapError _ = .ok name
  rw [withoutLineFeed_append, DeviceName.new_asStr]
  rfl

theorem nameFile_injective : Function.Injective nameFile := by
  intro name name' h
  have htext := utf8_injective h
  exact DeviceName.ext (List.append_cancel_right htext)

/-- A load creates the default where there is no file, an update writes its normal form. -/
def nameProtocol : Protocol Pid NameCall := fun s c f contents => match f, c with
  | .deviceName, .load => s.fs.node .deviceName = .missing ∧ contents = nameFile .default
  | .deviceName, .update value => ∃ name, DeviceName.new value = .ok name ∧ contents = nameFile name
  | _, _ => False

/-! ## The last write -/

/-- The step wrote the name, and the name is the normal form of an update's argument or the
default of a load. -/
structure Writes (w : Entry Pid NameCall) (name : DeviceName) : Prop where
  wrote : w.wrote .deviceName = some (nameFile name)
  source : (w.call = .load ∧ name = .default) ∨
    ∃ value, w.call = .update value ∧ DeviceName.new value = .ok name

/-- The last step of the log that wrote the name file. -/
def LastWrite (log : List (Entry Pid NameCall)) (w : Entry Pid NameCall) : Prop :=
  ∃ before after, log = before ++ w :: after ∧ ∀ e ∈ after, e.wrote .deviceName = none

/-- The name file at the end of a log: absent and never written, or as last written; by a
load only if no update wrote it before. -/
inductive NameFile (log : List (Entry Pid NameCall)) : Node → Prop
  | absent : (∀ e ∈ log, e.wrote .deviceName = none) → NameFile log .missing
  | written {w name} : LastWrite log w → Writes w name →
      (w.call = .load → ∀ e ∈ log, e.wrote .deviceName ≠ none → e.call = .load) →
      NameFile log (.regular (nameFile name))

theorem NameFile.concat {log : List (Entry Pid NameCall)} {node : Node}
    (h : NameFile log node) {e : Entry Pid NameCall} (he : e.wrote .deviceName = none) :
    NameFile (log ++ [e]) node := by
  cases h with
  | absent hnone =>
      refine .absent fun e' he' => ?_
      rcases List.mem_append.mp he' with he' | he'
      · exact hnone e' he'
      · rw [List.mem_singleton.mp he', he]
  | @written w name hlast hwrites hload =>
      obtain ⟨before, after, rfl, hafter⟩ := hlast
      refine .written ⟨before, after ++ [e], by simp, fun e' he' => ?_⟩ hwrites
        fun hw e' he' hwrote => ?_
      · rcases List.mem_append.mp he' with he' | he'
        · exact hafter e' he'
        · rw [List.mem_singleton.mp he', he]
      · rcases List.mem_append.mp he' with he' | he'
        · exact hload hw e' he' hwrote
        · rw [List.mem_singleton.mp he', he] at hwrote
          exact absurd rfl hwrote

/-- **The name file is as it was last written**, in every run from an absent file. -/
theorem nameFile_of_steps {s s' : Logged Pid NameCall} {es : List (Entry Pid NameCall)}
    (h : Steps nameProtocol s es s') (hfirst : s.fs.node .deviceName = .missing) :
    NameFile es (s'.fs.node .deviceName) := by
  induction h with
  | nil =>
      rw [hfirst]
      exact .absent fun e he => absurd he List.not_mem_nil
  | @snoc es s₁ s₂ e _ htook hkeeps ih =>
      rw [htook.node]
      cases hwrote : e.wrote .deviceName with
      | none => exact ih.concat hwrote
      | some contents =>
          have hlast : LastWrite (es ++ [e]) e := ⟨es, [], rfl, by simp⟩
          have hprotocol := hkeeps _ _ hwrote
          cases hcall : e.call with
          | update value =>
              rw [hcall] at hprotocol
              obtain ⟨name, hname, rfl⟩ := hprotocol
              refine .written hlast ⟨hwrote, .inr ⟨value, hcall, hname⟩⟩ fun hload => ?_
              rw [hcall] at hload
              cases hload
          | load =>
              rw [hcall] at hprotocol
              obtain ⟨hmissing, rfl⟩ := hprotocol
              rw [hmissing] at ih
              -- nothing was written before the file was created
              cases ih with
              | absent hnone =>
                  refine .written hlast ⟨hwrote, .inl ⟨hcall, rfl⟩⟩ fun _ e' he' hwrote' => ?_
                  rcases List.mem_append.mp he' with he' | he'
                  · exact absurd (hnone e' he') hwrote'
                  · rw [List.mem_singleton.mp he', hcall]

theorem node_present {s s' : Logged Pid NameCall} (h : Later nameProtocol s s')
    (hpresent : s.fs.node .deviceName ≠ .missing) : s'.fs.node .deviceName ≠ .missing := by
  obtain ⟨es, hes⟩ := h
  rw [hes.node]
  cases (es.filterMap (Entry.wrote .deviceName)).getLast? with
  | none => exact hpresent
  | some contents => simp

/-! ## One call among others -/

variable [DecidableEq Pid]

section Calls

variable {faults : Prop} {target : Node} {p : Pid} {first s s' : Logged Pid NameCall}

/-- A load may create the file with the default. -/
def createsDefault : Licence (nameProtocol : Protocol Pid NameCall) .load .deviceName where
  knows _ := True
  creates contents := contents = nameFile .default
  replaces _ := False
  kept _ _ _ _ _ _ := trivial
  may_create _ _ hcreates _ hmissing := ⟨hmissing, hcreates⟩
  may_replace _ _ h := h.elim

/-- An update may replace it by its normal form. -/
def replacesByName (value : Text) :
    Licence (nameProtocol : Protocol Pid NameCall) (.update value) .deviceName where
  knows _ := True
  creates _ := False
  replaces contents := ∃ name, DeviceName.new value = .ok name ∧ contents = nameFile name
  kept _ _ _ _ _ _ := trivial
  may_create _ _ h := h.elim
  may_replace _ _ h := h

/-- The last step in which `p` read or created the file left it with this name. -/
def DecidedOn (p : Pid) (name : DeviceName) (s s' : Logged Pid NameCall) : Prop :=
  ∃ s₁ s₂ e, Later nameProtocol s s₁ ∧ e.pid = p ∧ Took s₁ s₂ e ∧ Keeps nameProtocol s₁ e ∧
    e.Decides .deviceName ∧ s₂.fs.node .deviceName = .regular (nameFile name) ∧
    Undecided nameProtocol p .deviceName s₂ s'

variable (target) in
/-- A read finds no file, or decides on the name in it. -/
theorem decidedOn_of_look {node : Node} (hfirst : first.fs.node .deviceName = .missing)
    (hstart : Later nameProtocol first s)
    (h : (among faults p .load .deviceName createsDefault).Look node s s') :
    (node = .missing ∧ ∃ s₁, Later nameProtocol s s₁ ∧ s₁.fs.node .deviceName = .missing) ∨
      ∃ name : DeviceName, node.text target = some (name.asStr ++ ['\n']) ∧
        node.follow target ≠ .missing ∧ DecidedOn p name s s' := by
  obtain ⟨s₁, s₂, ⟨es, hes, -⟩, ⟨e, ⟨hpid, -, htook, hkeeps⟩, hopened⟩, hafter⟩ := h
  obtain ⟨es', hes'⟩ := hstart.trans ⟨es, hes⟩
  have hfile := nameFile_of_steps hes' hfirst
  have hnode := htook.opened _ _ hopened
  rw [← hnode] at hfile
  have hdecides : e.Decides .deviceName := .inr (by simp [hopened])
  have hsame : s₂.fs.node .deviceName = node := by
    rw [htook.node, Entry.wrote_of_opened hopened, hnode]
    rfl
  cases hfile with
  | absent => exact .inl ⟨rfl, s₁, ⟨es, hes⟩, hnode.symm⟩
  | @written w name =>
      refine .inr ⟨name, text_nameFile name target, nofun, ?_⟩
      exact ⟨s₁, s₂, e, ⟨es, hes⟩, hpid, htook, hkeeps, hdecides, hsame, hafter⟩

/-- A load decides on a name and returns it, unless a step failed. -/
theorem decidedOn_of_outcome {r : Except DeviceNameError DeviceName}
    (hfirst : first.fs.node .deviceName = .missing) (hstart : Later nameProtocol first s)
    (h : (among faults p .load .deviceName createsDefault).Outcome
      DeviceNameStore.valueFile target .default s r s') :
    (∃ name, r = .ok name ∧ DecidedOn p name s s') ∨ (faults ∧ ∃ e, r = .error e) := by
  have hread : ∀ {node : Node} {text : Text} {s₁ : Logged Pid NameCall},
      Later nameProtocol s s₁ →
      (among faults p .load .deviceName createsDefault).Look node s₁ s' →
      node.text target = some text →
      ∃ name, DeviceNameStore.valueFile.parsePersisted text = .ok name ∧ DecidedOn p name s s' := by
    intro node text s₁ hlater hlook htext
    rcases decidedOn_of_look target hfirst (hstart.trans hlater) hlook with
      ⟨rfl, -⟩ | ⟨name, hname, -, hdecided⟩
    · cases htext
    · rw [htext] at hname
      cases hname
      obtain ⟨s₂, s₃, e, hlater', hrest⟩ := hdecided
      exact ⟨name, parsePersisted_nameFile name, s₂, s₃, e, hlater.trans hlater', hrest⟩
  -- after losing the race for the file there is one
  have hraced : ∀ {s₁ : Logged Pid NameCall},
      (among faults p .load .deviceName createsDefault).Raced target s s₁ →
      Later nameProtocol s s₁ ∧ s₁.fs.node .deviceName ≠ .missing := by
    rintro s₁ ⟨node, s₂, s₃, ⟨s₄, s₅, ⟨es, hes, -⟩, ⟨e, ⟨-, -, htook, hkeeps⟩, -⟩, ⟨es', hes', -⟩⟩,
      -, ⟨hpresent, es'', hes'', -⟩, ⟨es₃, hes₃, -⟩⟩
    have hafter : Later nameProtocol s₂ s₁ := Later.trans ⟨_, hes''⟩ ⟨_, hes₃⟩
    have hbefore : Later nameProtocol s s₂ :=
      Later.trans ⟨_, hes⟩ (Later.trans ⟨_, .one htook hkeeps⟩ ⟨_, hes'⟩)
    exact ⟨hbefore.trans hafter, node_present hafter hpresent⟩
  have hrefl : Later nameProtocol s s := ⟨[], .nil⟩
  cases h with
  | read hlook htext => exact .inl (hread hrefl hlook htext)
  | reread hrace hlook htext => exact .inl (hread (hraced hrace).1 hlook htext)
  | unreadable hlook hpresent htext =>
      rcases decidedOn_of_look target hfirst hstart hlook with
        ⟨rfl, -⟩ | ⟨name, hname, -⟩
      · exact absurd rfl hpresent
      · rw [htext] at hname
        cases hname
  | lost hrace hlook htext =>
      obtain ⟨hlater, hpresent⟩ := hraced hrace
      rcases decidedOn_of_look target hfirst (hstart.trans hlater) hlook with
        ⟨-, s₂, hlater', hmissing⟩ | ⟨name, hname, -⟩
      · exact absurd hmissing (node_present hlater' hpresent)
      · rw [htext] at hname
        cases hname
  | created hlook _ hcreated hafter hresult =>
      rcases hresult with rfl | ⟨hfaults, he⟩
      · obtain ⟨-, e, ⟨hpid, -, htook, hkeeps⟩, hwrote⟩ := hcreated
        obtain ⟨s₄, s₅, ⟨es, hes, -⟩, ⟨e', ⟨-, -, htook', hkeeps'⟩, -⟩, ⟨es', hes', -⟩⟩ := hlook
        refine .inl ⟨.default, rfl, _, _, e, ?_, hpid, htook, hkeeps, ?_, ?_, hafter⟩
        · exact Later.trans ⟨_, hes⟩ (Later.trans ⟨_, .one htook' hkeeps'⟩ ⟨_, hes'⟩)
        · exact .inl (by simp [hwrote])
        · rw [htook.node, hwrote]
          rfl
      · exact .inr ⟨hfaults, he⟩
  | failed hfaults => exact .inr ⟨hfaults, _, rfl⟩

/-- What each call has done when it returns. -/
def NamePost (faults : Prop) (p : Pid) : NameCall → Logged Pid NameCall →
    Except DeviceNameError DeviceName → Logged Pid NameCall → Prop
  | .load, s, r, s' => (∃ name, r = .ok name ∧ DecidedOn p name s s') ∨ (faults ∧ ∃ e, r = .error e)
  | .update value, _, r, _ => Updated faults value r

theorem nameCall_spec (self : DeviceNameStore) (hfirst : first.fs.node .deviceName = .missing)
    (hstart : Later nameProtocol first s) (c : NameCall) :
    wp (loggedLogic nameProtocol faults p c) (c.code self target) (NamePost faults p c s) s := by
  cases c with
  | load =>
      have hmay : (among faults p .load .deviceName createsDefault).mayCreate
          (DeviceNameStore.valueFile.encoded .default) s := ⟨rfl, trivial⟩
      exact wp_mono (FileLogic.loadOrCreate_spec _ target self.hardenExistingParent _ hmay)
        fun r s' h => decidedOn_of_outcome hfirst hstart h
  | update value =>
      let A : FileLogic (loggedLogic nameProtocol faults p (.update value)) .deviceName :=
        among faults p _ .deviceName (replacesByName value)
      exact A.update_spec self value fun name hname => ⟨name, hname, rfl⟩

end Calls

/-! ## Every interleaving -/

/-- The load returned the name that had last been written when it last read the file, or
the default it had just created. -/
def ReturnsLast (d : Finished Pid NameCall (Logged Pid NameCall)
    (Except DeviceNameError DeviceName)) (name : DeviceName) : Prop :=
  ∃ before e after, d.finish.log = before ++ e :: after ∧ d.start.log <+: before ∧
    e.pid = d.pid ∧ e.Decides .deviceName ∧
    (∀ e' ∈ after, e'.pid = d.pid → ¬ e'.Decides .deviceName) ∧
    ∃ w, LastWrite (before ++ [e]) w ∧ Writes w name

/-- What holds of the name in every run from an absent file. -/
structure LastNameWins (faults : Prop) (cfg : Config Pid NameCall (Logged Pid NameCall) FsOp
    FsOp.Result (Except DeviceNameError DeviceName)) : Prop where
  /-- The file is absent, or as it was last written. -/
  file : NameFile cfg.shared.log (cfg.shared.fs.node .deviceName)
  /-- Once an update has written it, the last write is an update's. -/
  kept : ∀ e ∈ cfg.shared.log, ∀ value, e.call = .update value →
    e.wrote .deviceName ≠ none → ∃ w name value', LastWrite cfg.shared.log w ∧
      w.call = .update value' ∧ DeviceName.new value' = .ok name ∧
      cfg.shared.fs.node .deviceName = .regular (nameFile name)
  /-- Every load returns what was last written when it read, unless a step failed. -/
  loads : ∀ d ∈ cfg.finished, d.call = .load →
    (∃ name, d.result = .ok name ∧ ReturnsLast d name ∧ d.finish.log <+: cfg.shared.log) ∨
      (faults ∧ ∃ e, d.result = .error e)
  /-- An argument that is no name is refused and changes nothing. -/
  refused : ∀ value source, DeviceName.new value = .error source →
    (∀ d ∈ cfg.finished, d.call = .update value → d.result = .error (.validation source)) ∧
    ∀ e ∈ cfg.shared.log, e.call = .update value → ∀ f, e.wrote f = none

omit [DecidableEq Pid] in
theorem returnsLast_of_decidedOn {first : Logged Pid NameCall}
    (hfirst : first.fs.node .deviceName = .missing) (hlog : first.log = [])
    {d : Finished Pid NameCall (Logged Pid NameCall) (Except DeviceNameError DeviceName)}
    {name : DeviceName} (hstart : Later nameProtocol first d.start)
    (h : DecidedOn d.pid name d.start d.finish) : ReturnsLast d name := by
  obtain ⟨s₁, s₂, e, ⟨es, hes⟩, hpid, htook, hkeeps, hdecides, hnode, ⟨es', hes', hno⟩⟩ := h
  obtain ⟨es₂, hes₂⟩ := (hstart.trans ⟨_, hes⟩).trans ⟨_, .one htook hkeeps⟩
  have hfile := nameFile_of_steps hes₂ hfirst
  have hlog₂ : es₂ = s₁.log ++ [e] := by
    rw [← htook.log, hes₂.log, hlog, List.nil_append]
  rw [hlog₂, hnode] at hfile
  generalize hcontents : Node.regular (nameFile name) = node at hfile
  cases hfile with
  | absent => cases hcontents
  | @written w name' hlast hwrites =>
      have hname : name = name' := nameFile_injective (Node.regular.inj hcontents)
      subst hname
      refine ⟨s₁.log, e, es', ?_, ⟨es, hes.log.symm⟩, hpid, hdecides, hno, w, hlast, hwrites⟩
      rw [hes'.log, htook.log]
      simp

/-- **The last name wins**, whatever the processes call in whatever order, and wherever their
steps fail. -/
theorem last_name_wins (faults : Prop) (self : DeviceNameStore) (target : Node) (fs : Fs Pid)
    (hfirst : fs.node .deviceName = .missing)
    (cfg : Config Pid NameCall (Logged Pid NameCall) FsOp FsOp.Result
      (Except DeviceNameError DeviceName))
    (h : ((fileSystem Pid faults (NameCall.code self target)).runs ⟨fs, []⟩).Reachable cfg) :
    LastNameWins faults cfg := by
  obtain ⟨hsteps, -, hdone⟩ := run_spec (P := nameProtocol)
    (fun p c s hs => nameCall_spec self hfirst hs c) h
  -- what the file holds is what the last of the logged writes has written
  have hfile := nameFile_of_steps hsteps hfirst
  refine ⟨hfile, ?_, ?_, ?_⟩
  · intro e he value hcall hwrote
    generalize cfg.shared.fs.node .deviceName = node at hfile ⊢
    cases hfile with
    | absent hnone => exact absurd (hnone e he) hwrote
    | @written w name hlast hwrites hload =>
        rcases hwrites.source with ⟨hw, -⟩ | ⟨value', hw, hname⟩
        · -- had a load written last, no update would have written before
          have hcall' := hload hw e he hwrote
          rw [hcall] at hcall'
          cases hcall'
        · exact ⟨w, name, value', hlast, hw, hname, rfl⟩
  · intro d hd hload
    obtain ⟨hpost, hstart, -, ⟨es, hafter⟩⟩ := hdone d hd
    rw [hload] at hpost
    rcases hpost with ⟨name, hresult, hdecided⟩ | hfault
    · have hreturns := returnsLast_of_decidedOn hfirst rfl ⟨_, hstart⟩ hdecided
      exact .inl ⟨name, hresult, hreturns, ⟨es, hafter.log.symm⟩⟩
    · exact .inr hfault
  · intro value source hsource
    constructor
    · intro d hd hcall
      obtain ⟨hpost, -⟩ := hdone d hd
      rw [hcall] at hpost
      generalize d.result = r at hpost ⊢
      cases hpost with
      | renamed hname | failed hname =>
          rw [hsource] at hname
          cases hname
      | invalid hname =>
          rw [hsource] at hname
          cases hname
          rfl
    · intro e he hcall f
      obtain ⟨es, s', -, hkeeps⟩ := hsteps.of_mem he
      -- the protocol lets a call write only a valid name, and only the name file
      cases hwrote : e.wrote f with
      | none => rfl
      | some contents =>
          have hprotocol := hkeeps f contents hwrote
          rw [hcall] at hprotocol
          cases f with
          | deviceName =>
              obtain ⟨name, hname, -⟩ := hprotocol
              rw [hsource] at hname
              cases hname
          | trustedPeers | trustedPeersLock | deviceId => exact hprotocol.elim

/-- A load finds no name, and before it creates one another process makes its own; that process
renames the device once more before the next load. -/
def renames : List (Turn Bool NameCall (Env False)) :=
  let calm : Env False := Env.calm
  .start false .load :: List.replicate 6 (.perform false calm) ++
    .start true (.update " Study ".toList) :: List.replicate 20 (.perform true calm) ++
    .finish true :: List.replicate 20 (.perform false calm) ++
    .finish false :: .start true (.update "Attic".toList) ::
    List.replicate 20 (.perform true calm) ++ .finish true :: .start false .load ::
    List.replicate 20 (.perform false calm) ++ [.finish false]

/-- Each load returns the name that was last written when it read. -/
theorem last_name_wins_updated : ∃ cfg : Config Bool NameCall (Logged Bool NameCall) FsOp
      FsOp.Result (Except DeviceNameError DeviceName),
    LastNameWins False cfg ∧
      cfg.finished.map (fun d => (d.pid, d.result.toOption.map DeviceName.asStr)) =
        [(true, some "Study".toList), (false, some "Study".toList), (true, some "Attic".toList),
          (false, some "Attic".toList)] ∧
      cfg.shared.fs.node .deviceName = .regular (utf8 "Attic\n".toList) := by
  let fs : Fs Bool := ⟨fun _ => .missing, fun _ => .missing, none⟩
  have hinit : ((fileSystem Bool False (NameCall.code ⟨true⟩ .missing)).runs ⟨fs, []⟩).Reachable
      ⟨⟨fs, []⟩, fun _ => none, []⟩ := .init rfl
  have h := System.reachable_schedule _ hinit renames
  refine ⟨_, last_name_wins False ⟨true⟩ .missing fs rfl _ h, ?_, ?_⟩
  · decide +kernel
  · decide +kernel

end LocalTransfer
