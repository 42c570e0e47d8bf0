import LocalTransfer.Persistence.Publication

/-!
# Every call at once

Any number of processes call on any stores of one configuration directory, step by step in any
order, and any step may fail and any process crash. Whatever the order, a file is at any moment
what it was at first or what a store writes to it, and so is what a crash of the machine goes
back to (`config_files_whole`); the identifier and the lock file are never replaced. It is the
discipline of each call alone that makes it so (`ConfigCall.guarded`).
-/

namespace LocalTransfer

open Lib

variable {U : UuidCrate} {Pid : Type}

/-! ## What becomes of a file -/

/-- What the stores write to a file. -/
def FileOf (U : UuidCrate) : FileName → Bytes → Prop
  | .trustedPeers, contents => TrustedPeerStore.IsStoreFile contents
  | .trustedPeersLock, contents => contents = []
  | .deviceId, contents => ∃ id : DeviceId U, contents = (DeviceIdStore.valueFile U).encoded id
  | .deviceName, contents => ∃ name, contents = DeviceNameStore.valueFile.encoded name

/-- What one step may make of a file: a file of its store, where there was none, or, if it holds
the peers or the name, in the place of what there was. -/
inductive FileChange (U : UuidCrate) (f : FileName) (before : Node) : Node → Prop
  | kept : FileChange U f before before
  | created {contents : Bytes} : before = .missing → FileOf U f contents →
      FileChange U f before (.regular contents)
  | replaced {contents : Bytes} : f = .trustedPeers ∨ f = .deviceName → FileOf U f contents →
      FileChange U f before (.regular contents)

/-- A file as a store writes it, or as it was in one of its states before. -/
def Whole (U : UuidCrate) (f : FileName) (before : List Node) (node : Node) : Prop :=
  node ∈ before ∨ ∃ contents, node = .regular contents ∧ FileOf U f contents

/-- All files are whole. After a crash of the machine a file can also be what was durable at
first. -/
structure FilesWhole (U : UuidCrate) (first s : Fs Pid) : Prop where
  seen : ∀ f, Whole U f [first.node f] (s.node f)
  durable : ∀ f, Whole U f [first.node f, first.durable f] (s.durable f)

theorem Whole.mono {f : FileName} {before before' : List Node} {node : Node}
    (h : Whole U f before node) (hsub : before ⊆ before') : Whole U f before' node :=
  h.imp_left fun hmem => hsub hmem

theorem Whole.change {f : FileName} {nodes : List Node} {before after : Node}
    (h : Whole U f nodes before) (hchange : FileChange U f before after) :
    Whole U f nodes after := by
  cases hchange with
  | kept => exact h
  | created _ hfile => exact .inr ⟨_, rfl, hfile⟩
  | replaced _ hfile => exact .inr ⟨_, rfl, hfile⟩

/-! ## A step of a call -/

namespace ConfigCall

variable (c : ConfigCall U) {f : FileName} {contents : Bytes}

/-- What a call may create is a file of its store. -/
theorem fileOf_creates (h : c.purpose.creates f contents) : FileOf U f contents := by
  cases c with
  | loadPeers store => exact h.elim
  | mutatePeers store m =>
      obtain ⟨rfl, hempty⟩ := h
      exact hempty
  | loadDevice manager links random =>
      rcases h with ⟨rfl, rfl⟩ | ⟨rfl, rfl⟩
      · exact ⟨random, rfl⟩
      · exact ⟨.default, rfl⟩
  | updateName manager value => exact h.elim

/-- What a call may put in the place of a file is one as well. -/
theorem fileOf_replaces {past : Past} (h : c.purpose.replaces past f contents) :
    (f = .trustedPeers ∨ f = .deviceName) ∧ FileOf U f contents := by
  cases c with
  | loadPeers store => exact h.elim
  | mutatePeers store m =>
      obtain ⟨rfl, hfile, -⟩ := h
      exact ⟨.inl rfl, hfile⟩
  | loadDevice manager links random => exact h.elim
  | updateName manager value =>
      obtain ⟨rfl, name, -, rfl⟩ := h
      exact ⟨.inr rfl, name, rfl⟩

end ConfigCall

section Steps

variable {s s' : Fs Pid} {a : Answer} {f g : FileName} {contents : Bytes} {α β : Type} {r : α}

/-- What a step leaves alone, it leaves alone where it fails. -/
theorem Fs.settle_keeps (get : Fs Pid → β) (h : get s' = get s) :
    get (Fs.settle a s r s').2 = get s := by
  unfold Fs.settle
  split
  · rfl
  · exact h

theorem FileChange.settle (h : FileChange U f (s.node f) (s'.node f)) :
    FileChange U f (s.node f) ((Fs.settle a s r s').2.node f) := by
  unfold Fs.settle
  split
  · exact .kept
  · exact h

theorem FileChange.setNode (h : g = f → FileChange U f (s.node f) (.regular contents)) :
    FileChange U f (s.node f) ((s.setNode g (.regular contents)).node f) := by
  rw [Fs.setNode_node]
  by_cases hfg : f = g
  · subst hfg
    rw [Function.update_self]
    exact h rfl
  · rw [Function.update_of_ne hfg]
    exact .kept

variable [DecidableEq Pid]

/-- A step that has what it needs changes a file only as its store does. -/
theorem ConfigCall.fileChange_step (c : ConfigCall U) {past : Past} {o : FsOp}
    (ho : Discreet c.purpose past o) (p : Pid) (a : Answer) (s : Fs Pid) (f : FileName) :
    FileChange U f (s.node f) ((Fs.step p o a s).2.node f) := by
  have hinert : o.Inert → FileChange U f (s.node f) ((Fs.step p o a s).2.node f) := by
    intro h
    rw [step_inert p h]
    exact .kept
  cases o with
  | openCreate g =>
      simp only [Fs.step]
      split
      · rename_i hmissing
        refine .settle (.setNode ?_)
        rintro rfl
        exact .created hmissing (c.fileOf_creates ho)
      · exact .settle .kept
      · exact .settle .kept
      · exact .settle .kept
  | persist g contents =>
      refine .settle (.setNode ?_)
      rintro rfl
      obtain ⟨hplace, hfile⟩ := c.fileOf_replaces ho.1
      exact .replaced hplace hfile
  | persistNoclobber g contents =>
      simp only [Fs.step]
      split
      · rename_i hmissing
        refine .settle (.setNode ?_)
        rintro rfl
        exact .created hmissing (c.fileOf_creates ho.1)
      · exact .settle .kept
  | tryLock =>
      simp only [Fs.step]
      split
      · exact .settle .kept
      · exact .settle .kept
  | unlock =>
      simp only [Fs.step]
      split
      · exact .kept
      · exact .kept
  | openRead => exact .settle .kept
  | syncParent => exact .settle .kept
  | symlinkMetadata | parentMetadata | createDirAll | setPermissions | openMetadata | readToEnd
  | createTemporary | writeTemporary | syncTemporary | syncFile | openParent =>
      exact hinert trivial

/-- What is durable stays, but for a sync of the directory. -/
theorem Fs.step_durable (p : Pid) (o : FsOp) (a : Answer) (s : Fs Pid) :
    (Fs.step p o a s).2.durable = s.durable ∨ (Fs.step p o a s).2.durable = s.node := by
  have hinert : o.Inert → (Fs.step p o a s).2.durable = s.durable := by
    intro h
    rw [step_inert p h]
  cases o with
  | syncParent =>
      simp only [Fs.step]
      unfold Fs.settle
      split
      · exact .inl rfl
      · exact .inr rfl
  | openCreate g =>
      refine .inl ?_
      simp only [Fs.step]
      split <;> exact Fs.settle_keeps Fs.durable rfl
  | openRead => exact .inl (Fs.settle_keeps Fs.durable rfl)
  | persist g contents => exact .inl (Fs.settle_keeps Fs.durable rfl)
  | persistNoclobber g contents =>
      refine .inl ?_
      simp only [Fs.step]
      split <;> exact Fs.settle_keeps Fs.durable rfl
  | tryLock =>
      refine .inl ?_
      simp only [Fs.step]
      split <;> exact Fs.settle_keeps Fs.durable rfl
  | unlock =>
      refine .inl ?_
      simp only [Fs.step]
      split <;> rfl
  | symlinkMetadata | parentMetadata | createDirAll | setPermissions | openMetadata | readToEnd
  | createTemporary | writeTemporary | syncTemporary | syncFile | openParent =>
      exact .inl (hinert trivial)

theorem FilesWhole.step {first : Fs Pid} (h : FilesWhole U first s) (c : ConfigCall U) {past : Past}
    {o : FsOp} (ho : Discreet c.purpose past o) (p : Pid) (a : Answer) :
    FilesWhole U first (Fs.step p o a s).2 := by
  refine ⟨fun f => (h.seen f).change (c.fileChange_step ho p a s f), ?_⟩
  intro f
  rcases Fs.step_durable p o a s with heq | heq
  · rw [heq]
    exact h.durable f
  · rw [heq]
    exact (h.seen f).mono (by simp)

end Steps

/-! ## All processes -/

/-- All processes, each free to start any call at any time. The operating system releases the
lock of one that crashes. -/
def configSystem (U : UuidCrate) (Pid : Type) [DecidableEq Pid] :
    System Pid (ConfigCall U) Answer (Fs Pid) FsOp FsOp.Result (Σ c : ConfigCall U, c.Return) where
  sem p _ := Fs.step p
  code c := c.code.bind fun result => .ret ⟨c, result⟩
  crash p s := { s with lockOwner := if s.lockOwner = some p then none else s.lockOwner }

variable [DecidableEq Pid]

theorem configSystem_guarded (c : ConfigCall U) :
    (Monitor.history (Discreet c.purpose)).Guarded ((configSystem U Pid).code c)
      (fun _ _ => True) [] :=
  Monitor.Guarded.bind c.guarded

/-- In every run of any processes, whatever fails and whoever crashes: each file is as it was at
first or as its store writes it, and the next step changes it only in that way. -/
theorem config_files_whole {first : Fs Pid}
    {cfg : Config Pid (ConfigCall U) (Fs Pid) FsOp FsOp.Result (Σ c : ConfigCall U, c.Return)}
    (h : ((configSystem U Pid).runs first).Reachable cfg) :
    FilesWhole U first cfg.shared ∧
      ∀ next, (configSystem U Pid).Step cfg next → ∀ f,
        FileChange U f (cfg.shared.node f) (next.shared.node f) := by
  have hguarded := System.guarded (I := FilesWhole U first)
    (fun c => configSystem_guarded c)
    ⟨fun f => .inl (by simp), fun f => .inl (by simp)⟩
    (fun p c o a s past past' hnext hwhole =>
      hwhole.step c (Monitor.allowed_of_next_history hnext) p a)
    (fun p s hwhole => ⟨hwhole.seen, hwhole.durable⟩) h
  obtain ⟨hwhole, hrunning⟩ := hguarded
  refine ⟨hwhole, ?_⟩
  intro next hstep f
  cases hstep with
  | perform p c s₀ o k a hrun =>
      obtain ⟨past, hrest⟩ := hrunning p _ hrun
      obtain ⟨past', hnext, -⟩ := hrest ((configSystem U Pid).sem p c o a cfg.shared).1
      exact c.fileChange_step (Monitor.allowed_of_next_history hnext) p a cfg.shared f
  | start | finish | crash => exact .kept

/-- One process renames a name into place; the other one, which has a name to write as well,
crashes between its rename and its syncs. -/
def twoNames (U : UuidCrate) : List (Turn Bool (ConfigCall U) Answer) :=
  let self : LocalDeviceManager := ⟨⟨true⟩, ⟨true⟩, []⟩
  .start true (.updateName self "Desk".toList) :: List.replicate 6 (.perform true ⟨none, none⟩) ++
    .start false (.updateName self "Hall".toList) ::
    List.replicate 8 (.perform false ⟨none, none⟩) ++
    List.replicate 12 (.perform true ⟨none, none⟩) ++ [.finish true, .crash false]

theorem config_files_whole_renamed :
    let U : UuidCrate := ⟨fun _ => none⟩
    let first : Fs Bool := ⟨fun _ => .missing, fun _ => .missing, none⟩
    ∃ cfg, ((configSystem U Bool).runs first).Reachable cfg ∧
      cfg.finished.map Finished.pid = [true] ∧
      cfg.shared.node .deviceName = .regular [68, 101, 115, 107, 10] ∧
      FilesWhole U first cfg.shared := by
  intro U first
  have hinit : ((configSystem U Bool).runs first).Reachable ⟨first, fun _ => none, []⟩ := .init rfl
  have h := System.reachable_schedule _ hinit (twoNames U)
  refine ⟨_, h, ?_, ?_, (config_files_whole h).1⟩
  · decide +kernel
  · decide +kernel

end LocalTransfer
