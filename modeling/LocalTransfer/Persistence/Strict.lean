import LocalTransfer.Lib.Trace
import LocalTransfer.Persistence

/-!
# Strictness of the persistence steps

Which steps failed, which change nothing, and the shared helpers checked against both:
each issues inert steps only, succeeds if none of them fails, and ends in an error at the
first that does.
-/

namespace LocalTransfer

open Lib

namespace FsOp

/-- The step did not do what was asked. -/
def Failed : (o : FsOp) → o.Result → Prop
  | .symlinkMetadata _, r | .parentMetadata, r | .openRead _, r | .openCreate _, r
  | .persistNoclobber _ _, r | .createDirAll, r | .setPermissions _, r | .openMetadata _, r
  | .readToEnd _, r | .createTemporary, r | .writeTemporary _, r | .syncTemporary, r
  | .persist _ _, r | .syncFile _, r | .openParent, r | .syncParent, r => ∃ e, r = .error e
  | .tryLock, r => r ≠ .ok true
  | .unlock, _ => False

/-- The steps that change nothing, opening a file to read it apart. -/
def Inert : FsOp → Prop
  | .symlinkMetadata _ | .parentMetadata | .createDirAll | .setPermissions _ | .openMetadata _
  | .readToEnd _ | .createTemporary | .writeTemporary _ | .syncTemporary | .syncFile _
  | .openParent => True
  | _ => False

end FsOp

variable {Pid ε ε' α β : Type} {allowed : FsOp → Prop} {Q : Except ε β → Prop}

theorem settle_snd (a : Answer) (s : Fs Pid) (r : α) : (Fs.settle a s r s).2 = s := by
  cases herror : a.error with
  | none => simp only [Fs.settle, herror]
  | some e => simp only [Fs.settle, herror]

theorem step_inert [DecidableEq Pid] (p : Pid) {o : FsOp} (ho : o.Inert) (a : Answer)
    (s : Fs Pid) : (Fs.step p o a s).2 = s := by
  cases o with
  | openRead | openCreate | tryLock | unlock | persist | persistNoclobber | syncParent =>
      exact ho.elim
  | symlinkMetadata | parentMetadata | createDirAll | setPermissions | openMetadata | readToEnd
  | createTemporary | writeTemporary | syncTemporary | syncFile | openParent =>
      exact settle_snd a s _

/-! ## The rules -/

/-- A result that is passed on is a failure of the program, or the value it carries. -/
theorem strict_orElseFail {failed : (o : FsOp) → o.Result → Prop} {r : Except IoError β}
    {f : IoError → ε} (hQ : ∀ a, r = .ok a → Q (.ok a)) (herr : ∀ e, r ≠ .error e) :
    Strict allowed failed Q (orElseFail r f : FsProg ε β) := by
  cases r with
  | error e => exact absurd rfl (herr e)
  | ok a => exact Strict.pure (hQ a rfl)

theorem aborts_orElseFail {r : Except IoError α} (f : IoError → ε) (h : ∃ e, r = .error e) :
    Aborts allowed (orElseFail r f : FsProg ε α) := by
  obtain ⟨e, rfl⟩ := h
  exact Aborts.throw _

/-- A step whose failure is passed on, in front of the rest of a program. -/
theorem strict_step {o : FsOp} {f : IoError → ε} {g : α → FsProg ε β} (ho : allowed o)
    (result : o.Result → Except IoError α)
    (hresult : ∀ r, o.Failed r ↔ ∃ e, result r = .error e)
    (hg : ∀ r a, result r = .ok a → Strict allowed FsOp.Failed Q (g a)) :
    Strict allowed FsOp.Failed Q (call o >>= fun r => orElseFail (result r) f >>= g) := by
  apply Strict.call ho
  · intro r hfailed
    exact (aborts_orElseFail f ((hresult r).mp hfailed)).bind g
  · intro r hok
    rw [hresult] at hok
    cases hr : result r with
    | error e => exact absurd ⟨e, hr⟩ hok
    | ok a => exact hg r a hr

/-- The same at the end of a program. -/
theorem strict_last {o : FsOp} {f : IoError → ε} (ho : allowed o)
    (result : o.Result → Except IoError β)
    (hresult : ∀ r, o.Failed r ↔ ∃ e, result r = .error e)
    (hQ : ∀ r a, result r = .ok a → Q (.ok a)) :
    Strict allowed FsOp.Failed Q (call o >>= fun r => orElseFail (result r) f) := by
  apply Strict.call ho
  · intro r hfailed
    exact aborts_orElseFail f ((hresult r).mp hfailed)
  · intro r hok
    rw [hresult] at hok
    exact strict_orElseFail (hQ r) fun e he => hok ⟨e, he⟩

/-! ## The helpers -/

/-- The helper issues inert steps only, and its value is as stated if none of them fails. -/
abbrev StrictHelper (P : α → Prop) (x : FsProg ε α) : Prop :=
  Strict FsOp.Inert FsOp.Failed (fun r => ∃ a, r = .ok a ∧ P a) x

/-- With no statement about its value. -/
abbrev StrictUnit (x : FsProg ε Unit) : Prop := StrictHelper (fun _ => True) x

theorem strict_setPermissions (p : FsPath) (f : IoError → ε) :
    StrictUnit (do orElseFail (← call (.setPermissions p)) f) :=
  strict_last (o := .setPermissions p) trivial id (fun _ => Iff.rfl) fun _ a _ => ⟨a, rfl, trivial⟩

theorem strict_hardenExistingFile (f : FileName) : StrictUnit (hardenExistingFile f) := by
  unfold hardenExistingFile
  apply Strict.call trivial
  · intro r ⟨e, hr⟩
    cases hr
    exact Aborts.throw _
  · intro r hok
    match r with
    | .ok (some .regular) => exact strict_setPermissions _ _
    | .ok none | .ok (some .symlink) | .ok (some .other) => exact Strict.pure ⟨(), rfl, trivial⟩
    | .error source => exact absurd ⟨source, rfl⟩ hok

theorem strict_hardenExistingParent : StrictUnit hardenExistingParent := by
  unfold hardenExistingParent
  apply Strict.call trivial
  · intro r ⟨e, hr⟩
    cases hr
    exact Aborts.throw _
  · intro r hok
    match r with
    | .ok (some true) => exact strict_setPermissions _ _
    | .ok none | .ok (some false) => exact Strict.pure ⟨(), rfl, trivial⟩
    | .error source => exact absurd ⟨source, rfl⟩ hok

theorem strict_prepareParent (harden : Bool) : StrictUnit (prepareParent harden) := by
  unfold prepareParent
  refine strict_step (o := .parentMetadata) trivial id (fun _ => Iff.rfl) fun _ existing _ => ?_
  refine strict_step (o := .createDirAll) trivial id (fun _ => Iff.rfl) fun _ _ _ => ?_
  split
  · exact strict_setPermissions _ _
  · exact Strict.pure ⟨(), rfl, trivial⟩

/-- The temporary file holds the contents. -/
theorem strict_createSyncedTemporary (contents : Bytes) (harden : Bool) :
    StrictHelper (fun temporary => temporary.contents = contents)
      (createSyncedTemporary contents harden) := by
  unfold createSyncedTemporary
  refine (strict_prepareParent harden).bind (fun _ _ => ?_) fun e ⟨a, he, _⟩ => ?_
  · refine strict_step (o := .createTemporary) trivial id (fun _ => Iff.rfl) fun _ _ _ => ?_
    refine strict_step (o := .setPermissions _) trivial id (fun _ => Iff.rfl) fun _ _ _ => ?_
    refine strict_step (o := .writeTemporary _) trivial id (fun _ => Iff.rfl) fun _ _ _ => ?_
    refine strict_step (o := .syncTemporary) trivial id (fun _ => Iff.rfl) fun _ _ _ => ?_
    exact Strict.pure ⟨_, rfl, rfl⟩
  · cases he

end LocalTransfer
