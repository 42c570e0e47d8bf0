import LocalTransfer.LocalDevice.FileLogic
import LocalTransfer.Lib.Interleave

/-!
# The stores among any number of processes

The filesystem with a log of every step taken on it. A `Protocol` says when a call may write
what to which file; `Steps` is a run of steps that keep to it, from which every fact about
the contents of a file is derived. `FileLogic` is read over such runs (`among`), and
`loggedDiscipline` turns proofs about the programs of single calls into facts about every
interleaving.
-/

namespace LocalTransfer

open Lib

variable {Pid Call Ret : Type}

/-! ## The log -/

/-- One step, with the process and the call it belongs to. -/
structure Entry (Pid Call : Type) where
  pid : Pid
  call : Call
  op : FsOp
  result : op.Result

/-- The filesystem, and every step taken on it. -/
structure Logged (Pid Call : Type) where
  fs : Fs Pid
  log : List (Entry Pid Call)

namespace FsOp

/-- What a step has written to a file. -/
def wrote (f : FileName) : (o : FsOp) → o.Result → Option Bytes
  | .persist g contents, .ok _ => if g = f then some contents else none
  | .persistNoclobber g contents, .ok true => if g = f then some contents else none
  | _, _ => none

/-- What a file was found to be when it was opened. -/
def opened (f : FileName) : (o : FsOp) → o.Result → Option Node
  | .openRead g, .ok node => if g = f then some node else none
  | _, _ => none

end FsOp

namespace Entry

def wrote (f : FileName) (e : Entry Pid Call) : Option Bytes := e.op.wrote f e.result

def opened (f : FileName) (e : Entry Pid Call) : Option Node := e.op.opened f e.result

/-- A step in which a process learns or decides what the file holds. -/
def Decides (f : FileName) (e : Entry Pid Call) : Prop :=
  e.wrote f ≠ none ∨ e.opened f ≠ none

end Entry

/-- Opening a file writes nothing. -/
theorem Entry.wrote_of_opened {f : FileName} {e : Entry Pid Call} {node : Node}
    (h : e.opened f = some node) (g : FileName) : e.wrote g = none := by
  obtain ⟨pid, call, op, result⟩ := e
  cases op with
  | openRead => cases result <;> rfl
  | _ => cases h

theorem Entry.not_decides {f : FileName} {e : Entry Pid Call} (hwrote : e.wrote f = none)
    (hopened : e.opened f = none) : ¬ e.Decides f := by
  rintro (h | h)
  · exact h hwrote
  · exact h hopened

/-- The step was taken and logged. -/
structure Took (s s' : Logged Pid Call) (e : Entry Pid Call) : Prop where
  log : s'.log = s.log ++ [e]
  node : ∀ f, s'.fs.node f = ((e.wrote f).map Node.regular).getD (s.fs.node f)
  opened : ∀ f node, e.opened f = some node → node = s.fs.node f

/-- When a call may write which contents to which file. -/
abbrev Protocol (Pid Call : Type) := Logged Pid Call → Call → FileName → Bytes → Prop

/-- The step keeps to the protocol. -/
def Keeps (P : Protocol Pid Call) (s : Logged Pid Call) (e : Entry Pid Call) : Prop :=
  ∀ f contents, e.wrote f = some contents → P s e.call f contents

/-- Steps that keep to the protocol, one after the other. -/
inductive Steps (P : Protocol Pid Call) (s : Logged Pid Call) :
    List (Entry Pid Call) → Logged Pid Call → Prop
  | nil : Steps P s [] s
  | snoc {es s₁ s₂ e} : Steps P s es s₁ → Took s₁ s₂ e → Keeps P s₁ e → Steps P s (es ++ [e]) s₂

namespace Steps

variable {P : Protocol Pid Call} {s s₁ s₂ s₃ : Logged Pid Call} {es es' : List (Entry Pid Call)}

theorem one {e : Entry Pid Call} (h : Took s s₁ e) (hkeeps : Keeps P s e) : Steps P s [e] s₁ := by
  have := Steps.snoc .nil h hkeeps
  simpa using this

theorem trans (h : Steps P s₁ es s₂) (h' : Steps P s₂ es' s₃) : Steps P s₁ (es ++ es') s₃ := by
  induction h' with
  | nil => rwa [List.append_nil]
  | snoc _ htook hkeeps ih =>
      rw [← List.append_assoc]
      exact .snoc ih htook hkeeps

theorem log (h : Steps P s es s₁) : s₁.log = s.log ++ es := by
  induction h with
  | nil => simp
  | snoc _ htook _ ih => rw [htook.log, ih, List.append_assoc]

/-- A file holds what was last written to it. -/
theorem node (h : Steps P s es s₁) (f : FileName) : s₁.fs.node f =
    (((es.filterMap (Entry.wrote f)).getLast?).map Node.regular).getD (s.fs.node f) := by
  induction h with
  | nil => rfl
  | @snoc es s₁ s₂ e _ htook _ ih =>
      rw [htook.node, List.filterMap_append]
      cases hwrote : e.wrote f with
      | none => simpa [hwrote] using ih
      | some contents => simp [hwrote]

/-- Every step was taken from some state of the run. -/
theorem of_mem (h : Steps P s es s₁) {e : Entry Pid Call} (he : e ∈ es) :
    ∃ es' s' , Steps P s es' s' ∧ Keeps P s' e := by
  induction h with
  | nil => exact absurd he List.not_mem_nil
  | snoc hsteps _ hkeeps ih =>
      rcases List.mem_append.mp he with he | he
      · exact ih he
      · rw [List.mem_singleton.mp he]
        exact ⟨_, _, hsteps, hkeeps⟩

/-- What every step that keeps to the protocol preserves is preserved. -/
theorem keeps {K : Logged Pid Call → Prop}
    (hK : ∀ s s' e, K s → Took s s' e → Keeps P s e → K s') (h : Steps P s es s₁) (hs : K s) :
    K s₁ := by
  induction h with
  | nil => exact hs
  | snoc _ htook hkeeps ih => exact hK _ _ _ ih htook hkeeps

end Steps

/-! ## A run as one process sees it -/

/-- The other processes take some steps. -/
def Elsewhere (P : Protocol Pid Call) (p : Pid) (s s' : Logged Pid Call) : Prop :=
  ∃ es, Steps P s es s' ∧ ∀ e ∈ es, e.pid ≠ p

/-- Steps of any process, but none in which `p` learns or decides what the file holds. -/
def Undecided (P : Protocol Pid Call) (p : Pid) (f : FileName) (s s' : Logged Pid Call) : Prop :=
  ∃ es, Steps P s es s' ∧ ∀ e ∈ es, e.pid = p → ¬ e.Decides f

/-- A step of call `c` of process `p`. -/
def OwnStep (P : Protocol Pid Call) (p : Pid) (c : Call) (e : Entry Pid Call)
    (s s' : Logged Pid Call) : Prop :=
  e.pid = p ∧ e.call = c ∧ Took s s' e ∧ Keeps P s e

section Reading

variable {P : Protocol Pid Call} {p : Pid} {c : Call} {f : FileName} {e : Entry Pid Call}
  {s s' s₁ s₂ s₃ : Logged Pid Call}

theorem Elsewhere.refl (P : Protocol Pid Call) (p : Pid) (s : Logged Pid Call) :
    Elsewhere P p s s := ⟨[], .nil, by simp⟩

theorem Elsewhere.trans (h : Elsewhere P p s₁ s₂) (h' : Elsewhere P p s₂ s₃) :
    Elsewhere P p s₁ s₃ := by
  obtain ⟨es, hes, hpid⟩ := h
  obtain ⟨es', hes', hpid'⟩ := h'
  refine ⟨es ++ es', hes.trans hes', fun e he => ?_⟩
  rcases List.mem_append.mp he with he | he
  · exact hpid e he
  · exact hpid' e he

theorem Undecided.refl (P : Protocol Pid Call) (p : Pid) (f : FileName) (s : Logged Pid Call) :
    Undecided P p f s s := ⟨[], .nil, by simp⟩

theorem Undecided.trans (h : Undecided P p f s₁ s₂) (h' : Undecided P p f s₂ s₃) :
    Undecided P p f s₁ s₃ := by
  obtain ⟨es, hes, hno⟩ := h
  obtain ⟨es', hes', hno'⟩ := h'
  refine ⟨es ++ es', hes.trans hes', fun e he => ?_⟩
  rcases List.mem_append.mp he with he | he
  · exact hno e he
  · exact hno' e he

theorem Elsewhere.undecided (h : Elsewhere P p s s') : Undecided P p f s s' := by
  obtain ⟨es, hes, hpid⟩ := h
  exact ⟨es, hes, fun e he hp => absurd hp (hpid e he)⟩

theorem OwnStep.undecided (h : OwnStep P p c e s s') (hno : ¬ e.Decides f) :
    Undecided P p f s s' := by
  refine ⟨[e], .one h.2.2.1 h.2.2.2, fun e' he' _ => ?_⟩
  rw [List.mem_singleton.mp he']
  exact hno

theorem OwnStep.elsewhere {q : Pid} (h : OwnStep P p c e s s') (hne : p ≠ q) :
    Elsewhere P q s s' := by
  refine ⟨[e], .one h.2.2.1 h.2.2.2, fun e' he' => ?_⟩
  rw [List.mem_singleton.mp he', h.1]
  exact hne

/-- What a call has to know about the protocol to use a file: a fact the steps of others
keep, under which it may create the file, and what it may replace it by. -/
structure Licence (P : Protocol Pid Call) (c : Call) (f : FileName) where
  knows : Logged Pid Call → Prop
  creates : Bytes → Prop
  replaces : Bytes → Prop
  kept : ∀ s s' e, knows s → Took s s' e → Keeps P s e → knows s'
  may_create : ∀ s contents, creates contents → knows s → s.fs.node f = .missing → P s c f contents
  may_replace : ∀ s contents, replaces contents → P s c f contents

end Reading

/-! ## The system -/

section System

variable [DecidableEq Pid]

/-- One step of process `p` inside call `c`. -/
def loggedStep (p : Pid) (c : Call) (o : FsOp) (a : Answer) (s : Logged Pid Call) :
    o.Result × Logged Pid Call :=
  ((Fs.step p o a s.fs).1,
    ⟨(Fs.step p o a s.fs).2, s.log ++ [⟨p, c, o, (Fs.step p o a s.fs).1⟩]⟩)

/-- Any number of processes, each free to start any of the calls at any time. What a crashed
process has done to the files stays. -/
def fileSystem (Pid : Type) [DecidableEq Pid] (faults : Prop)
    (code : Call → Prog FsOp FsOp.Result Ret) :
    System Pid Call (Env faults) (Logged Pid Call) FsOp FsOp.Result Ret where
  sem p c o a s := loggedStep p c o a.1 s
  code := code
  crash _ s := s

/-- The steps on the files of the local device. -/
def FsOp.OnFile : FsOp → Prop
  | .openRead _ | .persist _ _ | .persistNoclobber _ _ => True
  | o => o.Inert

theorem FsOp.wrote_of_inert {o : FsOp} (ho : o.Inert) (f : FileName) (r : o.Result) :
    o.wrote f r = none ∧ o.opened f r = none := by
  cases o with
  | openRead | openCreate | tryLock | unlock | persist | persistNoclobber | syncParent =>
      exact ho.elim
  | symlinkMetadata | parentMetadata | createDirAll | setPermissions | openMetadata | readToEnd
  | createTemporary | writeTemporary | syncTemporary | syncFile | openParent => exact ⟨rfl, rfl⟩

/-- A step changes the files as its log entry says, and finds what is there. -/
theorem step_onFile {p : Pid} {o : FsOp} {a : Answer} {s s' : Fs Pid} {r : o.Result}
    (ho : o.OnFile) (h : Fs.step p o a s = (r, s')) :
    (∀ f, s'.node f = ((o.wrote f r).map Node.regular).getD (s.node f)) ∧
      ∀ f node, o.opened f r = some node → node = s.node f := by
  have hinert : o.Inert → (∀ f, s'.node f = ((o.wrote f r).map Node.regular).getD (s.node f)) ∧
      ∀ f node, o.opened f r = some node → node = s.node f := by
    intro ho
    have hs := step_inert p ho a s
    rw [h] at hs
    refine ⟨fun f => ?_, fun f node hnode => ?_⟩
    · rw [(FsOp.wrote_of_inert ho f r).1, show s' = s from hs]
      rfl
    · rw [(FsOp.wrote_of_inert ho f r).2] at hnode
      cases hnode
  -- a file that is written changes, all others stay
  have hset : ∀ (g : FileName) (contents : Bytes) (f : FileName),
      (s.setNode g (.regular contents)).node f =
        (((if g = f then some contents else none) : Option Bytes).map Node.regular).getD
          (s.node f) := by
    intro g contents f
    by_cases hfg : g = f
    · subst hfg
      simp
    · simp [hfg, Function.update_of_ne (Ne.symm hfg)]
  cases o with
  | openRead g =>
      rcases Fs.settle_cases h with ⟨rfl, rfl⟩ | ⟨e, rfl, rfl, -⟩
      · refine ⟨fun f => rfl, fun f node hnode => ?_⟩
        simp only [FsOp.opened] at hnode
        split at hnode
        · rename_i hfg
          cases hnode
          rw [hfg]
        · cases hnode
      · exact ⟨fun f => rfl, fun f node hnode => by cases hnode⟩
  | persist g contents =>
      rcases Fs.settle_cases h with ⟨rfl, rfl⟩ | ⟨e, rfl, rfl, -⟩
      · exact ⟨hset g contents, fun f node hnode => by cases hnode⟩
      · exact ⟨fun f => rfl, fun f node hnode => by cases hnode⟩
  | persistNoclobber g contents =>
      refine ⟨?_, fun f node hnode => by cases hnode⟩
      simp only [Fs.step] at h
      split at h
      · rcases Fs.settle_cases h with ⟨rfl, rfl⟩ | ⟨e, rfl, rfl, -⟩
        · exact hset g contents
        · exact fun f => rfl
      · rcases Fs.settle_cases h with ⟨rfl, rfl⟩ | ⟨e, rfl, rfl, -⟩
        · exact fun f => rfl
        · exact fun f => rfl
  | openCreate | tryLock | unlock | syncParent => exact ho.elim
  | symlinkMetadata | parentMetadata | createDirAll | setPermissions | openMetadata | readToEnd
  | createTemporary | writeTemporary | syncTemporary | syncFile | openParent => exact hinert ho

theorem took_loggedStep {p : Pid} {c : Call} {o : FsOp} {a : Answer} {s s' : Logged Pid Call}
    {r : o.Result} (ho : o.OnFile) (h : loggedStep p c o a s = (r, s')) :
    Took s s' ⟨p, c, o, r⟩ := by
  cases h
  obtain ⟨hnode, hopened⟩ := step_onFile ho (rfl : Fs.step p o a s.fs = _)
  exact ⟨rfl, hnode, hopened⟩

/-- A step fails only where faults are allowed. -/
theorem faults_of_failed {faults : Prop} {p : Pid} {o : FsOp} {a : Answer} {s : Fs Pid}
    (ha : faults ∨ a.Faultless) (ho : o.OnFile) (hfailed : o.Failed (Fs.step p o a s).1) :
    faults := by
  refine ha.resolve_right fun hcalm => ?_
  have hsettle : ∀ {α : Type} {r : α} {s' : Fs Pid}, ¬ ∃ e, (Fs.settle a s r s').1 = .error e := by
    intro α r s' ⟨e, he⟩
    rw [show Fs.settle a s r s' = (.ok r, s') by rw [Fs.settle, hcalm]] at he
    cases he
  cases o with
  | persistNoclobber g contents =>
      obtain ⟨e, he⟩ := hfailed
      simp only [Fs.step] at he
      split at he
      · exact hsettle ⟨e, he⟩
      · exact hsettle ⟨e, he⟩
  | openCreate | tryLock | unlock | syncParent => exact ho.elim
  | symlinkMetadata | parentMetadata | createDirAll | setPermissions | openRead | openMetadata
  | readToEnd | createTemporary | writeTemporary | syncTemporary | persist | syncFile
  | openParent => exact hsettle hfailed

theorem noclobber_spec {p : Pid} {f : FileName} {contents : Bytes} {a : Answer} {s s' : Fs Pid}
    {r : Except IoError Bool} (h : Fs.step p (.persistNoclobber f contents) a s = (r, s')) :
    (r = .ok true ∧ s.node f = .missing) ∨ (r = .ok false ∧ s.node f ≠ .missing) ∨
      ∃ e, r = .error e := by
  simp only [Fs.step] at h
  split at h
  · rename_i hnode
    rcases Fs.settle_cases h with ⟨rfl, -⟩ | ⟨e, rfl, -, -⟩
    · exact .inl ⟨rfl, hnode⟩
    · exact .inr (.inr ⟨e, rfl⟩)
  · rename_i hnode
    rcases Fs.settle_cases h with ⟨rfl, -⟩ | ⟨e, rfl, -, -⟩
    · exact .inr (.inl ⟨rfl, hnode⟩)
    · exact .inr (.inr ⟨e, rfl⟩)

/-! ## One call among others -/

section Reading

variable {P : Protocol Pid Call} {faults : Prop} {p : Pid} {c : Call} {f : FileName}
  {s s' : Logged Pid Call}

/-- The logic of call `c` of process `p` among the others. -/
def loggedLogic (P : Protocol Pid Call) (faults : Prop) (p : Pid) (c : Call) :
    Logic (Logged Pid Call) FsOp FsOp.Result where
  next s o r s' := ∃ a : Env faults, loggedStep p c o a.1 s = (r, s')
  rely := Elsewhere P p
  guar s s' := ∃ e, OwnStep P p c e s s'
  rely_refl := Elsewhere.refl P p
  rely_trans := Elsewhere.trans

theorem ownStep_loggedStep {o : FsOp} {a : Answer} {r : o.Result} (ho : o.OnFile)
    (h : loggedStep p c o a s = (r, s'))
    (hkeeps : ∀ g contents, o.wrote g r = some contents → P s c g contents) :
    OwnStep P p c ⟨p, c, o, r⟩ s s' :=
  ⟨rfl, rfl, took_loggedStep ho h, hkeeps⟩

/-- A step that writes one file needs the licence for that file only. -/
theorem ownStep_of_write {o : FsOp} {a : Answer} {r : o.Result} {f : FileName} {contents : Bytes}
    (ho : o.OnFile) (h : loggedStep p c o a s = (r, s'))
    (hwrote : ∀ g, o.wrote g r = if f = g then some contents else none)
    (hlicensed : P s c f contents) : OwnStep P p c ⟨p, c, o, r⟩ s s' := by
  refine ownStep_loggedStep ho h fun g contents' hsome => ?_
  rw [hwrote] at hsome
  obtain ⟨rfl, hcontents⟩ := Option.ite_none_right_eq_some.mp hsome
  cases hcontents
  exact hlicensed

theorem onFile_of_inert {o : FsOp} (ho : o.Inert) : o.OnFile := by
  cases o with
  | openRead | openCreate | tryLock | unlock | persist | persistNoclobber | syncParent =>
      exact ho.elim
  | symlinkMetadata | parentMetadata | createDirAll | setPermissions | openMetadata | readToEnd
  | createTemporary | writeTemporary | syncTemporary | syncFile | openParent => trivial

/-- The steps of a call, read as steps of one process among others. -/
def among (faults : Prop) (p : Pid) (c : Call) (f : FileName) (l : Licence P c f) :
    FileLogic (loggedLogic P faults p c) f where
  quiet := Undecided P p f
  looked node s s' := ∃ e, OwnStep P p c e s s' ∧ e.opened f = some node
  created contents s s' := s.fs.node f = .missing ∧
    ∃ e, OwnStep P p c e s s' ∧ e.wrote f = some contents
  occupied s s' := s.fs.node f ≠ .missing ∧ Undecided P p f s s'
  replaced contents s s' := ∃ e, OwnStep P p c e s s' ∧ e.wrote f = some contents
  mayCreate contents s := l.creates contents ∧ l.knows s
  mayReplace := l.replaces
  excused := faults
  quiet_refl := Undecided.refl P p f
  quiet_trans := Undecided.trans
  rely_quiet := Elsewhere.undecided
  mayCreate_quiet := by
    rintro contents s s' ⟨es, hes, -⟩ ⟨hcreates, hknows⟩
    exact ⟨hcreates, hes.keeps l.kept hknows⟩
  mayCreate_looked := by
    rintro contents node s s' ⟨e, ⟨-, -, htook, hkeeps⟩, -⟩ ⟨hcreates, hknows⟩
    exact ⟨hcreates, l.kept _ _ _ hknows htook hkeeps⟩
  inert := by
    rintro s o r s' ho ⟨a, h⟩
    have hnone := fun g => FsOp.wrote_of_inert ho g r
    have hown : OwnStep P p c ⟨p, c, o, r⟩ s s' := by
      refine ownStep_loggedStep (onFile_of_inert ho) h fun g contents hwrote => ?_
      rw [(hnone g).1] at hwrote
      cases hwrote
    refine ⟨⟨_, hown⟩, hown.undecided (Entry.not_decides (hnone f).1 (hnone f).2), ?_⟩
    intro hfailed
    cases h
    exact faults_of_failed a.2 (onFile_of_inert ho) hfailed
  look := by
    rintro s r s' ⟨a, h⟩
    have hown : OwnStep P p c ⟨p, c, .openRead f, r⟩ s s' :=
      ownStep_loggedStep trivial h fun g contents hwrote => by cases hwrote
    refine ⟨⟨_, hown⟩, ?_⟩
    cases r with
    | ok node => exact .inl ⟨node, rfl, _, hown, if_pos rfl⟩
    | error e =>
        refine .inr ⟨e, rfl, hown.undecided (Entry.not_decides rfl rfl), ?_⟩
        exact faults_of_failed (o := .openRead f) a.2 trivial ⟨e, congrArg Prod.fst h⟩
  create := by
    rintro s contents r s' ⟨hcreates, hknows⟩ ⟨a, h⟩
    have hstep : Fs.step p (.persistNoclobber f contents) a.1 s.fs = (r, s'.fs) := by
      cases h
      rfl
    rcases noclobber_spec hstep with ⟨rfl, hmissing⟩ | ⟨rfl, hpresent⟩ | ⟨e, rfl⟩
    · have hown : OwnStep P p c ⟨p, c, .persistNoclobber f contents, .ok true⟩ s s' :=
        ownStep_of_write trivial h (fun _ => rfl) (l.may_create s contents hcreates hknows hmissing)
      exact ⟨⟨_, hown⟩, .inl ⟨rfl, hmissing, _, hown, if_pos rfl⟩⟩
    · have hown : OwnStep P p c ⟨p, c, .persistNoclobber f contents, .ok false⟩ s s' :=
        ownStep_loggedStep trivial h fun g contents' hwrote => by cases hwrote
      exact ⟨⟨_, hown⟩, .inr (.inl ⟨rfl, hpresent, hown.undecided (Entry.not_decides rfl rfl)⟩)⟩
    · have hown : OwnStep P p c ⟨p, c, .persistNoclobber f contents, .error e⟩ s s' :=
        ownStep_loggedStep trivial h fun g contents' hwrote => by cases hwrote
      refine ⟨⟨_, hown⟩, .inr (.inr ⟨e, rfl, hown.undecided (Entry.not_decides rfl rfl), ?_⟩)⟩
      exact faults_of_failed (o := .persistNoclobber f contents) a.2 trivial
        ⟨e, congrArg Prod.fst hstep⟩
  replace := by
    rintro s contents r s' hreplaces ⟨a, h⟩
    cases r with
    | ok u =>
        have hown : OwnStep P p c ⟨p, c, .persist f contents, .ok u⟩ s s' :=
          ownStep_of_write trivial h (fun _ => rfl) (l.may_replace s contents hreplaces)
        exact ⟨⟨_, hown⟩, .inl ⟨rfl, _, hown, if_pos rfl⟩⟩
    | error e =>
        have hown : OwnStep P p c ⟨p, c, .persist f contents, .error e⟩ s s' :=
          ownStep_loggedStep trivial h fun g contents' hwrote => by cases hwrote
        refine ⟨⟨_, hown⟩, .inr ⟨e, rfl, hown.undecided (Entry.not_decides rfl rfl), ?_⟩⟩
        exact faults_of_failed (o := .persist f contents) a.2 trivial ⟨e, congrArg Prod.fst h⟩

end Reading

/-! ## Every interleaving -/

/-- Some steps that keep to the protocol lead from one state to the other. -/
def Later (P : Protocol Pid Call) (s s' : Logged Pid Call) : Prop := ∃ es, Steps P s es s'

omit [DecidableEq Pid] in
theorem Later.trans {P : Protocol Pid Call} {s₁ s₂ s₃ : Logged Pid Call} (h : Later P s₁ s₂)
    (h' : Later P s₂ s₃) : Later P s₁ s₃ := by
  obtain ⟨es, hes⟩ := h
  obtain ⟨es', hes'⟩ := h'
  exact ⟨_, hes.trans hes'⟩

/-- Whatever a program does among others, it is a run that keeps to the protocol. -/
theorem wp_later {P : Protocol Pid Call} {faults : Prop} {p : Pid} {c : Call}
    {prog : Prog FsOp FsOp.Result Ret} {Q : Ret → Logged Pid Call → Prop} {s : Logged Pid Call}
    (h : wp (loggedLogic P faults p c) prog Q s) :
    wp (loggedLogic P faults p c) prog (fun r s' => Later P s s' ∧ Q r s') s := by
  refine wp_along Later.trans ?_ ?_ h
  · rintro s s' ⟨es, hes, -⟩
    exact ⟨es, hes⟩
  · rintro s s' ⟨e, -, -, htook, hkeeps⟩
    exact ⟨_, .one htook hkeeps⟩

/-- The rules all calls obey, from the specification of each call's program. -/
def loggedDiscipline {faults : Prop} {code : Call → Prog FsOp FsOp.Result Ret}
    (P : Protocol Pid Call) (s₀ : Logged Pid Call)
    (post : Pid → Call → Logged Pid Call → Ret → Logged Pid Call → Prop)
    (hcode : ∀ p c s, Later P s₀ s → wp (loggedLogic P faults p c) (code c) (post p c s) s) :
    Discipline (fileSystem Pid faults code) where
  inv := Later P s₀
  rely := Elsewhere P
  guar p c s s' := ∃ e, OwnStep P p c e s s'
  idle _ _ := True
  post p c s r s' := post p c s r s' ∧ Later P s₀ s
  rely_refl := Elsewhere.refl P
  rely_trans _ := Elsewhere.trans
  guar_inv := by
    rintro p c s s' ⟨e, -, -, htook, hkeeps⟩ hinv
    exact hinv.trans ⟨_, .one htook hkeeps⟩
  guar_rely := by
    rintro p q c s s' hne ⟨e, he⟩
    exact he.elsewhere hne
  crash_inv h := h
  crash_rely _ := Elsewhere.refl P _ _
  idle_stable _ _ := trivial
  crash_idle _ _ := trivial
  code_ok p c s hinv _ := wp_mono (hcode p c s hinv) fun _ _ h => ⟨⟨h, hinv⟩, trivial⟩

section Runs

variable {faults : Prop} {code : Call → Prog FsOp FsOp.Result Ret} {P : Protocol Pid Call}
  {fs : Fs Pid} {post : Pid → Call → Logged Pid Call → Ret → Logged Pid Call → Prop}
  {cfg cfg' : Config Pid Call (Logged Pid Call) FsOp FsOp.Result Ret}

/-- **Every run keeps to the protocol**, and every completed call has done what its
specification says. -/
theorem run_spec
    (hcode : ∀ p c s, Later P ⟨fs, []⟩ s → wp (loggedLogic P faults p c) (code c) (post p c s) s)
    (h : ((fileSystem Pid faults code).runs ⟨fs, []⟩).Reachable cfg) :
    Steps P ⟨fs, []⟩ cfg.shared.log cfg.shared ∧
      (∀ cfg', Relation.ReflTransGen (fileSystem Pid faults code).Step cfg cfg' →
        Later P cfg.shared cfg'.shared) ∧
      ∀ d ∈ cfg.finished, post d.pid d.call d.start d.result d.finish ∧
        Steps P ⟨fs, []⟩ d.start.log d.start ∧ Later P d.start d.finish ∧
        Later P d.finish cfg.shared := by
  let D := loggedDiscipline P ⟨fs, []⟩ post hcode
  have hinv : D.inv ⟨fs, []⟩ := ⟨[], .nil⟩
  have hlog : ∀ {s}, Later P ⟨fs, []⟩ s → Steps P ⟨fs, []⟩ s.log s := by
    rintro s ⟨es, hes⟩
    rw [hes.log]
    exact hes
  have hguar : ∀ {p : Pid} {c : Call} {s s'}, D.guar p c s s' → Later P s s' := by
    rintro p c s s' ⟨e, -, -, htook, hkeeps⟩
    exact ⟨_, .one htook hkeeps⟩
  have hrefl : ∀ s, Later P s s := fun s => ⟨[], .nil⟩
  have hholds := D.sound hinv (fun _ => trivial) h
  obtain ⟨hordered, -⟩ := D.finished_ordered (Later P) hrefl Later.trans hinv
    (fun _ => trivial) hguar (hrefl _) h
  refine ⟨hlog hholds.inv, fun cfg' hrun => ?_, fun d hd => ?_⟩
  · exact D.moves (Later P) hrefl Later.trans hinv (fun _ => trivial) hguar (hrefl _) h hrun
  · obtain ⟨hpost, hstart⟩ := hholds.completed d hd
    exact ⟨hpost, hlog hstart, hordered d hd⟩

end Runs

end System

end LocalTransfer
