import LocalTransfer.Lib.Program
import Mathlib.Logic.Function.Basic
import Mathlib.Logic.Relation
import Mathlib.Data.List.Basic
import Mathlib.Tactic.Common

/-!
# Transition systems and interleaved programs

`TSys` is a transition system with its invariant rule. `System` interleaves the
programs of any number of processes: a process that is idle may start any call,
a running one performs its next operation on the shared state, finishes or
crashes. The rely-guarantee rule (`Discipline.sound`) turns one proof about each
call's program, run under interference, into a fact about every reachable
configuration.
-/

namespace LocalTransfer.Lib

/-! ## Transition systems -/

/-- A transition system. -/
structure TSys (σ : Type) where
  init : σ → Prop
  step : σ → σ → Prop

/-- The states some run reaches. -/
inductive TSys.Reachable {σ : Type} (T : TSys σ) : σ → Prop
  | init {s} : T.init s → T.Reachable s
  | step {s s'} : T.Reachable s → T.step s s' → T.Reachable s'

/-- What holds initially and is kept by every step holds in every reachable state. -/
theorem TSys.invariant {σ : Type} {T : TSys σ} {I : σ → Prop} (hinit : ∀ s, T.init s → I s)
    (hstep : ∀ s s', I s → T.step s s' → I s') {s : σ} (h : T.Reachable s) : I s := by
  induction h with
  | init hi => exact hinit _ hi
  | step _ hs ih => exact hstep _ _ ih hs

/-! ## Interleaving -/

/-- The programs a process may call, what their operations do to the shared state,
and what a crash of a process leaves behind. -/
structure System (Pid Call A σ : Type) (Op : Type) (Res : Op → Type) (Ret : Type) where
  sem : Pid → Call → (o : Op) → A → σ → Res o × σ
  code : Call → Prog Op Res Ret
  crash : Pid → σ → σ

variable {Pid Call A σ Op Ret : Type} {Res : Op → Type}

/-- A call in progress: the shared state it started in and the rest of its program. -/
structure Running (Call σ Op : Type) (Res : Op → Type) (Ret : Type) where
  call : Call
  start : σ
  rest : Prog Op Res Ret

/-- A completed call with the shared states at its start and at its return. -/
structure Finished (Pid Call σ Ret : Type) where
  pid : Pid
  call : Call
  start : σ
  result : Ret
  finish : σ

/-- The shared state, the call each process is running, and the completed calls in
the order of their returns. -/
structure Config (Pid Call σ Op : Type) (Res : Op → Type) (Ret : Type) where
  shared : σ
  running : Pid → Option (Running Call σ Op Res Ret)
  finished : List (Finished Pid Call σ Ret)

variable [DecidableEq Pid]

/-- One step of one process. -/
inductive System.Step (S : System Pid Call A σ Op Res Ret) :
    Config Pid Call σ Op Res Ret → Config Pid Call σ Op Res Ret → Prop
  | start {cfg} (p : Pid) (c : Call) : cfg.running p = none →
      S.Step cfg { cfg with
        running := Function.update cfg.running p (some ⟨c, cfg.shared, S.code c⟩) }
  | perform {cfg} (p : Pid) (c : Call) (s₀ : σ) (o : Op) (k : Res o → Prog Op Res Ret) (a : A) :
      cfg.running p = some ⟨c, s₀, .op o k⟩ →
      S.Step cfg { cfg with
        shared := (S.sem p c o a cfg.shared).2
        running := Function.update cfg.running p
          (some ⟨c, s₀, k (S.sem p c o a cfg.shared).1⟩) }
  | finish {cfg} (p : Pid) (c : Call) (s₀ : σ) (x : Ret) :
      cfg.running p = some ⟨c, s₀, .ret x⟩ →
      S.Step cfg { cfg with
        running := Function.update cfg.running p none
        finished := cfg.finished ++ [⟨p, c, s₀, x, cfg.shared⟩] }
  | crash {cfg} (p : Pid) (r : Running Call σ Op Res Ret) : cfg.running p = some r →
      S.Step cfg { cfg with
        shared := S.crash p cfg.shared
        running := Function.update cfg.running p none }

/-- All runs of the system from one shared state with every process idle. -/
def System.runs (S : System Pid Call A σ Op Res Ret) (s₀ : σ) :
    TSys (Config Pid Call σ Op Res Ret) where
  init cfg := cfg = ⟨s₀, fun _ => none, []⟩
  step := S.Step

/-! ### Schedules -/

/-- What a scheduler lets a process do: start a call, perform its next operation with this
answer, return or crash. -/
inductive Turn (Pid Call A : Type)
  | start (p : Pid) (c : Call)
  | perform (p : Pid) (a : A)
  | finish (p : Pid)
  | crash (p : Pid)

/-- The configuration after a turn. A turn that its process cannot take changes nothing. -/
def System.turn (S : System Pid Call A σ Op Res Ret) (cfg : Config Pid Call σ Op Res Ret) :
    Turn Pid Call A → Config Pid Call σ Op Res Ret
  | .start p c =>
      match cfg.running p with
      | none => { cfg with
          running := Function.update cfg.running p (some ⟨c, cfg.shared, S.code c⟩) }
      | some _ => cfg
  | .perform p a =>
      match cfg.running p with
      | some ⟨c, s₀, .op o k⟩ => { cfg with
          shared := (S.sem p c o a cfg.shared).2
          running := Function.update cfg.running p
            (some ⟨c, s₀, k (S.sem p c o a cfg.shared).1⟩) }
      | some ⟨_, _, .ret _⟩ | none => cfg
  | .finish p =>
      match cfg.running p with
      | some ⟨c, s₀, .ret x⟩ => { cfg with
          running := Function.update cfg.running p none
          finished := cfg.finished ++ [⟨p, c, s₀, x, cfg.shared⟩] }
      | some ⟨_, _, .op _ _⟩ | none => cfg
  | .crash p =>
      match cfg.running p with
      | some _ => { cfg with
          shared := S.crash p cfg.shared
          running := Function.update cfg.running p none }
      | none => cfg

/-- Every schedule is a run. -/
theorem System.reachable_schedule (S : System Pid Call A σ Op Res Ret) {s₀ : σ}
    {cfg : Config Pid Call σ Op Res Ret} (h : (S.runs s₀).Reachable cfg)
    (turns : List (Turn Pid Call A)) : (S.runs s₀).Reachable (turns.foldl S.turn cfg) := by
  induction turns generalizing cfg with
  | nil => exact h
  | cons turn turns ih =>
      apply ih
      cases turn with
      | start p c =>
          rw [System.turn]
          split
          · next hidle => exact h.step (.start p c hidle)
          · exact h
      | perform p a =>
          rw [System.turn]
          split
          · next c start o k hrun => exact h.step (.perform p c start o k a hrun)
          · exact h
          · exact h
      | finish p =>
          rw [System.turn]
          split
          · next c start x hrun => exact h.step (.finish p c start x hrun)
          · exact h
          · exact h
      | crash p =>
          rw [System.turn]
          split
          · next r hrun => exact h.step (.crash p r hrun)
          · exact h

/-! ## Rely and guarantee -/

/-- A discipline for the calls of a system: an invariant of the shared state, what a
process may rely on, what each call guarantees to the others, what holds of an idle
process and what a completed call has achieved, with the obligation of each program
stated in its logic. -/
structure Discipline (S : System Pid Call A σ Op Res Ret) where
  inv : σ → Prop
  rely : Pid → σ → σ → Prop
  guar : Pid → Call → σ → σ → Prop
  idle : Pid → σ → Prop
  post : Pid → Call → σ → Ret → σ → Prop
  rely_refl : ∀ p s, rely p s s
  rely_trans : ∀ p {s₁ s₂ s₃}, rely p s₁ s₂ → rely p s₂ s₃ → rely p s₁ s₃
  guar_inv : ∀ {p c s s'}, guar p c s s' → inv s → inv s'
  guar_rely : ∀ {p q c s s'}, p ≠ q → guar p c s s' → rely q s s'
  crash_inv : ∀ {p s}, inv s → inv (S.crash p s)
  crash_rely : ∀ {p q s}, p ≠ q → rely q s (S.crash p s)
  idle_stable : ∀ {p s s'}, idle p s → rely p s s' → idle p s'
  crash_idle : ∀ p s, idle p (S.crash p s)
  code_ok : ∀ p c s, inv s → idle p s →
    wp { next := fun s o r s' => ∃ a, S.sem p c o a s = (r, s')
         rely := rely p, guar := guar p c
         rely_refl := rely_refl p, rely_trans := rely_trans p }
      (S.code c) (fun x s' => post p c s x s' ∧ idle p s') s

namespace Discipline

variable {S : System Pid Call A σ Op Res Ret} (D : Discipline S)

/-- The logic in which the program of one call of one process is verified. -/
def logic (p : Pid) (c : Call) : Logic σ Op Res where
  next s o r s' := ∃ a, S.sem p c o a s = (r, s')
  rely := D.rely p
  guar := D.guar p c
  rely_refl := D.rely_refl p
  rely_trans := D.rely_trans p

/-- An idle process is idle; the rest of a running call still establishes the
call's postcondition. -/
def Local (p : Pid) (s : σ) : Option (Running Call σ Op Res Ret) → Prop
  | none => D.idle p s
  | some r => wp (D.logic p r.call) r.rest
      (fun x s' => D.post p r.call r.start x s' ∧ D.idle p s') s

omit [DecidableEq Pid] in
theorem Local.stable {D : Discipline S} {p : Pid} {s s' : σ}
    {r : Option (Running Call σ Op Res Ret)} (h : D.Local p s r) (hr : D.rely p s s') :
    D.Local p s' r := by
  cases r with
  | none => exact D.idle_stable h hr
  | some r => exact wp_stable (L := D.logic p r.call) h hr

/-- The invariant holds, every process is where its proof says, and every completed
call has achieved its postcondition. -/
structure Holds (cfg : Config Pid Call σ Op Res Ret) : Prop where
  inv : D.inv cfg.shared
  processes : ∀ p, D.Local p cfg.shared (cfg.running p)
  completed : ∀ d ∈ cfg.finished, D.post d.pid d.call d.start d.result d.finish

theorem holds_step {cfg cfg' : Config Pid Call σ Op Res Ret} (h : D.Holds cfg)
    (hs : S.Step cfg cfg') : D.Holds cfg' := by
  obtain ⟨hinv, hloc, hpost⟩ := h
  cases hs with
  | start p c hidle =>
      refine ⟨hinv, fun q => ?_, hpost⟩
      by_cases hq : q = p
      · subst hq
        have hp := hloc q
        rw [hidle] at hp
        simp only [Function.update_self]
        exact D.code_ok q c cfg.shared hinv hp
      · simpa [Function.update_of_ne hq] using hloc q
  | perform p c s₀ o k a hrun =>
      have hp := hloc p
      rw [hrun] at hp
      obtain ⟨hg, hrest⟩ := hp cfg.shared (D.rely_refl p _) _ _ ⟨a, rfl⟩
      refine ⟨D.guar_inv hg hinv, fun q => ?_, hpost⟩
      by_cases hq : q = p
      · subst hq
        simpa [Local] using hrest
      · simpa [Function.update_of_ne hq] using (hloc q).stable (D.guar_rely (Ne.symm hq) hg)
  | finish p c s₀ x hrun =>
      have hp := hloc p
      rw [hrun] at hp
      obtain ⟨hx, hidle⟩ := hp cfg.shared (D.rely_refl p _)
      refine ⟨hinv, fun q => ?_, fun d hd => ?_⟩
      · by_cases hq : q = p
        · subst hq
          simpa [Local] using hidle
        · simpa [Function.update_of_ne hq] using hloc q
      · rcases List.mem_append.mp hd with hd | hd
        · exact hpost d hd
        · rw [List.mem_singleton.mp hd]
          exact hx
  | crash p r hrun =>
      refine ⟨D.crash_inv hinv, fun q => ?_, hpost⟩
      by_cases hq : q = p
      · subst hq
        simpa [Local] using D.crash_idle q cfg.shared
      · simpa [Function.update_of_ne hq] using (hloc q).stable (D.crash_rely (Ne.symm hq))

/-- **Soundness of the discipline.** It holds of every reachable configuration. -/
theorem sound {s₀ : σ} (hinv : D.inv s₀) (hidle : ∀ p, D.idle p s₀)
    {cfg : Config Pid Call σ Op Res Ret} (h : (S.runs s₀).Reachable cfg) : D.Holds cfg := by
  refine TSys.invariant (I := D.Holds) ?_ (fun _ _ hI hs => D.holds_step hI hs) h
  rintro cfg rfl
  exact ⟨hinv, fun p => hidle p, fun d hd => absurd hd List.not_mem_nil⟩

/-- Calls of one process do not overlap: for every preorder along which the shared
state moves, each call starts above the point where an earlier one ended. -/
theorem finished_ordered (le : σ → σ → Prop) (hrefl : ∀ s, le s s)
    (htrans : ∀ {s₁ s₂ s₃}, le s₁ s₂ → le s₂ s₃ → le s₁ s₃) {s₀ : σ}
    (hinv : D.inv s₀) (hidle : ∀ p, D.idle p s₀)
    (hguar : ∀ {p c s s'}, D.guar p c s s' → le s s')
    (hcrash : ∀ {p s}, le s (S.crash p s)) {cfg : Config Pid Call σ Op Res Ret}
    (h : (S.runs s₀).Reachable cfg) :
    (∀ d ∈ cfg.finished, le d.start d.finish ∧ le d.finish cfg.shared) ∧
      cfg.finished.Pairwise fun d d' => d.pid = d'.pid → le d.finish d'.start := by
  -- running calls are part of the invariant: they start above every end of the same process
  let I := fun cfg : Config Pid Call σ Op Res Ret => D.Holds cfg ∧
    (∀ d ∈ cfg.finished, le d.start d.finish ∧ le d.finish cfg.shared) ∧
    (∀ p r, cfg.running p = some r → le r.start cfg.shared ∧
      ∀ d ∈ cfg.finished, d.pid = p → le d.finish r.start) ∧
    cfg.finished.Pairwise fun d d' => d.pid = d'.pid → le d.finish d'.start
  suffices hI : I cfg from ⟨hI.2.1, hI.2.2.2⟩
  refine TSys.invariant (I := I) ?_ ?_ h
  · rintro cfg rfl
    exact ⟨D.sound hinv hidle (.init rfl), by simp, by simp, List.Pairwise.nil⟩
  · rintro cfg cfg' ⟨hH, hfin, hrun, hpw⟩ hs
    refine ⟨D.holds_step hH hs, ?_⟩
    cases hs with
    | start p c hnone =>
        refine ⟨hfin, fun q r hq => ?_, hpw⟩
        by_cases hqp : q = p
        · subst hqp
          simp only [Function.update_self, Option.some.injEq] at hq
          subst hq
          exact ⟨hrefl _, fun d hd _ => (hfin d hd).2⟩
        · simp only [Function.update_of_ne hqp] at hq
          exact hrun q r hq
    -- the one step that moves the shared state, along the guarantee of the process
    | perform p c s₁ o k a hp =>
        have hloc := hH.processes p
        rw [hp] at hloc
        have hle : le cfg.shared (S.sem p c o a cfg.shared).2 :=
          hguar (hloc cfg.shared (D.rely_refl p _) _ _ ⟨a, rfl⟩).1
        refine ⟨fun d hd => ⟨(hfin d hd).1, htrans (hfin d hd).2 hle⟩, fun q r hq => ?_, hpw⟩
        by_cases hqp : q = p
        · subst hqp
          simp only [Function.update_self, Option.some.injEq] at hq
          subst hq
          exact ⟨htrans (hrun q _ hp).1 hle, (hrun q _ hp).2⟩
        · simp only [Function.update_of_ne hqp] at hq
          exact ⟨htrans (hrun q r hq).1 hle, (hrun q r hq).2⟩
    | finish p c s₁ x hp =>
        refine ⟨fun d hd => ?_, fun q r hq => ?_, ?_⟩
        · rcases List.mem_append.mp hd with hd | hd
          · exact hfin d hd
          · rw [List.mem_singleton.mp hd]
            exact ⟨(hrun p _ hp).1, hrefl _⟩
        · by_cases hqp : q = p
          · subst hqp
            simp at hq
          · simp only [Function.update_of_ne hqp] at hq
            refine ⟨(hrun q r hq).1, fun d hd hdp => ?_⟩
            rcases List.mem_append.mp hd with hd | hd
            · exact (hrun q r hq).2 d hd hdp
            · rw [List.mem_singleton.mp hd] at hdp
              exact absurd hdp.symm hqp
        · refine List.pairwise_append.mpr ⟨hpw, List.pairwise_singleton .., fun d hd d' hd' => ?_⟩
          rw [List.mem_singleton.mp hd']
          exact (hrun p _ hp).2 d hd
    | crash p r hp =>
        refine ⟨fun d hd => ⟨(hfin d hd).1, htrans (hfin d hd).2 hcrash⟩, fun q r hq => ?_, hpw⟩
        by_cases hqp : q = p
        · subst hqp
          simp at hq
        · simp only [Function.update_of_ne hqp] at hq
          exact ⟨htrans (hrun q r hq).1 hcrash, (hrun q r hq).2⟩

/-- Further on in a run the shared state is above what it was. -/
theorem moves (le : σ → σ → Prop) (hrefl : ∀ s, le s s)
    (htrans : ∀ {s₁ s₂ s₃}, le s₁ s₂ → le s₂ s₃ → le s₁ s₃) {s₀ : σ}
    (hinv : D.inv s₀) (hidle : ∀ p, D.idle p s₀)
    (hguar : ∀ {p c s s'}, D.guar p c s s' → le s s')
    (hcrash : ∀ {p s}, le s (S.crash p s)) {cfg cfg' : Config Pid Call σ Op Res Ret}
    (h : (S.runs s₀).Reachable cfg) (hrun : Relation.ReflTransGen S.Step cfg cfg') :
    le cfg.shared cfg'.shared := by
  have hholds : ∀ {cfg'}, Relation.ReflTransGen S.Step cfg cfg' →
      (S.runs s₀).Reachable cfg' := by
    intro cfg' hrun
    induction hrun with
    | refl => exact h
    | tail _ hs ih => exact ih.step hs
  induction hrun with
  | refl => exact hrefl _
  | tail hrun hs ih =>
      have hmid := D.sound hinv hidle (hholds hrun)
      cases hs with
      | start | finish => exact ih
      | perform p c s₁ o k a hp =>
          have hloc := hmid.processes p
          rw [hp] at hloc
          exact htrans ih (hguar (hloc _ (D.rely_refl p _) _ _ ⟨a, rfl⟩).1)
      | crash p r hp => exact htrans ih hcrash

end Discipline

end LocalTransfer.Lib
