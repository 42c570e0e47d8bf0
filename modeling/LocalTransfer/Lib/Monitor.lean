import LocalTransfer.Lib.Interleave
import LocalTransfer.Lib.Trace

/-!
# Monitors and handlers

A `Monitor` is a safety automaton that watches the operations of a program and their
results, and refuses those it does not allow. `Guarded` is the Hoare logic of a monitor:
whatever the operations return, none is refused, and the program ends in the postcondition.
`Prog.handle` runs each operation of one interface as a program of another; a monitor of the
lower interface that tracks one of the upper carries every proof down. A monitor does not see
what others do between two operations, so its proofs hold in any interleaving
(`System.guarded`).
-/

namespace LocalTransfer.Lib

variable {Op Op' : Type} {Res : Op → Type} {Res' : Op' → Type} {α β ε ε' σ A Q Q' : Type}

/-- The state after an operation with its result, or none if it is refused. -/
structure Monitor (Op : Type) (Res : Op → Type) (Q : Type) where
  next : Q → (o : Op) → Res o → Option Q

namespace Monitor

variable (M : Monitor Op Res Q)

/-- The state after a list of operations, if none is refused. -/
def run : Q → List (Σ o, Res o) → Option Q
  | q, [] => some q
  | q, step :: steps => (M.next q step.1 step.2).bind fun q' => run q' steps

theorem run_append (q : Q) (steps steps' : List (Σ o, Res o)) :
    M.run q (steps ++ steps') = (M.run q steps).bind fun q' => M.run q' steps' := by
  induction steps generalizing q with
  | nil => rfl
  | cons step steps ih =>
      rw [List.cons_append, run, run]
      cases M.next q step.1 step.2 with
      | none => rfl
      | some q' => exact ih q'

/-- Refuses nothing and keeps what `pick` takes from each operation. -/
def collect {X : Type} (pick : (o : Op) → Res o → Option X) : Monitor Op Res (List X) where
  next seen o r := some (seen ++ (pick o r).toList)

/-- No operation is refused, whatever the results, and the end satisfies `post`. -/
def Guarded : Prog Op Res α → (α → Q → Prop) → Q → Prop
  | .ret a, post, q => post a q
  | .op o k, post, q => ∀ r, ∃ q', M.next q o r = some q' ∧ Guarded (k r) post q'

namespace Guarded

variable {M}

theorem mono {p : Prog Op Res α} {post post' : α → Q → Prop} {q : Q}
    (h : M.Guarded p post q) (himp : ∀ a q', post a q' → post' a q') :
    M.Guarded p post' q := by
  induction p generalizing q with
  | ret a => exact himp a q h
  | op o k ih =>
      intro r
      obtain ⟨q', hnext, hrest⟩ := h r
      exact ⟨q', hnext, ih r hrest⟩

/-- Sequencing: the second program starts where the first one ends. -/
theorem bind {p : Prog Op Res α} {f : α → Prog Op Res β} {post : β → Q → Prop} {q : Q}
    (h : M.Guarded p (fun a q' => M.Guarded (f a) post q') q) :
    M.Guarded (p.bind f) post q := by
  induction p generalizing q with
  | ret a => exact h
  | op o k ih =>
      intro r
      obtain ⟨q', hnext, hrest⟩ := h r
      exact ⟨q', hnext, ih r hrest⟩

/-- **Soundness.** In every run no operation is refused and the end satisfies `post`. -/
theorem run_trace {p : Prog Op Res α} {post : α → Q → Prop} {q : Q} (h : M.Guarded p post q)
    (sem : (o : Op) → A → σ → Res o × σ) (oracle : Nat → A) (s : σ) :
    ∃ q', M.run q (p.trace sem oracle s) = some q' ∧ post (p.exec sem oracle s).1 q' := by
  induction p generalizing q oracle s with
  | ret a => exact ⟨q, rfl, h⟩
  | op o k ih =>
      obtain ⟨q₁, hnext, hrest⟩ := h (sem o (oracle 0) s).1
      obtain ⟨q', hrun, hpost⟩ := ih _ hrest (fun n => oracle (n + 1)) (sem o (oracle 0) s).2
      refine ⟨q', ?_, hpost⟩
      rw [Prog.trace, run, hnext]
      exact hrun

/-- What ties the state of a run to the monitor's, operation by operation, ties it in the end. -/
theorem run_exec {p : Prog Op Res α} {post : α → Q → Prop} {q : Q} (h : M.Guarded p post q)
    {sem : (o : Op) → A → σ → Res o × σ} {inv : Q → σ → Prop}
    (hsem : ∀ o a s q q', inv q s → M.next q o (sem o a s).1 = some q' → inv q' (sem o a s).2)
    (oracle : Nat → A) {s : σ} (hinv : inv q s) :
    ∃ q', inv q' (p.exec sem oracle s).2 ∧ post (p.exec sem oracle s).1 q' := by
  induction p generalizing q oracle s with
  | ret a => exact ⟨q, hinv, h⟩
  | op o k ih =>
      obtain ⟨q', hnext, hrest⟩ := h (sem o (oracle 0) s).1
      exact ih _ hrest (fun n => oracle (n + 1)) (hsem o (oracle 0) s q q' hinv hnext)

/-! ### Fallible programs -/

theorem pure {a : α} {post : Except ε α → Q → Prop} {q : Q} (h : post (.ok a) q) :
    M.Guarded (pure a : Fallible Op Res ε α).run post q := h

theorem throw {e : ε} {post : Except ε α → Q → Prop} {q : Q} (h : post (.error e) q) :
    M.Guarded (throw e : Fallible Op Res ε α).run post q := h

/-- One operation at the head of a fallible program. -/
theorem call {o : Op} {f : Res o → Fallible Op Res ε β} {post : Except ε β → Q → Prop} {q : Q}
    (h : ∀ r, ∃ q', M.next q o r = some q' ∧ M.Guarded (f r).run post q') :
    M.Guarded (call o >>= f).run post q := h

/-- The first part of a fallible program, which ends it if it fails. -/
theorem andThen {x : Fallible Op Res ε α} {f : α → Fallible Op Res ε β}
    {post : Except ε β → Q → Prop} {q : Q}
    (h : M.Guarded x.run (fun r q' => match r with
      | .ok a => M.Guarded (f a).run post q'
      | .error e => post (.error e) q') q) :
    M.Guarded (x >>= f).run post q := by
  refine bind (h.mono ?_)
  intro r q' hr
  cases r with
  | ok a => exact hr
  | error e => exact hr

/-- A program that cannot fail. -/
theorem lift {p : Prog Op Res α} {post : Except ε α → Q → Prop} {q : Q}
    (h : M.Guarded p (fun a q' => post (.ok a) q') q) :
    M.Guarded (ExceptT.lift p : Fallible Op Res ε α).run post q := bind h

theorem adapt {x : Fallible Op Res ε α} {g : ε → ε'} {post : Except ε' α → Q → Prop} {q : Q}
    (h : M.Guarded x.run (fun r q' => post (r.mapError g) q') q) :
    M.Guarded (ExceptT.adapt g x).run post q := bind h

end Guarded

/-! ### What an operation finds -/

variable {allowed : List (Σ o, Res o) → Op → Prop} {past last : List (Σ o, Res o)}

open Classical in
/-- Refuses what is not allowed after what has happened. -/
noncomputable def history (allowed : List (Σ o, Res o) → Op → Prop) :
    Monitor Op Res (List (Σ o, Res o)) where
  next past o r := if allowed past o then some (past ++ [⟨o, r⟩]) else none

theorem next_history {o : Op} (h : allowed past o) (r : Res o) :
    (history allowed).next past o r = some (past ++ [⟨o, r⟩]) := if_pos h

theorem next_history_of_not {o : Op} (h : ¬ allowed past o) (r : Res o) :
    (history allowed).next past o r = none := if_neg h

theorem allowed_of_next_history {o : Op} {r : Res o}
    (h : (history allowed).next past o r = some last) : allowed past o := by
  by_contra hallowed
  rw [next_history_of_not hallowed] at h
  cases h

theorem run_history {steps : List (Σ o, Res o)}
    (h : (history allowed).run past steps = some last) : last = past ++ steps := by
  induction steps generalizing past with
  | nil =>
      cases h
      exact (List.append_nil _).symm
  | cons step steps ih =>
      rw [run] at h
      obtain ⟨next, hnext, hrun⟩ := Option.bind_eq_some_iff.mp h
      rw [next_history (allowed_of_next_history hnext)] at hnext
      cases hnext
      rw [ih hrun, List.append_assoc]
      rfl

/-- Every operation of a run was allowed after those before it. -/
theorem allowed_of_run_history {before after : List (Σ o, Res o)} {step : Σ o, Res o}
    (h : (history allowed).run past (before ++ step :: after) = some last) :
    allowed (past ++ before) step.1 := by
  rw [run_append] at h
  cases hbefore : (history allowed).run past before with
  | none =>
      rw [hbefore] at h
      cases h
  | some middle =>
      rw [hbefore, Option.bind_some, run, run_history hbefore] at h
      obtain ⟨next, hnext, -⟩ := Option.bind_eq_some_iff.mp h
      exact allowed_of_next_history hnext

/-- An operation that is allowed, and what follows it. -/
theorem Guarded.history {o : Op} {k : Res o → Prog Op Res α} {post : α → List (Σ o, Res o) → Prop}
    (hallowed : allowed past o)
    (h : ∀ r, (Monitor.history allowed).Guarded (k r) post (past ++ [⟨o, r⟩])) :
    (Monitor.history allowed).Guarded (.op o k) post past :=
  fun r => ⟨_, next_history hallowed r, h r⟩

/-- What has happened before a program has happened before what it does. -/
theorem Guarded.grows {p : Prog Op Res α} {post : α → List (Σ o, Res o) → Prop}
    (h : (Monitor.history allowed).Guarded p post past) :
    (Monitor.history allowed).Guarded p (fun a last => post a last ∧ past <+: last) past := by
  induction p generalizing past with
  | ret a => exact ⟨h, List.prefix_rfl⟩
  | op o k ih =>
      intro r
      obtain ⟨q, hnext, hrest⟩ := h r
      refine ⟨q, hnext, (ih r hrest).mono ?_⟩
      intro a last hlast
      rw [next_history (allowed_of_next_history hnext)] at hnext
      cases hnext
      exact ⟨hlast.1, (List.prefix_append _ _).trans hlast.2⟩

end Monitor

/-! ## Interleaved programs -/

/-- In every reachable configuration of programs that are each guarded by a monitor of their
call, the shared state satisfies what every operation keeps that a monitor allows, and the
rest of each program is guarded. -/
theorem System.guarded {Pid Call Ret : Type} [DecidableEq Pid]
    {S : System Pid Call A σ Op Res Ret} {M : Call → Monitor Op Res Q} {start : Q}
    (hcode : ∀ c, (M c).Guarded (S.code c) (fun _ _ => True) start) {I : σ → Prop} {s₀ : σ}
    (hstart : I s₀)
    (hstep : ∀ p c o a s q q', (M c).next q o (S.sem p c o a s).1 = some q' → I s →
      I (S.sem p c o a s).2)
    (hcrash : ∀ p s, I s → I (S.crash p s)) {cfg : Config Pid Call σ Op Res Ret}
    (h : (S.runs s₀).Reachable cfg) :
    I cfg.shared ∧ ∀ p r, cfg.running p = some r →
      ∃ q, (M r.call).Guarded r.rest (fun _ _ => True) q := by
  let Inv := fun cfg : Config Pid Call σ Op Res Ret => I cfg.shared ∧
    ∀ p r, cfg.running p = some r → ∃ q, (M r.call).Guarded r.rest (fun _ _ => True) q
  -- a process that stops or that another one passes keeps its place
  have hothers : ∀ {cfg : Config Pid Call σ Op Res Ret} {p : Pid}
      {running : Option (Running Call σ Op Res Ret)},
      (∀ q r, cfg.running q = some r → ∃ at', (M r.call).Guarded r.rest (fun _ _ => True) at') →
      (∀ r, running = some r → ∃ at', (M r.call).Guarded r.rest (fun _ _ => True) at') →
      ∀ q r, Function.update cfg.running p running q = some r →
        ∃ at', (M r.call).Guarded r.rest (fun _ _ => True) at' := by
    intro cfg p running hold hnew q r hr
    by_cases hq : q = p
    · subst hq
      rw [Function.update_self] at hr
      exact hnew r hr
    · rw [Function.update_of_ne hq] at hr
      exact hold q r hr
  refine TSys.invariant (I := Inv) ?_ ?_ h
  · rintro cfg rfl
    refine ⟨hstart, ?_⟩
    intro p r hr
    cases hr
  · rintro cfg cfg' ⟨hshared, hrunning⟩ hs
    cases hs with
    | start p c hidle =>
        refine ⟨hshared, hothers hrunning ?_⟩
        rintro r ⟨⟩
        exact ⟨start, hcode c⟩
    | perform p c s₁ o k a hrun =>
        obtain ⟨q, hguarded⟩ := hrunning p _ hrun
        obtain ⟨q', hnext, hrest⟩ := hguarded (S.sem p c o a cfg.shared).1
        refine ⟨hstep p c o a cfg.shared q q' hnext hshared, hothers hrunning ?_⟩
        rintro r ⟨⟩
        exact ⟨q', hrest⟩
    | finish p c s₁ x hrun =>
        refine ⟨hshared, hothers hrunning ?_⟩
        rintro r ⟨⟩
    | crash p r hrun =>
        refine ⟨hcrash p _ hshared, hothers hrunning ?_⟩
        rintro r ⟨⟩

/-! ## Sequences of calls -/

variable {S C Reply : Type}

/-- Calls on an object one after the other, with their replies and the object they leave. -/
def Prog.sequence (step : S → C → Prog Op Res (Reply × S)) :
    S → List C → Prog Op Res (List Reply × S)
  | s, [] => .ret ([], s)
  | s, c :: cs => (step s c).bind fun next =>
      (sequence step next.2 cs).bind fun rest => .ret (next.1 :: rest.1, rest.2)

/-- What every call keeps of the replies so far, the object and the monitor, a sequence of
calls keeps. -/
theorem Monitor.Guarded.sequence {M : Monitor Op Res Q} {step : S → C → Prog Op Res (Reply × S)}
    {inv : List Reply → S → Q → Prop}
    (hstep : ∀ replies s c q, inv replies s q →
      M.Guarded (step s c) (fun next q' => inv (replies ++ [next.1]) next.2 q') q)
    {replies : List Reply} {s : S} {q : Q} (h : inv replies s q) (cs : List C) :
    M.Guarded (Prog.sequence step s cs)
      (fun last q' => inv (replies ++ last.1) last.2 q') q := by
  induction cs generalizing replies s q with
  | nil =>
      show inv (replies ++ []) s q
      rwa [List.append_nil]
  | cons c cs ih =>
      refine bind ((hstep replies s c q h).mono ?_)
      intro next q₁ hnext
      refine bind ((ih hnext).mono ?_)
      intro rest q₂ hrest
      rw [List.append_assoc] at hrest
      exact hrest

/-! ## Handlers -/

/-- Runs each operation as a program of another interface. -/
def Prog.handle (h : (o : Op) → Prog Op' Res' (Res o)) : Prog Op Res α → Prog Op' Res' α
  | .ret a => .ret a
  | .op o k => (h o).bind fun r => (k r).handle h

/-- A proof about a program carries over to the handled program, if each handler moves the
lower monitor along with the upper one. -/
theorem Monitor.Guarded.handle {M : Monitor Op Res Q} {M' : Monitor Op' Res' Q'}
    {R : Q → Q' → Prop} {h : (o : Op) → Prog Op' Res' (Res o)}
    (hhandler : ∀ o q q', R q q' → (∀ r, ∃ q₁, M.next q o r = some q₁) →
      M'.Guarded (h o) (fun r q'' => ∃ q₁, M.next q o r = some q₁ ∧ R q₁ q'') q')
    {p : Prog Op Res α} {post : α → Q → Prop} {q : Q} {q' : Q'} (hp : M.Guarded p post q)
    (hR : R q q') : M'.Guarded (p.handle h) (fun a q'' => ∃ q₁, R q₁ q'' ∧ post a q₁) q' := by
  induction p generalizing q q' with
  | ret a => exact ⟨q, hR, hp⟩
  | op o k ih =>
      have hallowed : ∀ r, ∃ q₁, M.next q o r = some q₁ := by
        intro r
        obtain ⟨q₁, hnext, -⟩ := hp r
        exact ⟨q₁, hnext⟩
      refine bind ((hhandler o q q' hR hallowed).mono ?_)
      intro r q'' hmoves
      obtain ⟨q₁, hnext, hR'⟩ := hmoves
      obtain ⟨q₂, hnext', hrest⟩ := hp r
      rw [hnext] at hnext'
      cases hnext'
      exact ih r hrest hR'

end LocalTransfer.Lib
