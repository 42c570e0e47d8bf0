import LocalTransfer.Lib.Program
import Mathlib.Tactic.Common

/-!
# The steps of a sequential run

`Prog.trace` lists the operations a run issues, with their results. Three properties of a
program are read off its text: which values it can return (`Prog.Returns`), which errors a
fallible program can raise (`Raises`), and that it ends in an error exactly where one of its
operations has failed or its own text says so (`Strict`). Each has one rule for each way of
composing programs.
-/

namespace LocalTransfer.Lib

variable {Op : Type} {Res : Op → Type} {α β ε ε' σ A : Type}
  {sem : (o : Op) → A → σ → Res o × σ}

namespace Prog

/-- The operations of a run with their results, in order. -/
def trace (sem : (o : Op) → A → σ → Res o × σ) :
    Prog Op Res α → (Nat → A) → σ → List (Σ o, Res o)
  | .ret _, _, _ => []
  | .op o k, oracle, s =>
      ⟨o, (sem o (oracle 0) s).1⟩ ::
        trace sem (k (sem o (oracle 0) s).1) (fun n => oracle (n + 1)) (sem o (oracle 0) s).2

/-- The second program runs on what the first has left of the oracle. -/
theorem exec_bind (sem : (o : Op) → A → σ → Res o × σ) (p : Prog Op Res α)
    (f : α → Prog Op Res β) (oracle : Nat → A) (s : σ) :
    (p.bind f).exec sem oracle s = (f (p.exec sem oracle s).1).exec sem
      (fun n => oracle (n + (p.trace sem oracle s).length)) (p.exec sem oracle s).2 := by
  induction p generalizing oracle s with
  | ret a => rfl
  | op o k ih => exact ih _ _ _

/-- A fallible program goes on from where its first part has succeeded. -/
theorem exec_try {x : Fallible Op Res ε α} {f : α → Fallible Op Res ε β} {oracle : Nat → A}
    {s : σ} {a : α} (h : (x.run.exec sem oracle s).1 = .ok a) :
    (x >>= f).run.exec sem oracle s = (f a).run.exec sem
      (fun n => oracle (n + (x.run.trace sem oracle s).length)) (x.run.exec sem oracle s).2 := by
  have hbind := exec_bind sem x.run (ExceptT.bindCont f) oracle s
  rw [h] at hbind
  exact hbind

/-- And if the whole succeeds, so has its first part. -/
theorem ok_of_exec_try {x : Fallible Op Res ε α} {f : α → Fallible Op Res ε β}
    {oracle : Nat → A} {s : σ} {b : β} (h : ((x >>= f).run.exec sem oracle s).1 = .ok b) :
    ∃ a, (x.run.exec sem oracle s).1 = .ok a := by
  have hbind := exec_bind sem x.run (ExceptT.bindCont f) oracle s
  cases hx : (x.run.exec sem oracle s).1 with
  | ok a => exact ⟨a, rfl⟩
  | error e =>
      rw [hx] at hbind
      rw [show (x >>= f).run.exec sem oracle s = _ from hbind] at h
      cases h

theorem exec_map (g : α → β) (x : Fallible Op Res ε α) (oracle : Nat → A) (s : σ) :
    ((g <$> x).run.exec sem oracle s).1 = (x.run.exec sem oracle s).1.map g := by
  have hbind := exec_bind sem x.run (ExceptT.bindCont fun a => pure (g a)) oracle s
  rw [show (g <$> x).run.exec sem oracle s = _ from hbind]
  cases (x.run.exec sem oracle s).1 with
  | error e => rfl
  | ok a => rfl

/-- What is issued after a program whatever comes of it leaves its result alone. -/
theorem exec_releasing (p : Prog Op Res α) (o : Op) (oracle : Nat → A) (s : σ) :
    ((p.bind fun result => .op o fun _ => .ret result).exec sem oracle s).1 =
      (p.exec sem oracle s).1 := by
  rw [exec_bind]
  rfl

/-- A run without failed operations is the run of an oracle that fails none. -/
theorem exec_calm {failed : (o : Op) → Res o → Prop} {calm : A → A}
    (hcalm : ∀ o a s, ¬ failed o (sem o a s).1 → sem o (calm a) s = sem o a s)
    {p : Prog Op Res α} {oracle : Nat → A} {s : σ}
    (h : ∀ step ∈ p.trace sem oracle s, ¬ failed step.1 step.2) :
    p.exec sem (fun n => calm (oracle n)) s = p.exec sem oracle s := by
  induction p generalizing oracle s with
  | ret a => rfl
  | op o k ih =>
      obtain ⟨hhead, htail⟩ := List.forall_mem_cons.mp h
      have hstep := hcalm o (oracle 0) s hhead
      show exec sem (k (sem o (calm (oracle 0)) s).1) _ _ = exec sem (k (sem o (oracle 0) s).1) _ _
      rw [hstep]
      exact ih _ htail

/-- What every unmarked operation keeps, a run without marked operations keeps. -/
theorem exec_keeps {allowed : Op → Prop} {marked : (o : Op) → Res o → Prop} {R : σ → σ → Prop}
    (hrefl : ∀ s, R s s) (htrans : ∀ s₁ s₂ s₃, R s₁ s₂ → R s₂ s₃ → R s₁ s₃)
    (hstep : ∀ o a s, allowed o → ¬ marked o (sem o a s).1 → R s (sem o a s).2)
    {p : Prog Op Res α} (hp : p.AllOps allowed) {oracle : Nat → A} {s : σ}
    (h : ∀ step ∈ p.trace sem oracle s, ¬ marked step.1 step.2) :
    R s (p.exec sem oracle s).2 := by
  induction p generalizing oracle s with
  | ret a => exact hrefl s
  | op o k ih =>
      obtain ⟨hhead, htail⟩ := List.forall_mem_cons.mp h
      exact htrans _ _ _ (hstep o (oracle 0) s hp.1 hhead) (ih _ (hp.2 _) htail)

/-! ## Returned values -/

/-- Every value the program can return satisfies `P`. -/
def Returns (P : α → Prop) : Prog Op Res α → Prop
  | .ret a => P a
  | .op _ k => ∀ r, (k r).Returns P

theorem Returns.bind {P : α → Prop} {Q : β → Prop} {p : Prog Op Res α} {f : α → Prog Op Res β}
    (hp : p.Returns P) (hf : ∀ a, P a → (f a).Returns Q) : (p.bind f).Returns Q := by
  induction p with
  | ret a => exact hf a hp
  | op o k ih => exact fun r => ih r (hp r)

theorem returns_true (p : Prog Op Res α) : p.Returns fun _ => True := by
  induction p with
  | ret a => trivial
  | op o k ih => exact ih

theorem Returns.exec {P : α → Prop} {p : Prog Op Res α} (hp : p.Returns P)
    (sem : (o : Op) → A → σ → Res o × σ) (oracle : Nat → A) (s : σ) :
    P (p.exec sem oracle s).1 := by
  induction p generalizing oracle s with
  | ret a => exact hp
  | op o k ih => exact ih _ (hp _) _ _

end Prog

/-- What a program returns in every run, it returns among others. -/
theorem wp_returns {L : Logic σ Op Res} {P : α → Prop} {Q : α → σ → Prop} {p : Prog Op Res α}
    {s : σ} (hp : p.Returns P) (h : wp L p Q s) : wp L p (fun a s' => P a ∧ Q a s') s := by
  induction p generalizing s with
  | ret a => exact fun s₁ h₁ => ⟨hp, h s₁ h₁⟩
  | op o k ih =>
      intro s₁ h₁ r s' hn
      obtain ⟨hguar, hrest⟩ := h s₁ h₁ r s' hn
      exact ⟨hguar, ih r (hp r) hrest⟩

/-! ## Errors -/

/-- Every error the program can end in satisfies `P`. -/
def Raises (P : ε → Prop) (x : Fallible Op Res ε α) : Prop :=
  x.run.Returns fun r => ∀ e, r = .error e → P e

namespace Raises

variable {P : ε → Prop}

theorem pure (a : α) : Raises P (pure a : Fallible Op Res ε α) := by
  intro e he
  cases he

theorem throw {e : ε} (h : P e) : Raises P (throw e : Fallible Op Res ε α) := by
  intro e' he
  cases he
  exact h

theorem bind {x : Fallible Op Res ε α} {f : α → Fallible Op Res ε β} (hx : Raises P x)
    (hf : ∀ a, Raises P (f a)) : Raises P (x >>= f) := by
  apply Prog.Returns.bind hx
  intro r hr
  cases r with
  | error e =>
      intro e' he
      cases he
      exact hr e rfl
  | ok a => exact hf a

theorem call {o : Op} {f : Res o → Fallible Op Res ε β} (hf : ∀ r, Raises P (f r)) :
    Raises P (call o >>= f) := hf

theorem adapt {g : ε' → ε} (x : Fallible Op Res ε' α) (h : ∀ e, P (g e)) :
    Raises P (ExceptT.adapt g x) := by
  apply Prog.Returns.bind x.run.returns_true
  intro r _ e he
  cases r with
  | error e' =>
      cases he
      exact h e'
  | ok a => cases he

end Raises

/-! ## Strict programs -/

namespace Prog

/-- The program issues allowed operations only and ends in an error. -/
structure Aborts (allowed : Op → Prop) (p : Prog Op Res (Except ε α)) : Prop where
  ops : p.AllOps allowed
  fails : p.Returns fun r => ∃ e, r = .error e

/-- The program issues allowed operations only, ends in an error once one of them has failed,
and in a result that satisfies `Q` if none has. -/
def Strict (allowed : Op → Prop) (failed : (o : Op) → Res o → Prop) (Q : Except ε α → Prop) :
    Prog Op Res (Except ε α) → Prop
  | .ret r => Q r
  | .op o k => allowed o ∧ ∀ r, (failed o r → (k r).Aborts allowed) ∧
      (¬ failed o r → (k r).Strict allowed failed Q)

theorem Aborts.bind {allowed : Op → Prop} {p : Prog Op Res (Except ε α)}
    (h : p.Aborts allowed) {f : Except ε α → Prog Op Res (Except ε' β)}
    (hf : ∀ e, (f (.error e)).Aborts allowed) : (p.bind f).Aborts allowed := by
  obtain ⟨hops, hfails⟩ := h
  induction p with
  | ret r =>
      obtain ⟨e, rfl⟩ := hfails
      exact hf e
  | op o k ih =>
      have hrest := fun r => ih r (hops.2 r) (hfails r)
      exact ⟨⟨hops.1, fun r => (hrest r).ops⟩, fun r => (hrest r).fails⟩

/-- Strictness along a composition, stated on the results of its first part. -/
theorem Strict.bindResult {allowed : Op → Prop} {failed : (o : Op) → Res o → Prop}
    {Q : Except ε α → Prop} {Q' : Except ε' β → Prop} {p : Prog Op Res (Except ε α)}
    (hp : p.Strict allowed failed Q) {f : Except ε α → Prog Op Res (Except ε' β)}
    (hf : ∀ r, Q r → (f r).Strict allowed failed Q') (he : ∀ e, (f (.error e)).Aborts allowed) :
    (p.bind f).Strict allowed failed Q' := by
  induction p with
  | ret r => exact hf r hp
  | op o k ih =>
      refine ⟨hp.1, fun r => ⟨fun hfailed => ?_, fun hok => ?_⟩⟩
      · exact ((hp.2 r).1 hfailed).bind he
      · exact ih r ((hp.2 r).2 hok)

theorem Strict.allOps {allowed : Op → Prop} {failed : (o : Op) → Res o → Prop}
    {Q : Except ε α → Prop} {p : Prog Op Res (Except ε α)} (hp : p.Strict allowed failed Q) :
    p.AllOps allowed := by
  induction p with
  | ret r => trivial
  | op o k ih =>
      refine ⟨hp.1, fun r => ?_⟩
      by_cases hfailed : failed o r
      · exact ((hp.2 r).1 hfailed).ops
      · exact ih r ((hp.2 r).2 hfailed)

end Prog

/-- The same of fallible programs. -/
def Aborts (allowed : Op → Prop) (x : Fallible Op Res ε α) : Prop := x.run.Aborts allowed

def Strict (allowed : Op → Prop) (failed : (o : Op) → Res o → Prop) (Q : Except ε α → Prop)
    (x : Fallible Op Res ε α) : Prop := x.run.Strict allowed failed Q

theorem Aborts.throw {allowed : Op → Prop} (e : ε) :
    Aborts allowed (throw e : Fallible Op Res ε α) := ⟨trivial, e, rfl⟩

theorem Aborts.bind {allowed : Op → Prop} {x : Fallible Op Res ε α} (hx : Aborts allowed x)
    (f : α → Fallible Op Res ε β) : Aborts allowed (x >>= f) :=
  Prog.Aborts.bind hx fun e => Aborts.throw e

namespace Strict

variable {allowed : Op → Prop} {failed : (o : Op) → Res o → Prop} {Q : Except ε α → Prop}

theorem pure {a : α} (h : Q (.ok a)) :
    Strict allowed failed Q (pure a : Fallible Op Res ε α) := h

theorem throw {e : ε} (h : Q (.error e)) :
    Strict allowed failed Q (throw e : Fallible Op Res ε α) := h

theorem bind {Q' : Except ε β → Prop} {x : Fallible Op Res ε α} {f : α → Fallible Op Res ε β}
    (hx : Strict allowed failed Q x) (hf : ∀ a, Q (.ok a) → Strict allowed failed Q' (f a))
    (he : ∀ e, Q (.error e) → Q' (.error e)) : Strict allowed failed Q' (x >>= f) := by
  refine Prog.Strict.bindResult hx ?_ fun e => Aborts.throw e
  intro r hr
  cases r with
  | error e => exact he e hr
  | ok a => exact hf a hr

/-- One operation at the head: its failure has to end the program. -/
theorem call {o : Op} {f : Res o → Fallible Op Res ε α} (ho : allowed o)
    (hfailed : ∀ r, failed o r → Aborts allowed (f r))
    (hf : ∀ r, ¬ failed o r → Strict allowed failed Q (f r)) :
    Strict allowed failed Q (call o >>= f) := ⟨ho, fun r => ⟨hfailed r, hf r⟩⟩

theorem adapt {Q' : Except ε' α → Prop} {x : Fallible Op Res ε α}
    (hx : Strict allowed failed Q x) (g : ε → ε') (hQ : ∀ r, Q r → Q' (r.mapError g)) :
    Strict allowed failed Q' (ExceptT.adapt g x) :=
  Prog.Strict.bindResult hx hQ fun e => ⟨trivial, g e, rfl⟩

/-- An operation that cannot fail, issued after the program whatever comes of it. -/
theorem releasing {x : Fallible Op Res ε α} {o : Op} (hx : Strict allowed failed Q x)
    (ho : allowed o) (hsure : ∀ r, ¬ failed o r) :
    Strict allowed failed Q
      (ExceptT.mk (x.run.bind fun result => .op o fun _ => .ret result) :
        Fallible Op Res ε α) := by
  refine Prog.Strict.bindResult hx ?_ ?_
  · intro r hr
    exact ⟨ho, fun r' => ⟨fun hfailed => absurd hfailed (hsure r'), fun _ => hr⟩⟩
  · intro e
    exact ⟨⟨ho, fun _ => trivial⟩, fun _ => ⟨e, rfl⟩⟩

theorem mono {allowed' : Op → Prop} {Q' : Except ε α → Prop} {x : Fallible Op Res ε α}
    (hx : Strict allowed failed Q x) (hallowed : ∀ o, allowed o → allowed' o)
    (hQ : ∀ r, Q r → Q' r) : Strict allowed' failed Q' x := by
  have hops : ∀ {p : Prog Op Res (Except ε α)}, p.AllOps allowed → p.AllOps allowed' := by
    intro p h
    induction p with
    | ret r => trivial
    | op o k ih => exact ⟨hallowed o h.1, fun r => ih r (h.2 r)⟩
  have hrun : x.run.Strict allowed failed Q := hx
  show x.run.Strict allowed' failed Q'
  generalize x.run = p at hrun ⊢
  induction p with
  | ret r => exact hQ r hrun
  | op o k ih =>
      refine ⟨hallowed o hrun.1, fun r => ⟨fun hfailed => ?_, fun hok => ?_⟩⟩
      · obtain ⟨h, h'⟩ := (hrun.2 r).1 hfailed
        exact ⟨hops h, h'⟩
      · exact ih r ((hrun.2 r).2 hok)

/-- **A run of a strict program that succeeds has no failed operation.** -/
theorem unfailed_of_ok {x : Fallible Op Res ε α} (hx : Strict allowed failed Q x)
    {oracle : Nat → A} {s : σ} {a : α} (hok : (x.run.exec sem oracle s).1 = .ok a) :
    ∀ step ∈ x.run.trace sem oracle s, ¬ failed step.1 step.2 := by
  have hrun : x.run.Strict allowed failed Q := hx
  generalize x.run = p at hrun hok ⊢
  induction p generalizing oracle s with
  | ret r => exact fun step hstep => absurd hstep List.not_mem_nil
  | op o k ih =>
      have hhead : ¬ failed o (sem o (oracle 0) s).1 := by
        intro hfailed
        obtain ⟨e, he⟩ := ((hrun.2 _).1 hfailed).fails.exec sem (fun n => oracle (n + 1))
          (sem o (oracle 0) s).2
        rw [show (Prog.exec sem (k (sem o (oracle 0) s).1) _ _).1 = .ok a from hok] at he
        cases he
      exact List.forall_mem_cons.mpr ⟨hhead, ih _ ((hrun.2 _).2 hhead) hok⟩

/-- A strict program among others: it moves the state as its operations and the environment
do, and does not end as its text says only where a failure is excused. -/
theorem wp {L : Logic σ Op Res} {R : σ → σ → Prop} {excused : σ → Prop}
    (hrely : ∀ {s s'}, L.rely s s' → R s s') (htrans : ∀ {s₁ s₂ s₃}, R s₁ s₂ → R s₂ s₃ → R s₁ s₃)
    (hexcused : ∀ {s s'}, R s s' → excused s → excused s')
    (hop : ∀ {s o r s'}, allowed o → L.next s o r s' →
      L.guar s s' ∧ R s s' ∧ (failed o r → excused s'))
    {x : Fallible Op Res ε α} (hx : Strict allowed failed Q x) (s : σ) :
    wp L x.run (fun r s' => R s s' ∧ (Q r ∨ (excused s' ∧ ∃ e, r = .error e))) s := by
  have hrun : x.run.Strict allowed failed Q := hx
  generalize x.run = p at hrun ⊢
  induction p generalizing s with
  | ret r => exact fun s₁ h₁ => ⟨hrely h₁, .inl hrun⟩
  | op o k ih =>
      intro s₁ h₁ r s' hn
      obtain ⟨hguar, hmove, hfail⟩ := hop hrun.1 hn
      refine ⟨hguar, ?_⟩
      by_cases hfailed : failed o r
      · obtain ⟨hops, hfails⟩ := (hrun.2 r).1 hfailed
        have hmoves := wp_of_allOps hrely htrans
          (fun ho hn => ⟨(hop ho hn).1, (hop ho hn).2.1⟩) hops s'
        refine wp_mono (wp_returns hfails hmoves) ?_
        intro r' s'' ⟨hr', hmove'⟩
        have hmove'' := htrans (htrans (hrely h₁) hmove) hmove'
        exact ⟨hmove'', .inr ⟨hexcused hmove' (hfail hfailed), hr'⟩⟩
      · refine wp_mono (ih r s' ((hrun.2 r).2 hfailed)) ?_
        intro r' s'' ⟨hmove', hr'⟩
        exact ⟨htrans (htrans (hrely h₁) hmove) hmove', hr'⟩

end Strict

end LocalTransfer.Lib
