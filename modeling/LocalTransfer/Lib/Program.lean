import Mathlib.Logic.Basic

/-!
# Effectful programs and their logic

A program either returns or issues one operation and continues with the
operation's result, so one definition gives the code a sequential meaning
(`Prog.exec`, every operation answered by an oracle) and an interleaved one.
`wp` is a weakest precondition under interference: between two operations the
environment may change the state as far as `rely` allows, and every operation of
the program itself has to respect `guar`. A sequential run is the case without
interference.
-/

namespace LocalTransfer.Lib

/-- A terminating program over the operations `Op`. -/
inductive Prog (Op : Type) (Res : Op → Type) (α : Type) : Type
  | ret (a : α) : Prog Op Res α
  | op (o : Op) (k : Res o → Prog Op Res α) : Prog Op Res α

variable {Op : Type} {Res : Op → Type} {α β ε ε' σ A : Type}

namespace Prog

/-- Sequential composition. -/
def bind : Prog Op Res α → (α → Prog Op Res β) → Prog Op Res β
  | .ret a, f => f a
  | .op o k, f => .op o fun r => (k r).bind f

instance : Monad (Prog Op Res) where
  pure := .ret
  bind := bind

/-- Every operation the program can issue satisfies `P`. -/
def AllOps (P : Op → Prop) : Prog Op Res α → Prop
  | .ret _ => True
  | .op o k => P o ∧ ∀ r, (k r).AllOps P

/-- A sequential run: the `n`-th operation is resolved by the oracle's `n`-th answer. -/
def exec (sem : (o : Op) → A → σ → Res o × σ) : Prog Op Res α → (Nat → A) → σ → α × σ
  | .ret a, _, s => (a, s)
  | .op o k, oracle, s =>
      exec sem (k (sem o (oracle 0) s).1) (fun n => oracle (n + 1)) (sem o (oracle 0) s).2

end Prog

/-- A program that can fail with an error of type `ε`. -/
abbrev Fallible (Op : Type) (Res : Op → Type) (ε : Type) := ExceptT ε (Prog Op Res)

/-- Issues one operation inside a fallible program. -/
def call (o : Op) : Fallible Op Res ε (Res o) := ExceptT.mk (.op o fun r => .ret (.ok r))

/-! ## Weakest preconditions under interference -/

/-- What one operation does to the state, what others may do in between, and what
the program's own operations are allowed to do. -/
structure Logic (σ Op : Type) (Res : Op → Type) where
  next : σ → (o : Op) → Res o → σ → Prop
  rely : σ → σ → Prop
  guar : σ → σ → Prop
  rely_refl : ∀ s, rely s s
  rely_trans : ∀ {s₁ s₂ s₃}, rely s₁ s₂ → rely s₂ s₃ → rely s₁ s₃

variable (L : Logic σ Op Res)

/-- Every run from the state ends in the postcondition, whatever the environment
does in between, and each operation respects the guarantee. -/
def wp : Prog Op Res α → (α → σ → Prop) → σ → Prop
  | .ret a, Q, s => ∀ s₁, L.rely s s₁ → Q a s₁
  | .op o k, Q, s =>
      ∀ s₁, L.rely s s₁ → ∀ r s', L.next s₁ o r s' → L.guar s₁ s' ∧ wp (k r) Q s'

variable {L}

/-- Interference before the first operation is already accounted for. -/
theorem wp_stable {p : Prog Op Res α} {Q : α → σ → Prop} {s s₁ : σ} (h : wp L p Q s)
    (hr : L.rely s s₁) : wp L p Q s₁ := by
  cases p with
  | ret a => exact fun s₂ h₂ => h s₂ (L.rely_trans hr h₂)
  | op o k => exact fun s₂ h₂ => h s₂ (L.rely_trans hr h₂)

theorem wp_mono {p : Prog Op Res α} {Q Q' : α → σ → Prop} {s : σ} (h : wp L p Q s)
    (himp : ∀ a s', Q a s' → Q' a s') : wp L p Q' s := by
  induction p generalizing s with
  | ret a => exact fun s₁ h₁ => himp a s₁ (h s₁ h₁)
  | op o k ih =>
      intro s₁ h₁ r s' hn
      exact ⟨(h s₁ h₁ r s' hn).1, ih r (h s₁ h₁ r s' hn).2⟩

/-- A program moves the state along whatever its operations and all interference move it. -/
theorem wp_along {R : σ → σ → Prop} (htrans : ∀ {s₁ s₂ s₃}, R s₁ s₂ → R s₂ s₃ → R s₁ s₃)
    (hrely : ∀ {s s'}, L.rely s s' → R s s') (hguar : ∀ {s s'}, L.guar s s' → R s s')
    {p : Prog Op Res α} {Q : α → σ → Prop} {s : σ} (h : wp L p Q s) :
    wp L p (fun a s' => R s s' ∧ Q a s') s := by
  induction p generalizing s with
  | ret a => exact fun s₁ h₁ => ⟨hrely h₁, h s₁ h₁⟩
  | op o k ih =>
      intro s₁ h₁ r s' hn
      obtain ⟨hg, hrest⟩ := h s₁ h₁ r s' hn
      refine ⟨hg, wp_mono (ih r hrest) fun a s'' h' => ⟨?_, h'.2⟩⟩
      exact htrans (hrely h₁) (htrans (hguar hg) h'.1)

/-- Sequencing: the second program runs from wherever the first one ends. -/
theorem wp_bind {p : Prog Op Res α} {f : α → Prog Op Res β} {Q : β → σ → Prop} {s : σ}
    (h : wp L p (fun a s' => wp L (f a) Q s') s) : wp L (p.bind f) Q s := by
  induction p generalizing s with
  | ret a => exact h s (L.rely_refl s)
  | op o k ih =>
      intro s₁ h₁ r s' hn
      exact ⟨(h s₁ h₁ r s' hn).1, ih r (h s₁ h₁ r s' hn).2⟩

theorem wp_map {p : Prog Op Res α} {g : α → β} {Q : β → σ → Prop} {s : σ}
    (h : wp L p (fun a s' => Q (g a) s') s) : wp L (g <$> p) Q s := by
  induction p generalizing s with
  | ret a => exact h
  | op o k ih =>
      intro s₁ h₁ r s' hn
      exact ⟨(h s₁ h₁ r s' hn).1, ih r (h s₁ h₁ r s' hn).2⟩

/-! ### Fallible programs -/

theorem wp_pure {a : α} {Q : Except ε α → σ → Prop} {s : σ}
    (h : ∀ s₁, L.rely s s₁ → Q (.ok a) s₁) :
    wp L (pure a : Fallible Op Res ε α).run Q s := h

theorem wp_throw {e : ε} {Q : Except ε α → σ → Prop} {s : σ}
    (h : ∀ s₁, L.rely s s₁ → Q (.error e) s₁) :
    wp L (throw e : Fallible Op Res ε α).run Q s := h

/-- One operation at the head of a fallible program. -/
theorem wp_call {o : Op} {f : Res o → Fallible Op Res ε β} {Q : Except ε β → σ → Prop} {s : σ}
    (h : ∀ s₁, L.rely s s₁ → ∀ r s', L.next s₁ o r s' → L.guar s₁ s' ∧ wp L (f r).run Q s') :
    wp L (call o >>= f).run Q s := h

theorem wp_adapt {x : Fallible Op Res ε α} {g : ε → ε'} {Q : Except ε' α → σ → Prop} {s : σ}
    (h : wp L x.run (fun r s' => Q (r.mapError g) s') s) :
    wp L (ExceptT.adapt g x).run Q s := wp_map h

/-! ### Programs whose operations are all of one kind -/

/-- If every operation and all interference move the state along a transitive
relation, so does the whole program. -/
theorem wp_of_allOps {P : Op → Prop} {quiet : σ → σ → Prop}
    (hrely : ∀ {s s'}, L.rely s s' → quiet s s')
    (htrans : ∀ {s₁ s₂ s₃}, quiet s₁ s₂ → quiet s₂ s₃ → quiet s₁ s₃)
    (hop : ∀ {s o r s'}, P o → L.next s o r s' → L.guar s s' ∧ quiet s s')
    {p : Prog Op Res α} (hp : p.AllOps P) (s : σ) : wp L p (fun _ s' => quiet s s') s := by
  induction p generalizing s with
  | ret a => exact fun s₁ h₁ => hrely h₁
  | op o k ih =>
      intro s₁ h₁ r s' hn
      obtain ⟨hg, hq⟩ := hop hp.1 hn
      exact ⟨hg, wp_mono (ih r (hp.2 r) s') fun _ _ h => htrans (htrans (hrely h₁) hq) h⟩

/-! ## Sequential runs -/

/-- The logic of a program that runs alone: each operation is resolved by some answer
that satisfies `P`, nothing happens in between and nothing is forbidden. -/
def Logic.alone (sem : (o : Op) → A → σ → Res o × σ) (P : A → Prop) : Logic σ Op Res where
  next s o r s' := ∃ a, P a ∧ sem o a s = (r, s')
  rely := Eq
  guar _ _ := True
  rely_refl _ := rfl
  rely_trans := Eq.trans

/-- What is proved in the logic holds of every run. -/
theorem exec_of_wp {sem : (o : Op) → A → σ → Res o × σ} {P : A → Prop} {p : Prog Op Res α}
    {Q : α → σ → Prop} {s : σ} (h : wp (Logic.alone sem P) p Q s) {oracle : Nat → A}
    (horacle : ∀ n, P (oracle n)) :
    Q (p.exec sem oracle s).1 (p.exec sem oracle s).2 := by
  induction p generalizing s oracle with
  | ret a => exact h s rfl
  | op o k ih =>
      exact ih _ (h s rfl _ _ ⟨oracle 0, horacle 0, rfl⟩).2 fun n => horacle (n + 1)

end LocalTransfer.Lib
