import Mathlib.Tactic.Common

/-!
# Inputs that change nothing

A machine answers each input and moves to its next state. If the answers of some kind are
given only by steps that leave the state as it is, then inputs answered so can be deleted
from a run (`log_of_deletes`) or inserted into one (`log_of_inserts`), and neither the
state that the run ends in nor any other answer changes.
-/

namespace LocalTransfer.Lib.Machine

variable {σ ι ο : Type} {step : σ → ι → ο × σ} {idle : ι × ο → Prop} {s : σ}

/-- The state after a run. -/
def after (step : σ → ι → ο × σ) (s : σ) (inputs : List ι) : σ :=
  inputs.foldl (fun s input => (step s input).2) s

/-- The inputs of a run with their answers. -/
def log (step : σ → ι → ο × σ) (s : σ) : List ι → List (ι × ο)
  | [] => []
  | input :: inputs => (input, (step s input).1) :: log step (step s input).2 inputs

theorem after_concat (inputs : List ι) (input : ι) :
    after step s (inputs ++ [input]) = (step (after step s inputs) input).2 := by
  rw [after, List.foldl_append]
  rfl

/-- The steps with an idle answer leave the state as it is. -/
def Stutters (step : σ → ι → ο × σ) (idle : ι × ο → Prop) : Prop :=
  ∀ s input, idle (input, (step s input).1) → (step s input).2 = s

/-! ## Deleting -/

/-- A log without some of its idle entries. -/
inductive Deletes (idle : ι × ο → Prop) : List (ι × ο) → List (ι × ο) → Prop
  | nil : Deletes idle [] []
  | keep {entry log kept} : Deletes idle log kept → Deletes idle (entry :: log) (entry :: kept)
  | delete {entry log kept} : idle entry → Deletes idle log kept → Deletes idle (entry :: log) kept

/-- The inputs that are kept get the answers they got, and lead to the same state. -/
theorem log_of_deletes (hidle : Stutters step idle) {inputs : List ι} {kept : List (ι × ο)}
    (h : Deletes idle (log step s inputs) kept) :
    log step s (kept.map Prod.fst) = kept ∧
      after step s (kept.map Prod.fst) = after step s inputs := by
  induction inputs generalizing s kept with
  | nil =>
      cases h
      exact ⟨rfl, rfl⟩
  | cons input inputs ih =>
      cases h with
      | keep hrest =>
          obtain ⟨hlog, hafter⟩ := ih hrest
          constructor
          · rw [List.map_cons, log, hlog]
          · exact hafter
      | delete hentry hrest =>
          -- the deleted input has led nowhere
          have hsame := hidle s input hentry
          rw [hsame] at hrest
          obtain ⟨hlog, hafter⟩ := ih hrest
          have hnext : after step s (input :: inputs) = after step s inputs := by
            show after step (step s input).2 inputs = _
            rw [hsame]
          exact ⟨hlog, hafter.trans hnext.symm⟩

/-! ## Inserting -/

/-- Inputs with others among them, each allowed after those before it. -/
inductive Inserts (allowed : List ι → ι → Prop) : List ι → List ι → List ι → Prop
  | nil {before} : Inserts allowed before [] []
  | keep {before input inputs longer} : Inserts allowed (before ++ [input]) inputs longer →
      Inserts allowed before (input :: inputs) (input :: longer)
  | insert {before input inputs longer} : allowed before input →
      Inserts allowed (before ++ [input]) inputs longer →
      Inserts allowed before inputs (input :: longer)

variable {allowed : List ι → ι → Prop} {before inputs longer : List ι}

/-- Inserted inputs that are answered idly can be deleted again. -/
theorem exists_deletes_of_inserts (h : Inserts allowed before inputs longer)
    (hallowed : ∀ before input, allowed before input →
      idle (input, (step (after step s before) input).1)) :
    ∃ kept, kept.map Prod.fst = inputs ∧
      Deletes idle (log step (after step s before) longer) kept := by
  induction h with
  | nil => exact ⟨[], rfl, .nil⟩
  | keep hrest ih =>
      obtain ⟨kept, rfl, hdeletes⟩ := ih
      rw [after_concat] at hdeletes
      exact ⟨_ :: kept, rfl, .keep hdeletes⟩
  | insert hinput hrest ih =>
      obtain ⟨kept, rfl, hdeletes⟩ := ih
      rw [after_concat] at hdeletes
      exact ⟨kept, rfl, .delete (hallowed _ _ hinput) hdeletes⟩

theorem log_of_inserts (hidle : Stutters step idle) (h : Inserts allowed [] inputs longer)
    (hallowed : ∀ before input, allowed before input →
      idle (input, (step (after step s before) input).1)) :
    after step s longer = after step s inputs ∧
      Deletes idle (log step s longer) (log step s inputs) := by
  obtain ⟨kept, rfl, hdeletes⟩ := exists_deletes_of_inserts h hallowed
  have hdeletes : Deletes idle (log step s longer) kept := hdeletes
  obtain ⟨hlog, hafter⟩ := log_of_deletes hidle hdeletes
  rw [hlog, hafter]
  exact ⟨rfl, hdeletes⟩

end LocalTransfer.Lib.Machine
