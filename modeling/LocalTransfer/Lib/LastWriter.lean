import Mathlib

/-!
# Last-writer registers

A register keeps the value and the time of its latest write; a clearing write wins over a
setting one of the same time, and a setting write over an equally old value. Whatever the
order in which writes arrive, the register ends as `Settled` says, so registers that saw
the same writes agree as long as no two values are set at one time.
-/

namespace LocalTransfer.Lib

variable {T V : Type} [LinearOrder T]

inductive Write (V : Type)
  | set (value : V)
  | clear

/-- Nothing was written, or a value or its absence since a time. -/
abbrev Register (T V : Type) := Option (Option V × T)

namespace Register

def write (self : Register T V) (w : Write V) (at' : T) : Register T V :=
  match self, w with
  | none, .set value => some (some value, at')
  | none, .clear => some (none, at')
  | some (current, last), .set value =>
      if at' < last ∨ (current.isNone ∧ at' = last) then self else some (some value, at')
  | some (_, last), .clear => if at' < last then self else some (none, at')

/-- The writes in the order in which they arrive. -/
def writes (self : Register T V) (ws : List (Write V × T)) : Register T V :=
  ws.foldl (fun self w => self.write w.1 w.2) self

/-- What a register holds after some writes. -/
structure Settled (ws : List (Write V × T)) (value : Option V) (last : T) : Prop where
  written : ∃ w, (w, last) ∈ ws
  latest : ∀ w at', (w, at') ∈ ws → at' ≤ last
  cleared : value = none ↔ (.clear, last) ∈ ws
  set : ∀ v, value = some v → (.set v, last) ∈ ws

variable {self : Register T V} {ws ws' : List (Write V × T)} {value : Option V} {last at' : T}
  {w : Write V} {v : V}

/-- The first write is kept. -/
theorem settled_first (w : Write V) (at' : T) :
    ∃ value last, write none w at' = some (value, last) ∧ Settled [(w, at')] value last := by
  have hwritten : ∃ w', (w', at') ∈ [(w, at')] := ⟨w, List.mem_singleton_self _⟩
  have hlatest : ∀ w' t, (w', t) ∈ [(w, at')] → t ≤ at' := by
    intro w' t hmem
    cases List.mem_singleton.mp hmem
    exact le_refl _
  cases w with
  | set v =>
      refine ⟨some v, at', rfl, hwritten, hlatest, by simp, fun v' hv => ?_⟩
      cases hv
      exact List.mem_singleton_self _
  | clear =>
      refine ⟨none, at', rfl, hwritten, hlatest, by simp, fun v' hv => ?_⟩
      cases hv

theorem Settled.concat_set (h : Settled ws value last) (v : V) (at' : T) :
    ∃ value' last', write (some (value, last)) (.set v) at' = some (value', last') ∧
      Settled (ws ++ [(.set v, at')]) value' last' := by
  have hwritten : ∀ {t}, (∃ w, (w, t) ∈ ws) → ∃ w, (w, t) ∈ ws ++ [(.set v, at')] :=
    fun ⟨w, hw⟩ => ⟨w, List.mem_append_left _ hw⟩
  have hclear : ∀ {t}, (.clear, t) ∈ ws ++ [(.set v, at')] ↔ (.clear, t) ∈ ws := by
    intro t
    simp
  by_cases hstale : at' < last ∨ (value.isNone ∧ at' = last)
  · -- the write is dropped, and was not later than the last one
    have hle : at' ≤ last := hstale.elim le_of_lt fun hsame => hsame.2.le
    refine ⟨value, last, if_pos hstale, hwritten h.written, fun w t hmem => ?_,
      h.cleared.trans hclear.symm, fun v' hv => List.mem_append_left _ (h.set v' hv)⟩
    rcases List.mem_append.mp hmem with hold | hnew
    · exact h.latest w t hold
    · cases List.mem_singleton.mp hnew
      exact hle
  · obtain ⟨hle, hnone⟩ := not_or.mp hstale
    have hle := not_lt.mp hle
    refine ⟨some v, at', if_neg hstale, ⟨.set v, by simp⟩, fun w t hmem => ?_,
      ⟨fun hnone' => (by cases hnone'), fun hmem => ?_⟩, fun v' hv => by cases hv; simp⟩
    · rcases List.mem_append.mp hmem with hold | hnew
      · exact (h.latest w t hold).trans hle
      · cases List.mem_singleton.mp hnew
        exact le_refl _
    · -- a clear of the same time would have left no value
      have hold := hclear.mp hmem
      have hsame : at' = last := le_antisymm (h.latest _ _ hold) hle
      rw [hsame] at hold
      exact absurd ⟨by rw [h.cleared.mpr hold]; rfl, hsame⟩ hnone

theorem Settled.concat_clear (h : Settled ws value last) (at' : T) :
    ∃ value' last', write (some (value, last)) .clear at' = some (value', last') ∧
      Settled (ws ++ [(.clear, at')]) value' last' := by
  by_cases hstale : at' < last
  · refine ⟨value, last, if_pos hstale, h.written.imp fun w hw => List.mem_append_left _ hw,
      fun w t hmem => ?_, h.cleared.trans ⟨List.mem_append_left _, fun hmem => ?_⟩,
      fun v' hv => List.mem_append_left _ (h.set v' hv)⟩
    · rcases List.mem_append.mp hmem with hold | hnew
      · exact h.latest w t hold
      · cases List.mem_singleton.mp hnew
        exact hstale.le
    · rcases List.mem_append.mp hmem with hold | hnew
      · exact hold
      · cases List.mem_singleton.mp hnew
        exact absurd hstale (lt_irrefl _)
  · refine ⟨none, at', if_neg hstale, ⟨.clear, by simp⟩, fun w t hmem => ?_, by simp,
      fun v' hv => by cases hv⟩
    rcases List.mem_append.mp hmem with hold | hnew
    · exact (h.latest w t hold).trans (not_lt.mp hstale)
    · cases List.mem_singleton.mp hnew
      exact le_refl _

/-- **What some writes lead to**, in the order in which they arrive. -/
theorem settled_writes (ws : List (Write V × T)) :
    (ws = [] ∧ writes (none : Register T V) ws = none) ∨
      ∃ value last, writes (none : Register T V) ws = some (value, last) ∧
        Settled ws value last := by
  induction ws using List.reverseRecOn with
  | nil => exact .inl ⟨rfl, rfl⟩
  | append_singleton ws w ih =>
      have hlast : writes (none : Register T V) (ws ++ [w]) = (writes none ws).write w.1 w.2 :=
        List.foldl_append ..
      rw [hlast]
      obtain ⟨w, at'⟩ := w
      rcases ih with ⟨rfl, hnone⟩ | ⟨value, last, hsome, hsettled⟩
      · rw [hnone]
        exact .inr (settled_first w at')
      · rw [hsome]
        cases w with
        | set v => exact .inr (hsettled.concat_set v at')
        | clear => exact .inr (hsettled.concat_clear at')

/-- A value that is held is the latest one set, and no write as late cleared it. -/
theorem value_writes_iff (hset : ∀ v v' t, (.set v, t) ∈ ws → (.set v', t) ∈ ws → v = v') :
    (writes (none : Register T V) ws).bind Prod.fst = some v ↔
      ∃ t, (.set v, t) ∈ ws ∧ (∀ v' t', (.set v', t') ∈ ws → t' ≤ t) ∧
        ∀ t', (.clear, t') ∈ ws → t' < t := by
  rcases settled_writes ws with ⟨rfl, hnone⟩ | ⟨value, last, hsome, hsettled⟩
  · rw [hnone]
    simp
  · rw [hsome]
    constructor
    · intro hvalue
      have hvalue : value = some v := hvalue
      refine ⟨last, hsettled.set v hvalue, fun v' t' hmem => hsettled.latest _ _ hmem,
        fun t' hmem => lt_of_le_of_ne (hsettled.latest _ _ hmem) fun hsame => ?_⟩
      rw [hsettled.cleared.mpr (hsame ▸ hmem)] at hvalue
      cases hvalue
    · intro h
      obtain ⟨t, hmem, hsets, hclears⟩ := h
      -- the last write is this one, or one of its time that sets the same value
      have hlast : last = t := by
        obtain ⟨w, hw⟩ := hsettled.written
        have hle := hsettled.latest _ _ hmem
        cases w with
        | set v' => exact le_antisymm (hsets v' last hw) hle
        | clear => exact absurd (hclears last hw) (not_lt.mpr hle)
      cases value with
      | none =>
          have hcleared := hclears last (hsettled.cleared.mp rfl)
          exact absurd hcleared (not_lt.mpr hlast.ge)
      | some v' =>
          have hv' := hsettled.set v' rfl
          rw [hlast] at hv'
          exact congrArg some (hset v' v t hv' hmem)

end Register

end LocalTransfer.Lib
