import LocalTransfer.LocalDevice.Stores

/-!
# What one call of a value file does

The steps that matter to a value file are opening it, creating it where its path is free,
and replacing it. A `FileLogic` gives these three, and the quiet steps around them, a meaning
over some state; `loadOrCreate_spec` and `update_spec` say what whole calls do in those terms.
Each reading of the stores among other processes is an instance.
-/

namespace LocalTransfer

open Lib

/-- The text read at a path, if there is any. -/
def Node.text (node target : Node) : Option Text :=
  match node.follow target with
  | .regular contents => fromUtf8 contents
  | _ => none

variable {σ : Type}

/-- A reading of the steps on one file over states `σ`. -/
structure FileLogic (L : Logic σ FsOp FsOp.Result) (f : FileName) where
  quiet : σ → σ → Prop
  /-- The file was opened, and the path named this node. -/
  looked : Node → σ → σ → Prop
  created : Bytes → σ → σ → Prop
  /-- The file was not created, the path being taken. -/
  occupied : σ → σ → Prop
  replaced : Bytes → σ → σ → Prop
  mayCreate : Bytes → σ → Prop
  mayReplace : Bytes → Prop
  /-- Steps may fail. -/
  excused : Prop
  quiet_refl : ∀ s, quiet s s
  quiet_trans : ∀ {s₁ s₂ s₃}, quiet s₁ s₂ → quiet s₂ s₃ → quiet s₁ s₃
  rely_quiet : ∀ {s s'}, L.rely s s' → quiet s s'
  mayCreate_quiet : ∀ {contents s s'}, quiet s s' → mayCreate contents s → mayCreate contents s'
  mayCreate_looked : ∀ {contents node s s'}, looked node s s' → mayCreate contents s →
    mayCreate contents s'
  inert : ∀ {s o r s'}, o.Inert → L.next s o r s' →
    L.guar s s' ∧ quiet s s' ∧ (o.Failed r → excused)
  look : ∀ {s r s'}, L.next s (.openRead f) r s' → L.guar s s' ∧
    ((∃ node, r = .ok node ∧ looked node s s') ∨ ∃ e, r = .error e ∧ quiet s s' ∧ excused)
  create : ∀ {s contents r s'}, mayCreate contents s →
    L.next s (.persistNoclobber f contents) r s' →
    L.guar s s' ∧ ((r = .ok true ∧ created contents s s') ∨ (r = .ok false ∧ occupied s s') ∨
      ∃ e, r = .error e ∧ quiet s s' ∧ excused)
  replace : ∀ {s contents r s'}, mayReplace contents → L.next s (.persist f contents) r s' →
    L.guar s s' ∧ ((r = .ok () ∧ replaced contents s s') ∨ ∃ e, r = .error e ∧ quiet s s' ∧ excused)

namespace FileLogic

variable {L : Logic σ FsOp FsOp.Result} {f : FileName} (A : FileLogic L f)

section Rules

variable {ε ε' α β : Type}

/-- A strict program of inert steps in front of another one. -/
theorem wp_helper {x : FsProg ε' α} {g : ε' → ε} {h : α → FsProg ε β} {P : α → Prop}
    {Q : Except ε β → σ → Prop} {s : σ}
    (hx : StrictHelper P x)
    (hh : ∀ a s', A.quiet s s' → P a → wp L (h a).run Q s')
    (herr : A.excused → ∀ e s', Q (.error e) s') :
    wp L (ExceptT.adapt g x >>= h).run Q s := by
  have hwp := hx.wp A.rely_quiet A.quiet_trans (fun _ he => he) A.inert s
  refine wp_bind (wp_adapt (wp_mono hwp ?_))
  rintro r s' ⟨hq, ⟨a, rfl, ha⟩ | ⟨hexc, e, rfl⟩⟩
  · exact hh a s' hq ha
  · intro s₁ _
    exact herr hexc (g e) s₁

/-- An inert step whose failure is passed on. -/
theorem wp_inert {o : FsOp} {g : IoError → ε} {h : FsProg ε β} {Q : Except ε β → σ → Prop}
    {s : σ} (ho : o.Inert) (result : o.Result → Except IoError Unit)
    (hresult : ∀ r, o.Failed r ↔ ∃ e, result r = .error e)
    (hh : ∀ s', A.quiet s s' → wp L h.run Q s') (herr : A.excused → ∀ e s', Q (.error e) s') :
    wp L (do orElseFail (result (← call o)) g; h).run Q s := by
  refine wp_call fun s₁ h₁ r s' hn => ?_
  obtain ⟨hguar, hq, hfailed⟩ := A.inert ho hn
  refine ⟨hguar, ?_⟩
  cases hr : result r with
  | ok a => exact hh s' (A.quiet_trans (A.rely_quiet h₁) hq)
  | error e =>
      have hexc := hfailed ((hresult r).mpr ⟨e, hr⟩)
      exact fun s₂ _ => herr hexc (g e) s₂

end Rules

/-! ## Reading -/

/-- The file was opened at some moment, and that step is the last one that matters. -/
def Look (node : Node) (s s' : σ) : Prop :=
  ∃ s₁ s₂, A.quiet s s₁ ∧ A.looked node s₁ s₂ ∧ A.quiet s₂ s'

variable {A} in
theorem Look.before {node : Node} {s s' s'' : σ} (h : A.Look node s s') (hq : A.quiet s' s'') :
    A.Look node s s'' := by
  obtain ⟨s₁, s₂, h₁, h₂, h₃⟩ := h
  exact ⟨s₁, s₂, h₁, h₂, A.quiet_trans h₃ hq⟩

variable {A} in
theorem Look.after {node : Node} {s₀ s s' : σ} (h : A.Look node s s') (hq : A.quiet s₀ s) :
    A.Look node s₀ s' := by
  obtain ⟨s₁, s₂, h₁, h₂, h₃⟩ := h
  exact ⟨s₁, s₂, A.quiet_trans hq h₁, h₂, h₃⟩

variable {A} in
theorem Look.mayCreate {node : Node} {s s' : σ} (h : A.Look node s s') {contents : Bytes}
    (hmay : A.mayCreate contents s) : A.mayCreate contents s' := by
  obtain ⟨s₁, s₂, h₁, h₂, h₃⟩ := h
  exact A.mayCreate_quiet h₃ (A.mayCreate_looked h₂ (A.mayCreate_quiet h₁ hmay))

/-- What reading makes of a node. -/
inductive ReadBack (target node : Node) : Except IoError (Option Text) → Prop
  | text {text} : node.text target = some text → ReadBack target node (.ok (some text))
  | missing : node.follow target = .missing → ReadBack target node (.ok none)
  | unreadable {e} : node.follow target ≠ .missing → node.text target = none →
      ReadBack target node (.error e)

theorem readToString_spec (target : Node) (s : σ) :
    wp L (readToString target f).run (fun r s' =>
      (∃ node, A.Look node s s' ∧ ReadBack target node r) ∨ (A.excused ∧ ∃ e, r = .error e)) s := by
  unfold readToString
  refine wp_call fun s₁ h₁ r s₂ hn => ?_
  obtain ⟨hguar, ⟨node, rfl, hlooked⟩ | ⟨e, rfl, -, hexc⟩⟩ := A.look hn
  · refine ⟨hguar, ?_⟩
    have hlook : ∀ {s'}, A.quiet s₂ s' → A.Look node s s' :=
      fun hq => ⟨s₁, s₂, A.rely_quiet h₁, hlooked, hq⟩
    have hread : ∀ {g : FsProg IoError (Option Text)},
        (∀ s', A.quiet s₂ s' → wp L g.run (fun r s' => (∃ node, A.Look node s s' ∧
          ReadBack target node r) ∨ (A.excused ∧ ∃ e, r = .error e)) s') →
        wp L (do orElseFail (← call (.readToEnd f)) id; g : FsProg IoError (Option Text)).run
          (fun r s' => (∃ node, A.Look node s s' ∧ ReadBack target node r) ∨
            (A.excused ∧ ∃ e, r = .error e)) s₂ := by
      intro g hg
      exact A.wp_inert (o := .readToEnd f) trivial id (fun _ => Iff.rfl) hg
        fun hexc e _ => .inr ⟨hexc, e, rfl⟩
    have hopened : ∀ {g : Node → FsProg IoError (Option Text)}
        {Q : Except IoError (Option Text) → σ → Prop}, wp L (g node).run Q s₂ →
        wp L (orElseFail (.ok node : Except IoError Node) id >>= g).run Q s₂ := fun h => h
    refine hopened ?_
    cases hfollow : node.follow target with
    | missing =>
        exact wp_pure fun s' h => .inl ⟨node, hlook (A.rely_quiet h), .missing hfollow⟩
    | symlink | other =>
        refine hread fun s' hq => wp_throw fun s'' h => .inl ⟨node, ?_, ?_⟩
        · exact hlook (A.quiet_trans hq (A.rely_quiet h))
        · exact .unreadable (by simp [hfollow]) (by simp [Node.text, hfollow])
    | regular contents =>
        refine hread fun s' hq => ?_
        have htext : node.text target = fromUtf8 contents := by simp [Node.text, hfollow]
        cases hutf8 : fromUtf8 contents with
        | some text =>
            refine wp_pure fun s'' h => .inl ⟨node, hlook (A.quiet_trans hq (A.rely_quiet h)), ?_⟩
            exact .text (htext.trans hutf8)
        | none =>
            refine wp_throw fun s'' h => .inl ⟨node, hlook (A.quiet_trans hq (A.rely_quiet h)), ?_⟩
            exact .unreadable (by simp [hfollow]) (htext.trans hutf8)
  · exact ⟨hguar, fun s' _ => .inr ⟨hexc, e, rfl⟩⟩

/-! ## Loading and creating -/

variable {ε α : Type} (F : ValueFile ε α) (target : Node)

/-- The race for the file was lost: no file was found, and then it was there. -/
def Raced (s s' : σ) : Prop :=
  ∃ node s₁ s₂, A.Look node s s₁ ∧ node.follow target = .missing ∧ A.occupied s₁ s₂ ∧
    A.quiet s₂ s'

/-- What loading or creating the value leads to. -/
inductive Outcome (initial : α) (s : σ) : Except ε α → σ → Prop
  | read {node text s'} : A.Look node s s' → node.text target = some text →
      Outcome initial s (F.parsePersisted text) s'
  | unreadable {node e s'} : A.Look node s s' → node.follow target ≠ .missing →
      node.text target = none → Outcome initial s (.error e) s'
  | created {node s₁ s₂ r s'} : A.Look node s s₁ → node.follow target = .missing →
      A.created (F.encoded initial) s₁ s₂ → A.quiet s₂ s' →
      (r = .ok initial ∨ (A.excused ∧ ∃ e, r = .error e)) → Outcome initial s r s'
  | reread {node text s₁ s'} : A.Raced target s s₁ → A.Look node s₁ s' →
      node.text target = some text → Outcome initial s (F.parsePersisted text) s'
  | lost {node e s₁ s'} : A.Raced target s s₁ → A.Look node s₁ s' → node.text target = none →
      Outcome initial s (.error e) s'
  | failed {e s'} : A.excused → Outcome initial s (.error e) s'

variable {A F target} in
theorem Outcome.before {initial : α} {s s' s'' : σ} {r : Except ε α}
    (h : A.Outcome F target initial s r s') (hq : A.quiet s' s'') :
    A.Outcome F target initial s r s'' := by
  cases h with
  | read h₁ h₂ => exact .read (h₁.before hq) h₂
  | unreadable h₁ h₂ h₃ => exact .unreadable (h₁.before hq) h₂ h₃
  | created h₁ h₂ h₃ h₄ h₅ => exact .created h₁ h₂ h₃ (A.quiet_trans h₄ hq) h₅
  | reread h₁ h₂ h₃ => exact .reread h₁ (h₂.before hq) h₃
  | lost h₁ h₂ h₃ => exact .lost h₁ (h₂.before hq) h₃
  | failed h => exact .failed h

variable {A target} in
theorem Raced.before {s s' s'' : σ} (h : A.Raced target s s') (hq : A.quiet s' s'') :
    A.Raced target s s'' := by
  obtain ⟨node, s₁, s₂, h₁, h₂, h₃, h₄⟩ := h
  exact ⟨node, s₁, s₂, h₁, h₂, h₃, A.quiet_trans h₄ hq⟩

end FileLogic

section Specs

variable {L : Logic σ FsOp FsOp.Result} {ε α : Type} {F : ValueFile ε α} (A : FileLogic L F.file)
  (target : Node)

namespace FileLogic

theorem loadExistingAfterRace_spec {initial : α} {s₀ s : σ} (hraced : A.Raced target s₀ s) :
    wp L (F.loadExistingAfterRace target).run (A.Outcome F target initial s₀) s := by
  unfold ValueFile.loadExistingAfterRace
  refine A.wp_helper (strict_hardenExistingFile F.file) (fun _ s₁ h₁ _ => ?_)
    fun hexc _ _ => .failed hexc
  have hraced₁ := hraced.before h₁
  refine wp_bind (wp_adapt (wp_mono (A.readToString_spec target s₁) ?_))
  rintro r s₂ (⟨node, hlook, hread⟩ | ⟨hexc, e, rfl⟩)
  · cases hread with
    | text htext =>
        exact fun s₃ h₃ => .reread hraced₁ (hlook.before (A.rely_quiet h₃)) htext
    | missing hmissing =>
        have htext : node.text target = none := by simp [Node.text, hmissing]
        exact wp_throw fun s₃ h₃ => .lost hraced₁ (hlook.before (A.rely_quiet h₃)) htext
    | unreadable _ htext =>
        exact fun s₃ h₃ => .lost hraced₁ (hlook.before (A.rely_quiet h₃)) htext
  · exact fun s₃ _ => .failed hexc

theorem create_spec {harden : Bool} {initial : α} {node : Node} {s₀ s : σ}
    (hlook : A.Look node s₀ s) (hmissing : node.follow target = .missing)
    (hmay : A.mayCreate (F.encoded initial) s) :
    wp L (F.create target harden initial).run (A.Outcome F target initial s₀) s := by
  unfold ValueFile.create ValueFile.writeTemporary
  refine A.wp_helper (strict_createSyncedTemporary _ _) (fun temporary s₁ h₁ hcontents => ?_)
    fun hexc _ _ => .failed hexc
  rw [hcontents]
  refine wp_call fun s₂ h₂ r s₃ hn => ?_
  have hq := A.quiet_trans h₁ (A.rely_quiet h₂)
  obtain ⟨hguar, ⟨rfl, hcreated⟩ | ⟨rfl, hoccupied⟩ | ⟨e, rfl, -, hexc⟩⟩ :=
    A.create (A.mayCreate_quiet hq hmay) hn
  · refine ⟨hguar, ?_⟩
    have hcreated' : ∀ {r s'}, A.quiet s₃ s' → (r = .ok initial ∨ (A.excused ∧ ∃ e, r = .error e)) →
        A.Outcome F target initial s₀ r s' :=
      fun hq' hr => .created (hlook.before hq) hmissing hcreated hq' hr
    exact A.wp_inert (o := .syncFile F.file) trivial id (fun _ => Iff.rfl)
      (fun s₄ h₄ => wp_pure fun s₅ h₅ => hcreated' (A.quiet_trans h₄ (A.rely_quiet h₅)) (.inl rfl))
      fun hexc _ _ => .failed hexc
  · have hraced : A.Raced target s₀ s₃ :=
      ⟨node, s₂, s₃, hlook.before hq, hmissing, hoccupied, A.quiet_refl s₃⟩
    exact ⟨hguar, A.loadExistingAfterRace_spec target hraced⟩
  · exact ⟨hguar, wp_throw fun s₄ _ => .failed hexc⟩

/-- **What loading or creating a value does.** -/
theorem loadOrCreate_spec (harden : Bool) (initial : α) {s : σ}
    (hmay : A.mayCreate (F.encoded initial) s) :
    wp L (F.loadOrCreate target harden initial).run (A.Outcome F target initial s) s := by
  -- what follows the read is named by what it does with the text
  have hread : ∀ {k : Option Text → FsProg ε α}, k none = F.create target harden initial →
      (∀ text, k (some text) = ExceptT.mk (pure (F.parsePersisted text))) →
      ∀ s₁, A.quiet s s₁ →
        wp L (ExceptT.adapt F.persistenceError (hardenExistingFile F.file) >>= fun _ =>
          ExceptT.adapt (F.ioError F.reading) (readToString target F.file) >>= k).run
          (A.Outcome F target initial s) s₁ := by
    intro k hnone hsome s₁ h₁
    refine A.wp_helper (strict_hardenExistingFile F.file) (fun _ s₂ h₂ _ => ?_)
      fun hexc _ _ => .failed hexc
    refine wp_bind (wp_adapt (wp_mono (A.readToString_spec target s₂) ?_))
    rintro r s₃ (⟨node, hlook, hback⟩ | ⟨hexc, e, rfl⟩)
    · have hlook := hlook.after (A.quiet_trans h₁ h₂)
      cases hback with
      | text htext =>
          show wp L (k (some _)).run (A.Outcome F target initial s) s₃
          rw [hsome]
          exact fun s₄ h₄ => .read (hlook.before (A.rely_quiet h₄)) htext
      | missing hmissing =>
          show wp L (k none).run (A.Outcome F target initial s) s₃
          rw [hnone]
          exact A.create_spec target hlook hmissing (hlook.mayCreate hmay)
      | unreadable hpresent htext =>
          exact fun s₄ h₄ => .unreadable (hlook.before (A.rely_quiet h₄)) hpresent htext
    · exact fun s₄ _ => .failed hexc
  unfold ValueFile.loadOrCreate
  split
  · exact A.wp_helper strict_hardenExistingParent
      (fun _ s₁ h₁ _ => hread rfl (fun _ => rfl) s₁ h₁) fun hexc _ _ => .failed hexc
  · exact hread rfl (fun _ => rfl) s (A.quiet_refl s)

end FileLogic

end Specs

/-! ## Updating the name -/

/-- What an update returns. -/
inductive Updated (excused : Prop) (value : Text) : Except DeviceNameError DeviceName → Prop
  | renamed {name} : DeviceName.new value = .ok name → Updated excused value (.ok name)
  | failed {name e} : DeviceName.new value = .ok name → excused → Updated excused value (.error e)
  | invalid {source} : DeviceName.new value = .error source →
      Updated excused value (.error (.validation source))

/-- **What an update does.** A value that is no name is refused before the first step. -/
theorem FileLogic.update_spec {L : Logic σ FsOp FsOp.Result} (A : FileLogic L .deviceName)
    (self : DeviceNameStore) (value : Text) {s : σ}
    (hmay : ∀ name, DeviceName.new value = .ok name →
      A.mayReplace (DeviceNameStore.valueFile.encoded name)) :
    wp L (self.update value).run (fun r _ => Updated A.excused value r) s := by
  unfold DeviceNameStore.update
  cases hname : DeviceName.new value with
  | error source => exact fun s' _ => .invalid hname
  | ok name =>
      refine A.wp_helper (strict_createSyncedTemporary _ _) (fun temporary s₁ _ hcontents => ?_)
        fun hexc _ _ => .failed hname hexc
      rw [hcontents]
      refine wp_call fun s₂ _ r s₃ hn => ?_
      obtain ⟨hguar, ⟨rfl, -⟩ | ⟨e, rfl, -, hexc⟩⟩ := A.replace (hmay name hname) hn
      · refine ⟨hguar, A.wp_inert (o := .syncFile .deviceName) trivial id (fun _ => Iff.rfl)
          (fun s₄ _ => wp_pure fun s₅ _ => .renamed hname) fun hexc _ _ => .failed hname hexc⟩
      · exact ⟨hguar, wp_throw fun s₄ _ => .failed hname hexc⟩

end LocalTransfer
