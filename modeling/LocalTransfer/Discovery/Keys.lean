import LocalTransfer.Discovery.Browser

/-!
# Transient keys

`TransientDiscoveryKey::new` reads an untrusted fullname. It accepts the service names
alone, and the key of a service name is that name with its suffix in canonical case, so
two names share a key only if they have the same instance label.
-/

namespace LocalTransfer

open Lib

/-! ## The names that are accepted -/

/-- An instance label followed by the service suffix, in any ASCII case. -/
def IsServiceName (value : Text) : Prop :=
  byteLen value ≤ maxTransientDiscoveryKeyBytes ∧ value.any isControl = false ∧
    ∃ label suffix, label ≠ [] ∧ value = label ++ suffix ∧
      eqIgnoreAsciiCase suffix transientKeySuffix

/-- The same instance label, with the service suffix in any ASCII case. -/
def SameServiceName (value other : Text) : Prop :=
  ∃ label suffix suffix', value = label ++ suffix ∧ other = label ++ suffix' ∧
    eqIgnoreAsciiCase suffix transientKeySuffix ∧ eqIgnoreAsciiCase suffix' transientKeySuffix

theorem SameServiceName.symm {value other : Text} (h : SameServiceName value other) :
    SameServiceName other value := by
  obtain ⟨label, suffix, suffix', hvalue, hother, hsuffix, hsuffix'⟩ := h
  exact ⟨label, suffix', suffix, hother, hvalue, hsuffix', hsuffix⟩

theorem SameServiceName.byteLen_eq {value other : Text} (h : SameServiceName value other) :
    byteLen value = byteLen other := by
  obtain ⟨label, suffix, suffix', rfl, rfl, hsuffix, hsuffix'⟩ := h
  have hlen := byteLen_of_eqIgnoreAsciiCase hsuffix
  have hlen' := byteLen_of_eqIgnoreAsciiCase hsuffix'
  rw [byteLen_append, byteLen_append]
  omega

/-- A name has at most one label: the suffix has a known size. -/
theorem label_unique {label label' suffix suffix' : Text} (h : label ++ suffix = label' ++ suffix')
    (hsuffix : eqIgnoreAsciiCase suffix transientKeySuffix)
    (hsuffix' : eqIgnoreAsciiCase suffix' transientKeySuffix) :
    label = label' ∧ suffix = suffix' := by
  have hlens := congrArg byteLen h
  rw [byteLen_append, byteLen_append, byteLen_of_eqIgnoreAsciiCase hsuffix,
    byteLen_of_eqIgnoreAsciiCase hsuffix'] at hlens
  have hcut : byteLen label = byteLen label' := by omega
  have hsplit := splitAtByte_append label' suffix'
  rw [← h, ← hcut, splitAtByte_append] at hsplit
  cases hsplit
  exact ⟨rfl, rfl⟩

/-- A text that is the suffix up to case has no control character. -/
theorem any_isControl_suffix {suffix : Text}
    (h : eqIgnoreAsciiCase suffix transientKeySuffix) : suffix.any isControl = false := by
  rw [List.any_eq_false]
  intro c hc hcontrol
  have hmem : c.toLower ∈ transientKeySuffix.map Char.toLower := by
    rw [← eqIgnoreAsciiCase_iff.mp h]
    exact List.mem_map_of_mem hc
  have hsafe : (transientKeySuffix.map Char.toLower).all
      (fun c => 0x20 ≤ c.toNat && c.toNat < 0x7f) = true := by decide
  have hrange := List.all_eq_true.mp hsafe _ hmem
  rw [Bool.and_eq_true, decide_eq_true_eq, decide_eq_true_eq] at hrange
  simp only [isControl, Bool.or_eq_true, Bool.and_eq_true, decide_eq_true_eq] at hcontrol
  -- lower case moves only the capitals, and those are no control characters either
  rcases toLower_cases c with heq | ⟨hlo, hhi, -⟩
  · rw [heq] at hrange
    omega
  · omega

theorem SameServiceName.isServiceName {value other : Text} (h : SameServiceName value other)
    (hvalue : IsServiceName value) : IsServiceName other := by
  have hsize := h.byteLen_eq
  obtain ⟨hlen, hcontrol, label₀, suffix₀, hlabel₀, hsplit₀, hsuffix₀⟩ := hvalue
  obtain ⟨label, suffix, suffix', rfl, rfl, hsuffix, hsuffix'⟩ := h
  obtain ⟨rfl, rfl⟩ := label_unique hsplit₀ hsuffix hsuffix₀
  rw [List.any_append, Bool.or_eq_false_iff] at hcontrol
  refine ⟨hsize ▸ hlen, ?_, label, suffix', hlabel₀, rfl, hsuffix'⟩
  rw [List.any_append, hcontrol.1, any_isControl_suffix hsuffix', Bool.or_false]

/-! ## What `new` does -/

namespace TransientDiscoveryKey

/-- A key comes from a service name, whose label it keeps. -/
theorem new_eq_ok_iff {value : Text} {key : TransientDiscoveryKey} :
    new value = .ok key ↔ byteLen value ≤ maxTransientDiscoveryKeyBytes ∧
      value.any isControl = false ∧ ∃ label suffix, label ≠ [] ∧ value = label ++ suffix ∧
        eqIgnoreAsciiCase suffix transientKeySuffix ∧ key.asStr = label ++ transientKeySuffix := by
  constructor
  · intro h
    unfold new at h
    split at h
    · cases h
    · split at h
      · cases h
      · next label suffix hsplit =>
          split at h
          · cases h
          · next hgood =>
              simp only [not_or, not_not, Nat.not_lt] at hgood
              obtain ⟨hlen, hsuffix, hlabel, hcontrol⟩ := hgood
              cases h
              exact ⟨hlen, Bool.not_eq_true _ ▸ hcontrol, label, suffix, hlabel,
                (splitAtByte_eq_some_iff.mp hsplit).1, hsuffix, rfl⟩
  · intro h
    obtain ⟨hlen, hcontrol, label, suffix, hlabel, rfl, hsuffix, hkey⟩ := h
    obtain ⟨key', hnew, hkey'⟩ := new_append hlabel hsuffix hlen hcontrol
    rw [hnew]
    exact congrArg Except.ok (ext (hkey'.trans hkey.symm))

theorem new_isOk_iff {value : Text} : (∃ key, new value = .ok key) ↔ IsServiceName value := by
  constructor
  · intro h
    obtain ⟨key, hnew⟩ := h
    obtain ⟨hlen, hcontrol, label, suffix, hlabel, hsplit, hsuffix, -⟩ := new_eq_ok_iff.mp hnew
    exact ⟨hlen, hcontrol, label, suffix, hlabel, hsplit, hsuffix⟩
  · intro h
    obtain ⟨hlen, hcontrol, label, suffix, hlabel, rfl, hsuffix⟩ := h
    obtain ⟨key, hnew, -⟩ := new_append hlabel hsuffix hlen hcontrol
    exact ⟨key, hnew⟩

/-- There is one error. -/
theorem new_eq_error {value : Text} {error : DiscoveryBrowserError}
    (h : new value = .error error) : error = .withoutSource .invalidTransientKey := by
  unfold new at h
  split at h
  · cases h
    rfl
  · split at h
    · cases h
      rfl
    · split at h <;> cases h
      rfl

theorem new_eq_error_of_not {value : Text} (h : ¬ IsServiceName value) :
    new value = .error (.withoutSource .invalidTransientKey) := by
  cases hnew : new value with
  | ok key => exact absurd (new_isOk_iff.mp ⟨key, hnew⟩) h
  | error error => rw [new_eq_error hnew]

theorem byteLen_of_new {value : Text} {key : TransientDiscoveryKey} (h : new value = .ok key) :
    byteLen key.asStr = byteLen value := by
  obtain ⟨-, -, label, suffix, -, rfl, hsuffix, hkey⟩ := new_eq_ok_iff.mp h
  rw [hkey, byteLen_append, byteLen_append, byteLen_of_eqIgnoreAsciiCase hsuffix]

/-- A key is its own canonical form. -/
@[simp] theorem new_asStr (key : TransientDiscoveryKey) : new key.asStr = .ok key := by
  obtain ⟨label, hlabel, hkey⟩ := key.suffixed
  exact new_eq_ok_iff.mpr ⟨key.bounded, key.noControl, label, transientKeySuffix, hlabel, hkey,
    eqIgnoreAsciiCase_refl _, hkey⟩

/-- Two names share their key when they differ in the case of the suffix, and only then. -/
theorem eq_iff_of_new {value other : Text} {key key' : TransientDiscoveryKey}
    (h : new value = .ok key) (h' : new other = .ok key') :
    key = key' ↔ SameServiceName value other := by
  constructor
  · intro heq
    obtain ⟨-, -, label, suffix, -, hvalue, hsuffix, hkey⟩ := new_eq_ok_iff.mp h
    obtain ⟨-, -, label', suffix', -, hother, hsuffix', hkey'⟩ := new_eq_ok_iff.mp h'
    rw [heq, hkey'] at hkey
    have hlabel : label' = label := List.append_cancel_right hkey
    exact ⟨label, suffix, suffix', hvalue, hlabel ▸ hother, hsuffix, hsuffix'⟩
  · intro hsame
    obtain ⟨-, -, label, suffix, -, rfl, hsuffix, hkey⟩ := new_eq_ok_iff.mp h
    obtain ⟨label₀, suffix₀, suffix', hvalue₀, rfl, hsuffix₀, hsuffix'⟩ := hsame
    obtain ⟨rfl, rfl⟩ := label_unique hvalue₀ hsuffix hsuffix₀
    obtain ⟨-, -, label', suffix₁, -, hother, hsuffix₁, hkey'⟩ := new_eq_ok_iff.mp h'
    obtain ⟨rfl, rfl⟩ := label_unique hother hsuffix' hsuffix₁
    exact ext (hkey.trans hkey'.symm)

/-! ## The slices of the source -/

/-- The source of `new` step by step, `none` being the panic of its last slice. -/
def newSlicing (value : Text) : Option (Except DiscoveryBrowserError Text) :=
  let instanceLen := if byteLen value < byteLen transientKeySuffix then none
    else some (byteLen value - byteLen transientKeySuffix)
  let hasServiceSuffix := instanceLen.any fun offset =>
    (sliceFrom value offset).any fun suffix => eqIgnoreAsciiCase suffix transientKeySuffix
  match instanceLen with
  | none => some (.error (.withoutSource .invalidTransientKey))
  | some instanceLen =>
      if byteLen value > maxTransientDiscoveryKeyBytes ∨ ¬ hasServiceSuffix ∨ instanceLen = 0 ∨
          value.any isControl then
        some (.error (.withoutSource .invalidTransientKey))
      else (sliceTo value instanceLen).map fun label => .ok (label ++ transientKeySuffix)

/-- The last slice is reached only where the offset is a character boundary. -/
theorem newSlicing_eq (value : Text) :
    newSlicing value = some ((new value).map TransientDiscoveryKey.asStr) := by
  by_cases hshort : byteLen value < byteLen transientKeySuffix
  · unfold newSlicing new
    simp only [if_pos hshort]
    rfl
  · have hlen : byteLen value - byteLen transientKeySuffix + byteLen transientKeySuffix =
        byteLen value := by omega
    simp only [newSlicing, if_neg hshort, Option.any_some]
    by_cases hname : IsServiceName value
    · -- the offset is the size of the label
      obtain ⟨hbound, hcontrol, label, suffix, hlabel, rfl, hsuffix⟩ := hname
      obtain ⟨key, hnew, hkey⟩ := new_append hlabel hsuffix hbound hcontrol
      have hcut : byteLen (label ++ suffix) - byteLen transientKeySuffix = byteLen label := by
        rw [byteLen_append, byteLen_of_eqIgnoreAsciiCase hsuffix]
        omega
      have hpos : byteLen label ≠ 0 := by
        have := length_le_byteLen label
        have := List.length_pos_iff.mpr hlabel
        omega
      rw [hnew, if_neg]
      · rw [hcut, sliceTo, splitAtByte_append]
        exact congrArg (fun text => some (Except.ok text)) hkey.symm
      · rw [hcut, sliceFrom, splitAtByte_append]
        simp only [Option.map_some, Option.any_some, hsuffix, hcontrol, hpos, not_true, or_false,
          Bool.false_eq_true]
        exact Nat.not_lt.mpr hbound
    · -- otherwise the guard before the slice holds
      rw [new_eq_error_of_not hname, if_pos]
      · rfl
      · by_contra hgood
        simp only [not_or, not_not, Nat.not_lt] at hgood
        obtain ⟨hbound, hsuffix, hzero, hcontrol⟩ := hgood
        rw [Option.any_eq_true] at hsuffix
        obtain ⟨suffix, hslice, hsuffix⟩ := hsuffix
        simp only [sliceFrom, Option.map_eq_some_iff, Prod.exists] at hslice
        obtain ⟨label, after, hsplit, rfl⟩ := hslice
        obtain ⟨hvalue, hcut⟩ := splitAtByte_eq_some_iff.mp hsplit
        have hlabel : label ≠ [] := by
          intro hnil
          rw [hnil] at hcut
          exact hzero hcut.symm
        exact hname ⟨hbound, Bool.not_eq_true _ ▸ hcontrol, label, after, hlabel, hvalue, hsuffix⟩

/-- For every text: `new` never slices inside a character, accepts exactly the service
names, yields a key of the same size that is its own key, and gives two names one key
exactly when they have one label. -/
theorem new_canonical (value : Text) :
    newSlicing value = some ((new value).map asStr) ∧
    ((∃ key, new value = .ok key) ↔ IsServiceName value) ∧
    (∀ key, new value = .ok key →
      byteLen key.asStr = byteLen value ∧ new key.asStr = .ok key) ∧
    (∀ other key key', new value = .ok key → new other = .ok key' →
      (key = key' ↔ SameServiceName value other)) := by
  refine ⟨newSlicing_eq value, new_isOk_iff, ?_, ?_⟩
  · intro key h
    exact ⟨byteLen_of_new h, new_asStr key⟩
  · intro other key key' h h'
    exact eq_iff_of_new h h'

end TransientDiscoveryKey

end LocalTransfer
