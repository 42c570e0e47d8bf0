import LocalTransfer.Discovery.Browser
import LocalTransfer.Lib.Separated

/-!
# Addresses as text

How the standard library shows an IP address, and `socket_address` of the command line. The
text of an IPv6 address leaves out its longest run of zeros; it determines the address all the
same, and so does the text of an endpoint (`socketAddress_injective`).
-/

namespace LocalTransfer

open Lib

/-! ## Big-endian digits -/

/-- The last `count` digits of a number, the highest first. -/
def bigEndian (base : Nat) : Nat → Nat → List Nat
  | 0, _ => []
  | count + 1, n => bigEndian base count (n / base) ++ [n % base]

theorem length_bigEndian (base count n : Nat) : (bigEndian base count n).length = count := by
  induction count generalizing n with
  | zero => rfl
  | succ count ih => rw [bigEndian, List.length_append, ih, List.length_singleton]

theorem bigEndian_injective {base count m n : Nat} (hm : m < base ^ count) (hn : n < base ^ count)
    (h : bigEndian base count m = bigEndian base count n) : m = n := by
  induction count generalizing m n with
  | zero =>
      rw [pow_zero] at hm hn
      omega
  | succ count ih =>
      rw [bigEndian, bigEndian] at h
      obtain ⟨hhigh, hlow⟩ := List.append_inj' h rfl
      have hdiv := ih (Nat.div_lt_of_lt_mul (by rwa [pow_succ'] at hm))
        (Nat.div_lt_of_lt_mul (by rwa [pow_succ'] at hn)) hhigh
      rw [← Nat.div_add_mod m base, ← Nat.div_add_mod n base, hdiv, (List.cons.inj hlow).1]

/-! ## IPv4 -/

def Ipv4Addr.octets (bits : BitVec 32) : List Nat := bigEndian 256 4 bits.toNat

def Ipv4Addr.display (bits : BitVec 32) : Text :=
  ['.'].intercalate ((Ipv4Addr.octets bits).map decimal)

/-! ## IPv6 -/

namespace Ipv6Addr

def segments (bits : BitVec 128) : List Nat := bigEndian 65536 8 bits.toNat

/-- The IPv4 address that this one stands for, if it is `::ffff:0:0/96`. -/
def toIpv4Mapped (bits : BitVec 128) : Option (BitVec 32) :=
  if bits.toNat / 2 ^ 32 = 0xffff then some (BitVec.ofNat 32 (bits.toNat % 2 ^ 32)) else none

structure Span where
  start : Nat
  len : Nat

/-- The longest run of zeros, the first of several, from the runs so far. -/
def longestZeros : List Nat → Nat → Span → Span → Span
  | [], _, _, longest => longest
  | segment :: segments, i, current, longest =>
      if segment = 0 then
        let current : Span := ⟨if current.len = 0 then i else current.start, current.len + 1⟩
        longestZeros segments (i + 1) current
          (if current.len > longest.len then current else longest)
      else longestZeros segments (i + 1) ⟨0, 0⟩ longest

/-- A part of an address. -/
def subslice (chunk : List Nat) : Text := [':'].intercalate (chunk.map (Nat.toDigits 16))

def display (bits : BitVec 128) : Text :=
  match toIpv4Mapped bits with
  | some ipv4 => "::ffff:".toList ++ Ipv4Addr.display ipv4
  | none =>
      let segments := segments bits
      let zeroes := longestZeros segments 0 ⟨0, 0⟩ ⟨0, 0⟩
      if zeroes.len > 1 then
        subslice (segments.take zeroes.start) ++ "::".toList ++
          subslice (segments.drop (zeroes.start + zeroes.len))
      else subslice segments

example : display 0xfe800000000000000000000000000001#128 = "fe80::1".toList := by decide +kernel

end Ipv6Addr

/-- An endpoint as the report shows it. -/
def socketAddress (address : IpAddr) (scopeId : Option UInt32) (port : UInt16) : Text :=
  match address with
  | .v4 bits => Ipv4Addr.display bits ++ ':' :: decimal port.toNat
  | .v6 bits =>
      match scopeId with
      | some scope => '[' :: Ipv6Addr.display bits ++ '%' :: decimal scope.toNat ++
          "]:".toList ++ decimal port.toNat
      | none => '[' :: Ipv6Addr.display bits ++ "]:".toList ++ decimal port.toNat

/-! ## What the texts are made of -/

theorem not_mem_decimal {c : Char} (hc : c ∉ digitChars) (n : Nat) : c ∉ decimal n :=
  fun h => hc (mem_toDigits (by decide) (by decide) n c h)

theorem decimal_injective : Function.Injective decimal :=
  toDigits_injective (by decide) (by decide)

theorem Ipv4Addr.not_mem_display {c : Char} (hc : c ∉ digitChars) (hdot : c ≠ '.')
    (bits : BitVec 32) : c ∉ display bits := by
  refine not_mem_intercalate (by simpa using hdot) ?_
  intro w hw
  obtain ⟨n, -, rfl⟩ := List.mem_map.mp hw
  exact not_mem_decimal hc n

theorem Ipv4Addr.display_injective : Function.Injective display := by
  intro a b h
  have hne : ∀ bits, (octets bits).map decimal ≠ [] := by
    intro bits hnil
    have := congrArg List.length hnil
    rw [List.length_map, octets, length_bigEndian] at this
    cases this
  have hdot : ∀ bits, ∀ w ∈ (octets bits).map decimal, '.' ∉ w := by
    intro bits w hw
    obtain ⟨n, -, rfl⟩ := List.mem_map.mp hw
    exact not_mem_decimal (by decide) n
  have hwords := intercalate_injective List.not_mem_nil (hdot a) (hdot b) (hne a) (hne b) h
  have hoctets : octets a = octets b :=
    List.map_injective_iff.mpr decimal_injective hwords
  have hsize : 2 ^ 32 = 256 ^ 4 := by norm_num
  exact BitVec.eq_of_toNat_eq
    (bigEndian_injective (hsize ▸ a.isLt) (hsize ▸ b.isLt) hoctets)

namespace Ipv6Addr

/-- A run of zeros in the segments. -/
structure IsZeros (segments : List Nat) (span : Span) : Prop where
  inside : span.start + span.len ≤ segments.length
  zero : ∀ i, span.start ≤ i → i < span.start + span.len → segments[i]? = some 0

theorem isZeros_nil {segments : List Nat} : IsZeros segments ⟨0, 0⟩ :=
  ⟨Nat.zero_le _, fun i _ hi => absurd hi (Nat.not_lt_zero i)⟩

theorem longestZeros_isZeros {segments : List Nat} {current longest : Span} (before : List Nat) :
    ∀ rest, segments = before ++ rest → IsZeros segments longest → IsZeros segments current →
    (current.len ≠ 0 → current.start + current.len = before.length) →
    IsZeros segments (longestZeros rest before.length current longest) := by
  intro rest
  induction rest generalizing before current longest with
  | nil =>
      intro _ hlongest _ _
      exact hlongest
  | cons segment rest ih =>
      intro hsegments hlongest hcurrent hend
      have hnext : segments = (before ++ [segment]) ++ rest := by rw [hsegments]; simp
      have hlength : (before ++ [segment]).length = before.length + 1 := by simp
      rw [longestZeros]
      split
      · next hzero =>
          have hhere : segments[before.length]? = some 0 := by
            rw [hsegments, List.getElem?_append_right (Nat.le_refl _)]
            simp [hzero]
          have htotal : before.length + 1 ≤ segments.length := by
            rw [hsegments]
            simp
          let grown : Span :=
            ⟨if current.len = 0 then before.length else current.start, current.len + 1⟩
          have hgrownEnd : grown.start + grown.len = before.length + 1 := by
            simp only [grown]
            split
            · next hnone => rw [hnone]
            · next hsome =>
                have := hend hsome
                omega
          have hgrown : IsZeros segments grown := by
            refine ⟨by omega, ?_⟩
            intro i hlow hhigh
            rcases Nat.lt_or_ge i before.length with hbefore | hat
            · have hsome : current.len ≠ 0 := by
                intro hnone
                simp only [grown, if_pos hnone] at hlow
                omega
              have hend := hend hsome
              simp only [grown, if_neg hsome] at hlow
              exact hcurrent.zero i hlow (by omega)
            · have hi : i = before.length := by omega
              rw [hi, hhere]
          have hlongest : IsZeros segments
              (if grown.len > longest.len then grown else longest) := by
            split
            · exact hgrown
            · exact hlongest
          have hrest := ih (before ++ [segment]) hnext hlongest hgrown
            fun _ => hgrownEnd.trans hlength.symm
          rw [hlength] at hrest
          exact hrest
      · have hrest := ih (before ++ [segment]) hnext hlongest isZeros_nil (absurd rfl)
        rw [hlength] at hrest
        exact hrest

/-- The segments around the longest run of zeros. -/
theorem segments_eq (bits : BitVec 128) :
    let zeroes := longestZeros (segments bits) 0 ⟨0, 0⟩ ⟨0, 0⟩
    segments bits = (segments bits).take zeroes.start ++ List.replicate zeroes.len 0 ++
      (segments bits).drop (zeroes.start + zeroes.len) := by
  intro zeroes
  have hzeros : IsZeros (segments bits) zeroes :=
    longestZeros_isZeros [] (segments bits) rfl isZeros_nil isZeros_nil (absurd rfl)
  have hmiddle : ((segments bits).drop zeroes.start).take zeroes.len =
      List.replicate zeroes.len 0 := by
    refine List.ext_getElem? fun i => ?_
    rw [List.getElem?_take, List.getElem?_drop, List.getElem?_replicate]
    split
    · next hi => exact hzeros.zero _ (by omega) (by omega)
    · rfl
  rw [← hmiddle, List.append_assoc, ← List.drop_drop, List.take_append_drop, List.take_append_drop]

/-! ### Words -/

theorem hex_ne_nil {chunk : List Nat} : [] ∉ chunk.map (Nat.toDigits 16) := by
  intro h
  obtain ⟨n, -, hn⟩ := List.mem_map.mp h
  exact Nat.toDigits_ne_nil hn

theorem not_mem_hex {c : Char} (hc : c ∉ digitChars) {chunk : List Nat} :
    ∀ w ∈ chunk.map (Nat.toDigits 16), c ∉ w := by
  intro w hw hmem
  obtain ⟨n, -, rfl⟩ := List.mem_map.mp hw
  exact hc (mem_toDigits (by decide) (by decide) n c hmem)

theorem not_mem_subslice {c : Char} (hc : c ∉ digitChars) (hcolon : c ≠ ':') (chunk : List Nat) :
    c ∉ subslice chunk :=
  not_mem_intercalate (by simpa using hcolon) (not_mem_hex hc)

/-- The words between the colons of a part: one empty word if there is no segment. -/
def fields (chunk : List Nat) : List Text :=
  if chunk = [] then [[]] else chunk.map (Nat.toDigits 16)

theorem splitOn_subslice (chunk : List Nat) : (subslice chunk).splitOn ':' = fields chunk := by
  rw [subslice, fields]
  split
  · next hnil =>
      rw [hnil]
      rfl
  · next hne =>
      refine List.splitOn_intercalate ':' (not_mem_hex (by decide)) ?_
      rwa [Ne, List.map_eq_nil_iff]

theorem fields_injective : Function.Injective fields := by
  intro chunk chunk' h
  have hhex : ∀ chunk : List Nat, chunk.map (Nat.toDigits 16) ≠ [[]] := by
    intro chunk hnil
    exact hex_ne_nil (hnil ▸ List.mem_singleton_self _)
  rw [fields, fields] at h
  split at h <;> split at h
  · next hnil hnil' => rw [hnil, hnil']
  · exact absurd h.symm (hhex chunk')
  · exact absurd h (hhex chunk)
  · exact List.map_injective_iff.mpr (toDigits_injective (by decide) (by decide)) h

/-- The two parts around `::` are read back from the words. -/
theorem parts_injective {left left' right right' : List Nat}
    (h : fields left ++ [] :: fields right = fields left' ++ [] :: fields right') :
    left = left' ∧ right = right' := by
  have hfirst : ∀ {a : Nat} {as : List Nat} {rest rest' : List Text},
      fields (a :: as) ++ rest ≠ [] :: rest' := by
    intro a as rest rest' h
    rw [fields, if_neg (by simp)] at h
    exact Nat.toDigits_ne_nil (List.cons.inj h).1
  cases left with
  | nil =>
      cases left' with
      | nil => exact ⟨rfl, fields_injective (List.cons.inj (List.cons.inj h).2).2⟩
      | cons a as => exact absurd h.symm hfirst
  | cons a as =>
      cases left' with
      | nil => exact absurd h hfirst
      | cons a' as' =>
          have hwords : ∀ {a : Nat} {as : List Nat}, [] ∉ fields (a :: as) := by
            intro a as
            rw [fields, if_neg (by simp)]
            exact hex_ne_nil
          obtain ⟨hleft, hright⟩ := append_cons_injective hwords hwords h
          exact ⟨fields_injective hleft, fields_injective hright⟩

theorem toIpv4Mapped_injective {a b : BitVec 128} {ipv4 : BitVec 32}
    (ha : toIpv4Mapped a = some ipv4) (hb : toIpv4Mapped b = some ipv4) : a = b := by
  rw [toIpv4Mapped] at ha hb
  split at ha
  · next hprefix =>
      split at hb
      · next hprefix' =>
          have hlow := congrArg BitVec.toNat ((Option.some.inj ha).trans (Option.some.inj hb).symm)
          rw [BitVec.toNat_ofNat, BitVec.toNat_ofNat] at hlow
          apply BitVec.eq_of_toNat_eq
          omega
      · cases hb
  · cases ha

theorem segments_injective : Function.Injective segments := by
  intro a b h
  have hsize : 2 ^ 128 = 65536 ^ 8 := by norm_num
  exact BitVec.eq_of_toNat_eq (bigEndian_injective (hsize ▸ a.isLt) (hsize ▸ b.isLt) h)

/-- An address that is not mapped determines, by its words, what is around its zeros. -/
theorem unmapped_injective {a b : BitVec 128} (ha : toIpv4Mapped a = none)
    (hb : toIpv4Mapped b = none) (h : display a = display b) : a = b := by
  have hwords := congrArg (List.splitOn ':') h
  have hcompressed : ∀ left right : List Nat,
      (subslice left ++ "::".toList ++ subslice right).splitOn ':' =
        fields left ++ [] :: fields right := by
    intro left right
    show (subslice left ++ [':', ':'] ++ subslice right).splitOn ':' = _
    rw [List.append_assoc]
    show (subslice left ++ ':' :: ([] ++ ':' :: subslice right)).splitOn ':' = _
    rw [List.splitOn_append_cons_self, List.splitOn_append_cons_self, splitOn_subslice,
      splitOn_subslice]
    rfl
  have hplain : ∀ bits, [] ∉ fields (segments bits) := by
    intro bits
    rw [fields, if_neg]
    · exact hex_ne_nil
    · intro hnil
      have := congrArg List.length hnil
      rw [segments, length_bigEndian] at this
      cases this
  have hempty : ∀ left right : List Nat, [] ∈ fields left ++ [] :: fields right := by simp
  have hsegments := segments_eq a
  have hsegments' := segments_eq b
  have hlength : (segments a).length = (segments b).length := by
    rw [segments, segments, length_bigEndian, length_bigEndian]
  simp only [display, ha, hb] at hwords
  dsimp only at hsegments hsegments'
  generalize longestZeros (segments a) 0 ⟨0, 0⟩ ⟨0, 0⟩ = zeroes at hwords hsegments
  generalize longestZeros (segments b) 0 ⟨0, 0⟩ ⟨0, 0⟩ = zeroes' at hwords hsegments'
  split at hwords <;> split at hwords
  · -- both leave zeros out, and as many
    rw [hcompressed, hcompressed] at hwords
    obtain ⟨hleft, hright⟩ := parts_injective hwords
    rw [hleft, hright] at hsegments
    apply segments_injective
    have hlen : zeroes.len = zeroes'.len := by
      have hsize := congrArg List.length hsegments
      have hsize' := congrArg List.length hsegments'
      simp only [List.length_append, List.length_replicate] at hsize hsize'
      omega
    rw [hlen] at hsegments
    exact hsegments.trans hsegments'.symm
  · rw [hcompressed, splitOn_subslice] at hwords
    exact absurd (hwords ▸ hempty _ _) (hplain b)
  · rw [hcompressed, splitOn_subslice] at hwords
    exact absurd (hwords ▸ hempty _ _) (hplain a)
  · rw [splitOn_subslice, splitOn_subslice] at hwords
    exact segments_injective (fields_injective hwords)

/-- Only a mapped address has a dot. -/
theorem dot_mem_display (bits : BitVec 128) : '.' ∈ display bits ↔ toIpv4Mapped bits ≠ none := by
  rw [display]
  split
  · next ipv4 hmapped =>
      have hdot : '.' ∈ Ipv4Addr.display ipv4 := by
        rw [Ipv4Addr.display, Ipv4Addr.octets]
        simp only [bigEndian, List.nil_append, List.cons_append, List.map_cons, List.map_nil,
          List.intercalate_cons_cons]
        exact List.mem_append_left _ (List.mem_append_right _ (List.mem_singleton_self _))
      simp [hmapped, hdot]
  · next hplain =>
      have hnone : ∀ chunk, '.' ∉ subslice chunk := not_mem_subslice (by decide) (by decide)
      dsimp only
      split
      · simp [hplain, hnone]
      · simp [hplain, hnone]

theorem display_injective : Function.Injective display := by
  intro a b h
  cases ha : toIpv4Mapped a with
  | none =>
      have hb : toIpv4Mapped b = none := by
        by_contra hmapped
        have hdot := (dot_mem_display b).mpr hmapped
        rw [← h] at hdot
        exact (dot_mem_display a).mp hdot ha
      exact unmapped_injective ha hb h
  | some ipv4 =>
      cases hb : toIpv4Mapped b with
      | none =>
          have hdot := (dot_mem_display a).mpr (by simp [ha])
          rw [h] at hdot
          exact absurd hb ((dot_mem_display b).mp hdot)
      | some ipv4' =>
          simp only [display, ha, hb] at h
          cases Ipv4Addr.display_injective (List.append_cancel_left h)
          exact toIpv4Mapped_injective ha hb

theorem not_mem_display {c : Char} (hc : c ∉ digitChars) (hcolon : c ≠ ':') (hdot : c ≠ '.')
    (bits : BitVec 128) : c ∉ display bits := by
  have hpart := not_mem_subslice hc hcolon
  rw [display]
  split
  · refine List.not_mem_append ?_ (Ipv4Addr.not_mem_display hc hdot _)
    intro hmem
    have hprefix : c = ':' ∨ c = 'f' ∨ c = ':' := by simpa using hmem
    rcases hprefix with rfl | rfl | rfl
    · exact hcolon rfl
    · exact hc (by decide)
    · exact hcolon rfl
  · dsimp only
    split
    · refine List.not_mem_append (List.not_mem_append (hpart _) ?_) (hpart _)
      simpa using hcolon
    · exact hpart _

end Ipv6Addr

/-! ## Endpoints -/

/-- What the text of an endpoint shows: an IPv4 address has no scope. -/
def shownEndpoint (address : IpAddr) (scopeId : Option UInt32) : IpAddr × Option UInt32 :=
  match address with
  | .v4 bits => (.v4 bits, none)
  | .v6 bits => (.v6 bits, scopeId)

/-- An IPv6 address with its scope, as it stands between the brackets. -/
def scopedIpv6 (bits : BitVec 128) : Option UInt32 → Text
  | some scope => Ipv6Addr.display bits ++ '%' :: decimal scope.toNat
  | none => Ipv6Addr.display bits

theorem socketAddress_v6 (bits : BitVec 128) (scopeId : Option UInt32) (port : UInt16) :
    socketAddress (.v6 bits) scopeId port =
      '[' :: (scopedIpv6 bits scopeId ++ ']' :: ':' :: decimal port.toNat) := by
  cases scopeId <;> simp [socketAddress, scopedIpv6]

theorem not_mem_scopedIpv6 {c : Char} (hc : c ∉ digitChars) (hcolon : c ≠ ':') (hdot : c ≠ '.')
    (hpercent : c ≠ '%') (bits : BitVec 128) (scopeId : Option UInt32) :
    c ∉ scopedIpv6 bits scopeId := by
  have hbits := Ipv6Addr.not_mem_display hc hcolon hdot bits
  cases scopeId with
  | none => exact hbits
  | some scope =>
      refine List.not_mem_append hbits ?_
      rw [List.mem_cons, not_or]
      exact ⟨hpercent, not_mem_decimal hc _⟩

theorem scopedIpv6_injective {bits bits' : BitVec 128} {scopeId scopeId' : Option UInt32}
    (h : scopedIpv6 bits scopeId = scopedIpv6 bits' scopeId') :
    bits = bits' ∧ scopeId = scopeId' := by
  have hpercent : ∀ bits, '%' ∉ Ipv6Addr.display bits :=
    Ipv6Addr.not_mem_display (by decide) (by decide) (by decide)
  have hscoped : ∀ bits scope, '%' ∈ scopedIpv6 bits (some scope) := fun _ _ =>
    List.mem_append_right _ List.mem_cons_self
  cases scopeId with
  | none =>
      cases scopeId' with
      | none => exact ⟨Ipv6Addr.display_injective h, rfl⟩
      | some scope =>
          have hmem := hscoped bits' scope
          rw [← h] at hmem
          exact absurd hmem (hpercent bits)
  | some scope =>
      cases scopeId' with
      | none =>
          have hmem := hscoped bits scope
          rw [h] at hmem
          exact absurd hmem (hpercent bits')
      | some scope' =>
          obtain ⟨hbits, hscope⟩ := append_cons_injective (hpercent bits) (hpercent bits') h
          rw [UInt32.toNat_inj.mp (decimal_injective hscope)]
          exact ⟨Ipv6Addr.display_injective hbits, rfl⟩

/-- The text of an endpoint determines its address, its scope and its port. -/
theorem socketAddress_injective {address address' : IpAddr} {scopeId scopeId' : Option UInt32}
    {port port' : UInt16}
    (h : socketAddress address scopeId port = socketAddress address' scopeId' port') :
    shownEndpoint address scopeId = shownEndpoint address' scopeId' ∧ port = port' := by
  have hport : ∀ {port port' : UInt16}, decimal port.toNat = decimal port'.toNat →
      port = port' := by
    intro port port' h
    exact UInt16.toNat_inj.mp (decimal_injective h)
  have hbracket : ∀ bits scopeId port, '[' ∉ socketAddress (.v4 bits) scopeId port := by
    intro bits scopeId port
    refine List.not_mem_append (Ipv4Addr.not_mem_display (by decide) (by decide) bits) ?_
    rw [List.mem_cons, not_or]
    exact ⟨by decide, not_mem_decimal (by decide) _⟩
  have hclose : ∀ bits scopeId, ']' ∉ scopedIpv6 bits scopeId :=
    not_mem_scopedIpv6 (by decide) (by decide) (by decide) (by decide)
  cases address with
  | v4 bits =>
      cases address' with
      | v4 bits' =>
          have hcolon : ∀ bits, ':' ∉ Ipv4Addr.display bits :=
            Ipv4Addr.not_mem_display (by decide) (by decide)
          obtain ⟨hbits, hrest⟩ := append_cons_injective (hcolon bits) (hcolon bits') h
          rw [Ipv4Addr.display_injective hbits]
          exact ⟨rfl, hport hrest⟩
      | v6 bits' =>
          rw [socketAddress_v6] at h
          exact absurd (h ▸ List.mem_cons_self) (hbracket bits scopeId port)
  | v6 bits =>
      rw [socketAddress_v6] at h
      cases address' with
      | v4 bits' => exact absurd (h ▸ List.mem_cons_self) (hbracket bits' scopeId' port')
      | v6 bits' =>
          rw [socketAddress_v6] at h
          obtain ⟨hbits, hrest⟩ := append_cons_injective (hclose bits scopeId)
            (hclose bits' scopeId') (List.cons.inj h).2
          obtain ⟨rfl, rfl⟩ := scopedIpv6_injective hbits
          exact ⟨rfl, hport (List.cons.inj hrest).2⟩

end LocalTransfer
