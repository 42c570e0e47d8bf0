import LocalTransfer.Discovery.Report

/-!
# Reading a report

A report is read back from its text alone: each line of the text is one the command line meant
to write, whatever names and sessions the devices advertise, so the lines of the cards are told
by their labels. The text determines what is shown of every device (`report_determines_devices`).
-/

namespace LocalTransfer

open Lib

/-! ## Lines of a text -/

/-- Lines as they are written. -/
def reportText (lines : List Text) : Text := lines.flatMap (· ++ ['\n'])

theorem splitOn_reportText {lines : List Text} (h : ∀ line ∈ lines, '\n' ∉ line) :
    (reportText lines).splitOn '\n' = lines ++ [[]] := by
  induction lines with
  | nil => rfl
  | cons line lines ih =>
      have hrest := ih fun l hl => h l (List.mem_cons_of_mem _ hl)
      rw [reportText, List.flatMap_cons, List.append_assoc, List.singleton_append,
        List.splitOn_append_cons_self_of_not_mem (h line List.mem_cons_self)]
      exact congrArg (line :: ·) hrest

/-- A text without control characters stays on its line. -/
theorem newline_not_mem {text : Text} (h : text.any isControl = false) : '\n' ∉ text := by
  intro hmem
  have hcontrol := List.any_eq_false.mp h '\n' hmem
  exact hcontrol (by decide)

theorem TransientDiscoveryKey.newline_not_mem (key : TransientDiscoveryKey) :
    '\n' ∉ key.asStr := LocalTransfer.newline_not_mem key.noControl

theorem newline_not_mem_renderTransition (t : DiscoveredPeerTransition) :
    '\n' ∉ renderTransition t := by
  have hkey := TransientDiscoveryKey.newline_not_mem
  cases t with
  | appeared key => exact List.not_mem_append (by decide) (hkey key)
  | refreshed key => exact List.not_mem_append (by decide) (hkey key)
  | updated key => exact List.not_mem_append (by decide) (hkey key)
  | removed key reason =>
      cases reason <;>
        exact List.not_mem_append (List.not_mem_append (by decide) (hkey key)) (by decide)
  | noop key reason =>
      cases reason <;>
        exact List.not_mem_append (List.not_mem_append (by decide) (hkey key)) (by decide)
  | rejected error =>
      refine List.not_mem_append (by decide) ?_
      cases error.kind <;> decide

theorem not_mem_socketAddress {c : Char} (hc : c ∉ digitChars) (hpunct : c ∉ ":.%[]".toList)
    (address : IpAddr) (scopeId : Option UInt32) (port : UInt16) :
    c ∉ socketAddress address scopeId port := by
  obtain ⟨hcolon, hdot, hpercent, hopen, hclose⟩ :
      c ≠ ':' ∧ c ≠ '.' ∧ c ≠ '%' ∧ c ≠ '[' ∧ c ≠ ']' := by simpa using hpunct
  have hport := not_mem_decimal hc port.toNat
  cases address with
  | v4 bits =>
      refine List.not_mem_append (Ipv4Addr.not_mem_display hc hdot bits) ?_
      rw [List.mem_cons, not_or]
      exact ⟨hcolon, hport⟩
  | v6 bits =>
      rw [socketAddress_v6, List.mem_cons, not_or]
      refine ⟨hopen, List.not_mem_append (not_mem_scopedIpv6 hc hcolon hdot hpercent _ _) ?_⟩
      rw [List.mem_cons, List.mem_cons, not_or, not_or]
      exact ⟨hclose, hcolon, hport⟩

theorem newline_not_mem_line (peer : DiscoveredPeer) (kind : CardLine) :
    '\n' ∉ (DeviceCard.fromPeer peer).line kind := by
  refine List.not_mem_append (by cases kind <;> decide) ?_
  cases kind with
  | title =>
      have hname : '\n' ∉ (DeviceCard.fromPeer peer).name.getD "unnamed".toList := by
        show '\n' ∉ (peer.metadata.name.map DiscoveryNameHint.asStr).getD "unnamed".toList
        cases peer.metadata.name with
        | none => decide
        | some name => exact newline_not_mem name.noControl
      have hplatform : ∀ platform, '\n' ∉ platformLabel platform := by
        intro platform
        rcases platform with _ | (_ | _ | _) <;> decide
      exact List.not_mem_append (List.not_mem_append (List.not_mem_append hname (by decide))
        (hplatform _)) (by decide)
  | session => exact peer.key.newline_not_mem
  | protocol => exact not_mem_decimal (by decide) _
  | address =>
      refine not_mem_intercalate (by decide) ?_
      intro address haddress
      obtain ⟨endpoint, -, rfl⟩ := List.mem_map.mp haddress
      exact not_mem_socketAddress (by decide) (by decide) _ _ _

/-! ## The lines of a report -/

/-- The cards of these peers, as a report lists them. -/
def orderedCards (peers : List DiscoveredPeer) : List DeviceCard :=
  sortByKey DeviceCard.sortKey (peers.map DeviceCard.fromPeer)

/-- The report of these transitions, if they were asked for, and these peers. -/
def reportOf (events : Option (List DiscoveredPeerTransition)) (peers : List DiscoveredPeer) :
    List Text :=
  reportLines events.isSome ((events.getD []).map renderTransition)
    (peers.map DeviceCard.fromPeer)

theorem mem_orderedCards {peers : List DiscoveredPeer} {card : DeviceCard}
    (h : card ∈ orderedCards peers) : ∃ peer, card = .fromPeer peer := by
  obtain ⟨peer, -, rfl⟩ := List.mem_map.mp (mem_sortByKey.mp h)
  exact ⟨peer, rfl⟩

/-- The lines that are not of a card, which no device has a say in, but for the keys of the
transitions. -/
inductive Framing : Text → Prop
  | notice : Framing advisoryNotice
  | blank : Framing []
  | noEvents : Framing "No discovery events were observed.".toList
  | event (t : DiscoveredPeerTransition) : Framing (renderTransition t)
  | noDevices : Framing "No nearby devices are currently visible.".toList
  | count (n : Nat) : Framing (decimal n ++ " nearby device(s) currently visible:".toList)

theorem Framing.newline_not_mem {line : Text} (h : Framing line) : '\n' ∉ line := by
  cases h with
  | notice =>
      have hnotice : '\n' ∉ advisoryNotice :=
        List.not_mem_append (List.not_mem_append (List.not_mem_append (by decide) (by decide))
          (by decide)) (by decide)
      exact hnotice
  | blank => exact List.not_mem_nil
  | noEvents => decide
  | event t => exact newline_not_mem_renderTransition t
  | noDevices => decide
  | count n => exact List.not_mem_append (not_mem_decimal (by decide) n) (by decide)

theorem isPrefixOf_cons_ne {c d : Char} {label line : Text} (h : c ≠ d) :
    (c :: label).isPrefixOf (d :: line) = false := by
  rw [List.isPrefixOf_cons_cons, beq_eq_false_iff_ne.mpr h, Bool.false_and]

/-- No label begins another line than its own. -/
theorem Framing.not_labelled {line : Text} (h : Framing line) (kind : CardLine) :
    kind.label.isPrefixOf line = false := by
  cases h with
  | notice => cases kind <;> rfl
  | blank => cases kind <;> rfl
  | noEvents => cases kind <;> rfl
  | event t =>
      cases t with
      | appeared key | refreshed key | updated key | rejected error => cases kind <;> rfl
      | removed key reason | noop key reason => cases reason <;> cases kind <;> rfl
  | noDevices => cases kind <;> rfl
  | count n =>
      obtain ⟨digit, rest, hdecimal⟩ := List.exists_cons_of_ne_nil (decimal_ne_nil n)
      have hdigit : digit ∈ digitChars :=
        mem_toDigits (by decide) (by decide) n digit (hdecimal ▸ List.mem_cons_self)
      have hdash : '-' ≠ digit := by
        rintro rfl
        exact absurd hdigit (by decide)
      have hspace : ' ' ≠ digit := by
        rintro rfl
        exact absurd hdigit (by decide)
      rw [hdecimal, List.cons_append]
      cases kind
      · exact isPrefixOf_cons_ne hdash
      · exact isPrefixOf_cons_ne hspace
      · exact isPrefixOf_cons_ne hspace
      · exact isPrefixOf_cons_ne hspace

theorem framing_eventLines (events : Option (List DiscoveredPeerTransition)) :
    ∀ line ∈ eventLines events.isSome ((events.getD []).map renderTransition), Framing line := by
  intro line hline
  rw [eventLines] at hline
  split at hline
  · rcases List.mem_cons.mp hline with rfl | hline
    · exact .blank
    · split at hline
      · rw [List.mem_singleton.mp hline]
        exact .noEvents
      · obtain ⟨t, -, rfl⟩ := List.mem_map.mp hline
        exact .event t
  · cases hline

theorem mem_reportOf {events : Option (List DiscoveredPeerTransition)}
    {peers : List DiscoveredPeer} {line : Text} (h : line ∈ reportOf events peers) :
    Framing line ∨ ∃ peer kind, line = (DeviceCard.fromPeer peer).line kind := by
  rw [reportOf, reportLines, List.mem_cons, List.mem_append, List.mem_cons] at h
  rcases h with h | h | h | h
  · rw [h]
    exact .inl .notice
  · exact .inl (framing_eventLines events line h)
  · rw [h]
    exact .inl .blank
  rw [snapshotLines] at h
  split at h
  · rw [List.mem_singleton.mp h]
    exact .inl .noDevices
  · rcases List.mem_cons.mp h with rfl | h
    · exact .inl (.count _)
    · obtain ⟨card, hcard, hline⟩ := List.mem_flatMap.mp h
      obtain ⟨peer, rfl⟩ := mem_orderedCards hcard
      simp only [DeviceCard.lines, List.mem_cons, List.not_mem_nil, or_false] at hline
      rcases hline with rfl | hline | hline | hline | hline
      · exact .inl .blank
      · exact .inr ⟨peer, _, hline⟩
      · exact .inr ⟨peer, _, hline⟩
      · exact .inr ⟨peer, _, hline⟩
      · exact .inr ⟨peer, _, hline⟩

/-- A report is as many lines as were written. -/
theorem splitOn_reportOf (events : Option (List DiscoveredPeerTransition))
    (peers : List DiscoveredPeer) :
    (reportText (reportOf events peers)).splitOn '\n' = reportOf events peers ++ [[]] := by
  refine splitOn_reportText ?_
  intro line hline
  rcases mem_reportOf hline with hframing | ⟨peer, kind, rfl⟩
  · exact hframing.newline_not_mem
  · exact newline_not_mem_line peer kind

/-! ## The cards -/

/-- What a text tells of every device, line by line. -/
def readCards (kind : CardLine) (text : Text) : List Text :=
  ((text.splitOn '\n').filter kind.label.isPrefixOf).map (List.drop kind.label.length)

theorem filter_framing {lines : List Text} (h : ∀ line ∈ lines, Framing line) (kind : CardLine) :
    lines.filter kind.label.isPrefixOf = [] := by
  rw [List.filter_eq_nil_iff]
  intro line hline
  rw [(h line hline).not_labelled]
  decide

theorem filter_lines (card : DeviceCard) (kind : CardLine) :
    card.lines.filter kind.label.isPrefixOf = [card.line kind] := by
  cases kind <;> rfl

theorem filter_snapshotLines (peers : List DiscoveredPeer) (kind : CardLine) :
    (snapshotLines (peers.map DeviceCard.fromPeer)).filter kind.label.isPrefixOf =
      (orderedCards peers).map fun card => card.line kind := by
  have hcards : ∀ cards : List DeviceCard,
      (cards.flatMap DeviceCard.lines).filter kind.label.isPrefixOf =
        cards.map fun card => card.line kind := by
    intro cards
    induction cards with
    | nil => rfl
    | cons card cards ih =>
        rw [List.flatMap_cons, List.filter_append, ih, filter_lines]
        rfl
  rw [snapshotLines]
  split
  · next hempty =>
      rw [orderedCards, List.isEmpty_iff.mp hempty,
        filter_framing (fun line hline => List.mem_singleton.mp hline ▸ .noDevices)]
      rfl
  · rw [List.filter_cons_of_neg (by rw [(Framing.count _).not_labelled]; decide)]
    exact hcards _

/-- The labelled lines of a report are those of its cards. -/
theorem readCards_reportOf (kind : CardLine) (events : Option (List DiscoveredPeerTransition))
    (peers : List DiscoveredPeer) :
    readCards kind (reportText (reportOf events peers)) =
      (orderedCards peers).map fun card => card.content kind := by
  have hnone : ∀ {line : Text}, Framing line → ¬ kind.label.isPrefixOf line = true := by
    intro line h
    rw [h.not_labelled]
    decide
  rw [readCards, splitOn_reportOf, reportOf, reportLines, List.filter_append,
    List.filter_cons_of_neg (hnone .notice), List.filter_append,
    filter_framing (framing_eventLines events), List.filter_cons_of_neg (hnone .blank),
    filter_snapshotLines, List.filter_cons_of_neg (hnone .blank), List.filter_nil,
    List.nil_append, List.append_nil, List.map_map]
  refine List.map_congr_left ?_
  intro card _
  exact List.drop_left

/-! ## What is shown -/

/-- What a card shows of a peer: an unnamed device reads as one with that name. -/
structure ShownPeer where
  key : TransientDiscoveryKey
  name : Text
  platform : Option DiscoveryPlatformHint
  protocolMajor : UInt16
  endpoints : List ((IpAddr × Option UInt32) × UInt16)

def DiscoveredPeer.shown (peer : DiscoveredPeer) : ShownPeer where
  key := peer.key
  name := (peer.metadata.name.map DiscoveryNameHint.asStr).getD "unnamed".toList
  platform := peer.metadata.platform
  protocolMajor := peer.protocolMajor
  endpoints := peer.endpoints.map fun endpoint =>
    (shownEndpoint endpoint.address endpoint.scopeId, peer.port)

/-- The cards come in the order of the keys. -/
theorem orderedCards_eq (peers : List DiscoveredPeer) :
    orderedCards peers = (sortByKey DiscoveredPeer.key peers).map DeviceCard.fromPeer := by
  refine (List.map_insertionSort _ _ DeviceCard.fromPeer peers ?_).symm
  intro a _ b _
  exact Iff.rfl

theorem platformLabel_injective : Function.Injective platformLabel := by
  intro a b h
  rcases a with _ | (_ | _ | _) <;> rcases b with _ | (_ | _ | _) <;>
    first | rfl | exact absurd h (by decide)

/-- The last parenthesis of a title opens the platform. -/
theorem title_injective {name name' : Text} {platform platform' : Option DiscoveryPlatformHint}
    (h : name ++ " (".toList ++ platformLabel platform ++ ")".toList =
      name' ++ " (".toList ++ platformLabel platform' ++ ")".toList) :
    name = name' ∧ platform = platform' := by
  have hlabel : ∀ platform, '(' ∉ (platformLabel platform).reverse := by
    intro platform
    rcases platform with _ | (_ | _ | _) <;> decide
  have hreversed := congrArg List.reverse (List.append_cancel_right h)
  simp only [List.reverse_append] at hreversed
  obtain ⟨hplatform, hname⟩ := append_cons_injective (hlabel platform) (hlabel platform') hreversed
  refine ⟨List.reverse_injective (List.cons.inj hname).2, ?_⟩
  exact platformLabel_injective (List.reverse_injective hplatform)

theorem addresses_injective {words words' : List Text} (hwords : ∀ w ∈ words, ',' ∉ w ∧ w ≠ [])
    (hwords' : ∀ w ∈ words', ',' ∉ w ∧ w ≠ [])
    (h : ", ".toList.intercalate words = ", ".toList.intercalate words') : words = words' := by
  have hne : ∀ {words : List Text}, (∀ w ∈ words, ',' ∉ w ∧ w ≠ []) → words ≠ [] →
      ", ".toList.intercalate words ≠ [] := by
    intro words h hne
    obtain ⟨word, rest, rfl⟩ := List.exists_cons_of_ne_nil hne
    have hword := (h word List.mem_cons_self).2
    cases rest with
    | nil => rwa [List.intercalate_singleton]
    | cons next rest =>
        rw [List.intercalate_cons_cons]
        simp [hword]
  cases words with
  | nil =>
      cases words' with
      | nil => rfl
      | cons word' words' => exact absurd h.symm (hne hwords' (List.cons_ne_nil _ _))
  | cons word words =>
      cases words' with
      | nil => exact absurd h (hne hwords (List.cons_ne_nil _ _))
      | cons word' words' =>
          exact intercalate_injective (by decide) (fun w hw => (hwords w hw).1)
            (fun w hw => (hwords' w hw).1) (List.cons_ne_nil _ _) (List.cons_ne_nil _ _) h

/-- Lists that agree in every reading agree in what the readings determine. -/
theorem map_eq_map_of_readings {ι α β γ : Type} [Nonempty ι] {read : ι → α → β} {g : α → γ}
    (hread : ∀ a b, (∀ i, read i a = read i b) → g a = g b) {l l' : List α}
    (h : ∀ i, l.map (read i) = l'.map (read i)) : l.map g = l'.map g := by
  induction l generalizing l' with
  | nil =>
      obtain ⟨i⟩ := ‹Nonempty ι›
      rw [List.map_eq_nil_iff.mp (h i).symm]
  | cons a l ih =>
      obtain ⟨i⟩ := ‹Nonempty ι›
      cases l' with
      | nil => cases h i
      | cons b l' =>
          rw [List.map_cons, List.map_cons, hread a b fun i => (List.cons.inj (h i)).1,
            ih fun i => (List.cons.inj (h i)).2]

/-- The lines of a card determine what it shows. -/
theorem shown_of_content {peer peer' : DiscoveredPeer}
    (h : ∀ kind, (DeviceCard.fromPeer peer).content kind =
      (DeviceCard.fromPeer peer').content kind) : peer.shown = peer'.shown := by
  have haddress : ∀ peer : DiscoveredPeer, ∀ w ∈ (DeviceCard.fromPeer peer).addresses,
      ',' ∉ w ∧ w ≠ [] := by
    intro peer w hw
    obtain ⟨endpoint, -, rfl⟩ := List.mem_map.mp hw
    refine ⟨not_mem_socketAddress (by decide) (by decide) _ _ _, ?_⟩
    cases endpoint.address with
    | v4 bits => simp [socketAddress]
    | v6 bits => simp [socketAddress_v6]
  have hkey : peer.key = peer'.key := TransientDiscoveryKey.ext (h .session)
  obtain ⟨hname, hplatform⟩ := title_injective (h .title)
  have hprotocol : peer.protocolMajor = peer'.protocolMajor :=
    UInt16.toNat_inj.mp (decimal_injective (h .protocol))
  have haddresses := addresses_injective (haddress peer) (haddress peer') (h .address)
  have hendpoints : peer.shown.endpoints = peer'.shown.endpoints := by
    -- each endpoint with the port it is shown with
    let ported := fun peer : DiscoveredPeer =>
      peer.endpoints.map fun endpoint => (endpoint, peer.port.val)
    let read := fun (_ : Unit) (pair : DiscoveryEndpoint × UInt16) =>
      socketAddress pair.1.address pair.1.scopeId pair.2
    let shown := fun pair : DiscoveryEndpoint × UInt16 =>
      (shownEndpoint pair.1.address pair.1.scopeId, pair.2)
    have hread : ∀ a b, (∀ i, read i a = read i b) → shown a = shown b := by
      intro a b h
      obtain ⟨hendpoint, hport⟩ := socketAddress_injective (h ())
      exact Prod.ext hendpoint hport
    have hlists : (ported peer).map shown = (ported peer').map shown := by
      refine map_eq_map_of_readings hread ?_
      intro i
      simp only [ported, read, List.map_map]
      exact haddresses
    simp only [ported, shown, List.map_map] at hlists
    exact hlists
  have hname' : peer.shown.name = peer'.shown.name := hname
  have hplatform' : peer.metadata.platform = peer'.metadata.platform := hplatform
  rw [show peer.shown = ⟨peer.key, peer.shown.name, peer.metadata.platform, peer.protocolMajor,
    peer.shown.endpoints⟩ from rfl, hkey, hname', hplatform', hprotocol, hendpoints]
  rfl

/-- Two reports with one text show the same of the same devices, in the same order. -/
theorem report_determines_devices {events events' : Option (List DiscoveredPeerTransition)}
    {peers peers' : List DiscoveredPeer}
    (h : reportText (reportOf events peers) = reportText (reportOf events' peers')) :
    (sortByKey DiscoveredPeer.key peers).map DiscoveredPeer.shown =
      (sortByKey DiscoveredPeer.key peers').map DiscoveredPeer.shown := by
  have : Nonempty CardLine := ⟨.session⟩
  refine map_eq_map_of_readings (fun _ _ => shown_of_content) ?_
  intro kind
  have hread := congrArg (readCards kind) h
  rwa [readCards_reportOf, readCards_reportOf, orderedCards_eq, orderedCards_eq, List.map_map,
    List.map_map] at hread

/-- A device without a name. -/
def nameless : DiscoveredPeer where
  key := ⟨"lt-a".toList ++ transientKeySuffix, ⟨_, by decide, rfl⟩, by decide, by decide⟩
  metadata := ⟨.initial, none, none⟩
  port := ⟨4242, by decide⟩
  endpoints := [⟨.v4 0xC0000201#32, none⟩]
  protocolMajor := 1

/-- A device that calls itself unnamed. -/
def selfNamed : DiscoveredPeer :=
  { nameless with
    metadata := ⟨.initial, some ⟨"unnamed".toList, by decide, by decide, by decide⟩, none⟩ }

/-- Reports of different devices may have one text. -/
theorem report_determines_devices_unnamed : nameless ≠ selfNamed ∧
    (sortByKey DiscoveredPeer.key [nameless]).map DiscoveredPeer.shown =
      (sortByKey DiscoveredPeer.key [selfNamed]).map DiscoveredPeer.shown := by
  have htext : reportText (reportOf none [nameless]) = reportText (reportOf none [selfNamed]) :=
    rfl
  exact ⟨by decide, report_determines_devices htext⟩

end LocalTransfer
