import LocalTransfer.Discovery.PassReport

/-!
# The printed transitions

The lines of the transitions are read off the text of a report, too. Whoever follows them ends
with the sessions that the same text lists (`printed_events_account`).
-/

namespace LocalTransfer

open Lib

/-! ## Reading -/

/-- The lines between the notice and the devices, of a report with transitions. -/
def readEvents (text : Text) : List Text :=
  ((text.splitOn '\n').drop 2).takeWhile fun line => !line.isEmpty

def appearedLabel : Text := "appeared   ".toList
def removedLabel : Text := "removed    ".toList
def expiredLabel : Text := "expired    ".toList

/-- What a line says about a session: that it has appeared, or that it is gone. -/
def readChange (session line : Text) : Option Bool :=
  if line = appearedLabel ++ session then some true
  else if line = removedLabel ++ session ++ "  (no longer advertised)".toList ∨
      line = expiredLabel ++ session ++ "  (not re-observed)".toList then some false
  else none

/-- The visibility of a session after some lines. -/
def readPresence (session : Text) (lines : List Text) : Bool :=
  lines.foldl (fun visible line => (readChange session line).getD visible) false

section Labels

variable {session label rest : Text}

theorem length_appearedLabel : appearedLabel.length = 11 := by decide
theorem length_removedLabel : removedLabel.length = 11 := by decide
theorem length_expiredLabel : expiredLabel.length = 11 := by decide

/-- A line has one label of that length. -/
theorem label_eq {label' rest' : Text} (hlength : label.length = 11)
    (hlength' : label'.length = 11) (h : label ++ rest = label' ++ rest') : label = label' :=
  (List.append_inj h (hlength.trans hlength'.symm)).1

/-- Other labels say nothing. -/
theorem readChange_other (hlength : label.length = 11) (happeared : label ≠ appearedLabel)
    (hremoved : label ≠ removedLabel) (hexpired : label ≠ expiredLabel) :
    readChange session (label ++ rest) = none := by
  rw [readChange, if_neg, if_neg]
  · intro heq
    rcases heq with heq | heq
    · rw [List.append_assoc] at heq
      exact hremoved (label_eq hlength length_removedLabel heq)
    · rw [List.append_assoc] at heq
      exact hexpired (label_eq hlength length_expiredLabel heq)
  · intro heq
    exact happeared (label_eq hlength length_appearedLabel heq)

theorem readChange_appeared :
    readChange session (appearedLabel ++ rest) = if rest = session then some true else none := by
  by_cases hsession : rest = session
  · rw [if_pos hsession, hsession, readChange, if_pos rfl]
  · rw [if_neg hsession, readChange, if_neg fun heq => hsession (List.append_cancel_left heq),
      if_neg]
    intro heq
    rcases heq with heq | heq
    · rw [List.append_assoc] at heq
      exact absurd (label_eq length_appearedLabel length_removedLabel heq) (by decide)
    · rw [List.append_assoc] at heq
      exact absurd (label_eq length_appearedLabel length_expiredLabel heq) (by decide)

theorem readChange_removed :
    readChange session (removedLabel ++ rest ++ "  (no longer advertised)".toList) =
      if rest = session then some false else none := by
  have happeared : removedLabel ++ rest ++ "  (no longer advertised)".toList ≠
      appearedLabel ++ session := by
    intro heq
    rw [List.append_assoc] at heq
    exact absurd (label_eq length_removedLabel length_appearedLabel heq) (by decide)
  rw [readChange, if_neg happeared]
  by_cases hsession : rest = session
  · rw [if_pos hsession, hsession, if_pos (.inl rfl)]
  · rw [if_neg hsession, if_neg]
    intro heq
    rcases heq with heq | heq
    · exact hsession (List.append_cancel_left (List.append_cancel_right heq))
    · rw [List.append_assoc, List.append_assoc] at heq
      exact absurd (label_eq length_removedLabel length_expiredLabel heq) (by decide)

theorem readChange_expired :
    readChange session (expiredLabel ++ rest ++ "  (not re-observed)".toList) =
      if rest = session then some false else none := by
  have happeared : expiredLabel ++ rest ++ "  (not re-observed)".toList ≠
      appearedLabel ++ session := by
    intro heq
    rw [List.append_assoc] at heq
    exact absurd (label_eq length_expiredLabel length_appearedLabel heq) (by decide)
  rw [readChange, if_neg happeared]
  by_cases hsession : rest = session
  · rw [if_pos hsession, hsession, if_pos (.inr rfl)]
  · rw [if_neg hsession, if_neg]
    intro heq
    rcases heq with heq | heq
    · rw [List.append_assoc, List.append_assoc] at heq
      exact absurd (label_eq length_expiredLabel length_removedLabel heq) (by decide)
    · exact hsession (List.append_cancel_left (List.append_cancel_right heq))

end Labels

/-- A line is read as what the transition does to its own key. -/
theorem readChange_renderTransition (session : Text) (t : DiscoveredPeerTransition) :
    readChange session (renderTransition t) =
      match t with
      | .appeared key => if key.asStr = session then some true else none
      | .removed key _ => if key.asStr = session then some false else none
      | .refreshed _ | .updated _ | .noop _ _ | .rejected _ => none := by
  cases t with
  | appeared key => exact readChange_appeared
  | refreshed key => exact readChange_other (by decide) (by decide) (by decide) (by decide)
  | updated key => exact readChange_other (by decide) (by decide) (by decide) (by decide)
  | removed key reason =>
      cases reason with
      | explicit => exact readChange_removed
      | expired => exact readChange_expired
  | noop key reason =>
      have hignored : ∀ suffix, readChange session ("ignored    ".toList ++ key.asStr ++ suffix) =
          none := by
        intro suffix
        rw [List.append_assoc]
        exact readChange_other (by decide) (by decide) (by decide) (by decide)
      cases reason with
      | alreadyAbsent => exact hignored _
      | stale => exact hignored _
  | rejected error => exact readChange_other (by decide) (by decide) (by decide) (by decide)

theorem readChange_key (key : TransientDiscoveryKey) (t : DiscoveredPeerTransition) :
    readChange key.asStr (renderTransition t) = t.change key := by
  have hkey : ∀ k : TransientDiscoveryKey, k.asStr = key.asStr ↔ k = key :=
    fun k => ⟨TransientDiscoveryKey.ext, congrArg TransientDiscoveryKey.asStr⟩
  rw [readChange_renderTransition]
  cases t <;> simp only [DiscoveredPeerTransition.change, hkey]

theorem readChange_of_ne {session : Text} {t : DiscoveredPeerTransition}
    (h : ∀ key : TransientDiscoveryKey, key.asStr ≠ session) :
    readChange session (renderTransition t) = none := by
  rw [readChange_renderTransition]
  cases t <;> simp only [if_neg (h _)]

theorem renderTransition_ne_nil (t : DiscoveredPeerTransition) : renderTransition t ≠ [] := by
  cases t with
  | appeared key => exact List.append_ne_nil_of_left_ne_nil (by decide) _
  | refreshed key => exact List.append_ne_nil_of_left_ne_nil (by decide) _
  | updated key => exact List.append_ne_nil_of_left_ne_nil (by decide) _
  | removed key reason =>
      cases reason <;> exact List.append_ne_nil_of_right_ne_nil _ (by decide)
  | noop key reason =>
      cases reason <;> exact List.append_ne_nil_of_right_ne_nil _ (by decide)
  | rejected error => exact List.append_ne_nil_of_left_ne_nil (by decide) _

/-- The transitions are read up to the next blank line. -/
theorem readEvents_reportOf (events : List DiscoveredPeerTransition)
    (peers : List DiscoveredPeer) :
    readEvents (reportText (reportOf (some events) peers)) =
      if (events.map renderTransition).isEmpty then
        ["No discovery events were observed.".toList]
      else events.map renderTransition := by
  have hlines : ∀ lines rest : List Text, (∀ line ∈ lines, line ≠ []) →
      (lines ++ [] :: rest).takeWhile (fun line => !line.isEmpty) = lines := by
    intro lines rest h
    rw [List.takeWhile_append_of_pos, List.takeWhile_cons_of_neg (by simp), List.append_nil]
    intro line hline
    simpa using h line hline
  have hnonempty : ∀ line ∈ (if (events.map renderTransition).isEmpty then
      ["No discovery events were observed.".toList] else events.map renderTransition),
      line ≠ [] := by
    intro line hline
    split at hline
    · rw [List.mem_singleton.mp hline]
      decide
    · obtain ⟨t, -, rfl⟩ := List.mem_map.mp hline
      exact renderTransition_ne_nil t
  rw [readEvents, splitOn_reportOf]
  exact (congrArg _ (List.append_assoc _ _ _)).trans (hlines _ _ hnonempty)

/-- Following the lines is following the transitions. -/
theorem readPresence_reportOf (session : Text) (events : List DiscoveredPeerTransition)
    (peers : List DiscoveredPeer) :
    readPresence session (readEvents (reportText (reportOf (some events) peers))) =
      events.foldl (fun visible t => (readChange session (renderTransition t)).getD visible)
        false := by
  have hnone : readChange session "No discovery events were observed.".toList = none := by
    have hline : "No discovery events were observed.".toList =
        "No discover".toList ++ "y events were observed.".toList := by decide
    rw [hline]
    exact readChange_other (by decide) (by decide) (by decide) (by decide)
  rw [readEvents_reportOf]
  cases events with
  | nil =>
      show (readChange session "No discovery events were observed.".toList).getD false = false
      rw [hnone]
      rfl
  | cons t events =>
      show ((t :: events).map renderTransition).foldl _ false = _
      rw [List.foldl_map]

theorem readPresence_key (key : TransientDiscoveryKey) (events : List DiscoveredPeerTransition)
    (peers : List DiscoveredPeer) :
    readPresence key.asStr (readEvents (reportText (reportOf (some events) peers))) =
      presence key false events := by
  rw [readPresence_reportOf, presence]
  simp only [readChange_key]

theorem readPresence_of_ne {session : Text}
    (h : ∀ key : TransientDiscoveryKey, key.asStr ≠ session)
    (events : List DiscoveredPeerTransition) (peers : List DiscoveredPeer) :
    readPresence session (readEvents (reportText (reportOf (some events) peers))) = false := by
  rw [readPresence_reportOf]
  simp only [readChange_of_ne h, Option.getD_none, List.foldl_fixed]

/-! ## What a pass prints -/

/-- The sessions that a report of the visible peers lists. -/
theorem readCards_session (events : Option (List DiscoveredPeerTransition))
    (peers : List DiscoveredPeer) :
    readCards .session (reportText (reportOf events peers)) =
      (sortByKey DiscoveredPeer.key peers).map fun peer => peer.key.asStr := by
  rw [readCards_reportOf, orderedCards_eq, List.map_map]
  rfl

/-- The peers of a state whose transitions account for it: one for every key that they leave
visible. -/
theorem Accounted.iter_keys {events : List DiscoveredPeerTransition} {state : DiscoveredPeerState}
    (h : Accounted events state) :
    (state.iter.map DiscoveredPeer.key).Nodup ∧
      ∀ key, key ∈ state.iter.map DiscoveredPeer.key ↔ presence key false events = true := by
  rw [DiscoveredPeerState.iter_eq_visibleMap, h.keyed.map_key]
  refine ⟨nodup_keys _, ?_⟩
  intro key
  rw [← h.visible key, Option.isSome_iff_exists, List.mem_map]
  constructor
  · rintro ⟨⟨k, peer⟩, hentry, rfl⟩
    exact ⟨peer, Std.ExtTreeMap.mem_toList_iff_getElem?_eq_some.mp hentry⟩
  · rintro ⟨peer, hpeer⟩
    exact ⟨(key, peer), Std.ExtTreeMap.mem_toList_iff_getElem?_eq_some.mpr hpeer, rfl⟩

/-- A text whose transitions account for its cards: it lists distinct sessions in increasing
order, and they are the ones that its transitions leave visible. -/
structure TextAccounts (text : Text) : Prop where
  ordered : ∃ keys : List TransientDiscoveryKey, keys.Pairwise (· < ·) ∧
    readCards .session text = keys.map TransientDiscoveryKey.asStr
  listed : ∀ session, session ∈ readCards .session text ↔
    readPresence session (readEvents text) = true

theorem accounted_report {events : List DiscoveredPeerTransition} {state : DiscoveredPeerState}
    (h : Accounted events state) :
    TextAccounts
      (reportText (reportOf (some events) (sortByKey DiscoveredPeer.key state.iter))) := by
  obtain ⟨hnodup, hkeys⟩ := h.iter_keys
  have hsorted := strictlyOrdered_sortByKey hnodup
  have hcards := readCards_session (some events) (sortByKey DiscoveredPeer.key state.iter)
  rw [hsorted.sortByKey_eq] at hcards
  refine ⟨⟨(sortByKey DiscoveredPeer.key state.iter).map DiscoveredPeer.key, ?_, ?_⟩, ?_⟩
  · exact List.pairwise_map.mpr hsorted
  · rw [hcards, List.map_map]
    rfl
  · intro session
    rw [hcards]
    by_cases hsession : ∃ key : TransientDiscoveryKey, key.asStr = session
    · obtain ⟨key, rfl⟩ := hsession
      rw [readPresence_key, ← hkeys, List.mem_map, List.mem_map]
      constructor
      · rintro ⟨peer, hpeer, heq⟩
        exact ⟨peer, mem_sortByKey.mp hpeer, TransientDiscoveryKey.ext heq⟩
      · rintro ⟨peer, hpeer, heq⟩
        exact ⟨peer, mem_sortByKey.mpr hpeer, congrArg TransientDiscoveryKey.asStr heq⟩
    · rw [readPresence_of_ne fun key heq => hsession ⟨key, heq⟩]
      constructor
      · intro hmem
        obtain ⟨peer, -, heq⟩ := List.mem_map.mp hmem
        exact absurd ⟨peer.key, heq⟩ hsession
      · intro hfalse
        cases hfalse

/-- Whatever a pass with transitions meets, whoever follows the transitions of the text that it
prints knows the sessions that it lists. -/
theorem printed_events_account (world : Surroundings) (accepts : Nat → Bool)
    (staleAfter : Option UInt64) (fuel : Nat) (deadline : Duration) (report : Report)
    (h : .wrote report ∈ ((Pass.start deadline).observe (world.printing accepts)
      ⟨true, staleAfter⟩ fuel).2.happened) : TextAccounts (reportText report.lines) := by
  rcases Pass.observe_concluded world accepts ⟨true, staleAfter⟩ fuel
    (Pass.watching_start deadline) with ⟨-, hopen⟩ | ⟨outcome, -, hconcluded⟩
  · cases hopen _ h
  · obtain ⟨events, haccounted, rfl⟩ := hconcluded.report_eq h
    exact accounted_report haccounted

/-- A device that appears, goes away and appears again, a daemon that fails then, and a user who
cancels after that. -/
def failsOnce : Surroundings where
  before n := n
  polled n := n
  after n := n
  ordered n := ⟨le_refl _, le_refl _, Nat.le_succ n⟩
  backend n :=
    if n = 0 ∨ n = 2 then some (.resolved BrowserState.desk)
    else if n = 1 then some (.removed BrowserState.desk.fullname)
    else some daemonGoneError
  cancelledBefore n := n == 4
  cancelledAfter _ := false
  stop := .ok ()
  write _ := .ok ()

/-- A pass that lists a device it has lost once, and has rejected one event. -/
theorem printed_events_account_rejected : ∃ report : Report,
    .wrote report ∈ ((Pass.start 0).observe (failsOnce.printing fun _ => true)
      ⟨true, none⟩ 5).2.happened ∧ TextAccounts (reportText report.lines) := by
  have hends : ((Pass.start 0).observe (failsOnce.printing fun _ => true)
      ⟨true, none⟩ 5).1.toOption.isSome = true := by decide +kernel
  obtain ⟨report, hmem⟩ := Pass.exists_report hends
  exact ⟨report, hmem, printed_events_account failsOnce (fun _ => true) none 5 0 report hmem⟩

end LocalTransfer
