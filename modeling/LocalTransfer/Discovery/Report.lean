import LocalTransfer.Discovery.Addresses
import LocalTransfer.Discovery.Observe
import LocalTransfer.Lib.Monitor

/-!
# Reports

`write_report` of the command line and what it prints: the notice, the transitions if they
were asked for, and a card for each visible peer, in the order of their sessions. The report is
a program over a writer that may fail at any line; the lines are also given as data
(`reportLines`), and `writeReport_puts` says that the program writes them.
-/

namespace LocalTransfer

open Lib

/-! ## Cards -/

def advisoryNotice : Text :=
  "Discovery is advisory and unauthenticated: ".toList ++
    "a device listed here is currently advertising on the local network ".toList ++
    "but is not paired, trusted, or authenticated, ".toList ++
    "and its name and addresses are unverified hints.".toList

/-- What is printed of a visible peer. -/
structure DeviceCard where
  session : Text
  name : Option Text
  platform : Option DiscoveryPlatformHint
  protocolMajor : UInt16
  addresses : List Text
  deriving DecidableEq

/-- The lines of a card. -/
inductive CardLine
  | title
  | session
  | protocol
  | address
  deriving DecidableEq

/-- What a line of a card begins with. -/
def CardLine.label : CardLine → Text
  | .title => "- ".toList
  | .session => "  session:  ".toList
  | .protocol => "  protocol: ".toList
  | .address => "  address:  ".toList

namespace DeviceCard

def fromPeer (peer : DiscoveredPeer) : DeviceCard where
  session := peer.key.asStr
  name := peer.metadata.name.map DiscoveryNameHint.asStr
  platform := peer.metadata.platform
  protocolMajor := peer.protocolMajor
  addresses := peer.endpoints.map fun endpoint =>
    socketAddress endpoint.address endpoint.scopeId peer.port

/-- Cards are ordered by their session, byte by byte. -/
def sortKey (card : DeviceCard) : List Nat := (utf8 card.session).map UInt8.toNat

end DeviceCard

def platformLabel : Option DiscoveryPlatformHint → Text
  | some .macOs => "macOS".toList
  | some .windows => "Windows".toList
  | some .linux => "Linux".toList
  | none => "unknown platform".toList

/-- What follows the label of a line. -/
def DeviceCard.content (card : DeviceCard) : CardLine → Text
  | .title => card.name.getD "unnamed".toList ++ " (".toList ++ platformLabel card.platform ++
      ")".toList
  | .session => card.session
  | .protocol => decimal card.protocolMajor.toNat
  | .address => ", ".toList.intercalate card.addresses

def DeviceCard.line (card : DeviceCard) (kind : CardLine) : Text :=
  kind.label ++ card.content kind

/-! ## Transitions -/

/-- The message of a browser error, which tells neither key nor cause. -/
def DiscoveryBrowserErrorKind.message : DiscoveryBrowserErrorKind → Text
  | .initialization => "failed to initialize mDNS browsing".toList
  | .browse => "failed to start the DNS-SD browse request".toList
  | .invalidTransientKey => "invalid transient DNS-SD service key".toList
  | .malformedResolution => "resolved DNS-SD service has no usable endpoints".toList
  | .invalidPort => "resolved DNS-SD service advertised port zero".toList
  | .endpointLimit => "resolved DNS-SD service exceeds the endpoint limit".toList
  | .metadata => "invalid discovery TXT metadata".toList
  | .incompatibleProtocol => "discovered service has no compatible protocol major".toList
  | .daemon => "the mDNS browser daemon reported an error".toList
  | .stopBrowse => "failed to stop the DNS-SD browse request".toList
  | .shutdown => "failed to shut down the mDNS browser daemon".toList

def renderTransition : DiscoveredPeerTransition → Text
  | .appeared key => "appeared   ".toList ++ key.asStr
  | .refreshed key => "refreshed  ".toList ++ key.asStr
  | .updated key => "updated    ".toList ++ key.asStr
  | .removed key .explicit =>
      "removed    ".toList ++ key.asStr ++ "  (no longer advertised)".toList
  | .removed key .expired => "expired    ".toList ++ key.asStr ++ "  (not re-observed)".toList
  | .noop key .alreadyAbsent => "ignored    ".toList ++ key.asStr ++ "  (already absent)".toList
  | .noop key .stale => "ignored    ".toList ++ key.asStr ++ "  (superseded observation)".toList
  | .rejected error => "rejected   ".toList ++ error.kind.message

/-! ## The program -/

inductive OutputOp
  | writeLine (text : Text)
  deriving DecidableEq

abbrev OutputOp.Result : OutputOp → Type
  | .writeLine _ => Except Unit Unit

abbrev OutputProg := Fallible OutputOp OutputOp.Result DiscoveryCliError

def put (text : Text) : OutputProg Unit := do
  match (← call (.writeLine text) : Except Unit Unit) with
  | .error () => throw .output
  | .ok () => pure ()

def renderSnapshot (cards : List DeviceCard) : OutputProg Unit := do
  if cards.isEmpty then put "No nearby devices are currently visible.".toList
  else
    let ordered := sortByKey DeviceCard.sortKey cards
    put (decimal ordered.length ++ " nearby device(s) currently visible:".toList)
    ordered.forM fun card => do
      put []
      put (card.line .title)
      put (card.line .session)
      put (card.line .protocol)
      put (card.line .address)

def writeReport (showEvents : Bool) (events : List Text) (cards : List DeviceCard) :
    OutputProg Unit := do
  put advisoryNotice
  if showEvents then
    put []
    if events.isEmpty then put "No discovery events were observed.".toList
    else events.forM put
  put []
  renderSnapshot cards

/-! ## The lines -/

def DeviceCard.lines (card : DeviceCard) : List Text :=
  [[], card.line .title, card.line .session, card.line .protocol, card.line .address]

def snapshotLines (cards : List DeviceCard) : List Text :=
  if cards.isEmpty then ["No nearby devices are currently visible.".toList]
  else
    let ordered := sortByKey DeviceCard.sortKey cards
    (decimal ordered.length ++ " nearby device(s) currently visible:".toList) ::
      ordered.flatMap DeviceCard.lines

def eventLines (showEvents : Bool) (events : List Text) : List Text :=
  if showEvents then
    [] :: if events.isEmpty then ["No discovery events were observed.".toList] else events
  else []

def reportLines (showEvents : Bool) (events : List Text) (cards : List DeviceCard) : List Text :=
  advisoryNotice :: (eventLines showEvents events ++ [] :: snapshotLines cards)

/-! ## What is written -/

/-- Follows a writer through the lines that are left, and refuses any other; none is left to a
writer that has failed. -/
def lineWriter : Monitor OutputOp OutputOp.Result (Option (List Text)) where
  next
    | some (line :: rest), .writeLine text, written =>
        if text = line then some (if written.isOk then some rest else none) else none
    | _, _, _ => none

/-- How a part of a report ends: with the lines after it left, or with a failed writer. -/
def Put (rest : List Text) : Except DiscoveryCliError Unit → Option (List Text) → Prop
  | .ok (), left => left = some rest
  | .error error, left => error = .output ∧ left = none

/-- The program writes these lines, and stops at the first that cannot be written. -/
def Puts (p : OutputProg Unit) (lines : List Text) : Prop :=
  ∀ rest, lineWriter.Guarded p.run (Put rest) (some (lines ++ rest))

namespace Puts

variable {p q : OutputProg Unit} {lines lines' : List Text}

theorem put (text : Text) : Puts (put text) [text] := by
  intro rest written
  cases written with
  | error _ => exact ⟨none, by simp [lineWriter, Except.isOk, Except.toBool], rfl, rfl⟩
  | ok _ => exact ⟨some rest, by simp [lineWriter, Except.isOk, Except.toBool], rfl⟩

theorem nil : Puts (pure ()) [] := fun _ => rfl

theorem seq (hp : Puts p lines) (hq : Puts q lines') :
    Puts (do p; q) (lines ++ lines') := by
  intro rest
  rw [List.append_assoc]
  refine Monitor.Guarded.andThen ((hp (lines' ++ rest)).mono ?_)
  intro r left h
  cases r with
  | error error => exact h
  | ok _ =>
      subst h
      exact hq rest

theorem forM {α : Type} {f : α → OutputProg Unit} {g : α → List Text}
    (h : ∀ a, Puts (f a) (g a)) (as : List α) : Puts (as.forM f) (as.flatMap g) := by
  induction as with
  | nil => exact nil
  | cons a as ih => exact (h a).seq ih

end Puts

theorem renderSnapshot_puts (cards : List DeviceCard) :
    Puts (renderSnapshot cards) (snapshotLines cards) := by
  rw [renderSnapshot, snapshotLines]
  split
  · exact .put _
  · refine (Puts.put _).seq (Puts.forM ?_ _)
    intro card
    exact (Puts.put _).seq ((Puts.put _).seq ((Puts.put _).seq ((Puts.put _).seq (.put _))))

theorem writeReport_puts (showEvents : Bool) (events : List Text) (cards : List DeviceCard) :
    Puts (writeReport showEvents events cards) (reportLines showEvents events cards) := by
  have hsnapshot : Puts (do put []; renderSnapshot cards) ([] :: snapshotLines cards) :=
    (Puts.put []).seq (renderSnapshot_puts cards)
  have hevents : Puts (events.forM put) events := by
    have hall := Puts.forM Puts.put events
    rwa [List.flatMap_singleton'] at hall
  refine (Puts.put advisoryNotice).seq ?_
  cases showEvents with
  | false => exact hsnapshot
  | true =>
      cases events with
      | nil => exact (Puts.put []).seq ((Puts.put _).seq hsnapshot)
      | cons event events =>
          show Puts _ (([] :: event :: events) ++ [] :: snapshotLines cards)
          exact (Puts.put []).seq (hevents.seq hsnapshot)

end LocalTransfer
