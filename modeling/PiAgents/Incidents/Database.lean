import Mathlib.Data.List.MinMax

/-! The incident database of the projector: its tables and the transaction that applies one
detection transition, stores one health event or prunes the feed. -/

namespace PiAgents.Incidents

/-- A point in time in microseconds since 1970. -/
abbrev Timestamp := Int

structure Envelope where
  gatewayId : String
  deviceKey : String

structure HorizonEvidence where
  horizonSeconds : UInt32
  value : Float
  openThreshold : Float
  overThreshold : Bool

/-- A detection state change as it is received. Enumerations are open: any number may come. -/
structure DetectionTransition where
  envelope : Envelope
  transitionId : String
  incidentId : String
  revision : UInt64
  status : Int32
  threatFamily : Int32
  ruleId : String
  ruleVersion : String
  severity : Int32
  horizons : List HorizonEvidence
  evidenceEventTimeUnixMillis : Int64
  detectedAtUnixMillis : Int64
  episodeStartUnixMillis : Int64
  sampleEventIds : List String
  featureVersion : String
  evidenceIngestTimeUnixMillis : Int64

structure HealthEvent where
  envelope : Envelope
  component : String
  kind : Int32
  count : UInt64
  firstSequence : UInt64
  lastSequence : UInt64
  firstEventTimeUnixMillis : Int64
  lastEventTimeUnixMillis : Int64
  detail : String

def statusNames : List (Int32 × String) :=
  [(1, "OPEN"), (2, "UPDATE"), (3, "REOPEN"), (4, "RESOLVE")]

def severityNames : List (Int32 × String) := [(1, "LOW"), (2, "MEDIUM"), (3, "HIGH")]

def familyNames : List (Int32 × String) := [(1, "PORT_SCAN")]

def healthKindNames : List (Int32 × String) :=
  [(1, "HEARTBEAT"), (2, "SPOOL_LOSS"), (3, "UNATTRIBUTED"), (4, "LATE_EVENTS"),
    (5, "FLOW_TABLE_EVICTION")]

def nameOf (names : List (Int32 × String)) (number : Int32) : String :=
  (names.lookup number).getD "UNSPECIFIED"

def feedChannel : String := "incident_feed"
def healthChannel : String := "gateway_health"
def feedRetention : Int := 7 * 24 * 3600 * 1000000

/-- What an operation raises other than the loss of its connection. -/
inductive Failure where
  /-- A time outside the years 1 to 9999. -/
  | valueError
  /-- A value that its column type does not take. -/
  | dataError
  /-- A missing value in a column that is not nullable. -/
  | integrityError
  deriving DecidableEq, Repr

def divideHalfEven (dividend divisor : Nat) : Nat :=
  let quotient := dividend / divisor
  let rest := 2 * (dividend % divisor)
  if rest < divisor then quotient
  else if divisor < rest then quotient + 1
  else quotient + quotient % 2

/-- The double nearest to `millis / 1000`, rounded to microseconds. -/
def fromTimestamp (millis : Int) : Timestamp :=
  let places := 52 - (millis.natAbs / 1000).log2
  let seconds := divideHalfEven (millis.natAbs <<< places) 1000
  millis.sign * (divideHalfEven (seconds * 1000000) (1 <<< places) : Nat)

def ts (millis : Int64) : Except Failure (Option Timestamp) :=
  if millis = 0 then .ok none
  else if -62135596800000 ≤ millis ∧ millis ≤ 253402300799999 then
    .ok (some (fromTimestamp millis.toInt))
  else .error .valueError

def notNull (time : Option Timestamp) : Except Failure Timestamp :=
  match time with
  | some time => .ok time
  | none => .error .integrityError

/-- A text column takes every character but NUL. -/
def textStorable (text : String) : Bool := text.toList.all (· != Char.ofNat 0)

/-- A BIGINT column takes a signed 64-bit number. -/
def bigintStorable (number : UInt64) : Bool := number ≤ 9223372036854775807

/-- The JSON stored as the last transition of an incident and in the feed. -/
structure TransitionPayload where
  transitionId : String
  incidentId : String
  revision : UInt64
  status : String
  threatFamily : String
  ruleId : String
  ruleVersion : String
  severity : String
  deviceKey : String
  gatewayId : String
  horizons : List HorizonEvidence
  episodeStartMs : Int64
  evidenceEventTimeMs : Int64
  evidenceIngestTimeMs : Int64
  detectedAtMs : Int64
  sampleEventIds : List String
  featureVersion : String

def transitionPayload (t : DetectionTransition) : TransitionPayload :=
  { transitionId := t.transitionId
    incidentId := t.incidentId
    revision := t.revision
    status := nameOf statusNames t.status
    threatFamily := nameOf familyNames t.threatFamily
    ruleId := t.ruleId
    ruleVersion := t.ruleVersion
    severity := nameOf severityNames t.severity
    deviceKey := t.envelope.deviceKey
    gatewayId := t.envelope.gatewayId
    horizons := t.horizons
    episodeStartMs := t.episodeStartUnixMillis
    evidenceEventTimeMs := t.evidenceEventTimeUnixMillis
    evidenceIngestTimeMs := t.evidenceIngestTimeUnixMillis
    detectedAtMs := t.detectedAtUnixMillis
    sampleEventIds := t.sampleEventIds
    featureVersion := t.featureVersion }

def TransitionPayload.storable (payload : TransitionPayload) : Bool :=
  ([payload.transitionId, payload.incidentId, payload.ruleId, payload.ruleVersion,
    payload.deviceKey, payload.gatewayId, payload.featureVersion] ++
      payload.sampleEventIds).all textStorable &&
    payload.horizons.all fun h => h.value.isFinite && h.openThreshold.isFinite

structure TransitionRow where
  transitionId : String
  incidentId : String
  revision : UInt64
  status : String
  payload : TransitionPayload
  receivedAt : Timestamp

def DetectionTransition.recordable (t : DetectionTransition) : Bool :=
  textStorable t.transitionId && textStorable t.incidentId && bigintStorable t.revision &&
    (transitionPayload t).storable

def transitionRow (t : DetectionTransition) (now : Timestamp) : Except Failure TransitionRow :=
  let payload := transitionPayload t
  if t.recordable then
    .ok ⟨t.transitionId, t.incidentId, t.revision, payload.status, payload, now⟩
  else .error .dataError

structure IncidentState where
  status : String
  active : Bool
  severity : String
  revision : UInt64
  episodeStart : Timestamp
  evidenceEventTime : Timestamp
  evidenceIngestTime : Option Timestamp
  detectedAt : Timestamp
  lastTransition : TransitionPayload

def incidentState (t : DetectionTransition) : Except Failure IncidentState := do
  let payload := transitionPayload t
  let episodeStart ← ts t.episodeStartUnixMillis
  let evidenceEventTime ← ts t.evidenceEventTimeUnixMillis
  let evidenceIngestTime ← ts t.evidenceIngestTimeUnixMillis
  let detectedAt ← ts t.detectedAtUnixMillis
  return { status := payload.status
           active := payload.status ≠ "RESOLVE"
           severity := payload.severity
           revision := t.revision
           episodeStart := ← notNull episodeStart
           evidenceEventTime := ← notNull evidenceEventTime
           evidenceIngestTime
           detectedAt := ← notNull detectedAt
           lastTransition := payload }

def DetectionTransition.Storable (t : DetectionTransition) : Prop :=
  t.recordable = true ∧ (incidentState t).isOk = true

instance (t : DetectionTransition) : Decidable t.Storable := inferInstanceAs (Decidable (_ ∧ _))

structure IncidentRow where
  incidentId : String
  deviceKey : String
  gatewayId : String
  threatFamily : String
  ruleId : String
  ruleVersion : String
  current : IncidentState
  committedAt : Timestamp

def incidentRow (t : DetectionTransition) (state : IncidentState) (now : Timestamp) : IncidentRow :=
  let payload := transitionPayload t
  ⟨t.incidentId, payload.deviceKey, payload.gatewayId, payload.threatFamily, t.ruleId,
    t.ruleVersion, state, now⟩

def IncidentRow.revise (row excluded : IncidentRow) : IncidentRow :=
  if row.current.revision < excluded.current.revision then
    { row with current := excluded.current, committedAt := excluded.committedAt }
  else row

/-- Rows of `incidents` in insertion order. -/
def upsert (rows : List IncidentRow) (excluded : IncidentRow) : List IncidentRow :=
  if rows.any (·.incidentId == excluded.incidentId) then
    rows.map fun row => if row.incidentId = excluded.incidentId then row.revise excluded else row
  else rows ++ [excluded]

structure FeedRow where
  cursor : Nat
  incidentId : String
  revision : UInt64
  payload : TransitionPayload
  committedAt : Timestamp

structure HealthRow where
  gatewayId : String
  component : String
  kind : String
  count : UInt64
  firstSequence : UInt64
  lastSequence : UInt64
  firstEventTime : Option Timestamp
  lastEventTime : Option Timestamp
  detail : String
  receivedAt : Timestamp

def healthRow (h : HealthEvent) (now : Timestamp) : Except Failure HealthRow := do
  let firstEventTime ← ts h.firstEventTimeUnixMillis
  let lastEventTime ← ts h.lastEventTimeUnixMillis
  if [h.envelope.gatewayId, h.component, h.detail].all textStorable &&
      [h.count, h.firstSequence, h.lastSequence].all bigintStorable then
    return ⟨h.envelope.gatewayId, h.component, nameOf healthKindNames h.kind, h.count,
      h.firstSequence, h.lastSequence, firstEventTime, lastEventTime, h.detail, now⟩
  else throw .dataError

def HealthRow.SameKey (row excluded : HealthRow) : Prop :=
  row.gatewayId = excluded.gatewayId ∧ row.component = excluded.component ∧
    row.kind = excluded.kind

instance (row excluded : HealthRow) : Decidable (HealthRow.SameKey row excluded) :=
  inferInstanceAs (Decidable (_ ∧ _ ∧ _))

/-- The stored row gives way: it has no time, or both have one and the other's is not earlier. -/
def HealthRow.yields (row excluded : HealthRow) : Bool :=
  match row.lastEventTime, excluded.lastEventTime with
  | none, _ => true
  | some _, none => false
  | some stored, some received => stored ≤ received

/-- The tables in insertion order, the last value drawn from the sequence of the feed's cursors
and the notifications of the committed transactions. -/
structure Database where
  incidentTransitions : List TransitionRow
  incidents : List IncidentRow
  incidentFeed : List FeedRow
  cursorSequence : Nat
  gatewayHealth : List HealthRow
  notifications : List (String × String)

namespace Database

def empty : Database := ⟨[], [], [], 0, [], []⟩

def applied (db : Database) (transitionId : String) : Bool :=
  db.incidentTransitions.any (·.transitionId == transitionId)

def incident (db : Database) (incidentId : String) : Option IncidentRow :=
  db.incidents.find? (·.incidentId == incidentId)

/-- A rolled back transaction keeps nothing but the sequence values it drew. -/
def skipCursors (db : Database) (drawn : Nat) : Database :=
  { db with cursorSequence := db.cursorSequence + drawn }

/-- One transaction. It returns the feed cursor, or none when the transition was applied before. -/
def applyTransition (db : Database) (t : DetectionTransition) (now : Timestamp) :
    Except Failure (Database × Option Nat) := do
  let row ← transitionRow t now
  if db.applied t.transitionId then
    return (db, none)
  let state ← incidentState t
  let cursor := db.cursorSequence + 1
  let feedRow : FeedRow := ⟨cursor, t.incidentId, t.revision, transitionPayload t, now⟩
  return ({ db with
            incidentTransitions := db.incidentTransitions ++ [row]
            incidents := upsert db.incidents (incidentRow t state now)
            incidentFeed := db.incidentFeed ++ [feedRow]
            cursorSequence := cursor
            notifications := db.notifications ++ [(feedChannel, toString cursor)] }, some cursor)

def pruneFeed (db : Database) (now : Timestamp) (olderThan : Int) : Database × Nat :=
  let kept := db.incidentFeed.filter fun row => ¬ row.committedAt < now - olderThan
  ({ db with incidentFeed := kept }, db.incidentFeed.length - kept.length)

/-- A notification carries less than 8000 bytes. -/
def notify (db : Database) (channel payload : String) : Except Failure Database :=
  if payload.utf8ByteSize < 8000 then
    .ok { db with notifications := db.notifications ++ [(channel, payload)] }
  else .error .dataError

/-- One transaction. It returns whether a row changed. -/
def applyHealth (db : Database) (h : HealthEvent) (now : Timestamp) :
    Except Failure (Database × Bool) := do
  let excluded ← healthRow h now
  match db.gatewayHealth.find? (fun row => HealthRow.SameKey row excluded) with
  | none =>
      let stored := { db with gatewayHealth := db.gatewayHealth ++ [excluded] }
      return (← stored.notify healthChannel h.envelope.gatewayId, true)
  | some old =>
      if HealthRow.yields old excluded then
        let stored := { db with
          gatewayHealth := db.gatewayHealth.map fun row =>
            if HealthRow.SameKey row excluded then excluded else row }
        return (← stored.notify healthChannel h.envelope.gatewayId, true)
      else return (db, false)

end Database

end PiAgents.Incidents
