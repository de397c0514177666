import PiAgents.Incidents.Projector

/-! What a run of deliveries leaves in the tables: one row for every transition ID in the order of
first application, and for every incident its highest revision. -/

namespace PiAgents.Incidents

/-- The transition a delivery asks the database to apply; none for a malformed message. -/
def Delivery.transition (healthTopic : String) (d : Delivery) : Option DetectionTransition :=
  if d.message.topic = healthTopic then none
  else d.message.detection.filter fun t => t.transitionId ≠ "" ∧ t.incidentId ≠ ""

def ConnectionLoss.committed : ConnectionLoss → Bool
  | .beforeCommit _ => false
  | .afterCommit _ => true

def Ending.committed : Ending → Bool
  | .stopped => false
  | .answered _ => true

/-- Some attempt of the delivery reaches its commit. -/
def Delivery.reaches (d : Delivery) : Bool :=
  d.losses.any ConnectionLoss.committed || d.ending.committed

/-- The transition that the delivery commits, if any. -/
def Delivery.commits (healthTopic : String) (d : Delivery) : Option DetectionTransition :=
  if d.reaches then d.transition healthTopic else none

/-- The transitions committed by the deliveries, every ID once, in the order of first commit. -/
def firstApplied (healthTopic : String) (deliveries : List Delivery) : List DetectionTransition :=
  FirstCome.ledger (·.transitionId) (deliveries.filterMap (·.commits healthTopic))

/-- The first transition of the highest revision among those of the incident. -/
def newest (kept : List DetectionTransition) (incidentId : String) : Option DetectionTransition :=
  (kept.filter (·.incidentId == incidentId)).argmax (·.revision.toNat)

def projected (healthTopic : String) (deliveries : List Delivery) : Database :=
  (Runs.run (Projection.step healthTopic) Projection.start deliveries).database

/-- The tables hold these transitions. -/
structure Projects (db : Database) (kept : List DetectionTransition) : Prop where
  transitionIds : db.incidentTransitions.map (·.transitionId) = kept.map (·.transitionId)
  transitions : db.incidentTransitions.map (·.payload) = kept.map transitionPayload
  feed : db.incidentFeed.map (·.payload) = kept.map transitionPayload
  ordered : (db.incidentFeed.map (·.cursor)).Pairwise (· < ·)
  drawn : ∀ row ∈ db.incidentFeed, row.cursor ≤ db.cursorSequence
  incidentIds : (db.incidents.map (·.incidentId)).Nodup
  incidents : ∀ incidentId, (db.incident incidentId).map (fun row => Except.ok row.current) =
    (newest kept incidentId).map incidentState

theorem projects_empty : Projects .empty [] := by
  constructor
  · rfl
  · rfl
  · rfl
  · exact List.Pairwise.nil
  · intro row member
    cases member
  · exact List.nodup_nil
  · intro incidentId
    rfl

namespace Projects

variable {db : Database} {kept : List DetectionTransition}

theorem skipCursors (holds : Projects db kept) (drawn : Nat) :
    Projects (db.skipCursors drawn) kept :=
  { holds with drawn := fun row member => Nat.le_add_right_of_le (holds.drawn row member) }

theorem applied_iff (holds : Projects db kept) (transitionId : String) :
    db.applied transitionId = true ↔ transitionId ∈ kept.map (·.transitionId) := by
  rw [← holds.transitionIds]
  simp only [Database.applied, List.any_eq_true, beq_iff_eq, List.mem_map]

end Projects

theorem transitionRow_ok {t : DetectionTransition} (recordable : t.recordable = true)
    (now : Timestamp) : transitionRow t now =
      .ok ⟨t.transitionId, t.incidentId, t.revision, (transitionPayload t).status,
        transitionPayload t, now⟩ :=
  if_pos recordable

theorem incidentState_ok {t : DetectionTransition} (storable : t.Storable) :
    ∃ state, incidentState t = .ok state := by
  have readable := storable.2
  cases outcome : incidentState t with
  | error failure =>
      rw [outcome] at readable
      cases readable
  | ok state => exact ⟨state, rfl⟩

/-- The columns that a newer revision replaces are those of the transition. -/
structure IncidentState.Shows (state : IncidentState) (t : DetectionTransition) : Prop where
  status : state.status = nameOf statusNames t.status
  active : state.active = true ↔ state.status ≠ "RESOLVE"
  severity : state.severity = nameOf severityNames t.severity
  revision : state.revision = t.revision
  episodeStart : ts t.episodeStartUnixMillis = .ok (some state.episodeStart)
  evidenceEventTime : ts t.evidenceEventTimeUnixMillis = .ok (some state.evidenceEventTime)
  evidenceIngestTime : ts t.evidenceIngestTimeUnixMillis = .ok state.evidenceIngestTime
  detectedAt : ts t.detectedAtUnixMillis = .ok (some state.detectedAt)
  lastTransition : state.lastTransition = transitionPayload t

theorem bind_ok {α β : Type} {first : Except Failure α} {next : α → Except Failure β} {result : β}
    (ok : first >>= next = .ok result) :
    ∃ value, first = .ok value ∧ next value = .ok result := by
  cases first with
  | error failure => cases ok
  | ok value => exact ⟨value, rfl, ok⟩

theorem notNull_ok {time : Option Timestamp} {value : Timestamp} (ok : notNull time = .ok value) :
    time = some value := by
  cases time with
  | none => cases ok
  | some time =>
      cases ok
      rfl

theorem incidentState_shows {t : DetectionTransition} {state : IncidentState}
    (ok : incidentState t = .ok state) : state.Shows t := by
  rcases bind_ok ok with ⟨episodeStart, start, ok⟩
  rcases bind_ok ok with ⟨evidenceEventTime, evidence, ok⟩
  rcases bind_ok ok with ⟨evidenceIngestTime, ingest, ok⟩
  rcases bind_ok ok with ⟨detectedAt, detected, ok⟩
  rcases bind_ok ok with ⟨startValue, startGiven, ok⟩
  rcases bind_ok ok with ⟨evidenceValue, evidenceGiven, ok⟩
  rcases bind_ok ok with ⟨detectedValue, detectedGiven, ok⟩
  cases ok
  rw [notNull_ok startGiven] at start
  rw [notNull_ok evidenceGiven] at evidence
  rw [notNull_ok detectedGiven] at detected
  exact
    { status := rfl
      active := decide_eq_true_iff
      severity := rfl
      revision := rfl
      episodeStart := start
      evidenceEventTime := evidence
      evidenceIngestTime := ingest
      detectedAt := detected
      lastTransition := rfl }

section Upsert

variable (rows : List IncidentRow) (excluded : IncidentRow)

@[simp] theorem revise_incidentId (row : IncidentRow) :
    (row.revise excluded).incidentId = row.incidentId := by
  by_cases newer : row.current.revision < excluded.current.revision
  · simp only [IncidentRow.revise, newer, if_true]
  · simp only [IncidentRow.revise, newer, if_false]

theorem revise_current (row : IncidentRow) :
    (row.revise excluded).current =
      if row.current.revision < excluded.current.revision then excluded.current
      else row.current := by
  by_cases newer : row.current.revision < excluded.current.revision
  · simp only [IncidentRow.revise, newer, if_true]
  · simp only [IncidentRow.revise, newer, if_false]

theorem any_incidentId :
    rows.any (·.incidentId == excluded.incidentId) = true ↔
      excluded.incidentId ∈ rows.map (·.incidentId) := by
  simp only [List.any_eq_true, beq_iff_eq, List.mem_map]

theorem upsert_incidentIds :
    (upsert rows excluded).map (·.incidentId) =
      FirstCome.record id (rows.map (·.incidentId)) excluded.incidentId := by
  by_cases held : excluded.incidentId ∈ rows.map (·.incidentId)
  · rw [FirstCome.record_known id (by rwa [List.map_id]), upsert,
      if_pos ((any_incidentId rows excluded).mpr held), List.map_map]
    apply List.map_congr_left
    intro row member
    by_cases same : row.incidentId = excluded.incidentId
    · simp only [Function.comp_apply, same, if_true, revise_incidentId]
    · simp only [Function.comp_apply, same, if_false]
  · rw [FirstCome.record_new id (by rwa [List.map_id]), upsert,
      if_neg (fun found => held ((any_incidentId rows excluded).mp found)), List.map_append]
    rfl

theorem find_upsert_other {incidentId : String} (other : excluded.incidentId ≠ incidentId) :
    (upsert rows excluded).find? (·.incidentId == incidentId) =
      rows.find? (·.incidentId == incidentId) := by
  by_cases held : excluded.incidentId ∈ rows.map (·.incidentId)
  · rw [upsert, if_pos ((any_incidentId rows excluded).mpr held)]
    clear held
    induction rows with
    | nil => rfl
    | cons row rest ih =>
        rw [List.map_cons, List.find?_cons, List.find?_cons]
        by_cases same : row.incidentId = excluded.incidentId
        · have passed : (row.incidentId == incidentId) = false := by
            rw [same]
            exact beq_eq_false_iff_ne.mpr other
          simp only [same, if_true, revise_incidentId]
          rw [← same, passed]
          simp only [same]
          exact ih
        · simp only [same, if_false]
          rw [ih]
  · rw [upsert, if_neg (fun found => held ((any_incidentId rows excluded).mp found)),
      List.find?_append]
    have missed : [excluded].find? (·.incidentId == incidentId) = none := by
      rw [List.find?_cons, beq_eq_false_iff_ne.mpr other]
      rfl
    rw [missed, Option.or_none]

theorem find_upsert_same :
    (upsert rows excluded).find? (·.incidentId == excluded.incidentId) =
      some ((rows.find? (·.incidentId == excluded.incidentId)).elim excluded
        (·.revise excluded)) := by
  by_cases held : excluded.incidentId ∈ rows.map (·.incidentId)
  · rw [upsert, if_pos ((any_incidentId rows excluded).mpr held)]
    induction rows with
    | nil => cases held
    | cons row rest ih =>
        rw [List.map_cons, List.find?_cons, List.find?_cons]
        by_cases same : row.incidentId = excluded.incidentId
        · simp only [same, if_true, revise_incidentId, beq_self_eq_true, Option.elim_some]
        · have later := (List.mem_cons.mp held).resolve_left (Ne.symm same)
          simp only [same, if_false, beq_eq_false_iff_ne.mpr same]
          exact ih later
  · have missed : rows.find? (·.incidentId == excluded.incidentId) = none := by
      apply List.find?_eq_none.mpr
      intro row member found
      exact held (List.mem_map.mpr ⟨row, member, beq_iff_eq.mp found⟩)
    rw [upsert, if_neg (fun found => held ((any_incidentId rows excluded).mp found)),
      List.find?_append, missed, Option.none_or, List.find?_cons, beq_self_eq_true]
    rfl

end Upsert

private theorem newest_other {kept : List DetectionTransition} {t : DetectionTransition}
    {incidentId : String} (other : t.incidentId ≠ incidentId) :
    newest (kept ++ [t]) incidentId = newest kept incidentId := by
  rw [newest, List.filter_append, List.filter_singleton, beq_eq_false_iff_ne.mpr other]
  simp only [cond_false, List.append_nil, newest]

private theorem newest_same {kept : List DetectionTransition} {t : DetectionTransition} :
    newest (kept ++ [t]) t.incidentId =
      some ((newest kept t.incidentId).elim t fun stored =>
        if stored.revision < t.revision then t else stored) := by
  rw [newest, List.filter_append, List.filter_singleton, beq_self_eq_true, cond_true,
    List.argmax_concat, ← newest]
  cases newest kept t.incidentId with
  | none => rfl
  | some stored =>
      simp only [Option.elim_some, UInt64.lt_iff_toNat_lt]
      split
      · rfl
      · rfl

theorem applyTransition_again {db : Database} {t : DetectionTransition}
    (recordable : t.recordable = true) (applied : db.applied t.transitionId = true)
    (now : Timestamp) : db.applyTransition t now = .ok (db, none) := by
  rw [Database.applyTransition, transitionRow_ok recordable]
  simp only [bind, Except.bind, applied, if_true]
  rfl

/-- The database after the first application of a transition. -/
def Database.insert (db : Database) (t : DetectionTransition) (state : IncidentState)
    (now : Timestamp) : Database :=
  let cursor := db.cursorSequence + 1
  { db with
    incidentTransitions := db.incidentTransitions ++
      [⟨t.transitionId, t.incidentId, t.revision, (transitionPayload t).status,
        transitionPayload t, now⟩]
    incidents := upsert db.incidents (incidentRow t state now)
    incidentFeed := db.incidentFeed ++
      [⟨cursor, t.incidentId, t.revision, transitionPayload t, now⟩]
    cursorSequence := cursor
    notifications := db.notifications ++ [(feedChannel, toString cursor)] }

theorem applyTransition_first {db : Database} {t : DetectionTransition} {state : IncidentState}
    (recordable : t.recordable = true) (new : db.applied t.transitionId = false)
    (ok : incidentState t = .ok state) (now : Timestamp) :
    db.applyTransition t now = .ok (db.insert t state now, some (db.cursorSequence + 1)) := by
  rw [Database.applyTransition, transitionRow_ok recordable]
  simp only [bind, Except.bind, new, Bool.false_eq_true, if_false, ok]
  rfl

namespace Projects

variable {db : Database} {kept : List DetectionTransition}

theorem upsert_incidents (holds : Projects db kept) {t : DetectionTransition}
    {state : IncidentState} (ok : incidentState t = .ok state) (now : Timestamp)
    (incidentId : String) :
    ((db.insert t state now).incident incidentId).map (fun row => Except.ok row.current) =
      (newest (kept ++ [t]) incidentId).map incidentState := by
  have before := holds.incidents incidentId
  by_cases same : t.incidentId = incidentId
  · subst same
    have after := find_upsert_same db.incidents (incidentRow t state now)
    rw [newest_same]
    change ((upsert db.incidents (incidentRow t state now)).find?
      (·.incidentId == (incidentRow t state now).incidentId)).map _ = _
    rw [after]
    change (Option.map _ (db.incident t.incidentId)) = _ at before
    change Option.map _ (some ((db.incident t.incidentId).elim _ _)) = _
    cases found : db.incident t.incidentId with
    | none =>
        rw [found] at before
        cases stored : newest kept t.incidentId with
        | none => exact congrArg some ok.symm
        | some other =>
            rw [stored] at before
            cases before
    | some row =>
        rw [found] at before
        cases stored : newest kept t.incidentId with
        | none =>
            rw [stored] at before
            cases before
        | some other =>
            rw [stored] at before
            have current : incidentState other = .ok row.current := (Option.some.inj before).symm
            have revision : row.current.revision = other.revision :=
              (incidentState_shows current).revision
            have excluded : (incidentRow t state now).current = state := rfl
            have newRevision : state.revision = t.revision := (incidentState_shows ok).revision
            simp only [Option.map_some, Option.elim_some, revise_current, revision, excluded,
              newRevision]
            by_cases newer : other.revision < t.revision
            · simp only [newer, if_true, ok]
            · simp only [newer, if_false, current]
  · rw [newest_other same, ← before]
    exact congrArg _ (find_upsert_other db.incidents (incidentRow t state now) same)

theorem insert (holds : Projects db kept) {t : DetectionTransition} {state : IncidentState}
    (ok : incidentState t = .ok state) (now : Timestamp) :
    Projects (db.insert t state now) (kept ++ [t]) := by
  constructor
  · simp only [Database.insert, List.map_append, holds.transitionIds]
    rfl
  · simp only [Database.insert, List.map_append, holds.transitions]
    rfl
  · simp only [Database.insert, List.map_append, holds.feed]
    rfl
  · simp only [Database.insert, List.map_append, List.pairwise_append]
    refine ⟨holds.ordered, List.pairwise_singleton _ _, ?_⟩
    intro earlier member later single
    rcases List.mem_map.mp member with ⟨row, inFeed, rfl⟩
    rw [List.mem_singleton.mp single]
    exact Nat.lt_succ_of_le (holds.drawn row inFeed)
  · intro row member
    rcases List.mem_append.mp member with old | new
    · exact Nat.le_succ_of_le (holds.drawn row old)
    · rw [List.mem_singleton.mp new]
      exact Nat.le_refl _
  · change ((upsert db.incidents (incidentRow t state now)).map (·.incidentId)).Nodup
    rw [upsert_incidentIds]
    have before : ((db.incidents.map (·.incidentId)).map id).Nodup := by
      rw [List.map_id]
      exact holds.incidentIds
    have distinct := FirstCome.record_nodup id before (incidentRow t state now).incidentId
    rwa [List.map_id] at distinct
  · exact holds.upsert_incidents ok now

theorem applyTransition (holds : Projects db kept) {t : DetectionTransition}
    (storable : t.Storable) (now : Timestamp) :
    ∃ after cursor, db.applyTransition t now = .ok (after, cursor) ∧
      Projects after (FirstCome.record (·.transitionId) kept t) := by
  cases known : db.applied t.transitionId with
  | true =>
      have recorded := (holds.applied_iff t.transitionId).mp known
      rw [FirstCome.record_known _ recorded]
      exact ⟨db, none, applyTransition_again storable.1 known now, holds⟩
  | false =>
      rcases incidentState_ok storable with ⟨state, ok⟩
      have new : t.transitionId ∉ kept.map (·.transitionId) := by
        intro recorded
        rw [(holds.applied_iff t.transitionId).mpr recorded] at known
        cases known
      rw [FirstCome.record_new _ new]
      exact ⟨_, _, applyTransition_first storable.1 known ok now, holds.insert ok now⟩

end Projects

theorem withRetry_keeps {α : Type}
    {operation : Database → Timestamp → Except Failure (Database × α)}
    (invariant : Database → Prop)
    (skips : ∀ db drawn, invariant db → invariant (db.skipCursors drawn))
    (operates : ∀ db now after result, invariant db → operation db now = .ok (after, result) →
      invariant after)
    (ending : Ending) {db : Database} (holds : invariant db) (losses : List ConnectionLoss) :
    invariant (withRetry operation ending db losses).1 := by
  induction losses generalizing db with
  | nil =>
      cases ending with
      | stopped => exact holds
      | answered now =>
          rw [withRetry]
          cases outcome : operation db now with
          | error failure => exact holds
          | ok answer => exact operates db now answer.1 answer.2 holds outcome
  | cons loss losses ih =>
      cases loss with
      | beforeCommit drawn => exact ih (skips db drawn holds)
      | afterCommit now =>
          rw [withRetry]
          cases outcome : operation db now with
          | error failure => exact holds
          | ok answer => exact ih (operates db now answer.1 answer.2 holds outcome)

namespace Projects

variable {db : Database} {kept : List DetectionTransition}

/-- The attempts record the transition as soon as one of them commits; the later ones find it. -/
theorem withRetry (holds : Projects db kept) {t : DetectionTransition} (storable : t.Storable)
    (ending : Ending) (losses : List ConnectionLoss) :
    Projects (withRetry (fun db now => db.applyTransition t now) ending db losses).1
      (if losses.any ConnectionLoss.committed || ending.committed then
        FirstCome.record (·.transitionId) kept t else kept) := by
  induction losses generalizing db kept with
  | nil =>
      cases ending with
      | stopped => exact holds
      | answered now =>
          rcases holds.applyTransition storable now with ⟨after, cursor, ok, recorded⟩
          rw [Incidents.withRetry]
          simp only [ok]
          exact recorded
  | cons loss losses ih =>
      cases loss with
      | beforeCommit drawn => exact ih (holds.skipCursors drawn)
      | afterCommit now =>
          rcases holds.applyTransition storable now with ⟨after, cursor, ok, recorded⟩
          have later := ih recorded
          rw [FirstCome.record_twice, ite_self] at later
          rw [Incidents.withRetry]
          simp only [ok]
          exact later

theorem notify {channel payload : String} {after : Database}
    (ok : db.notify channel payload = .ok after) (holds : Projects db kept) :
    Projects after kept := by
  by_cases short : payload.utf8ByteSize < 8000
  · rw [Database.notify, if_pos short] at ok
    cases ok
    exact { holds with }
  · rw [Database.notify, if_neg short] at ok
    cases ok

theorem applyHealth (holds : Projects db kept) {h : HealthEvent} {now : Timestamp}
    {after : Database} {changed : Bool} (ok : db.applyHealth h now = .ok (after, changed)) :
    Projects after kept := by
  rcases bind_ok ok with ⟨excluded, _, ok⟩
  cases found : db.gatewayHealth.find? (fun row => HealthRow.SameKey row excluded) with
  | none =>
      simp only [found] at ok
      rcases bind_ok ok with ⟨notified, sent, ok⟩
      cases ok
      exact notify sent { holds with }
  | some stored =>
      simp only [found] at ok
      by_cases yields : HealthRow.yields stored excluded = true
      · rw [if_pos yields] at ok
        rcases bind_ok ok with ⟨notified, sent, ok⟩
        cases ok
        exact notify sent { holds with }
      · rw [if_neg yields] at ok
        cases ok
        exact holds

theorem handle_database (healthTopic : String) (p : Projection) (d : Delivery) :
    (p.step healthTopic d).database = (p.apply healthTopic d).1.database := by
  cases outcome : (p.apply healthTopic d).2 with
  | returned cursor =>
      by_cases committed : d.offsetCommitted = true
      · simp only [Projection.step, Projection.handle, outcome, committed, if_true]
      · simp only [Projection.step, Projection.handle, outcome, committed]
        rfl
  | raised failure =>
      simp only [Projection.step, Projection.handle, outcome]
      rfl
  | stopped =>
      simp only [Projection.step, Projection.handle, outcome]
      rfl

theorem health {p : Projection} (holds : Projects p.database kept) (d : Delivery) :
    Projects (p.health d).1.database kept := by
  unfold Projection.health
  cases d.message.health with
  | none => exact holds
  | some event =>
      by_cases anonymous : event.envelope.gatewayId = ""
      · simp only [anonymous, if_true]
        exact holds
      · have untouched : Projects (Incidents.withRetry (fun db now => db.applyHealth event now)
            d.ending p.database d.losses).1 kept := by
          apply withRetry_keeps (fun db => Projects db kept)
          · intro db drawn held
            exact held.skipCursors drawn
          · intro db now after result held ok
            exact held.applyHealth ok
          · exact holds
        simp only [anonymous, if_false]
        split
        · exact untouched
        · exact untouched
        · exact untouched

theorem apply {healthTopic : String} {p : Projection} (holds : Projects p.database kept)
    {d : Delivery} (storable : ∀ t ∈ d.transition healthTopic, t.Storable) :
    Projects (p.apply healthTopic d).1.database
      (((d.commits healthTopic).map (FirstCome.record (·.transitionId) kept)).getD kept) := by
  unfold Projection.apply Delivery.commits
  by_cases topic : d.message.topic = healthTopic
  · have none : d.transition healthTopic = none := if_pos topic
    simp only [topic, if_true, none, ite_self, Option.map_none, Option.getD_none]
    exact holds.health d
  · have given : d.transition healthTopic =
        d.message.detection.filter fun t => t.transitionId ≠ "" ∧ t.incidentId ≠ "" := if_neg topic
    rw [given] at storable ⊢
    simp only [topic, if_false]
    cases detection : d.message.detection with
    | none =>
        simp only [Option.filter_none, ite_self, Option.map_none, Option.getD_none]
        exact holds
    | some t =>
        rw [detection] at storable
        by_cases empty : t.transitionId = "" ∨ t.incidentId = ""
        · have skipped : ¬ (t.transitionId ≠ "" ∧ t.incidentId ≠ "") := by tauto
          simp only [empty, if_true, Option.filter_some, decide_eq_true_eq, skipped, if_false,
            ite_self, Option.map_none, Option.getD_none]
          exact holds
        · have taken : t.transitionId ≠ "" ∧ t.incidentId ≠ "" := not_or.mp empty
          have accepted : Option.filter
              (fun t : DetectionTransition => t.transitionId ≠ "" ∧ t.incidentId ≠ "") (some t) =
              some t := by
            rw [Option.filter_some, if_pos (decide_eq_true taken)]
          rw [accepted] at storable ⊢
          have recorded := holds.withRetry (storable t rfl) d.ending d.losses
          have result : ((if d.reaches then some t else none).map
              (FirstCome.record (·.transitionId) kept)).getD kept =
              if d.losses.any ConnectionLoss.committed || d.ending.committed then
                FirstCome.record (·.transitionId) kept t else kept := by
            unfold Delivery.reaches
            split
            · rfl
            · rfl
          rw [result]
          simp only [empty, if_false]
          split
          · exact recorded
          · exact recorded
          · exact recorded
          · exact recorded

theorem step {healthTopic : String} {p : Projection} (holds : Projects p.database kept)
    {d : Delivery} (storable : ∀ t ∈ d.transition healthTopic, t.Storable) :
    Projects (p.step healthTopic d).database
      (((d.commits healthTopic).map (FirstCome.record (·.transitionId) kept)).getD kept) := by
  rw [handle_database]
  exact holds.apply storable

theorem run {healthTopic : String} {p : Projection} (holds : Projects p.database kept)
    {deliveries : List Delivery}
    (storable : ∀ d ∈ deliveries, ∀ t ∈ d.transition healthTopic, t.Storable) :
    Projects (Runs.run (Projection.step healthTopic) p deliveries).database
      (Runs.run (FirstCome.record (·.transitionId)) kept
        (deliveries.filterMap (·.commits healthTopic))) := by
  induction deliveries generalizing p kept with
  | nil => exact holds
  | cons d rest ih =>
      have first := holds.step (storable d (List.mem_cons_self ..))
      have later := ih first fun d member => storable d (List.mem_cons_of_mem _ member)
      rw [Runs.run_cons, List.filterMap_cons]
      cases commits : d.commits healthTopic with
      | none =>
          rw [commits] at later
          exact later
      | some t =>
          rw [commits] at later
          exact later

end Projects

theorem projected_projects {healthTopic : String} {deliveries : List Delivery}
    (storable : ∀ d ∈ deliveries, ∀ t ∈ d.transition healthTopic, t.Storable) :
    Projects (projected healthTopic deliveries) (firstApplied healthTopic deliveries) := by
  have started : Projects Projection.start.database [] := projects_empty
  exact started.run storable

theorem mem_commits {healthTopic : String} {deliveries : List Delivery} {t : DetectionTransition} :
    t ∈ deliveries.filterMap (·.commits healthTopic) ↔
      ∃ d ∈ deliveries, t ∈ d.commits healthTopic := by
  simp only [List.mem_filterMap, Option.mem_def]

/-- Where IDs name the incident and the revision and no two transitions share one, the incidents do
not depend on the order of the deliveries and on their repetitions. -/
theorem newest_order_independent {healthTopic : String} {deliveries other : List Delivery}
    (same : ∀ t, (∃ d ∈ deliveries, t ∈ d.commits healthTopic) ↔
      ∃ d ∈ other, t ∈ d.commits healthTopic)
    (named : ∀ d ∈ deliveries, ∀ t ∈ d.commits healthTopic,
      t.transitionId = t.incidentId ++ ":" ++ toString t.revision.toNat)
    (unique : ∀ d ∈ deliveries, ∀ t ∈ d.commits healthTopic, ∀ e ∈ deliveries,
      ∀ u ∈ e.commits healthTopic, t.transitionId = u.transitionId → t = u)
    (incidentId : String) :
    newest (firstApplied healthTopic deliveries) incidentId =
      newest (firstApplied healthTopic other) incidentId := by
  have distinct : ∀ t ∈ deliveries.filterMap (·.commits healthTopic),
      ∀ u ∈ deliveries.filterMap (·.commits healthTopic),
        t.transitionId = u.transitionId → t = u := by
    intro t inT u inU sameId
    rcases mem_commits.mp inT with ⟨d, inD, commits⟩
    rcases mem_commits.mp inU with ⟨e, inE, alsoCommits⟩
    exact unique d inD t commits e inE u alsoCommits sameId
  have perm := FirstCome.ledger_perm (·.transitionId) distinct fun t =>
    mem_commits.trans ((same t).trans mem_commits.symm)
  apply FirstCome.argmax_perm (perm.filter _)
  intro t inT u inU sameRevision
  rcases List.mem_filter.mp inT with ⟨keptT, incidentT⟩
  rcases List.mem_filter.mp inU with ⟨keptU, incidentU⟩
  have committedT := FirstCome.ledger_subset _ keptT
  have committedU := FirstCome.ledger_subset _ keptU
  rcases mem_commits.mp committedT with ⟨d, inD, commits⟩
  rcases mem_commits.mp committedU with ⟨e, inE, alsoCommits⟩
  apply distinct t committedT u committedU
  calc
    t.transitionId = t.incidentId ++ ":" ++ toString t.revision.toNat := named d inD t commits
    _ = u.incidentId ++ ":" ++ toString u.revision.toNat := by
      rw [beq_iff_eq.mp incidentT, beq_iff_eq.mp incidentU, sameRevision]
    _ = u.transitionId := (named e inE u alsoCommits).symm

namespace Projects

variable {db : Database} {kept : List DetectionTransition}

theorem shows (holds : Projects db kept) (incidentId : String) :
    Option.Rel (fun row t => row.current.Shows t) (db.incident incidentId)
      (newest kept incidentId) := by
  have states := holds.incidents incidentId
  cases row : db.incident incidentId with
  | none =>
      cases stored : newest kept incidentId with
      | none => exact Option.Rel.none
      | some t =>
          rw [row, stored] at states
          cases states
  | some found =>
      cases stored : newest kept incidentId with
      | none =>
          rw [row, stored] at states
          cases states
      | some t =>
          rw [row, stored] at states
          exact Option.Rel.some (incidentState_shows (Option.some.inj states).symm)

theorem same_states {other : Database} {otherKept : List DetectionTransition}
    (holds : Projects db kept) (alsoHolds : Projects other otherKept) {incidentId : String}
    (same : newest kept incidentId = newest otherKept incidentId) :
    (db.incident incidentId).map (·.current) = (other.incident incidentId).map (·.current) := by
  have states : (db.incident incidentId).map (fun row => (.ok row.current : Except Failure IncidentState)) =
      (other.incident incidentId).map (fun row => Except.ok row.current) := by
    rw [holds.incidents, alsoHolds.incidents, same]
  cases left : db.incident incidentId with
  | none =>
      cases right : other.incident incidentId with
      | none => rfl
      | some row =>
          rw [left, right] at states
          cases states
  | some row =>
      cases right : other.incident incidentId with
      | none =>
          rw [left, right] at states
          cases states
      | some otherRow =>
          rw [left, right] at states
          exact congrArg some (Except.ok.inj (Option.some.inj states))

end Projects

/-- Every committed transition ID has one row in `incident_transitions` and one in the feed, in the
order of first application, and each incident shows its highest revision. Where IDs name the
incident and the revision and no two different transitions share one, two delivery orders of the
same transitions leave the same incidents. -/
theorem projection_effectively_once (healthTopic : String) (deliveries : List Delivery)
    (storable : ∀ d ∈ deliveries, ∀ t ∈ d.transition healthTopic, t.Storable) :
    ((projected healthTopic deliveries).incidentTransitions.map (·.transitionId)).Nodup ∧
    (∀ transitionId, transitionId ∈
        (projected healthTopic deliveries).incidentTransitions.map (·.transitionId) ↔
      ∃ d ∈ deliveries, ∃ t ∈ d.commits healthTopic, t.transitionId = transitionId) ∧
    (projected healthTopic deliveries).incidentTransitions.map (·.payload) =
      (firstApplied healthTopic deliveries).map transitionPayload ∧
    (projected healthTopic deliveries).incidentFeed.map (·.payload) =
      (firstApplied healthTopic deliveries).map transitionPayload ∧
    ((projected healthTopic deliveries).incidentFeed.map (·.cursor)).Pairwise (· < ·) ∧
    ((projected healthTopic deliveries).incidents.map (·.incidentId)).Nodup ∧
    (∀ incidentId, Option.Rel (fun row t => row.current.Shows t)
      ((projected healthTopic deliveries).incident incidentId)
      (newest (firstApplied healthTopic deliveries) incidentId)) ∧
    ∀ other : List Delivery, (∀ d ∈ other, ∀ t ∈ d.transition healthTopic, t.Storable) →
      (∀ t, (∃ d ∈ deliveries, t ∈ d.commits healthTopic) ↔
        ∃ d ∈ other, t ∈ d.commits healthTopic) →
      (∀ d ∈ deliveries, ∀ t ∈ d.commits healthTopic,
        t.transitionId = t.incidentId ++ ":" ++ toString t.revision.toNat) →
      (∀ d ∈ deliveries, ∀ t ∈ d.commits healthTopic, ∀ e ∈ deliveries,
        ∀ u ∈ e.commits healthTopic, t.transitionId = u.transitionId → t = u) →
      ∀ incidentId, ((projected healthTopic deliveries).incident incidentId).map (·.current) =
        ((projected healthTopic other).incident incidentId).map (·.current) := by
  have holds := projected_projects storable
  refine ⟨?_, ?_, holds.transitions, holds.feed, holds.ordered, holds.incidentIds, holds.shows, ?_⟩
  · rw [holds.transitionIds]
    exact FirstCome.ledger_nodup _ _
  · intro transitionId
    rw [holds.transitionIds, firstApplied, FirstCome.ledger_keys, List.mem_map]
    constructor
    · rintro ⟨t, committed, named⟩
      rcases mem_commits.mp committed with ⟨d, member, commits⟩
      exact ⟨d, member, t, commits, named⟩
    · rintro ⟨d, member, t, commits, named⟩
      exact ⟨t, mem_commits.mpr ⟨d, member, commits⟩, named⟩
  · intro other alsoStorable same named unique incidentId
    exact holds.same_states (projected_projects alsoStorable)
      (newest_order_independent same named unique incidentId)

section Samples

def sampleTransition (revision : UInt64) (status severity : Int32) : DetectionTransition :=
  { envelope := ⟨"gw", "gw:02:00:00:00:00:0a"⟩
    transitionId := "inc-1:" ++ toString revision.toNat
    incidentId := "inc-1"
    revision := revision
    status := status
    threatFamily := 1
    ruleId := "port-scan"
    ruleVersion := "v1"
    severity := severity
    horizons := []
    evidenceEventTimeUnixMillis := 1760486401000
    detectedAtUnixMillis := 1760486401010
    episodeStartUnixMillis := 1760486400000
    sampleEventIds := ["gw/1", "gw/2"]
    featureVersion := "v2"
    evidenceIngestTimeUnixMillis := 0 }

/-- A delivery that goes through, or one that loses an answer and dies before its offset. -/
def sampleDelivery (t : DetectionTransition) (through : Bool) : Delivery :=
  ⟨⟨"traffic.detections.v2", 0, 7, some t, none⟩, if through then [] else [.afterCommit 5],
    .answered 6, through⟩

private theorem sample_transition {t : DetectionTransition} (through : Bool)
    (named : t.transitionId ≠ "" ∧ t.incidentId ≠ "") :
    (sampleDelivery t through).transition "traffic.health.v2" = some t := by
  have topic : (sampleDelivery t through).message.topic ≠ "traffic.health.v2" := by
    change "traffic.detections.v2" ≠ "traffic.health.v2"
    decide
  rw [Delivery.transition, if_neg topic]
  change Option.filter _ (some t) = some t
  rw [Option.filter_some, if_pos (decide_eq_true named)]

private theorem sample_commits {t : DetectionTransition} (through : Bool)
    (named : t.transitionId ≠ "" ∧ t.incidentId ≠ "") :
    (sampleDelivery t through).commits "traffic.health.v2" = some t := by
  have reaches : (sampleDelivery t through).reaches = true := by
    rw [Delivery.reaches, Bool.or_eq_true]
    exact Or.inr rfl
  rw [Delivery.commits, if_pos reaches, sample_transition through named]

end Samples

/-- Opened and resolved, in order and the other way round with a redelivery after a crash. -/
theorem projection_opened_resolved :
    ((projected "traffic.health.v2" [sampleDelivery (sampleTransition 1 1 1) true,
      sampleDelivery (sampleTransition 2 4 2) true]).incidentTransitions.map
        (·.transitionId)).Nodup ∧
    ((projected "traffic.health.v2" [sampleDelivery (sampleTransition 1 1 1) true,
      sampleDelivery (sampleTransition 2 4 2) true]).incident "inc-1").map (·.current) =
    ((projected "traffic.health.v2" [sampleDelivery (sampleTransition 2 4 2) false,
      sampleDelivery (sampleTransition 2 4 2) true,
      sampleDelivery (sampleTransition 1 1 1) true]).incident "inc-1").map (·.current) := by
  have firstNamed : (sampleTransition 1 1 1).transitionId ≠ "" ∧
      (sampleTransition 1 1 1).incidentId ≠ "" := by decide
  have secondNamed : (sampleTransition 2 4 2).transitionId ≠ "" ∧
      (sampleTransition 2 4 2).incidentId ≠ "" := by decide
  have firstStorable : (sampleTransition 1 1 1).Storable := by decide
  have secondStorable : (sampleTransition 2 4 2).Storable := by decide
  have holds := projection_effectively_once "traffic.health.v2"
    [sampleDelivery (sampleTransition 1 1 1) true, sampleDelivery (sampleTransition 2 4 2) true]
    (by simp [sample_transition, firstNamed, secondNamed, firstStorable, secondStorable])
  refine ⟨holds.1, holds.2.2.2.2.2.2.2 _ ?_ ?_ ?_ ?_ "inc-1"⟩
  · simp [sample_transition, firstNamed, secondNamed, firstStorable, secondStorable]
  · simp [sample_commits, firstNamed, secondNamed, or_comm]
  · simp [sample_commits, firstNamed, secondNamed]
    decide
  · have differ : (sampleTransition 1 1 1).transitionId ≠ (sampleTransition 2 4 2).transitionId := by
      decide
    simp [sample_commits, firstNamed, secondNamed, differ, differ.symm]

/-- Two detections of one revision that differ in severity: the first one delivered stays. -/
theorem projection_depends_on_order :
    ¬ ∀ (deliveries other : List Delivery),
      (∀ d ∈ deliveries, ∀ t ∈ d.transition "traffic.health.v2", t.Storable) →
      (∀ d ∈ other, ∀ t ∈ d.transition "traffic.health.v2", t.Storable) →
      (∀ t, (∃ d ∈ deliveries, t ∈ d.commits "traffic.health.v2") ↔
        ∃ d ∈ other, t ∈ d.commits "traffic.health.v2") →
      (∀ d ∈ deliveries, ∀ t ∈ d.commits "traffic.health.v2",
        t.transitionId = t.incidentId ++ ":" ++ toString t.revision.toNat) →
      ∀ incidentId, ((projected "traffic.health.v2" deliveries).incident incidentId).map
          (·.current) =
        ((projected "traffic.health.v2" other).incident incidentId).map (·.current) := by
  intro claimed
  have lowNamed : (sampleTransition 1 1 1).transitionId ≠ "" ∧
      (sampleTransition 1 1 1).incidentId ≠ "" := by decide
  have highNamed : (sampleTransition 1 1 3).transitionId ≠ "" ∧
      (sampleTransition 1 1 3).incidentId ≠ "" := by decide
  have lowStorable : (sampleTransition 1 1 1).Storable := by decide
  have highStorable : (sampleTransition 1 1 3).Storable := by decide
  have same := claimed
    [sampleDelivery (sampleTransition 1 1 1) true, sampleDelivery (sampleTransition 1 1 3) true]
    [sampleDelivery (sampleTransition 1 1 3) true, sampleDelivery (sampleTransition 1 1 1) true]
    (by simp [sample_transition, lowNamed, highNamed, lowStorable, highStorable])
    (by simp [sample_transition, lowNamed, highNamed, lowStorable, highStorable])
    (by simp [sample_commits, lowNamed, highNamed, or_comm])
    (by
      simp [sample_commits, lowNamed, highNamed]
      decide) "inc-1"
  have severities := congrArg (Option.map (·.severity)) same
  simp only [Option.map_map] at severities
  exact absurd severities (by decide)

end PiAgents.Incidents
