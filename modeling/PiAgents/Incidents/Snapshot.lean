import PiAgents.Lib.Decimal
import PiAgents.Lib.Leading
import PiAgents.Incidents.Changes

/-! The snapshot of the incident table that the API sends, and which incidents its limit leaves
out. -/

namespace PiAgents.Incidents

def snapshotLimit : Nat := 500

def IncidentRow.detectedAt (row : IncidentRow) : Int := row.current.detectedAt

/-- An order by detection time, the latest first. Rows of one time come in any order. -/
structure RowOrder where
  arrange : List IncidentRow → List IncidentRow
  perm : ∀ rows, (arrange rows).Perm rows
  latestFirst : ∀ rows, Leading.Descending IncidentRow.detectedAt (arrange rows)

structure Shown where
  transition : TransitionPayload
  committedAt : Timestamp

def IncidentRow.shown (row : IncidentRow) : Shown := ⟨row.current.lastTransition, row.committedAt⟩

structure Snapshot where
  cursor : Nat
  incidents : List Shown

/-- `SELECT coalesce(max(cursor), 0) FROM incident_feed`. -/
def Database.latestCursor (db : Database) : Nat := ((db.incidentFeed.map (·.cursor)).max?).getD 0

/-- Both statements see the tables as they are when the transaction starts. -/
def snapshot (order : RowOrder) (db : Database) (activeOnly : Bool) (limit : Nat) : Snapshot :=
  let rows := if activeOnly then db.incidents.filter (·.current.active) else db.incidents
  ⟨db.latestCursor, ((order.arrange rows).take limit).map IncidentRow.shown⟩

namespace RowOrder

/-- The order that puts rows of one detection time in the order of a rank. -/
def beside (rank : IncidentRow → Nat) (a b : IncidentRow) : Bool :=
  decide (b.detectedAt < a.detectedAt) ||
    (a.detectedAt == b.detectedAt && decide (rank a ≤ rank b))

theorem beside_iff (rank : IncidentRow → Nat) (a b : IncidentRow) : beside rank a b = true ↔
    b.detectedAt < a.detectedAt ∨ a.detectedAt = b.detectedAt ∧ rank a ≤ rank b := by
  simp only [beside, Bool.or_eq_true, decide_eq_true_eq, Bool.and_eq_true, beq_iff_eq]

private theorem pairwise_beside (rank : IncidentRow → Nat) (rows : List IncidentRow) :
    (rows.mergeSort (beside rank)).Pairwise fun a b => beside rank a b = true := by
  apply List.pairwise_mergeSort
  · intro a b c first second
    rw [beside_iff] at first second ⊢
    omega
  · intro a b
    rw [Bool.or_eq_true, beside_iff, beside_iff]
    omega

def ranked (rank : IncidentRow → Nat) : RowOrder where
  arrange rows := rows.mergeSort (beside rank)
  perm rows := List.mergeSort_perm rows (beside rank)
  latestFirst rows := by
    apply (pairwise_beside rank rows).imp
    intro a b before
    rw [beside_iff] at before
    omega

end RowOrder

/-- The last transition is the one the row shows, and an incident that is not resolved is active. -/
structure IncidentRow.Named (row : IncidentRow) : Prop where
  transition : row.current.lastTransition.incidentId = row.incidentId
  revision : row.current.lastTransition.revision = row.current.revision
  active : row.current.active = true ↔ row.current.status ≠ "RESOLVE"

/-- Every incident has one row. -/
structure Database.Named (db : Database) : Prop where
  distinct : (db.incidents.map (·.incidentId)).Nodup
  rows : ∀ row ∈ db.incidents, row.Named

theorem incidentRow_named {t : DetectionTransition} {state : IncidentState}
    (ok : incidentState t = .ok state) (now : Timestamp) : (incidentRow t state now).Named := by
  have shows := incidentState_shows ok
  constructor
  · change state.lastTransition.incidentId = t.incidentId
    rw [shows.lastTransition]
    rfl
  · change state.lastTransition.revision = state.revision
    rw [shows.lastTransition, shows.revision]
    rfl
  · exact shows.active

theorem IncidentRow.Named.revise {row excluded : IncidentRow} (named : row.Named)
    (other : excluded.Named) (same : row.incidentId = excluded.incidentId) :
    (row.revise excluded).Named := by
  by_cases newer : row.current.revision < excluded.current.revision
  · rw [IncidentRow.revise, if_pos newer]
    exact ⟨other.transition.trans same.symm, other.revision, other.active⟩
  · rw [IncidentRow.revise, if_neg newer]
    exact named

theorem upsert_named {rows : List IncidentRow} {excluded : IncidentRow}
    (named : ∀ row ∈ rows, row.Named) (other : excluded.Named) :
    ∀ row ∈ upsert rows excluded, row.Named := by
  intro row member
  by_cases held : rows.any (·.incidentId == excluded.incidentId) = true
  · rw [upsert, if_pos held] at member
    rcases List.mem_map.mp member with ⟨before, inRows, rfl⟩
    by_cases same : before.incidentId = excluded.incidentId
    · rw [if_pos same]
      exact (named before inRows).revise other same
    · rw [if_neg same]
      exact named before inRows
  · rw [upsert, if_neg held] at member
    rcases List.mem_append.mp member with old | new
    · exact named row old
    · rw [List.mem_singleton.mp new]
      exact other

theorem applyTransition_cases {db committed : Database} {t : DetectionTransition}
    {now : Timestamp} {cursor : Option Nat}
    (ok : db.applyTransition t now = .ok (committed, cursor)) :
    committed = db ∨ ∃ state, incidentState t = .ok state ∧ committed = db.insert t state now := by
  rcases bind_ok ok with ⟨row, rowOk, ok⟩
  have recordable : t.recordable = true := by
    by_contra not
    rw [transitionRow, if_neg not] at rowOk
    cases rowOk
  rw [transitionRow_ok recordable] at rowOk
  cases rowOk
  by_cases applied : db.applied t.transitionId = true
  · rw [if_pos applied] at ok
    cases ok
    exact Or.inl rfl
  · rw [if_neg applied] at ok
    rcases bind_ok ok with ⟨state, stateOk, ok⟩
    cases ok
    exact Or.inr ⟨state, stateOk, rfl⟩

theorem Database.Named.insert {db : Database} (named : db.Named) {t : DetectionTransition}
    {state : IncidentState} (ok : incidentState t = .ok state) (now : Timestamp) :
    (db.insert t state now).Named := by
  have kept : (db.incidents.map (·.incidentId)).map id = db.incidents.map (·.incidentId) :=
    List.map_id _
  constructor
  · have recorded := FirstCome.record_nodup id (kept.symm ▸ named.distinct)
      (incidentRow t state now).incidentId
    rw [List.map_id, ← upsert_incidentIds] at recorded
    exact recorded
  · exact upsert_named named.rows (incidentRow_named ok now)

namespace FeedRun

theorem step_named (run : FeedRun) (transaction : Transaction) (named : run.database.Named) :
    (run.step transaction).database.Named := by
  cases transaction with
  | prune now olderThan => exact ⟨named.distinct, named.rows⟩
  | rollBack drawn => exact ⟨named.distinct, named.rows⟩
  | apply t now =>
      cases outcome : run.database.applyTransition t now with
      | error failure =>
          simp only [step, outcome]
          exact named
      | ok answer =>
          simp only [step, outcome]
          rcases applyTransition_cases outcome with same | ⟨state, ok, same⟩
          · rw [same]
            exact named
          · rw [same]
            exact named.insert ok now

theorem named_after (transactions : List Transaction) : (after transactions).database.Named := by
  have preserved : ∀ (run : FeedRun), run.database.Named →
      (Runs.run step run transactions).database.Named := by
    induction transactions with
    | nil => exact fun _ named => named
    | cons transaction rest ih => exact fun run named => ih _ (step_named run transaction named)
  apply preserved
  exact ⟨List.nodup_nil, fun row member => by cases member⟩

end FeedRun

def Snapshot.shows (s : Snapshot) (incidentId : String) : Prop :=
  ∃ item ∈ s.incidents, item.transition.incidentId = incidentId

section Limit

variable {db : Database}

theorem snapshot_shows_iff (named : db.Named) (order : RowOrder) (limit : Nat) {row : IncidentRow}
    (member : row ∈ db.incidents) : (snapshot order db false limit).shows row.incidentId ↔
      row ∈ (order.arrange db.incidents).take limit := by
  constructor
  · rintro ⟨item, inSnapshot, same⟩
    rcases List.mem_map.mp inSnapshot with ⟨other, taken, rfl⟩
    have inTable : other ∈ db.incidents := (order.perm _).mem_iff.mp (List.mem_of_mem_take taken)
    have sameId : other.incidentId = row.incidentId := (named.rows other inTable).transition ▸ same
    rwa [List.inj_on_of_nodup_map named.distinct inTable member sameId] at taken
  · intro taken
    exact ⟨row.shown, List.mem_map_of_mem taken, (named.rows row member).transition⟩

/-- Every order keeps a row exactly when few enough rows are not detected before it. -/
theorem always_shown_iff (named : db.Named) (limit : Nat) {row : IncidentRow}
    (member : row ∈ db.incidents) :
    (∀ order, (snapshot order db false limit).shows row.incidentId) ↔
      (Leading.notBelow IncidentRow.detectedAt db.incidents row).length ≤ limit := by
  constructor
  · intro always
    by_contra many
    let rank (other : IncidentRow) : Nat := if other.incidentId = row.incidentId then 1 else 0
    have taken := (snapshot_shows_iff named (.ranked rank) limit member).mp (always _)
    have perm := (RowOrder.ranked rank).perm db.incidents
    have parts := List.take_append_drop limit ((RowOrder.ranked rank).arrange db.incidents)
    have sorted := RowOrder.pairwise_beside rank db.incidents
    have distinct := List.pairwise_map.mp (((perm.map (·.incidentId)).nodup_iff).mpr named.distinct)
    change ((RowOrder.ranked rank).arrange db.incidents).Pairwise _ at sorted
    rw [← parts] at sorted distinct
    rw [← Leading.notBelow_perm perm] at many
    refine Leading.not_mem_take_of_many ?_ (Nat.lt_of_not_le many) taken
    intro other later
    have before := (List.pairwise_append.mp sorted).2.2 row taken other later
    have apart := (List.pairwise_append.mp distinct).2.2 row taken other later
    rcases (RowOrder.beside_iff rank row other).mp before with below | ⟨_, ranked⟩
    · exact Or.inl below
    · have first : rank row = 1 := if_pos rfl
      have second : rank other = 0 := if_neg fun same => apart same.symm
      omega
  · intro few order
    rw [snapshot_shows_iff named order limit member]
    apply Leading.mem_take_of_few (order.latestFirst _)
    · exact (order.perm _).mem_iff.mpr member
    · rwa [Leading.notBelow_perm (order.perm _)]

end Limit

/-- The database after the transactions is shown without losing an active incident, whatever the
order of rows of one time, exactly when no active incident has 500 others not detected before it. -/
theorem refresh_keeps_active_iff (transactions : List Transaction) :
    (∀ order, ∀ row ∈ (FeedRun.after transactions).database.incidents,
      row.current.status ≠ "RESOLVE" →
        (snapshot order (FeedRun.after transactions).database false snapshotLimit).shows
          row.incidentId) ↔
      ∀ row ∈ (FeedRun.after transactions).database.incidents, row.current.active = true →
        (Leading.notBelow IncidentRow.detectedAt (FeedRun.after transactions).database.incidents
          row).length ≤ snapshotLimit := by
  have named := FeedRun.named_after transactions
  constructor
  · intro kept row member active
    apply (always_shown_iff named snapshotLimit member).mp
    intro order
    exact kept order row member ((named.rows row member).active.mp active)
  · intro few order row member unresolved
    have active := (named.rows row member).active.mpr unresolved
    exact (always_shown_iff named snapshotLimit member).mpr (few row member active) order

def episode (number : Nat) : DetectionTransition :=
  { sampleTransition 1 (if number = 0 then 1 else 4) 1 with
    transitionId := toString number
    incidentId := toString number
    detectedAtUnixMillis := if number = 0 then 1760486401000 else 1760486402000 }

def episodes (count : Nat) : List Transaction :=
  (List.range count).map fun number => .apply (episode number) 0

def episodeState (number : Nat) : IncidentState :=
  { status := if number = 0 then "OPEN" else "RESOLVE"
    active := number = 0
    severity := "LOW"
    revision := 1
    episodeStart := fromTimestamp 1760486400000
    evidenceEventTime := fromTimestamp 1760486401000
    evidenceIngestTime := none
    detectedAt := if number = 0 then 1760486401000000 else 1760486402000000
    lastTransition := transitionPayload (episode number) }

def episodeRow (number : Nat) : IncidentRow := incidentRow (episode number) (episodeState number) 0

theorem episode_state (number : Nat) : incidentState (episode number) = .ok (episodeState number) := by
  have start : ts (episode number).episodeStartUnixMillis =
      .ok (some (fromTimestamp 1760486400000)) := rfl
  have evidence : ts (episode number).evidenceEventTimeUnixMillis =
      .ok (some (fromTimestamp 1760486401000)) := rfl
  have ingest : ts (episode number).evidenceIngestTimeUnixMillis = .ok none := rfl
  have detected : ts (episode number).detectedAtUnixMillis =
      .ok (some (if number = 0 then 1760486401000000 else 1760486402000000)) := by
    by_cases first : number = 0
    · simp only [episode, first, if_true]
      rfl
    · simp only [episode, first, if_false]
      rfl
  have status : (transitionPayload (episode number)).status =
      if number = 0 then "OPEN" else "RESOLVE" := by
    by_cases first : number = 0
    · simp only [transitionPayload, episode, sampleTransition, first, if_true]
      rfl
    · simp only [transitionPayload, episode, sampleTransition, first, if_false]
      rfl
  have active : decide ((if number = 0 then "OPEN" else "RESOLVE") ≠ "RESOLVE") =
      decide (number = 0) := by
    by_cases first : number = 0
    · simp only [first, if_true]
      rfl
    · simp only [first, if_false]
      rfl
  rw [incidentState, start, evidence, ingest, detected]
  simp only [bind, Except.bind, notNull, status, active, pure, Except.pure]
  rfl

private theorem numeral_storable (number : Nat) : textStorable (toString number) = true := by
  apply List.all_eq_true.mpr
  intro c member
  have digit := Decimal.nat_digits number c member
  apply bne_iff_ne.mpr
  rintro rfl
  cases digit

theorem episode_recordable (number : Nat) : (episode number).recordable = true := by
  have numeral := numeral_storable number
  have payload : (transitionPayload (episode number)).storable = true := by
    simp only [TransitionPayload.storable, transitionPayload, episode, sampleTransition,
      List.cons_append, List.nil_append, List.all_cons, List.all_nil, numeral, Bool.true_and]
    decide
  rw [DetectionTransition.recordable, payload]
  change (textStorable (toString number) && textStorable (toString number) && _ && true) = true
  rw [numeral]
  rfl

structure Filled (db : Database) (count : Nat) : Prop where
  incidents : db.incidents = (List.range count).map episodeRow
  transitionIds : db.incidentTransitions.map (·.transitionId) = (List.range count).map toString

theorem Filled.step {db : Database} {fed : List FeedRow} {count : Nat} (filled : Filled db count) :
    Filled (FeedRun.step ⟨db, fed⟩ (.apply (episode count) 0)).database (count + 1) := by
  have fresh : toString count ∉ (List.range count).map toString := by
    intro member
    rcases List.mem_map.mp member with ⟨earlier, inRange, same⟩
    have equal := Decimal.toString_nat_injective same
    exact Nat.lt_irrefl _ (equal ▸ List.mem_range.mp inRange)
  have new : db.applied (episode count).transitionId = false := by
    rw [Bool.eq_false_iff]
    intro applied
    rcases List.any_eq_true.mp applied with ⟨row, member, same⟩
    apply fresh
    rw [← filled.transitionIds]
    exact List.mem_map.mpr ⟨row, member, beq_iff_eq.mp same⟩
  have absent : ¬ db.incidents.any (·.incidentId == (episodeRow count).incidentId) = true := by
    intro held
    have member := (any_incidentId db.incidents (episodeRow count)).mp held
    rw [filled.incidents, List.map_map] at member
    exact fresh member
  have applied := applyTransition_first (episode_recordable count) new (episode_state count) 0
  simp only [FeedRun.step, applied]
  constructor
  · change upsert db.incidents (episodeRow count) = _
    rw [upsert, if_neg absent, filled.incidents, List.range_succ, List.map_append]
    rfl
  · change (db.incidentTransitions ++ [_]).map _ = _
    rw [List.map_append, filled.transitionIds, List.range_succ, List.map_append]
    rfl

theorem episodes_filled (count : Nat) : Filled (FeedRun.after (episodes count)).database count := by
  induction count with
  | zero => exact ⟨rfl, rfl⟩
  | succ count ih =>
      have parts : episodes (count + 1) = episodes count ++ [.apply (episode count) 0] := by
        rw [episodes, List.range_succ, List.map_append]
        rfl
      rw [FeedRun.after, parts, Runs.run_append]
      exact ih.step

/-- Behind 500 resolved incidents an active one is not in the snapshot. -/
theorem refresh_loses_active_alert :
    ¬ ∀ (transactions : List Transaction) (order : RowOrder),
      ∀ row ∈ (FeedRun.after transactions).database.incidents, row.current.status ≠ "RESOLVE" →
        (snapshot order (FeedRun.after transactions).database false snapshotLimit).shows
          row.incidentId := by
  intro claimed
  have filled := episodes_filled 501
  have named := FeedRun.named_after (episodes 501)
  have member : episodeRow 0 ∈ (FeedRun.after (episodes 501)).database.incidents := by
    rw [filled.incidents]
    exact List.mem_map_of_mem (List.mem_range.mpr (by decide))
  have unresolved : (episodeRow 0).current.status ≠ "RESOLVE" := by decide
  have few := (always_shown_iff named snapshotLimit member).mp fun order =>
    claimed (episodes 501) order (episodeRow 0) member unresolved
  have all : Leading.notBelow IncidentRow.detectedAt
      (FeedRun.after (episodes 501)).database.incidents (episodeRow 0) =
      (List.range 501).map episodeRow := by
    rw [Leading.notBelow, filled.incidents]
    apply List.filter_eq_self.mpr
    intro row inRows
    rcases List.mem_map.mp inRows with ⟨number, _, rfl⟩
    cases number with
    | zero => rfl
    | succ number => rfl
  rw [all, List.length_map, List.length_range] at few
  exact absurd few (by decide)

end PiAgents.Incidents
