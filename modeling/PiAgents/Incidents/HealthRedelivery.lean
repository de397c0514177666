import PiAgents.Lib.LatestWins
import PiAgents.Incidents.Handling

/-! Health events delivered in any order and any number of times: the table holds rows of latest
events, and which row it holds where two events of one key are the latest. -/

namespace PiAgents.Incidents

open LatestWins

namespace HealthRow

def key (row : HealthRow) : String × String × String := (row.gatewayId, row.component, row.kind)

def time (row : HealthRow) : WithBot Timestamp := row.lastEventTime

/-- All columns but `received_at`. -/
def columns (row : HealthRow) : HealthRow := { row with receivedAt := 0 }

theorem sameKey_iff (row other : HealthRow) : SameKey row other ↔ row.key = other.key := by
  simp [SameKey, key]

theorem yields_iff (row excluded : HealthRow) :
    row.yields excluded = true ↔ row.time ≤ excluded.time := by
  rw [yields, time, time]
  cases row.lastEventTime with
  | none => exact iff_of_true rfl bot_le
  | some stored =>
      cases excluded.lastEventTime with
      | none => exact iff_of_false Bool.false_ne_true (WithBot.not_coe_le_bot stored)
      | some received => exact decide_eq_true_iff.trans WithBot.coe_le_coe.symm

end HealthRow

/-- One call of `apply_health`; none when it raises. -/
def Database.deliver (limits : Limits) (db : Database) (delivery : HealthEvent × Timestamp) :
    Option Database :=
  if delivery.1.refused limits db then none
  else (db.applyHealth delivery.1 delivery.2).toOption.map Prod.fst

def Database.deliverAll (limits : Limits) (db : Database)
    (deliveries : List (HealthEvent × Timestamp)) : Option Database :=
  deliveries.foldlM (Database.deliver limits) db

/-- The table takes the event whatever it holds. -/
structure HealthEvent.Accepted (limits : Limits) (h : HealthEvent) : Prop where
  storable : h.Storable
  fits : limits.health h = true
  notified : h.envelope.gatewayId.utf8ByteSize < 8000

section Deliveries

variable {limits : Limits}

theorem deliver_put {h : HealthEvent} (accepted : h.Accepted limits) (db : Database)
    (now : Timestamp) : ∃ after, db.deliver limits (h, now) = some after ∧
      after.gatewayHealth = put HealthRow.key HealthRow.time db.gatewayHealth (h.row now) := by
  have taken : h.refused limits db = false := by
    rw [HealthEvent.refused, accepted.fits]
    simp
  have sameKey (excluded : HealthRow) : (fun row => decide (HealthRow.SameKey row excluded)) =
      fun row => decide (row.key = excluded.key) := by
    funext row
    rw [decide_eq_decide]
    exact HealthRow.sameKey_iff row excluded
  have notified (stored : Database) : stored.notify healthChannel h.envelope.gatewayId =
      .ok { stored with
        notifications := stored.notifications ++ [(healthChannel, h.envelope.gatewayId)] } :=
    if_pos accepted.notified
  rw [Database.deliver, Database.applyHealth, healthRow_ok accepted.storable, put]
  simp only [taken, Bool.false_eq_true, if_false, bind, Except.bind, sameKey]
  cases found : db.gatewayHealth.find? fun row => decide (row.key = (h.row now).key) with
  | none =>
      simp only [notified]
      exact ⟨_, rfl, rfl⟩
  | some old =>
      by_cases yields : old.yields (h.row now) = true
      · simp only [yields, if_true, notified, (HealthRow.yields_iff ..).mp yields]
        refine ⟨_, rfl, ?_⟩
        simp only [replace, HealthRow.sameKey_iff]
      · have later : ¬old.time ≤ (h.row now).time := fun le =>
          yields ((HealthRow.yields_iff ..).mpr le)
        simp only [yields, later, if_false]
        exact ⟨_, rfl, rfl⟩

theorem accepted_of_deliver {h : HealthEvent} {db after : Database} {now : Timestamp}
    (empty : db.gatewayHealth = []) (delivered : db.deliver limits (h, now) = some after) :
    h.Accepted limits := by
  have none : db.healthRowOf h = none := by
    rw [Database.healthRowOf, empty, List.find?_nil]
  have replaces : db.replaces h := by
    intro old isOld
    rw [none] at isOld
    cases isOld
  rw [Database.deliver] at delivered
  by_cases refused : h.refused limits db = true
  · rw [if_pos refused] at delivered
    cases delivered
  · rw [if_neg refused] at delivered
    cases outcome : db.applyHealth h now with
    | error failure =>
        rw [outcome] at delivered
        cases delivered
    | ok result =>
        obtain ⟨storable, notified⟩ := (applyHealth_isOk_iff now).mp ⟨result, outcome⟩
        refine ⟨storable, ?_, notified replaces⟩
        have stored := (healthRow_isOk_iff h 0).mpr storable
        rw [HealthEvent.refused, stored, none] at refused
        simpa using refused

theorem deliverAll_run {deliveries : List (HealthEvent × Timestamp)}
    (accepted : ∀ d ∈ deliveries, d.1.Accepted limits) (db : Database) :
    ∃ after, db.deliverAll limits deliveries = some after ∧
      after.gatewayHealth = Runs.run (put HealthRow.key HealthRow.time) db.gatewayHealth
        (deliveries.map fun d => d.1.row d.2) := by
  induction deliveries generalizing db with
  | nil => exact ⟨db, rfl, rfl⟩
  | cons d rest ih =>
      rw [List.forall_mem_cons] at accepted
      obtain ⟨next, delivered, rows⟩ := deliver_put accepted.1 db d.2
      obtain ⟨after, later, afterRows⟩ := ih accepted.2 next
      refine ⟨after, ?_, ?_⟩
      · rw [Database.deliverAll, List.foldlM_cons, delivered]
        exact later
      · rw [afterRows, rows, List.map_cons, Runs.run_cons]

def Brings (deliveries : List (HealthEvent × Timestamp)) (events : List HealthEvent) : Prop :=
  ∀ h, h ∈ deliveries.map Prod.fst ↔ h ∈ events

/-- No event of the set with the same gateway, component and kind has a later time. -/
def Newest (events : List HealthEvent) (h : HealthEvent) : Prop :=
  h ∈ events ∧ ∀ other ∈ events, (other.row 0).key = (h.row 0).key →
    (other.row 0).time ≤ (h.row 0).time

/-- However the events are delivered, the empty table comes to hold the same rows: for each key
that of the newest event. -/
def Insensitive (limits : Limits) (events : List HealthEvent) : Prop :=
  ∀ (db : Database) (first second : List (HealthEvent × Timestamp)),
    Brings first events → Brings second events → ∃ one other : Database,
      Database.deliverAll limits { db with gatewayHealth := [] } first = some one ∧
      Database.deliverAll limits { db with gatewayHealth := [] } second = some other ∧
      (one.gatewayHealth.map HealthRow.columns).Perm (other.gatewayHealth.map HealthRow.columns) ∧
      ∀ row, row ∈ one.gatewayHealth.map HealthRow.columns ↔ ∃ h, Newest events h ∧ row = h.row 0

def newestRows (deliveries : List (HealthEvent × Timestamp)) : List HealthRow :=
  store HealthRow.key HealthRow.time (deliveries.map fun d => d.1.row d.2)

variable {events : List HealthEvent} {deliveries : List (HealthEvent × Timestamp)}

theorem brought_rows (brings : Brings deliveries events) {row : HealthRow}
    (member : row ∈ deliveries.map fun d => d.1.row d.2) :
    ∃ h ∈ events, row.columns = h.row 0 ∧ row.key = (h.row 0).key ∧ row.time = (h.row 0).time := by
  obtain ⟨d, among, rfl⟩ := List.mem_map.mp member
  exact ⟨d.1, (brings d.1).mp (List.mem_map_of_mem among), rfl, rfl, rfl⟩

theorem row_brought (brings : Brings deliveries events) {h : HealthEvent} (member : h ∈ events) :
    ∃ now, h.row now ∈ deliveries.map fun d => d.1.row d.2 := by
  obtain ⟨d, among, rfl⟩ := List.mem_map.mp ((brings h).mpr member)
  exact ⟨d.2, List.mem_map_of_mem among⟩

/-- Every row of the table is that of a newest event. -/
theorem store_newest (brings : Brings deliveries events) {row : HealthRow}
    (held : row ∈ newestRows deliveries) :
    ∃ h, Newest events h ∧ row.columns = h.row 0 ∧ row.key = (h.row 0).key := by
  have keeps := keeps_store HealthRow.key HealthRow.time
    (deliveries.map fun d => d.1.row d.2)
  obtain ⟨h, member, columns, key, time⟩ := brought_rows brings (keeps.taken row held)
  refine ⟨h, ⟨member, ?_⟩, columns, key⟩
  intro other among sameKey
  obtain ⟨now, brought⟩ := row_brought brings among
  rw [← time]
  exact keeps.latest row held (other.row now) brought (sameKey.trans key.symm)

/-- Events of the set that tie for the newest of their key fill the columns alike. -/
def Agreed (events : List HealthEvent) : Prop :=
  ∀ h other, Newest events h → Newest events other → (h.row 0).key = (other.row 0).key →
    h.row 0 = other.row 0

theorem mem_store_iff (agreed : Agreed events) (brings : Brings deliveries events)
    (row : HealthRow) :
    row ∈ (newestRows deliveries).map HealthRow.columns ↔
      ∃ h, Newest events h ∧ row = h.row 0 := by
  have keeps := keeps_store HealthRow.key HealthRow.time
    (deliveries.map fun d => d.1.row d.2)
  rw [List.mem_map]
  constructor
  · rintro ⟨held, among, rfl⟩
    obtain ⟨h, newest, columns, _⟩ := store_newest brings among
    exact ⟨h, newest, columns⟩
  · rintro ⟨h, newest, rfl⟩
    obtain ⟨now, brought⟩ := row_brought brings newest.1
    obtain ⟨held, among, sameKey⟩ := keeps.covers _ brought
    obtain ⟨other, otherNewest, columns, key⟩ := store_newest brings among
    refine ⟨held, among, ?_⟩
    rw [columns]
    exact agreed other h otherNewest newest (key.symm.trans sameKey)

theorem newestRows_nodup (deliveries : List (HealthEvent × Timestamp)) :
    ((newestRows deliveries).map HealthRow.columns).Nodup := by
  have distinct := (keeps_store HealthRow.key HealthRow.time
    (deliveries.map fun d => d.1.row d.2)).distinct
  apply List.Nodup.of_map HealthRow.key
  rw [List.map_map]
  exact distinct

theorem deliverAll_newest (accepted : ∀ h ∈ events, h.Accepted limits)
    (brings : Brings deliveries events) (db : Database) : ∃ after : Database,
      Database.deliverAll limits { db with gatewayHealth := [] } deliveries = some after ∧
        after.gatewayHealth = newestRows deliveries :=
  deliverAll_run (fun d among => accepted d.1 ((brings d.1).mp (List.mem_map_of_mem among)))
    { db with gatewayHealth := [] }

theorem insensitive_of_agreed (accepted : ∀ h ∈ events, h.Accepted limits)
    (agreed : Agreed events) : Insensitive limits events := by
  intro db first second firstBrings secondBrings
  obtain ⟨one, oneRuns, oneRows⟩ := deliverAll_newest accepted firstBrings db
  obtain ⟨other, otherRuns, otherRows⟩ := deliverAll_newest accepted secondBrings db
  refine ⟨one, other, oneRuns, otherRuns, ?_, ?_⟩
  · rw [oneRows, otherRows,
      List.perm_ext_iff_of_nodup (newestRows_nodup first) (newestRows_nodup second)]
    intro row
    exact (mem_store_iff agreed firstBrings row).trans (mem_store_iff agreed secondBrings row).symm
  · rw [oneRows]
    exact mem_store_iff agreed firstBrings

def endingWith (events : List HealthEvent) (h : HealthEvent) : List (HealthEvent × Timestamp) :=
  (events ++ [h]).map fun event => (event, 0)

theorem brings_endingWith {h : HealthEvent} (member : h ∈ events) :
    Brings (endingWith events h) events := by
  intro other
  have delivered : (endingWith events h).map Prod.fst = events ++ [h] := by
    rw [endingWith, List.map_map]
    exact List.map_id _
  rw [delivered, List.mem_append, List.mem_singleton]
  constructor
  · rintro (among | rfl)
    · exact among
    · exact member
  · exact Or.inl

theorem accepted_of_insensitive (insensitive : Insensitive limits events) :
    ∀ h ∈ events, h.Accepted limits := by
  intro h member
  have brings : Brings ((h, 0) :: endingWith events h) events := by
    intro other
    rw [List.map_cons, List.mem_cons, brings_endingWith member other]
    constructor
    · rintro (rfl | among)
      · exact member
      · exact among
    · exact Or.inr
  obtain ⟨one, _, runs, _⟩ := insensitive .empty _ _ brings brings
  rw [Database.deliverAll, List.foldlM_cons] at runs
  cases delivered : Database.deliver limits { Database.empty with gatewayHealth := [] } (h, 0) with
  | none =>
      rw [delivered] at runs
      cases runs
  | some next => exact accepted_of_deliver rfl delivered

theorem newest_last {h : HealthEvent} (newest : Newest events h) :
    h.row 0 ∈ newestRows (endingWith events h) := by
  rw [newestRows, endingWith, List.map_map, List.map_append, List.map_singleton]
  apply mem_store_last
  intro other among sameKey
  obtain ⟨event, member, rfl⟩ := List.mem_map.mp among
  exact newest.2 event member sameKey

theorem agreed_of_insensitive (insensitive : Insensitive limits events) : Agreed events := by
  intro h other newest otherNewest sameKey
  have accepted := accepted_of_insensitive insensitive
  have brings := brings_endingWith newest.1
  have otherBrings := brings_endingWith otherNewest.1
  obtain ⟨one, two, oneRuns, twoRuns, perm, _⟩ := insensitive .empty _ _ brings otherBrings
  obtain ⟨after, runs, rows⟩ := deliverAll_newest accepted brings .empty
  obtain ⟨otherAfter, otherRuns, otherRows⟩ := deliverAll_newest accepted otherBrings .empty
  rw [oneRuns] at runs
  rw [twoRuns] at otherRuns
  obtain rfl := Option.some.inj runs
  obtain rfl := Option.some.inj otherRuns
  rw [rows, otherRows] at perm
  have here : h.row 0 ∈ (newestRows (endingWith events other)).map HealthRow.columns :=
    perm.mem_iff.mp (List.mem_map_of_mem (newest_last newest))
  obtain ⟨held, among, columns⟩ := List.mem_map.mp here
  have keeps := keeps_store HealthRow.key HealthRow.time
    ((endingWith events other).map fun d => d.1.row d.2)
  have heldKey : held.key = (h.row 0).key := by
    rw [← columns]
    rfl
  have same := keeps.unique among (newest_last otherNewest) (heldKey.trans sameKey)
  rw [← columns, same]
  rfl

/-- Redelivery and reordering are harmless exactly for the sets whose events the table takes and
whose newest events of a key fill the columns alike. -/
theorem insensitive_iff (limits : Limits) (events : List HealthEvent) :
    Insensitive limits events ↔ (∀ h ∈ events, h.Accepted limits) ∧ Agreed events :=
  ⟨fun insensitive => ⟨accepted_of_insensitive insensitive, agreed_of_insensitive insensitive⟩,
    fun both => insensitive_of_agreed both.1 both.2⟩

end Deliveries

def lossReport (count : UInt64) : HealthEvent where
  envelope := ⟨"gw", ""⟩
  component := "sensor-spool"
  kind := 2
  count := count
  firstSequence := 10
  lastSequence := 20
  firstEventTimeUnixMillis := 1000
  lastEventTimeUnixMillis := 2000
  detail := "spool full"

/-- Of two totals with one last event time the table keeps the one delivered last. -/
theorem sensitive_to_order :
    ¬Insensitive ⟨fun _ => true, fun _ => true⟩ [lossReport 5, lossReport 6] := by
  intro insensitive
  have newest {count : UInt64} (member : lossReport count ∈ [lossReport 5, lossReport 6]) :
      Newest [lossReport 5, lossReport 6] (lossReport count) := by
    refine ⟨member, ?_⟩
    intro other among _
    obtain rfl | rfl := List.mem_pair.mp among
    · exact le_rfl
    · exact le_rfl
  have same := agreed_of_insensitive insensitive (lossReport 5) (lossReport 6)
    (newest (List.mem_cons_self ..)) (newest (List.mem_cons_of_mem _ (List.mem_cons_self ..))) rfl
  exact absurd (congrArg HealthRow.count same) (by decide)

end PiAgents.Incidents
