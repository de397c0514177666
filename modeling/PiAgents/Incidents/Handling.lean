import PiAgents.Incidents.Projection

/-! One message against a reachable database: when `handle` returns and commits the offset. -/

namespace PiAgents.Incidents

/-- The sizes PostgreSQL takes, an index entry of a third of a page among them. A row over them is
refused with an operational error. -/
structure Limits where
  transition : DetectionTransition → Bool
  health : HealthEvent → Bool

def timeOf (millis : Int64) : Option Timestamp :=
  if millis = 0 then none else some (fromTimestamp millis.toInt)

def HealthEvent.row (h : HealthEvent) (now : Timestamp) : HealthRow :=
  ⟨h.envelope.gatewayId, h.component, nameOf healthKindNames h.kind, h.count, h.firstSequence,
    h.lastSequence, timeOf h.firstEventTimeUnixMillis, timeOf h.lastEventTimeUnixMillis, h.detail,
    now⟩

def Database.healthRowOf (db : Database) (h : HealthEvent) : Option HealthRow :=
  db.gatewayHealth.find? fun row => HealthRow.SameKey row (h.row 0)

/-- The first insert of the transaction is refused for its size. -/
def DetectionTransition.refused (limits : Limits) (db : Database) (t : DetectionTransition) : Bool :=
  t.recordable && !db.applied t.transitionId && !limits.transition t

def HealthEvent.refused (limits : Limits) (db : Database) (h : HealthEvent) : Bool :=
  (healthRow h 0).isOk && (db.healthRowOf h).isNone && !limits.health h

def Message.refused (limits : Limits) (healthTopic : String) (db : Database) (m : Message) : Bool :=
  if m.topic = healthTopic then
    m.health.any fun h => h.envelope.gatewayId ≠ "" && h.refused limits db
  else
    m.detection.any fun t => t.transitionId ≠ "" && t.incidentId ≠ "" && t.refused limits db

/-- The attempts before the one that is answered. A refused one is rolled back and made again. -/
def lossesUntilAnswer (refused : Bool) : Nat → Option (List ConnectionLoss)
  | 0 => none
  | rounds + 1 =>
      if refused then (lossesUntilAnswer refused rounds).map (.beforeCommit 0 :: ·) else some []

/-- `handle` on a reachable database within so many attempts; none when it is still retrying. -/
def Projection.handleWithin (limits : Limits) (healthTopic : String) (p : Projection) (m : Message)
    (clock : Nat → Timestamp) (rounds : Nat) : Option (Projection × Outcome (Option Nat)) :=
  (lossesUntilAnswer (m.refused limits healthTopic p.database) rounds).map fun losses =>
    p.handle healthTopic ⟨m, losses, .answered (clock losses.length), true⟩

structure Handled (p after : Projection) (m : Message) : Prop where
  committed : after.committed = p.committed ++ [(m.topic, m.part, m.offset)]
  counted : after.stats = { p.stats with applied := p.stats.applied + 1 } ∨
    after.stats = { p.stats with duplicates := p.stats.duplicates + 1 } ∨
    after.stats = { p.stats with malformed := p.stats.malformed + 1 } ∨
    after.stats = { p.stats with health := p.stats.health + 1 }

def inYears (millis : Int64) : Prop := -62135596800000 ≤ millis ∧ millis ≤ 253402300799999

/-- The times that the incident's columns require are given, and all are within the years. -/
structure DetectionTransition.Dated (t : DetectionTransition) : Prop where
  given : t.episodeStartUnixMillis ≠ 0 ∧ t.evidenceEventTimeUnixMillis ≠ 0 ∧
    t.detectedAtUnixMillis ≠ 0
  inYears : inYears t.episodeStartUnixMillis ∧ inYears t.evidenceEventTimeUnixMillis ∧
    inYears t.evidenceIngestTimeUnixMillis ∧ inYears t.detectedAtUnixMillis

structure HealthEvent.Storable (h : HealthEvent) : Prop where
  inYears : inYears h.firstEventTimeUnixMillis ∧ inYears h.lastEventTimeUnixMillis
  texts : [h.envelope.gatewayId, h.component, h.detail].all textStorable = true
  numbers : [h.count, h.firstSequence, h.lastSequence].all bigintStorable = true

/-- The database takes the transition: it is a duplicate, or its times are usable too. -/
def DetectionTransition.Taken (limits : Limits) (db : Database) (t : DetectionTransition) : Prop :=
  t.recordable = true ∧
    (db.applied t.transitionId = true ∨ limits.transition t = true ∧ t.Dated)

/-- No stored row is newer: the event is stored, and a notification names its gateway. -/
def Database.replaces (db : Database) (h : HealthEvent) : Prop :=
  ∀ old ∈ db.healthRowOf h, old.yields (h.row 0) = true

def HealthEvent.Taken (limits : Limits) (db : Database) (h : HealthEvent) : Prop :=
  h.Storable ∧ (db.healthRowOf h = none → limits.health h = true) ∧
    (db.replaces h → h.envelope.gatewayId.utf8ByteSize < 8000)

/-- What the message asks for is nothing, or the database takes it. -/
def Message.Taken (limits : Limits) (healthTopic : String) (db : Database) (m : Message) : Prop :=
  if m.topic = healthTopic then
    ∀ h ∈ m.health, h.envelope.gatewayId ≠ "" → h.Taken limits db
  else
    ∀ t ∈ m.detection, t.transitionId ≠ "" → t.incidentId ≠ "" → t.Taken limits db

theorem ts_within {millis : Int64} (within : inYears millis) : ts millis = .ok (timeOf millis) := by
  by_cases zero : millis = 0
  · rw [ts, timeOf, if_pos zero, if_pos zero]
  · rw [ts, timeOf, if_neg zero, if_neg zero]
    exact if_pos within

private theorem ts_outside {millis : Int64} (outside : ¬ inYears millis) :
    ts millis = .error .valueError := by
  have given : millis ≠ 0 := by
    rintro rfl
    exact outside ⟨by decide, by decide⟩
  rw [ts, if_neg given]
  exact if_neg outside

theorem isOk_iff {α : Type} (result : Except Failure α) :
    result.isOk = true ↔ ∃ value, result = .ok value := by
  cases result with
  | error failure => exact iff_of_false Bool.false_ne_true (fun ⟨_, same⟩ => by cases same)
  | ok value => exact iff_of_true rfl ⟨value, rfl⟩

theorem inYears_of_ts {millis : Int64} {time : Option Timestamp} (ok : ts millis = .ok time) :
    inYears millis := by
  by_contra outside
  rw [ts_outside outside] at ok
  cases ok

theorem given_of_ts {millis : Int64} {time : Timestamp} (ok : ts millis = .ok (some time)) :
    millis ≠ 0 := by
  rintro rfl
  cases ok

theorem incidentState_isOk_iff (t : DetectionTransition) :
    (incidentState t).isOk = true ↔ t.Dated := by
  constructor
  · intro readable
    rcases (isOk_iff _).mp readable with ⟨state, ok⟩
    have shows := incidentState_shows ok
    constructor
    · exact ⟨given_of_ts shows.episodeStart, given_of_ts shows.evidenceEventTime,
        given_of_ts shows.detectedAt⟩
    · exact ⟨inYears_of_ts shows.episodeStart, inYears_of_ts shows.evidenceEventTime,
        inYears_of_ts shows.evidenceIngestTime, inYears_of_ts shows.detectedAt⟩
  · rintro ⟨⟨start, evidence, detected⟩, startWithin, evidenceWithin, ingestWithin, detectedWithin⟩
    rw [incidentState, ts_within startWithin, ts_within evidenceWithin, ts_within ingestWithin,
      ts_within detectedWithin, timeOf, timeOf, timeOf, timeOf, if_neg start, if_neg evidence,
      if_neg detected]
    rfl

theorem healthRow_ok {h : HealthEvent} (storable : h.Storable) (now : Timestamp) :
    healthRow h now = .ok (h.row now) := by
  rw [healthRow, ts_within storable.inYears.1, ts_within storable.inYears.2]
  simp only [bind, Except.bind, storable.texts, storable.numbers, Bool.and_self, if_true]
  rfl

theorem storable_of_healthRow {h : HealthEvent} {now : Timestamp} {row : HealthRow}
    (ok : healthRow h now = .ok row) : h.Storable := by
  rcases bind_ok ok with ⟨first, firstOk, ok⟩
  rcases bind_ok ok with ⟨last, lastOk, ok⟩
  by_cases stored : ([h.envelope.gatewayId, h.component, h.detail].all textStorable &&
      [h.count, h.firstSequence, h.lastSequence].all bigintStorable) = true
  · have both := Bool.and_eq_true_iff.mp stored
    exact ⟨⟨inYears_of_ts firstOk, inYears_of_ts lastOk⟩, both.1, both.2⟩
  · rw [if_neg stored] at ok
    cases ok

theorem healthRow_isOk_iff (h : HealthEvent) (now : Timestamp) :
    (healthRow h now).isOk = true ↔ h.Storable := by
  rw [isOk_iff]
  constructor
  · rintro ⟨row, ok⟩
    exact storable_of_healthRow ok
  · intro storable
    exact ⟨_, healthRow_ok storable now⟩

private theorem bind_pure_isOk_iff {α β : Type} (first : Except Failure α) (wrap : α → β) :
    (∃ result, (first >>= fun value => pure (wrap value)) = .ok result) ↔
      ∃ value, first = .ok value := by
  cases first with
  | error failure => exact iff_of_false (fun ⟨_, same⟩ => by cases same) (fun ⟨_, same⟩ => by cases same)
  | ok value => exact iff_of_true ⟨_, rfl⟩ ⟨_, rfl⟩

theorem notify_isOk_iff (db : Database) (channel payload : String) :
    (∃ after, db.notify channel payload = .ok after) ↔ payload.utf8ByteSize < 8000 := by
  by_cases short : payload.utf8ByteSize < 8000
  · rw [Database.notify, if_pos short]
    exact iff_of_true ⟨_, rfl⟩ short
  · rw [Database.notify, if_neg short]
    apply iff_of_false
    · rintro ⟨after, ok⟩
      cases ok
    · exact short

theorem applyTransition_isOk_iff (db : Database) (t : DetectionTransition) (now : Timestamp) :
    (∃ result, db.applyTransition t now = .ok result) ↔
      t.recordable = true ∧ (db.applied t.transitionId = true ∨ t.Dated) := by
  constructor
  · rintro ⟨result, ok⟩
    rcases bind_ok ok with ⟨row, rowOk, ok⟩
    have recordable : t.recordable = true := by
      by_contra not
      rw [transitionRow, if_neg not] at rowOk
      cases rowOk
    refine ⟨recordable, ?_⟩
    by_cases applied : db.applied t.transitionId = true
    · exact Or.inl applied
    · rw [if_neg applied] at ok
      rcases bind_ok ok with ⟨state, stateOk, _⟩
      exact Or.inr ((incidentState_isOk_iff t).mp ((isOk_iff _).mpr ⟨state, stateOk⟩))
  · rintro ⟨recordable, taken⟩
    by_cases applied : db.applied t.transitionId = true
    · exact ⟨_, applyTransition_again recordable applied now⟩
    · have dated := taken.resolve_left applied
      rcases (isOk_iff _).mp ((incidentState_isOk_iff t).mpr dated) with ⟨state, ok⟩
      exact ⟨_, applyTransition_first recordable (Bool.eq_false_iff.mpr applied) ok now⟩

section Health

variable {db : Database} {h : HealthEvent}

theorem applyHealth_replaces (storable : h.Storable) (replaces : db.replaces h)
    (now : Timestamp) : ∃ stored : Database, db.applyHealth h now =
      stored.notify healthChannel h.envelope.gatewayId >>= fun after => pure (after, true) := by
  rw [Database.applyHealth, healthRow_ok storable]
  cases found : db.healthRowOf h with
  | none =>
      have missing : db.gatewayHealth.find? (fun row => HealthRow.SameKey row (h.row now)) = none :=
        found
      simp only [bind, Except.bind, missing]
      exact ⟨_, rfl⟩
  | some old =>
      have stored : db.gatewayHealth.find? (fun row => HealthRow.SameKey row (h.row now)) =
          some old := found
      have yields : old.yields (h.row now) = true := replaces old found
      simp only [bind, Except.bind, stored, yields, if_true]
      exact ⟨_, rfl⟩

theorem applyHealth_keeps (storable : h.Storable) (newer : ¬ db.replaces h) (now : Timestamp) :
    db.applyHealth h now = .ok (db, false) := by
  cases found : db.healthRowOf h with
  | none =>
      apply absurd _ newer
      intro old isOld
      rw [found] at isOld
      cases isOld
  | some old =>
      have keeps : ¬ old.yields (h.row now) = true := by
        intro yields
        apply newer
        intro other isOther
        rw [found] at isOther
        cases isOther
        exact yields
      have stored : db.gatewayHealth.find? (fun row => HealthRow.SameKey row (h.row now)) =
          some old := found
      rw [Database.applyHealth, healthRow_ok storable]
      simp only [bind, Except.bind, stored, keeps]
      rfl

theorem applyHealth_isOk_iff (now : Timestamp) : (∃ result, db.applyHealth h now = .ok result) ↔
    h.Storable ∧ (db.replaces h → h.envelope.gatewayId.utf8ByteSize < 8000) := by
  by_cases storable : h.Storable
  · by_cases replaces : db.replaces h
    · rcases applyHealth_replaces storable replaces now with ⟨stored, same⟩
      rw [same, bind_pure_isOk_iff, notify_isOk_iff]
      exact ⟨fun short => ⟨storable, fun _ => short⟩, fun both => both.2 replaces⟩
    · rw [applyHealth_keeps storable replaces]
      exact iff_of_true ⟨_, rfl⟩ ⟨storable, fun all => absurd all replaces⟩
  · apply iff_of_false
    · rintro ⟨result, ok⟩
      rcases bind_ok ok with ⟨row, rowOk, _⟩
      exact storable (storable_of_healthRow rowOk)
    · exact fun both => storable both.1

end Health

theorem lossesUntilAnswer_refused (rounds : Nat) : lossesUntilAnswer true rounds = none := by
  induction rounds with
  | zero => rfl
  | succ rounds ih =>
      rw [lossesUntilAnswer, if_pos rfl, ih]
      rfl

theorem handleWithin_refused {limits : Limits} {healthTopic : String} {p : Projection} {m : Message}
    (refused : m.refused limits healthTopic p.database = true) (clock : Nat → Timestamp)
    (rounds : Nat) : p.handleWithin limits healthTopic m clock rounds = none := by
  rw [Projection.handleWithin, refused, lossesUntilAnswer_refused]
  rfl

theorem handleWithin_answered {limits : Limits} {healthTopic : String} {p : Projection}
    {m : Message} (answered : m.refused limits healthTopic p.database = false)
    (clock : Nat → Timestamp) (rounds : Nat) :
    p.handleWithin limits healthTopic m clock (rounds + 1) =
      some (p.handle healthTopic ⟨m, [], .answered (clock 0), true⟩) := by
  rw [Projection.handleWithin, answered]
  rfl

/-- `handle` returns after some number of attempts and has dealt with the message. -/
def HandledWithin (limits : Limits) (healthTopic : String) (p : Projection) (m : Message)
    (clock : Nat → Timestamp) : Prop :=
  ∃ rounds after cursor,
    p.handleWithin limits healthTopic m clock rounds = some (after, .returned cursor) ∧
      Handled p after m

theorem handledWithin_iff {limits : Limits} {healthTopic : String} {p : Projection} {m : Message}
    (answered : m.refused limits healthTopic p.database = false) (clock : Nat → Timestamp) :
    HandledWithin limits healthTopic p m clock ↔
      ∃ after cursor, p.handle healthTopic ⟨m, [], .answered (clock 0), true⟩ =
        (after, .returned cursor) ∧ Handled p after m := by
  constructor
  · rintro ⟨rounds, after, cursor, returned, handled⟩
    cases rounds with
    | zero =>
        rw [Projection.handleWithin, lossesUntilAnswer] at returned
        cases returned
    | succ rounds =>
        rw [handleWithin_answered answered] at returned
        exact ⟨after, cursor, Option.some.inj returned, handled⟩
  · rintro ⟨after, cursor, returned, handled⟩
    exact ⟨1, after, cursor, by rw [handleWithin_answered answered, returned], handled⟩

theorem refused_not_taken {limits : Limits} {db : Database} {t : DetectionTransition}
    (refused : t.refused limits db = true) : ¬ t.Taken limits db := by
  simp only [DetectionTransition.refused, Bool.and_eq_true, Bool.not_eq_true'] at refused
  rintro ⟨_, applied | ⟨within, _⟩⟩
  · rw [applied] at refused
    cases refused.1.2
  · rw [within] at refused
    cases refused.2

theorem taken_iff_of_not_refused {limits : Limits} {db : Database} {t : DetectionTransition}
    (answered : t.refused limits db = false) :
    t.Taken limits db ↔ t.recordable = true ∧ (db.applied t.transitionId = true ∨ t.Dated) := by
  constructor
  · rintro ⟨recordable, applied | ⟨_, dated⟩⟩
    · exact ⟨recordable, Or.inl applied⟩
    · exact ⟨recordable, Or.inr dated⟩
  · rintro ⟨recordable, taken⟩
    refine ⟨recordable, ?_⟩
    by_cases applied : db.applied t.transitionId = true
    · exact Or.inl applied
    · have within : limits.transition t = true := by
        simpa [DetectionTransition.refused, recordable, applied] using answered
      exact Or.inr ⟨within, taken.resolve_left applied⟩

theorem health_refused_not_taken {limits : Limits} {db : Database} {h : HealthEvent}
    (refused : h.refused limits db = true) : ¬ h.Taken limits db := by
  simp only [HealthEvent.refused, Bool.and_eq_true, Bool.not_eq_true',
    Option.isNone_iff_eq_none] at refused
  intro taken
  have within := taken.2.1 refused.1.2
  rw [within] at refused
  cases refused.2

theorem health_taken_iff_of_not_refused {limits : Limits} {db : Database} {h : HealthEvent}
    (answered : h.refused limits db = false) : h.Taken limits db ↔
      h.Storable ∧ (db.replaces h → h.envelope.gatewayId.utf8ByteSize < 8000) := by
  constructor
  · exact fun taken => ⟨taken.1, taken.2.2⟩
  · rintro ⟨storable, short⟩
    refine ⟨storable, ?_, short⟩
    intro new
    have readable := (healthRow_isOk_iff h 0).mpr storable
    simpa [HealthEvent.refused, readable, new] using answered

section Handle

variable {healthTopic : String} {p : Projection} {m : Message} {now : Timestamp}

def Projection.answered (p : Projection) (m : Message) (database : Database) (stats : Stats) :
    Projection :=
  ⟨database, stats, p.committed ++ [(m.topic, m.part, m.offset)]⟩

/-- The first attempt returns and the message is dealt with. -/
def Dealt (healthTopic : String) (p : Projection) (m : Message) (now : Timestamp) : Prop :=
  ∃ after cursor, p.handle healthTopic ⟨m, [], .answered now, true⟩ = (after, .returned cursor) ∧
    Handled p after m

theorem dealt_malformed
    (malformed : p.apply healthTopic ⟨m, [], .answered now, true⟩ = (p.malformed, .returned none)) :
    Dealt healthTopic p m now := by
  refine ⟨p.answered m p.database p.malformed.stats, none, ?_, rfl, Or.inr (Or.inr (Or.inl rfl))⟩
  rw [Projection.handle, malformed]
  rfl

theorem dealt_detection_iff (topic : m.topic ≠ healthTopic) {t : DetectionTransition}
    (decoded : m.detection = some t) (named : ¬ (t.transitionId = "" ∨ t.incidentId = "")) :
    Dealt healthTopic p m now ↔ ∃ result, p.database.applyTransition t now = .ok result := by
  cases outcome : p.database.applyTransition t now with
  | error failure =>
      apply iff_of_false
      · rintro ⟨after, cursor, returned, _⟩
        simp only [Projection.handle, Projection.apply, topic, decoded, named, withRetry, outcome,
          if_false, Prod.mk.injEq, reduceCtorEq, and_false] at returned
      · rintro ⟨result, ok⟩
        cases ok
  | ok result =>
      rcases result with ⟨committed, cursor⟩
      apply iff_of_true _ ⟨_, rfl⟩
      cases cursor with
      | none =>
          refine ⟨p.answered m committed { p.stats with duplicates := p.stats.duplicates + 1 },
            none, ?_, rfl, Or.inr (Or.inl rfl)⟩
          simp only [Projection.handle, Projection.apply, topic, decoded, named, withRetry,
            outcome, if_false, if_true]
          rfl
      | some cursor =>
          refine ⟨p.answered m committed { p.stats with applied := p.stats.applied + 1 },
            some cursor, ?_, rfl, Or.inl rfl⟩
          simp only [Projection.handle, Projection.apply, topic, decoded, named, withRetry,
            outcome, if_false, if_true]
          rfl

theorem dealt_health_iff (topic : m.topic = healthTopic) {h : HealthEvent}
    (decoded : m.health = some h) (named : ¬ h.envelope.gatewayId = "") :
    Dealt healthTopic p m now ↔ ∃ result, p.database.applyHealth h now = .ok result := by
  cases outcome : p.database.applyHealth h now with
  | error failure =>
      apply iff_of_false
      · rintro ⟨after, cursor, returned, _⟩
        simp only [Projection.handle, Projection.apply, Projection.health, topic, decoded, named,
          withRetry, outcome, if_false, if_true, Prod.mk.injEq, reduceCtorEq,
          and_false] at returned
      · rintro ⟨result, ok⟩
        cases ok
  | ok result =>
      apply iff_of_true _ ⟨_, rfl⟩
      refine ⟨p.answered m result.1 { p.stats with health := p.stats.health + 1 }, none, ?_, rfl,
        Or.inr (Or.inr (Or.inr rfl))⟩
      simp only [Projection.handle, Projection.apply, Projection.health, topic, decoded, named,
        withRetry, outcome, if_false, if_true]
      rw [Projection.answered, topic]
      rfl

end Handle

theorem detection_handled_iff (limits : Limits) {healthTopic : String} (p : Projection) {m : Message}
    (clock : Nat → Timestamp) (topic : m.topic ≠ healthTopic) :
    HandledWithin limits healthTopic p m clock ↔
      ∀ t ∈ m.detection, t.transitionId ≠ "" → t.incidentId ≠ "" → t.Taken limits p.database := by
  cases decoded : m.detection with
  | none =>
      have answered : m.refused limits healthTopic p.database = false := by
        rw [Message.refused, if_neg topic, decoded]
        rfl
      rw [handledWithin_iff answered]
      apply iff_of_true
      · apply dealt_malformed
        simp only [Projection.apply, topic, decoded, if_false]
      · intro t isSome
        cases isSome
  | some t =>
      by_cases named : t.transitionId = "" ∨ t.incidentId = ""
      · have answered : m.refused limits healthTopic p.database = false := by
          rw [Message.refused, if_neg topic, decoded]
          rcases named with unnamed | unnamed
          · simp only [Option.any_some, unnamed]
            rfl
          · simp only [Option.any_some, unnamed, ne_eq, not_true_eq_false, decide_false,
              Bool.and_false, Bool.false_and]
        rw [handledWithin_iff answered]
        apply iff_of_true
        · apply dealt_malformed
          simp only [Projection.apply, topic, decoded, named, if_false, if_true]
        · intro other isSome id incident
          cases isSome
          rcases named with unnamed | unnamed
          · exact absurd unnamed id
          · exact absurd unnamed incident
      · have both := not_or.mp named
        have asked : m.refused limits healthTopic p.database = t.refused limits p.database := by
          rw [Message.refused, if_neg topic, decoded]
          simp only [Option.any_some, ne_eq, both.1, both.2, not_false_eq_true, decide_true,
            Bool.true_and]
        have taken : (∀ other ∈ some t, other.transitionId ≠ "" → other.incidentId ≠ "" →
            other.Taken limits p.database) ↔ t.Taken limits p.database := by
          constructor
          · intro all
            exact all t rfl both.1 both.2
          · intro holds other isSome _ _
            cases isSome
            exact holds
        rw [taken]
        cases refused : t.refused limits p.database with
        | true =>
            apply iff_of_false
            · rintro ⟨rounds, after, cursor, returned, _⟩
              rw [handleWithin_refused (asked.trans refused)] at returned
              cases returned
            · exact refused_not_taken refused
        | false =>
            rw [handledWithin_iff (asked.trans refused), taken_iff_of_not_refused refused,
              ← applyTransition_isOk_iff]
            exact dealt_detection_iff topic decoded named

theorem health_handled_iff (limits : Limits) {healthTopic : String} (p : Projection) {m : Message}
    (clock : Nat → Timestamp) (topic : m.topic = healthTopic) :
    HandledWithin limits healthTopic p m clock ↔
      ∀ h ∈ m.health, h.envelope.gatewayId ≠ "" → h.Taken limits p.database := by
  cases decoded : m.health with
  | none =>
      have answered : m.refused limits healthTopic p.database = false := by
        rw [Message.refused, if_pos topic, decoded]
        rfl
      rw [handledWithin_iff answered]
      apply iff_of_true
      · apply dealt_malformed
        simp only [Projection.apply, Projection.health, topic, decoded, if_true]
      · intro h isSome
        cases isSome
  | some h =>
      by_cases named : h.envelope.gatewayId = ""
      · have answered : m.refused limits healthTopic p.database = false := by
          rw [Message.refused, if_pos topic, decoded]
          simp only [Option.any_some, named]
          rfl
        rw [handledWithin_iff answered]
        apply iff_of_true
        · apply dealt_malformed
          simp only [Projection.apply, Projection.health, topic, decoded, named, if_true]
        · intro other isSome gateway
          cases isSome
          exact absurd named gateway
      · have asked : m.refused limits healthTopic p.database = h.refused limits p.database := by
          rw [Message.refused, if_pos topic, decoded]
          simp only [Option.any_some, ne_eq, named, not_false_eq_true, decide_true, Bool.true_and]
        have taken : (∀ other ∈ some h, other.envelope.gatewayId ≠ "" →
            other.Taken limits p.database) ↔ h.Taken limits p.database := by
          constructor
          · intro all
            exact all h rfl named
          · intro holds other isSome _
            cases isSome
            exact holds
        rw [taken]
        cases refused : h.refused limits p.database with
        | true =>
            apply iff_of_false
            · rintro ⟨rounds, after, cursor, returned, _⟩
              rw [handleWithin_refused (asked.trans refused)] at returned
              cases returned
            · exact health_refused_not_taken refused
        | false =>
            rw [handledWithin_iff (asked.trans refused), health_taken_iff_of_not_refused refused,
              ← applyHealth_isOk_iff]
            exact dealt_health_iff topic decoded named

/-- A message is dealt with exactly when the database takes what it asks for. -/
theorem message_handled_iff (limits : Limits) (healthTopic : String) (p : Projection) (m : Message)
    (clock : Nat → Timestamp) :
    HandledWithin limits healthTopic p m clock ↔ m.Taken limits healthTopic p.database := by
  by_cases topic : m.topic = healthTopic
  · rw [Message.Taken, if_pos topic]
    exact health_handled_iff limits p clock topic
  · rw [Message.Taken, if_neg topic]
    exact detection_handled_iff limits p clock topic

/-- A transition without an episode start is not dealt with, whatever the limits. -/
theorem undated_transition_not_handled :
    ¬ ∀ (limits : Limits) (healthTopic : String) (p : Projection) (m : Message)
      (clock : Nat → Timestamp), HandledWithin limits healthTopic p m clock := by
  intro claimed
  have handled := claimed ⟨fun _ => true, fun _ => true⟩ "traffic.health.v2" .start
    ⟨"traffic.detections.v2", 0, 0,
      some { sampleTransition 1 1 1 with episodeStartUnixMillis := 0 }, none⟩ (fun _ => 0)
  have taken := (detection_handled_iff _ _ _ (by decide)).mp handled _ rfl (by decide) (by decide)
  rcases taken.2 with applied | ⟨_, dated⟩
  · cases applied
  · exact dated.given.1 rfl

end PiAgents.Incidents
