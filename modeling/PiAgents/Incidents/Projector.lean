import PiAgents.Lib.FirstCome
import PiAgents.Incidents.Database

/-! The projector: one database transaction for every delivered message, retried while the
connection is lost, and then the commit of the message's offset. -/

namespace PiAgents.Incidents

/-- A message with what each decoder makes of its bytes; none for bytes that do not decode. -/
structure Message where
  topic : String
  part : Int32
  offset : Int64
  detection : Option DetectionTransition
  health : Option HealthEvent

/-- How an attempt at a transaction loses its connection. -/
inductive ConnectionLoss where
  /-- The transaction is rolled back; the sequence values drawn stay drawn. -/
  | beforeCommit (drawn : Nat)
  /-- The transaction is committed but its answer does not arrive. -/
  | afterCommit (now : Timestamp)

inductive Ending where
  /-- The process stops before the attempt reaches the database. -/
  | stopped
  | answered (now : Timestamp)

/-- One call of `handle`: the attempts at the database and whether the process lives on to commit
the offset. -/
structure Delivery where
  message : Message
  losses : List ConnectionLoss
  ending : Ending
  offsetCommitted : Bool

structure Stats where
  applied : Nat
  duplicates : Nat
  malformed : Nat
  dbRetries : Nat
  health : Nat

def Stats.zero : Stats := ⟨0, 0, 0, 0, 0⟩

inductive Outcome (α : Type) where
  | returned (result : α)
  | raised (failure : Failure)
  | stopped

def withRetry {α : Type} (operation : Database → Timestamp → Except Failure (Database × α))
    (ending : Ending) : Database → List ConnectionLoss → Database × Outcome α
  | db, [] =>
      match ending with
      | .stopped => (db, .stopped)
      | .answered now =>
          match operation db now with
          | .ok (committed, result) => (committed, .returned result)
          | .error failure => (db, .raised failure)
  | db, .beforeCommit drawn :: losses => withRetry operation ending (db.skipCursors drawn) losses
  | db, .afterCommit now :: losses =>
      match operation db now with
      | .ok (committed, _) => withRetry operation ending committed losses
      | .error failure => (db, .raised failure)

/-- The database, the counters of the running process and the offsets committed so far. -/
structure Projection where
  database : Database
  stats : Stats
  committed : List (String × Int32 × Int64)

namespace Projection

def start : Projection := ⟨.empty, .zero, []⟩

/-- A new process: the counters start again, everything durable is kept. -/
def restart (p : Projection) : Projection := { p with stats := .zero }

def malformed (p : Projection) : Projection :=
  { p with stats := { p.stats with malformed := p.stats.malformed + 1 } }

def health (p : Projection) (d : Delivery) : Projection × Outcome (Option Nat) :=
  match d.message.health with
  | none => (p.malformed, .returned none)
  | some event =>
      if event.envelope.gatewayId = "" then (p.malformed, .returned none)
      else
        let result := withRetry (fun db now => db.applyHealth event now) d.ending p.database d.losses
        let stats := { p.stats with dbRetries := p.stats.dbRetries + d.losses.length }
        match result.2 with
        | .returned _ =>
            ({ p with database := result.1, stats := { stats with health := stats.health + 1 } },
              .returned none)
        | .raised failure => ({ p with database := result.1, stats := stats }, .raised failure)
        | .stopped => ({ p with database := result.1, stats := stats }, .stopped)

def apply (healthTopic : String) (p : Projection) (d : Delivery) :
    Projection × Outcome (Option Nat) :=
  if d.message.topic = healthTopic then p.health d
  else
    match d.message.detection with
    | none => (p.malformed, .returned none)
    | some t =>
        if t.transitionId = "" ∨ t.incidentId = "" then (p.malformed, .returned none)
        else
          let result := withRetry (fun db now => db.applyTransition t now) d.ending p.database
            d.losses
          let stats := { p.stats with dbRetries := p.stats.dbRetries + d.losses.length }
          match result.2 with
          | .returned (some cursor) =>
              ({ p with database := result.1, stats := { stats with applied := stats.applied + 1 } },
                .returned (some cursor))
          | .returned none =>
              ({ p with database := result.1
                        stats := { stats with duplicates := stats.duplicates + 1 } },
                .returned none)
          | .raised failure => ({ p with database := result.1, stats := stats }, .raised failure)
          | .stopped => ({ p with database := result.1, stats := stats }, .stopped)

/-- Applies the message and then commits its offset. A process that stops on the way or raises
starts again. -/
def handle (healthTopic : String) (p : Projection) (d : Delivery) :
    Projection × Outcome (Option Nat) :=
  let applied := p.apply healthTopic d
  match applied.2 with
  | .returned cursor =>
      if d.offsetCommitted then
        ({ applied.1 with
            committed := applied.1.committed ++ [(d.message.topic, d.message.part, d.message.offset)] },
          .returned cursor)
      else (applied.1.restart, .stopped)
  | .raised failure => (applied.1.restart, .raised failure)
  | .stopped => (applied.1.restart, .stopped)

def step (healthTopic : String) (p : Projection) (d : Delivery) : Projection :=
  (p.handle healthTopic d).1

end Projection

end PiAgents.Incidents
