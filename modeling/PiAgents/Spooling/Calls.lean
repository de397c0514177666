import PiAgents.Lib.Runs
import PiAgents.Spooling.Spool

/-! Calls of the spool in one process after the other on one directory, and the crashes that stop a
call between two of its effects or within the writing of a record. -/

namespace PiAgents.Spooling

inductive Call where
  | «open» (config : SpoolConfig)
  | append (event : Spool.Event)
  | ack (seq : Nat)
  | sync

/-- The directory and the spool of the running process, if it has one open. -/
structure Machine where
  disk : Disk
  spool : Option Spool

/-- What a call performs, the spool it leaves open and what an append returns. -/
structure Performed where
  effects : List Effect
  spool : Option Spool
  appended : Option (Nat × Option Loss)

namespace Machine

/-- Opening ends the process before. Without an open spool the other calls cannot be made. -/
def perform (m : Machine) (call : Call) : Performed :=
  match call, m.spool with
  | .open config, _ =>
      let opened := Spool.open config m.disk
      ⟨opened.1, opened.2, none⟩
  | _, none => ⟨[], none, none⟩
  | .append event, some spool =>
      let appended := spool.append event
      ⟨appended.1, appended.2.map (·.1), appended.2.map (·.2)⟩
  | .ack seq, some spool =>
      let acked := spool.ack seq
      ⟨acked.1, some acked.2, none⟩
  | .sync, some spool => ⟨spool.sync, some spool, none⟩

/-- What the writing of a record leaves when it is stopped; every other effect happens or not. -/
def tornEffect (torn : Nat) : Effect → Option Effect
  | .appendSegment name bytes => some (.appendSegment name (bytes.take torn))
  | _ => none

/-- The effects done at a crash: the completed ones and, of a record being written, a part. -/
def cut (effects : List Effect) (completed torn : Nat) : List Effect :=
  effects.take completed ++ (effects[completed]?.bind (tornEffect torn)).toList

end Machine

end PiAgents.Spooling
