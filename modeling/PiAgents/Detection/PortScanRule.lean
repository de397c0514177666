import PiAgents.Lib.Binary64
import PiAgents.Detection.RollingViews

/-! Port-scan rule v1: a state per device, evaluated on new views and on the clock of a silent
device. The signal of a horizon is its number of failed targets. -/

namespace PiAgents.Detection

inductive TransitionStatus where
  | «open»
  | update
  | reopen
  | resolve
  deriving DecidableEq, Repr

/-- A detection state change. Its revision counts the incident's transitions and does not wrap. -/
structure Transition where
  deviceKey : String
  incidentId : String
  revision : Nat
  status : TransitionStatus
  severity : Int32
  ruleId : String
  ruleVersion : String
  episodeStartMs : Int64
  evidenceEventTimeMs : Int64
  evidenceIngestTimeMs : Int64
  detectedAtMs : Int64
  horizonSeconds : List Int32
  values : List Float
  openThresholds : List Float
  overThreshold : List Bool
  sampleEventIds : List String

def Transition.transitionId (t : Transition) : String :=
  t.incidentId ++ ":" ++ toString t.revision

inductive RuleStatus where
  | none
  | active
  | resolved
  deriving DecidableEq, Repr

structure RuleState where
  status : RuleStatus
  incidentId : String
  revision : Nat
  episodeStartMs : Int64
  /-- Bit `i` is set when horizon `i` is at or above its open threshold. -/
  overMask : Int32
  severity : Int32
  /-- Device clock when the clear condition started to hold, or the least value. -/
  clearSinceMs : Int64
  resolvedAtMs : Int64
  shortView : Option View
  longView : Option View
  /-- Device clock of the latest view and the wall time it was seen. -/
  clockMs : Int64
  clockWallMs : Int64
  deriving DecidableEq, Repr

namespace RuleState

def new : RuleState :=
  ⟨.none, "", 0, 0, 0, 0, Int64.minValue, 0, none, none, Int64.minValue, 0⟩

def view (s : RuleState) (horizon : Nat) : Option View :=
  if horizon = 0 then s.shortView else s.longView

def setView (s : RuleState) (horizon : Nat) (view : View) : RuleState :=
  if horizon = 0 then { s with shortView := some view } else { s with longView := some view }

def setViews (s : RuleState) (views : List View) : RuleState :=
  (views.take 2).zipIdx.foldl (fun s entry => s.setView entry.2 entry.1) s

def deviceKey (s : RuleState) : String :=
  match s.shortView, s.longView with
  | some view, _ => view.deviceKey
  | none, some view => view.deviceKey
  | none, none => ""

def value (s : RuleState) (horizon : Nat) : Float :=
  Binary64.ofInt32 (match s.view horizon with
    | none => 0
    | some view => view.failedTargets)

/-- The device clock of a silent device: the latest view's, advanced by wall time. -/
def silentClock (s : RuleState) (nowMs : Int64) : Int64 :=
  s.clockMs + mathMax 0 (nowMs - s.clockWallMs)

end RuleState

/-- The newest ingest time among the views that a rule state keeps. -/
def ViewSet.ingest (set : ViewSet) : Int64 :=
  (set.views.take 2).foldl (fun ingest view => mathMax ingest view.latestIngestTimeMs) 0

/-- Rule parameters. A horizon without a length would fail the first transition. -/
structure Config where
  horizonSeconds : List Int32
  openThresholds : List Float
  clearFraction : Float
  holdMs : Int64
  cooldownMs : Int64
  /-- Signal to threshold ratios for medium and high severity. -/
  mediumRatio : Float
  highRatio : Float
  aligned : openThresholds.length ≤ horizonSeconds.length

namespace Config

def v1 : Config := ⟨[60, 900], [20, 40], 0.5, 60000, 300000, 2, 4, by decide⟩

structure Bounded (config : Config) : Prop where
  thresholds : ∀ threshold ∈ config.openThresholds, 0 < threshold
  fraction : 0 ≤ config.clearFraction ∧ config.clearFraction < 1

structure Valid (config : Config) : Prop where
  thresholds : ∀ threshold ∈ config.openThresholds, 0 < threshold
  fraction : 0 ≤ config.clearFraction ∧ config.clearFraction < 1
  cooldown : 0 < config.cooldownMs

theorem Valid.bounded {config : Config} (valid : config.Valid) : config.Bounded :=
  ⟨valid.thresholds, valid.fraction⟩

end Config

def mathMaxDouble (a b : Float) : Float :=
  if a.isNaN then a
  else if a == 0 ∧ b == 0 ∧ a.toBits = 0x8000000000000000 then b
  else if b ≤ a then a else b

/-- The rule with its digest: the first 16 bytes of the SHA-256 of a text, in hex. -/
structure PortScanRule where
  config : Config
  digest : String → String

namespace PortScanRule

def ruleId : String := "port-scan"
def ruleVersion : String := "v1"
def family : String := "port_scan"

variable (rule : PortScanRule)

def incidentId (deviceKey : String) (episodeStartMs : Int64) : String :=
  rule.digest (deviceKey ++ "|" ++ family ++ "|" ++ toString episodeStartMs)

def overMask (s : RuleState) : Int32 :=
  rule.config.openThresholds.zipIdx.foldl
    (fun mask entry => if entry.1 ≤ s.value entry.2 then mask ||| 1 <<< Int32.ofNat entry.2
      else mask) 0

def severity (s : RuleState) : Int32 :=
  let ratio := rule.config.openThresholds.zipIdx.foldl
    (fun ratio entry => mathMaxDouble ratio (s.value entry.2 / entry.1)) 0
  if rule.config.highRatio ≤ ratio then 3
  else if rule.config.mediumRatio ≤ ratio then 2 else 1

def clear (s : RuleState) : Bool :=
  rule.config.openThresholds.zipIdx.all
    fun entry => ¬ rule.config.clearFraction * entry.1 < s.value entry.2

/-- The sample of the view that has the most event IDs, the first of them on a tie. -/
def sample (s : RuleState) : List String :=
  (List.range rule.config.openThresholds.length).foldl
    (fun sample h => match s.view h with
      | some view => if sample.length < view.sampleEventIds.length then view.sampleEventIds
        else sample
      | none => sample) []

def transition (s : RuleState) (status : TransitionStatus) (clockMs ingestMs nowMs : Int64) :
    Transition where
  deviceKey := s.deviceKey
  incidentId := s.incidentId
  revision := s.revision
  status := status
  severity := s.severity
  ruleId := ruleId
  ruleVersion := ruleVersion
  episodeStartMs := s.episodeStartMs
  evidenceEventTimeMs := clockMs
  evidenceIngestTimeMs := ingestMs
  detectedAtMs := nowMs
  horizonSeconds := rule.config.horizonSeconds.take rule.config.openThresholds.length
  values := (List.range rule.config.openThresholds.length).map s.value
  openThresholds := rule.config.openThresholds
  overThreshold := (List.range rule.config.openThresholds.length).map
    fun h => s.overMask &&& 1 <<< Int32.ofNat h ≠ 0
  sampleEventIds := rule.sample s

/-- The branch of `evaluate` on a state that is not active and has a horizon over threshold. -/
def activate (s : RuleState) (mask : Int32) (clockMs : Int64) : RuleState × TransitionStatus :=
  let (s, status) :=
    if s.status = .resolved ∧ clockMs - s.resolvedAtMs < rule.config.cooldownMs then
      ({ s with revision := s.revision + 1 }, TransitionStatus.reopen)
    else
      ({ s with
        episodeStartMs := clockMs
        incidentId := rule.incidentId s.deviceKey clockMs
        revision := 1 }, TransitionStatus.open)
  ({ s with
    status := .active
    overMask := mask
    severity := rule.severity s
    clearSinceMs := Int64.minValue }, status)

/-- When the clear condition started to hold. -/
def clearSince (s : RuleState) (clockMs : Int64) : Int64 :=
  if rule.clear s then
    if s.clearSinceMs = Int64.minValue then clockMs else s.clearSinceMs
  else Int64.minValue

def evaluate (s : RuleState) (clockMs ingestMs nowMs : Int64) : RuleState × List Transition :=
  let mask := rule.overMask s
  if s.status ≠ .active then
    if mask = 0 then (s, [])
    else
      let (s, status) := rule.activate s mask clockMs
      (s, [rule.transition s status clockMs ingestMs nowMs])
  else
    let s := { s with clearSinceMs := rule.clearSince s clockMs }
    if rule.clear s ∧ rule.config.holdMs ≤ clockMs - s.clearSinceMs then
      let s := { s with
        revision := s.revision + 1
        status := .resolved
        resolvedAtMs := clockMs
        overMask := mask
        severity := rule.severity s }
      (s, [rule.transition s .resolve clockMs ingestMs nowMs])
    else if mask ≠ s.overMask ∨ rule.severity s ≠ s.severity then
      let s := { s with
        revision := s.revision + 1
        overMask := mask
        severity := rule.severity s }
      (s, [rule.transition s .update clockMs ingestMs nowMs])
    else (s, [])

def received (s : RuleState) (set : ViewSet) (nowMs : Int64) : RuleState :=
  let s := s.setViews set.views
  if s.clockMs < set.windowEndMs then { s with clockMs := set.windowEndMs, clockWallMs := nowMs }
  else s

/-- Applies the latest views of every horizon and evaluates the rule once. -/
def onViews (s : RuleState) (set : ViewSet) (nowMs : Int64) : RuleState × List Transition :=
  let s := received s set nowMs
  rule.evaluate s s.clockMs set.ingest nowMs

def onClock (s : RuleState) (nowMs : Int64) : RuleState × List Transition :=
  if s.clockMs = Int64.minValue then (s, [])
  else rule.evaluate s (s.silentClock nowMs) 0 nowMs

def noEvidence (s : RuleState) : Bool :=
  s.shortView.all (fun view => view.flows = 0) && s.longView.all (fun view => view.flows = 0)

def idle (s : RuleState) (clockMs : Int64) : Bool :=
  match s.status with
  | .none => noEvidence s
  | .resolved => noEvidence s && rule.config.cooldownMs ≤ clockMs - s.resolvedAtMs
  | .active => false

end PortScanRule

end PiAgents.Detection
