import PiAgents.Detection.FlowWire
import PiAgents.Detection.DeviceWindowsSerializer

/-! What passes the identity check, and what the checkpoint of the windows can hold: the check
bounds no string, the checkpoint bounds three. -/

namespace PiAgents.Detection

open Protobuf ModifiedUtf8

namespace DeviceWindowsSerializer

theorem writeUtf_isSome (s : String) : (writeUtf s).isSome ↔ Fits s := by
  unfold writeUtf
  by_cases fits : Fits s
  · rw [if_pos fits]
    exact iff_of_true rfl fits
  · rw [if_neg fits]
    exact iff_of_false Bool.false_ne_true fits

theorem writeContribution_isSome (c : Contribution) :
    (writeContribution c).isSome ↔ Writable c := by
  constructor
  · intro written
    refine ⟨?_, ?_, ?_⟩
    · apply (writeUtf_isSome _).mp
      cases first : writeUtf c.remoteIp with
      | none => simp [writeContribution, first] at written
      | some bytes => rfl
    · apply (writeUtf_isSome _).mp
      cases second : writeUtf c.target with
      | none => simp [writeContribution, second] at written
      | some bytes => rfl
    · apply (writeUtf_isSome _).mp
      cases third : writeUtf c.eventId with
      | none => simp [writeContribution, third] at written
      | some bytes => rfl
  · intro writable
    rw [writeContribution_of_writable writable]
    rfl

private theorem mapM_isSome {α β : Type} (write : α → Option β) (values : List α) :
    (values.mapM write).isSome ↔ ∀ value ∈ values, (write value).isSome := by
  induction values with
  | nil => exact iff_of_true rfl fun value member => absurd member List.not_mem_nil
  | cons value rest ih =>
      rw [List.forall_mem_cons, ← ih, List.mapM_cons]
      cases write value with
      | none => exact iff_of_false Bool.false_ne_true fun both => Bool.false_ne_true both.1
      | some bytes =>
          cases rest.mapM write with
          | none => exact iff_of_false Bool.false_ne_true fun both => Bool.false_ne_true both.2
          | some later => exact iff_of_true rfl ⟨rfl, rfl⟩

theorem writeHorizon_isSome (horizon : List Contribution) :
    (writeHorizon horizon).isSome ↔ ∀ c ∈ horizon, Writable c := by
  have written : (writeHorizon horizon).isSome = (horizon.mapM writeContribution).isSome := by
    unfold writeHorizon
    cases horizon.mapM writeContribution with
    | none => rfl
    | some bytes => rfl
  rw [written, mapM_isSome]
  exact forall₂_congr fun c _ => writeContribution_isSome c

/-- No string that is held is too long. -/
def HoldsWritable (w : DeviceWindows) : Prop :=
  ∀ h ∈ w.horizons, ∀ c ∈ h.contributions, Writable c

theorem serialize_isSome (w : DeviceWindows) : (serialize w).isSome ↔ HoldsWritable w := by
  have written : (serialize w).isSome = ((contributions w).mapM writeHorizon).isSome := by
    unfold serialize
    cases (contributions w).mapM writeHorizon with
    | none => rfl
    | some bytes => rfl
  rw [written, mapM_isSome, contributions, List.forall_mem_map]
  exact forall₂_congr fun h _ => writeHorizon_isSome h.contributions

end DeviceWindowsSerializer

open DeviceWindowsSerializer (Writable HoldsWritable serialize)

/-- What comes to the windows of a device: a message of the topic, which is of this device and is
neither a duplicate nor late if it is accepted, or the time of a timer. -/
inductive Delivered where
  | message (value : Option (List UInt8)) (accepted : Bool)
  | timer (newClockMs : Int64)

namespace DeviceWindows

variable {w : DeviceWindows} {added : List Contribution}

/-- Malformed records are never accepted. -/
def deliver (errorText : List UInt8 → String) (w : DeviceWindows) : Delivered → DeviceWindows
  | .message value accepted =>
      let flow := deserialize errorText value
      if accepted ∧ flow.malformedReason = none then w.add flow.toFlowRecord else w
  | .timer newClockMs => (w.advanceTo newClockMs).1

/-- A window still covers the event time of the flow. -/
def Joins (w : DeviceWindows) (record : FlowRecord) : Prop :=
  ∃ h ∈ w.horizons, mathMax w.clockMs record.eventTimeMs - h.lengthMs < record.eventTimeMs

/-- If the message is accepted into a window, its event id, its remote address and its target take
at most 65535 bytes each. -/
def Takes (errorText : List UInt8 → String) (w : DeviceWindows) : Delivered → Prop
  | .message value accepted =>
      let flow := deserialize errorText value
      accepted = true → flow.malformedReason = none → w.Joins flow.toFlowRecord →
        Writable (.of flow.toFlowRecord)
  | .timer _ => True

theorem holdsWritable_new (lengths : List Int64) : HoldsWritable (new lengths) := by
  intro h member c held
  rcases List.mem_map.mp member with ⟨length, _, rfl⟩
  cases held

theorem holdsWritable_advanceTo (sound : w.Sound added) (holds : HoldsWritable w)
    (newClockMs : Int64) : HoldsWritable (w.advanceTo newClockMs).1 := by
  unfold DeviceWindows.advanceTo
  split
  · exact holds
  · intro expired member c held
    rcases List.mem_map.mp member with ⟨h, inside, rfl⟩
    rw [h.expire_contributions (sound.tracks h inside)] at held
    exact holds h inside c (List.mem_filter.mp held).1

theorem clock_of_advance (w : DeviceWindows) (eventTimeMs : Int64) :
    (w.advanceTo (mathMax w.clockMs eventTimeMs)).1.clockMs = mathMax w.clockMs eventTimeMs := by
  unfold DeviceWindows.advanceTo
  by_cases back : mathMax w.clockMs eventTimeMs ≤ w.clockMs
  · rw [if_pos back]
    unfold mathMax at back ⊢
    by_cases order : w.clockMs ≤ eventTimeMs
    · rw [if_pos order] at back ⊢
      exact Int64.le_antisymm order back
    · rw [if_neg order]
  · rw [if_neg back]

theorem joins_of_advance (w : DeviceWindows) (record : FlowRecord) :
    w.Joins record ↔ ∃ h ∈ (w.advanceTo (mathMax w.clockMs record.eventTimeMs)).1.horizons,
      mathMax w.clockMs record.eventTimeMs - h.lengthMs < record.eventTimeMs := by
  let reaches := fun length =>
    mathMax w.clockMs record.eventTimeMs - length < record.eventTimeMs
  have same := w.advance_lengths (mathMax w.clockMs record.eventTimeMs)
  have through : ∀ horizons : List Horizon, (∃ h ∈ horizons, reaches h.lengthMs) ↔
      ∃ length ∈ horizons.map Horizon.lengthMs, reaches length := by
    intro horizons
    simp only [List.mem_map, exists_exists_and_eq_and]
  unfold Joins
  rw [through, through, same]

theorem holdsWritable_add (sound : w.Sound added) (holds : HoldsWritable w)
    (record : FlowRecord) :
    HoldsWritable (w.add record) ↔ (w.Joins record → Writable (.of record)) := by
  have advanced := holdsWritable_advanceTo sound holds (mathMax w.clockMs record.eventTimeMs)
  have clock := w.clock_of_advance record.eventTimeMs
  rw [joins_of_advance]
  constructor
  · rintro after ⟨h, inside, joins⟩
    have member : h.add (.of record) ∈ (w.add record).horizons := by
      refine List.mem_map.mpr ⟨h, inside, ?_⟩
      exact if_pos (clock.symm ▸ joins)
    refine after _ member (.of record) ?_
    rw [Horizon.add_contributions, (StableOrder.insertLast_perm earlier _ _).mem_iff]
    exact List.mem_cons_self
  · intro fits joined member c held
    rcases List.mem_map.mp member with ⟨h, inside, rfl⟩
    split at held
    · rename_i joins
      rw [Horizon.add_contributions, (StableOrder.insertLast_perm earlier _ _).mem_iff] at held
      rcases List.mem_cons.mp held with rfl | before
      · exact fits ⟨h, inside, clock ▸ joins⟩
      · exact advanced h inside c before
    · exact advanced h inside c held

theorem holdsWritable_deliver (errorText : List UInt8 → String) (sound : w.Sound added)
    (holds : HoldsWritable w) (delivered : Delivered) :
    HoldsWritable (w.deliver errorText delivered) ↔ w.Takes errorText delivered := by
  cases delivered with
  | timer newClockMs => exact iff_of_true (holdsWritable_advanceTo sound holds newClockMs) trivial
  | message value accepted =>
      simp only [deliver, Takes]
      by_cases passes : accepted = true ∧ (deserialize errorText value).malformedReason = none
      · rw [if_pos passes, holdsWritable_add sound holds]
        constructor
        · intro fits _ _
          exact fits
        · intro takes
          exact takes passes.1 passes.2
      · rw [if_neg passes]
        exact iff_of_true holds fun isAccepted wellFormed =>
          absurd ⟨isAccepted, wellFormed⟩ passes

theorem Sound.deliver (errorText : List UInt8 → String) (sound : w.Sound added)
    (delivered : Delivered) : ∃ later, (w.deliver errorText delivered).Sound later := by
  cases delivered with
  | timer newClockMs => exact ⟨added, sound.advanceTo newClockMs⟩
  | message value accepted =>
      simp only [DeviceWindows.deliver]
      split
      · exact ⟨_, sound.add _⟩
      · exact ⟨added, sound⟩

/-- A state that can be written stays so as long as what is accepted fits. -/
theorem meets_serializable (errorText : List UInt8 → String) (sound : w.Sound added)
    (holds : HoldsWritable w) (deliveries : List Delivered) :
    Runs.Meets (deliver errorText)
        (fun w delivered => (serialize (w.deliver errorText delivered)).isSome) w deliveries ↔
      Runs.Meets (deliver errorText) (Takes errorText) w deliveries := by
  induction deliveries generalizing w added with
  | nil => exact Iff.rfl
  | cons delivered rest ih =>
      have step := holdsWritable_deliver errorText sound holds delivered
      rcases sound.deliver errorText delivered with ⟨later, after⟩
      have written := DeviceWindowsSerializer.serialize_isSome (w.deliver errorText delivered)
      constructor
      · rintro ⟨first, others⟩
        have kept := written.mp first
        exact ⟨step.mp kept, (ih after kept).mp others⟩
      · rintro ⟨first, others⟩
        have kept := step.mpr first
        exact ⟨written.mpr kept, (ih after kept).mpr others⟩

/-- Whatever messages come and whichever of them are accepted, the windows can be written after
every one exactly as long as the strings of those that join a window fit. -/
theorem checkpoint_of_admitted (errorText : List UInt8 → String) (lengths : List Int64)
    (deliveries : List Delivered) :
    Runs.Meets (deliver errorText)
        (fun w delivered => (serialize (w.deliver errorText delivered)).isSome)
        (new lengths) deliveries ↔
      Runs.Meets (deliver errorText) (Takes errorText) (new lengths) deliveries :=
  meets_serializable errorText (run_sound lengths []) (holdsWritable_new lengths) deliveries

end DeviceWindows

/-! A message with a long address passes. -/

def repeated (n : Nat) : String := String.ofList (List.replicate n 'a')

theorem stringBytes_repeated (n : Nat) : (stringBytes (repeated n)).length = n := by
  have size : (String.ofList (List.replicate n 'a')).toByteArray.size = n := by
    rw [String.toByteArray_ofList]
    induction n with
    | zero => rfl
    | succ n ih =>
        rw [List.replicate_succ, List.utf8Encode_cons, ByteArray.size_append, ih, Nat.add_comm]
        rfl
  exact size

theorem encoded_repeated (n : Nat) : (encoded (repeated n)).length = n := by
  unfold encoded repeated
  rw [String.toList_ofList]
  induction n with
  | zero => rfl
  | succ n ih =>
      rw [List.replicate_succ, List.flatMap_cons, List.flatMap_append, List.length_append, ih,
        Nat.add_comm]
      rfl

/-- The identity of `gw/1` on the device `gw:aa`. -/
def addressedEnvelope : List Field :=
  [⟨1, .delimited (stringBytes "gw/1")⟩, ⟨4, .delimited (stringBytes "gw:aa")⟩, ⟨5, .varint 1000⟩]

def addressedEvent (dstIp : String) : List Field :=
  [⟨1, .delimited (addressedEnvelope.flatMap Field.bytes)⟩, ⟨5, .delimited (stringBytes dstIp)⟩]

def addressedTo (dstIp : String) : List UInt8 := (addressedEvent dstIp).flatMap Field.bytes

theorem addressedEnvelope_fits : ∀ field ∈ addressedEnvelope, field.Fits := by
  intro field member
  simp only [addressedEnvelope, List.mem_cons, List.not_mem_nil, or_false] at member
  rcases member with rfl | rfl | rfl
  · exact ⟨by decide, by decide, show (stringBytes "gw/1").length < 2 ^ 31 by decide⟩
  · exact ⟨by decide, by decide, show (stringBytes "gw:aa").length < 2 ^ 31 by decide⟩
  · exact ⟨by decide, by decide, show 1000 < 2 ^ 64 by decide⟩

theorem addressedEvent_fits {dstIp : String} (bound : (stringBytes dstIp).length < 2 ^ 31) :
    ∀ field ∈ addressedEvent dstIp, field.Fits := by
  have short : (addressedEnvelope.flatMap Field.bytes).length < 2 ^ 31 := by decide
  have one : 0 < 1 ∧ 1 < 2 ^ 29 := by decide
  have five : 0 < 5 ∧ 5 < 2 ^ 29 := by decide
  intro field member
  simp only [addressedEvent, List.mem_cons, List.not_mem_nil, or_false] at member
  rcases member with rfl | rfl
  · exact ⟨one.1, one.2, short⟩
  · exact ⟨five.1, five.2, bound⟩

theorem mergeFrom_addressedEnvelope :
    Envelope.default.mergeFrom (addressedEnvelope.flatMap Field.bytes) =
      some ⟨"gw/1", "", "", "gw:aa", 1000, 0, ""⟩ := by
  unfold Envelope.mergeFrom
  rw [parseFields_bytes addressedEnvelope_fits]
  simp only [addressedEnvelope, Option.bind_eq_bind, Option.bind_some, List.foldlM_cons,
    List.foldlM_nil, Envelope.setField, parseString_stringBytes, Option.map_some, Option.pure_def]
  rfl

theorem deserialize_addressedTo (errorText : List UInt8 → String) {dstIp : String}
    (bound : (stringBytes dstIp).length < 2 ^ 31) :
    deserialize errorText (some (addressedTo dstIp)) =
      .fromEvent { FlowEvent.default with
        envelope := some ⟨"gw/1", "", "", "gw:aa", 1000, 0, ""⟩
        dstIp := dstIp } (addressedTo dstIp) := by
  have start : FlowEvent.default.envelope.getD .default = Envelope.default := rfl
  have parsed : FlowEvent.parseFrom (addressedTo dstIp) = some { FlowEvent.default with
      envelope := some ⟨"gw/1", "", "", "gw:aa", 1000, 0, ""⟩
      dstIp := dstIp } := by
    unfold FlowEvent.parseFrom addressedTo
    rw [parseFields_bytes (addressedEvent_fits bound)]
    simp only [addressedEvent, Option.bind_eq_bind, Option.bind_some, List.foldlM_cons,
      List.foldlM_nil, FlowEvent.setField, parseString_stringBytes, Option.map_some, start,
      mergeFrom_addressedEnvelope, Option.pure_def]
  simp only [deserialize, parsed]
  rfl

/-- A usable message with an address of 65536 bytes joins the windows, and they cannot be
written. -/
theorem checkpoint_refuses_admitted :
    (deserialize (fun _ => "") (some (addressedTo (repeated 65536)))).malformedReason = none ∧
      ¬ Runs.Meets (DeviceWindows.deliver fun _ => "")
        (fun w delivered => (serialize (w.deliver (fun _ => "") delivered)).isSome)
        (.new [60000, 900000]) [.message (some (addressedTo (repeated 65536))) true] := by
  have short : (stringBytes (repeated 65536)).length < 2 ^ 31 := by
    rw [stringBytes_repeated]
    decide
  have flow := deserialize_addressedTo (fun _ => "") short
  have usable : (deserialize (fun _ => "") (some (addressedTo (repeated 65536)))).malformedReason =
      none := by
    rw [flow]
    rfl
  refine ⟨usable, ?_⟩
  rintro ⟨written, _⟩
  have held := (DeviceWindowsSerializer.serialize_isSome _).mp written
  have takes := (DeviceWindows.holdsWritable_deliver (fun _ => "")
    (DeviceWindows.run_sound [60000, 900000] []) (DeviceWindows.holdsWritable_new _) _).mp held
  have joins : (DeviceWindows.new [60000, 900000]).Joins
      (deserialize (fun _ => "") (some (addressedTo (repeated 65536)))).toFlowRecord := by
    rw [flow]
    exact ⟨.new 60000, List.mem_cons_self, by decide⟩
  have fits := (takes rfl usable joins).remoteIp
  rw [flow] at fits
  have long : (encoded (repeated 65536)).length < 65536 := fits
  rw [encoded_repeated] at long
  exact Nat.lt_irrefl _ long

end PiAgents.Detection
