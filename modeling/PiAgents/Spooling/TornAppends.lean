import PiAgents.Spooling.Custody

/-! An append makes room before it writes its record and returns the loss after that. What a process
has dropped that dies in between is nowhere. -/

namespace PiAgents.Spooling

namespace Custody

/-- What an append drops before its process dies is neither counted in a loss nor read again by the
next process. -/
def TornAway (h : Custody) (event : Spool.Event) (torn : Nat) (config : SpoolConfig) : Prop :=
  ∀ before ∈ h.machine.spool, ∀ answer ∈ (before.append event).2,
    ∀ seq ∈ before.gone answer.1,
      seq ∉ ((h.step (.tear event torn)).step (.call (.open config))).all (·.lost) ∧
      ∀ after ∈ ((h.step (.tear event torn)).step (.call (.open config))).machine.spool,
        ∀ cursor limit, seq ∉ (after.read ((h.step (.tear event torn)).step
          (.call (.open config))).machine.disk cursor limit).1.map (·.2.seq)

section Torn

variable {h : Custody} (event : Spool.Event) (torn : Nat) (config : SpoolConfig)

theorem reopened_all {α : Type} (h : Custody) (part : Incarnation → List α)
    (empty : ∀ present, part ⟨present, [], [], []⟩ = []) :
    ((h.step (.tear event torn)).step (.call (.open config))).all part = h.all part :=
  all_handed (h.step (.tear event torn)) _ _ part (empty _)

theorem Sound.torn_away (sound : h.Sound)
    (tears : ∀ spool ∈ h.machine.spool, (entryBody (event.entry spool.nextSeq)).length < 2 ^ 32 ∧
      torn < (encodeEntry (event.entry spool.nextSeq)).length) :
    h.TornAway event torn config := by
  intro before opened answer given seq gone
  rcases tears before opened with ⟨body, proper⟩
  cases sound with
  | stopped closed recoverable traced =>
      rw [closed] at opened
      cases opened
  | @running spool log isOpen agrees traced booked =>
      cases isOpen.symm.trans opened
      rcases agrees.torn body proper given with
        ⟨files, dropped, recoverable, appends, _, _, _, absent⟩
      rw [appends.gone] at gone
      have nowhere := absent seq gone
      have held := Spool.contains_of_waiting (appends.dropped_waited seq gone)
      have left' : (h.step (.tear event torn)).machine.disk =
          h.machine.disk.applyAll (Machine.cut (before.append event).1
            ((before.append event).1.length - 1) torn) := by
        simp only [Custody.step, Machine.perform, isOpen]
      constructor
      · intro lost
        rw [reopened_all event torn config h (·.lost) fun _ => rfl] at lost
        exact (traced.gone seq lost).2 held
      · intro after reopened cursor limit read
        rcases List.mem_map.mp read with ⟨found, isRead, number⟩
        have waits := read_waiting after _ cursor limit found isRead
        rw [number] at waits
        rw [← left'] at recoverable
        have isAfter : (Spool.open config (h.step (.tear event torn)).machine.disk).2 =
            some after := reopened
        rcases Agrees.recovered recoverable isAfter with ⟨_, later, again, _, _, _, unacked⟩
        rw [again.toLayout.waiting] at waits
        exact nowhere ((unacked seq).mp waits).2

end Torn

theorem tear_loses (steps : List CustodyStep) (orderly : Runs.Meets step Orderly start steps)
    (event : Spool.Event) (torn : Nat) (config : SpoolConfig)
    (tears : ∀ spool ∈ (Runs.run step start steps).machine.spool,
      (entryBody (event.entry spool.nextSeq)).length < 2 ^ 32 ∧
      torn < (encodeEntry (event.entry spool.nextSeq)).length) :
    TornAway (Runs.run step start steps) event torn config :=
  (sound_run orderly).torn_away event torn config tears

def tightSteps : List CustodyStep :=
  [.call (.open tight), .call (.append plain), .call (.append plain)]

theorem tight_run : (Runs.run step start tightSteps).machine.spool = some ⟨tight,
    [⟨0, 0, 1, [false], 1, 0, 0, 27⟩, ⟨1, 1, 1, [false], 1, 0, 0, 27⟩], some 1, 2, 4096, 54⟩ := by
  rw [tightSteps, run_tight]
  decide +kernel

theorem tear_loses_first : TornAway (Runs.run step start tightSteps) plain 4 tight ∧
    ∃ before ∈ (Runs.run step start tightSteps).machine.spool,
      ∃ answer ∈ (before.append plain).2, before.gone answer.1 = [0] := by
  constructor
  · apply tear_loses tightSteps ⟨trivial, writes_plain _, writes_plain _, trivial⟩
    intro spool _
    rw [encodeEntry_length, entryBody_length]
    exact show 19 < 2 ^ 32 ∧ 4 < 27 by decide
  · exact ⟨_, tight_run, _, rfl, rfl⟩

/-! When the numbers that are dropped so were acknowledged by no process, they are accounted for
nowhere; otherwise everything still is. -/

/-- The body of a record written fits its length field, and a process that dies within an append
leaves a proper part of its record. -/
def Fits (h : Custody) : CustodyStep → Prop
  | .call call => h.machine.Writes call
  | .crash => True
  | .tear event torn => ∀ spool ∈ h.machine.spool,
      (entryBody (event.entry spool.nextSeq)).length < 2 ^ 32 ∧
      torn < (encodeEntry (event.entry spool.nextSeq)).length ∧ (spool.append event).2.isSome

section Unaccounted

variable {h : Custody} {event : Spool.Event} {torn : Nat} {config : SpoolConfig}

/-- The unacknowledged numbers of the segments that make room were appended, and the append drops
them. -/
theorem Sound.makesRoom_gone (sound : h.Sound) {spool : Spool} (opened : h.machine.spool = some spool)
    (body : (entryBody (event.entry spool.nextSeq)).length < 2 ^ 32)
    (proper : torn < (encodeEntry (event.entry spool.nextSeq)).length)
    {answer : Spool × Nat × Option Loss} (given : (spool.append event).2 = some answer) {s : Segment}
    (inRoom : s ∈ spool.makesRoom event) {seq : Nat} (unacked : seq ∈ s.unackedSeqs) :
    seq ∈ h.all (·.appended) ∧ seq ∈ spool.gone answer.1 := by
  cases sound with
  | stopped closed recoverable traced =>
      rw [closed] at opened
      cases opened
  | @running other log isOpen agrees traced booked =>
      cases isOpen.symm.trans opened
      rcases agrees.torn body proper given with ⟨_, dropped, _, appends, room, _⟩
      rw [room] at inRoom
      rcases List.mem_map.mp inRoom with ⟨kept, inDropped, rfl⟩
      have isDropped := (dropped.mem_unackedSeqs seq).mpr ⟨kept, inDropped, unacked⟩
      have held := Spool.contains_of_waiting (appends.dropped_waited seq isDropped)
      rw [appends.gone]
      exact ⟨traced.known seq held, isDropped⟩

theorem Sound.spared_of_accounted (sound : h.Sound) (fits : h.Fits (.tear event torn))
    (reopens : ((h.step (.tear event torn)).step (.call (.open config))).machine.spool.isSome)
    (accounted : ((h.step (.tear event torn)).step (.call (.open config))).Accounted) :
    h.Spared (.tear event torn) := by
  intro spool opened
  rcases fits spool opened with ⟨body, proper, answers⟩
  rcases Option.isSome_iff_exists.mp answers with ⟨answer, given⟩
  rcases Option.isSome_iff_exists.mp reopens with ⟨after, reopened⟩
  refine ⟨body, proper, ?_⟩
  intro s inRoom seq unacked
  rcases sound.makesRoom_gone opened body proper given inRoom unacked with ⟨appended, gone⟩
  have away := sound.torn_away event torn config
    (fun other isOpen => ⟨(fits other isOpen).1, (fits other isOpen).2.1⟩)
    spool opened answer given seq gone
  have somewhere := accounted.somewhere after reopened seq
  rw [reopened_all event torn config h (·.appended) fun _ => rfl,
    reopened_all event torn config h (·.acknowledged) fun _ => rfl] at somewhere
  rcases somewhere appended with done | lost | again
  · exact done
  · rw [List.count_eq_zero.mpr away.1] at lost
    cases lost
  · rcases again (fun _ => 1) fun _ => Nat.one_pos with ⟨calls, _, read⟩
    rcases List.mem_map.mp read with ⟨found, isRead, number⟩
    rcases Spool.mem_reads isRead with ⟨cursor, limit, once⟩
    exact absurd (List.mem_map.mpr ⟨found, once, number⟩) (away.2 after reopened cursor limit)

end Unaccounted

/-- While no process dies in an append that drops a number not yet acknowledged, every number is
accounted for in every state. Where one does, it is not as soon as the spool is open again. -/
theorem accounted_iff_spared (steps : List CustodyStep)
    (spared : Runs.Meets step Spared start steps) : (Runs.run step start steps).Accounted ∧
      ∀ (event : Spool.Event) (torn : Nat) (config : SpoolConfig),
        (Runs.run step start steps).Fits (.tear event torn) →
        (((Runs.run step start steps).step (.tear event torn)).step
          (.call (.open config))).machine.spool.isSome →
        ((((Runs.run step start steps).step (.tear event torn)).step
          (.call (.open config))).Accounted ↔
            (Runs.run step start steps).Spared (.tear event torn)) := by
  have sound := sound_spared spared
  refine ⟨sound.accounted, ?_⟩
  intro event torn config fits reopens
  constructor
  · exact sound.spared_of_accounted fits reopens
  · intro spared
    exact ((sound.tears event torn spared).opens config).accounted

private theorem fits_tear {h : Custody} {torn : Nat} (part : torn < 27)
    (room : ∀ spool ∈ h.machine.spool, (spool.append plain).2.isSome) :
    h.Fits (.tear plain torn) := by
  intro spool opened
  rw [encodeEntry_length, entryBody_length]
  exact ⟨show 19 < 2 ^ 32 by decide, part, room spool opened⟩

/-- The second record is acknowledged and the process dies. It is sent again, and dropped by an
append that is torn. -/
def againSteps : List CustodyStep :=
  tightSteps ++ [.call (.ack 1), .crash, .call (.open tight), .call (.ack 0),
    .call (.append plain)]

def againDisk : Disk :=
  ⟨[(0, encodeEntry (plain.entry 0)), (1, encodeEntry (plain.entry 1))],
    some (numberLine 4096), none, none, none⟩

private theorem again_opened : Machine.step ⟨againDisk, none⟩ (.open tight) =
    ⟨{ againDisk with sequence := some (numberLine 8192) }, some ⟨tight,
      [⟨0, 0, 1, [false], 1, 0, 0, 27⟩, ⟨1, 1, 1, [false], 1, 0, 0, 27⟩], none, 4096, 8192, 54⟩⟩ := by
  have fits : ¬ tight.maxBytes < 2 * tight.segmentBytes := by decide
  have sorted := againDisk.sorted_of_increasing (by decide)
  simp only [Machine.step, Machine.perform, Spool.open, fits, if_false, sorted, Machine.mk.injEq]
  decide +kernel

private theorem again_run : Runs.run step start againSteps =
    ⟨⟨⟨[(1, encodeEntry (plain.entry 1)), (4096, encodeEntry (plain.entry 4096))],
        some (numberLine 8192), none, none, none⟩, some ⟨tight,
      [⟨1, 1, 1, [false], 1, 0, 0, 27⟩, ⟨4096, 4096, 1, [false], 1, 0, 0, 27⟩], some 4096, 4097,
        8192, 54⟩⟩, [.opened none, ⟨[], [0, 1], [1], []⟩], ⟨[0, 1], [4096], [0], []⟩⟩ := by
  have died : Runs.run step start (tightSteps ++ [.call (.ack 1), .crash]) =
      ⟨⟨againDisk, none⟩, [.opened none], ⟨[], [0, 1], [1], []⟩⟩ := by
    rw [tightSteps, List.cons_append, run_tight]
    rfl
  have opened : step ⟨⟨againDisk, none⟩, [.opened none], ⟨[], [0, 1], [1], []⟩⟩
      (.call (.open tight)) =
      ⟨Machine.step ⟨againDisk, none⟩ (.open tight), [.opened none, ⟨[], [0, 1], [1], []⟩],
        .opened (Machine.step ⟨againDisk, none⟩ (.open tight)).spool⟩ := rfl
  have parts : againSteps = (tightSteps ++ [.call (.ack 1), .crash]) ++
      [.call (.open tight), .call (.ack 0), .call (.append plain)] := rfl
  rw [parts, Runs.run_append, died, Runs.run_cons, opened, again_opened]
  rfl

def lastDisk : Disk :=
  ⟨[(4096, encodeEntry (plain.entry 4096)), (4097, (encodeEntry (plain.entry 4097)).take 4)],
    some (numberLine 8192), none, none, none⟩

private theorem again_torn : (Runs.run step start againSteps).step (.tear plain 4) =
    ⟨⟨lastDisk, none⟩, [.opened none, ⟨[], [0, 1], [1], []⟩], ⟨[0, 1], [4096], [0], []⟩⟩ := by
  rw [again_run]
  rfl

private theorem last_opened : (Spool.open tight lastDisk).2 =
    some ⟨tight, [⟨4096, 4096, 1, [false], 1, 0, 0, 27⟩], none, 8192, 12288, 27⟩ := by
  have fits : ¬ tight.maxBytes < 2 * tight.segmentBytes := by decide
  have sorted := lastDisk.sorted_of_increasing (by decide)
  simp only [Spool.open, fits, if_false, sorted]
  decide +kernel

theorem again_accounted : (Runs.run step start againSteps).Accounted ∧
    (((Runs.run step start againSteps).step (.tear plain 4)).step
      (.call (.open tight))).Accounted := by
  have kept := accounted_iff_spared againSteps ⟨trivial, writes_plain _, writes_plain _, trivial,
    trivial, trivial, trivial, writes_plain _, trivial⟩
  refine ⟨kept.1, (kept.2 plain 4 tight ?_ ?_).mpr ?_⟩
  · apply fits_tear (by decide)
    intro spool opened
    rw [again_run] at opened
    cases opened
    rfl
  · rw [again_torn]
    simp only [step, Machine.step, Machine.perform, last_opened]
    rfl
  · intro spool opened
    rw [again_run] at opened ⊢
    cases opened
    refine ⟨by rw [entryBody_length]; decide, by rw [encodeEntry_length]; decide, ?_⟩
    decide +kernel

def tornSteps : List CustodyStep := tightSteps ++ [.tear plain 4, .call (.open tight)]

def tornDisk : Disk :=
  ⟨[(1, encodeEntry (plain.entry 1)), (2, (encodeEntry (plain.entry 2)).take 4)],
    some (numberLine 4096), none, none, none⟩

private theorem torn_left : (Runs.run step start tightSteps).step (.tear plain 4) =
    ⟨⟨tornDisk, none⟩, [.opened none], ⟨[], [0, 1], [], []⟩⟩ := by
  rw [tightSteps, run_tight]
  rfl

private theorem torn_opened : (Spool.open tight tornDisk).2 =
    some ⟨tight, [⟨1, 1, 1, [false], 1, 0, 0, 27⟩], none, 4096, 8192, 27⟩ := by
  have fits : ¬ tight.maxBytes < 2 * tight.segmentBytes := by decide
  have sorted := tornDisk.sorted_of_increasing (by decide)
  simp only [Spool.open, fits, if_false, sorted]
  decide +kernel

private theorem torn_run : Runs.run step start tornSteps =
    ⟨⟨tornDisk.applyAll (Spool.open tight tornDisk).1,
      some ⟨tight, [⟨1, 1, 1, [false], 1, 0, 0, 27⟩], none, 4096, 8192, 27⟩⟩,
      [.opened none, ⟨[], [0, 1], [], []⟩], ⟨[1], [], [], []⟩⟩ := by
  rw [tornSteps, Runs.run_append, Runs.run_cons, torn_left]
  simp only [Runs.run_cons, Runs.run_nil, step, Machine.step, Machine.perform, torn_opened]
  rfl

theorem torn_append_unaccounted : Runs.Meets step Fits start tornSteps ∧
    0 ∈ (Runs.run step start tornSteps).all (·.appended) ∧
    0 ∉ (Runs.run step start tornSteps).all (·.acknowledged) ∧
    (Runs.run step start tornSteps).all (·.losses) = [] ∧
    (Runs.run step start tornSteps).machine.spool.map Spool.waiting = some [1] ∧
    ¬ (Runs.run step start tornSteps).Accounted := by
  have fits : (Runs.run step start tightSteps).Fits (.tear plain 4) := by
    apply fits_tear (by decide)
    intro spool opened
    rw [tight_run] at opened
    cases opened
    rfl
  refine ⟨?_, ?_⟩
  · apply Runs.meets_append.mpr
    exact ⟨⟨trivial, writes_plain _, writes_plain _, trivial⟩, fits, trivial, trivial⟩
  · rw [torn_run]
    refine ⟨List.mem_cons_self, List.not_mem_nil, rfl, rfl, ?_⟩
    intro accounted
    rcases accounted.somewhere _ rfl 0 List.mem_cons_self with done | lost | again
    · exact List.not_mem_nil done
    · cases lost
    · rcases again (fun _ => 1) fun _ => Nat.one_pos with ⟨calls, _, read⟩
      rcases List.mem_map.mp read with ⟨found, isRead, number⟩
      rcases Spool.mem_reads isRead with ⟨cursor, limit, once⟩
      have waits := read_waiting _ _ cursor limit found once
      rw [number] at waits
      exact absurd waits (by decide)

end Custody

end PiAgents.Spooling
