import PiAgents.Spooling.ReadBack
import PiAgents.Spooling.Representation

/-! The positions handed out over every call and every read, and what reads from them return. -/

namespace PiAgents.Spooling

section Opened

variable {disk : Disk} {files : List StoredFile}

def StoredFile.piece (f : StoredFile) : Piece := (f.name, f.entries)

theorem Recoverable.follows (recoverable : Recoverable disk files) :
    Follows (files.map StoredFile.piece) (Spool.readNumber disk.sequence) := by
  constructor
  · exact List.pairwise_map.mpr recoverable.increasing
  · intro piece member
    rcases List.mem_map.mp member with ⟨f, inFiles, rfl⟩
    exact recoverable.below f inFiles

theorem Recoverable.markedLog_pieces (recoverable : Recoverable disk files)
    (filled : ∀ f ∈ files, f.entries ≠ []) (watermark : Nat) :
    (Recoverable.markedLog files watermark).pieces = files.map StoredFile.piece := by
  have logged : recoveredLog files = files.map fun f => (f.segment, f.entries) := by
    rw [recoveredLog, ← List.filterMap_eq_map]
    apply List.filterMap_congr
    intro f member
    have some' : ¬ f.entries.isEmpty = true := fun none' =>
      filled f member (List.isEmpty_iff.mp none')
    rw [StoredFile.logged, if_neg some']
    rfl
  rw [Recoverable.markedLog, logged, Log.pieces, List.map_map, List.map_map]
  apply List.map_congr_left
  intro f member
  have holds := (recoverable.sound f member).holds
  have marked := marked_delivered watermark holds.sound
  have counted := StoredFile.filled_pushAll f.name f.entries
  have firstSeq : (Spool.markDelivered watermark f.segment).firstSeq = f.name :=
    marked.firstSeq.trans counted.firstSeq
  exact congrArg (·, f.entries) firstSeq

theorem cleaned_pieces (filled : ∀ f ∈ files, f.entries ≠ []) :
    (Recoverable.cleaned files).map StoredFile.piece = files.map StoredFile.piece := by
  rw [Recoverable.cleaned, List.map_filterMap, ← List.filterMap_eq_map]
  apply List.filterMap_congr
  intro f member
  have some' : ¬ f.entries.isEmpty = true := fun none' =>
    filled f member (List.isEmpty_iff.mp none')
  rw [if_neg some']
  rfl

end Opened

theorem Located.forget {pieces : List Piece} {next : Nat} {cursor : Cursor} {seq known : Nat}
    (located : Located pieces next cursor seq known) : Located pieces next cursor seq 0 := by
  cases located with
  | here piece offset number enough => exact .here piece offset number (Nat.zero_le _)
  | gone after passed =>
      refine .gone ?_ ?_
      · intro piece member
        have behind := after piece member
        omega
      · omega

theorem located_origin (next : Nat) : Located [] next ⟨0, 0⟩ 0 0 := by
  refine .gone ?_ ?_
  · intro piece member
    cases member
  · change 0 < next ∧ 0 + 0 ≤ next ∨ 0 = next ∧ 0 = 0 ∧ 0 = next ∧ 0 = 0
    omega

theorem Within.located {log : Log} {cursor : Cursor} {ahead : List Entry}
    (place : Within log cursor ahead) (next : Nat) :
    ∃ seq, Located log.pieces next cursor seq 0 := by
  cases place with
  | @mk front rest kept done todo parts entries segment offset =>
      have member : kept ∈ log := by
        rw [parts]
        exact List.mem_append_right _ List.mem_cons_self
      have piece : (cursor.segment, done ++ todo) ∈ log.pieces := by
        rw [segment, ← entries]
        exact List.mem_map_of_mem (f := fun kept : Segment × List Entry => (kept.1.firstSeq, kept.2))
          member
      exact ⟨_, .here piece offset rfl (Nat.zero_le _)⟩

theorem Log.acknowledge_pieces (log : Log) (seq : Nat) :
    (log.acknowledge seq).pieces = log.pieces := by
  rw [Log.acknowledge, Log.pieces, Log.pieces, List.map_map]
  apply List.map_congr_left
  intro kept _
  by_cases inside : kept.1.contains seq = true
  · simp only [Function.comp, inside, if_true]
    rfl
  · simp only [Function.comp, inside]
    rfl

namespace Written

variable {disk : Disk} {spool : Spool} {log front mid : Log} {event : Spool.Event}
  {current : Segment × List Entry} {before : List Effect}
  (written : Written disk spool log event front mid current before)

include written

theorem pieces : (log.pieces = front.pieces ++ mid.pieces ∧
      current = (Segment.new spool.nextSeq spool.nextSeq, [])) ∨
    log.pieces = front.pieces ++ (mid.pieces ++ [(current.1.firstSeq, current.2)]) := by
  have parts := written.parts
  unfold Spool.opened at parts
  split at parts
  · left
    rw [← List.append_assoc] at parts
    rcases List.append_inj' parts rfl with ⟨older, new⟩
    refine ⟨?_, (List.singleton_inj.mp new).symm⟩
    rw [older]
    exact List.map_append
  · right
    rw [parts, Log.pieces, List.map_append, List.map_append]
    rfl

theorem active_old : ∀ piece ∈ mid.pieces ++ [(current.1.firstSeq, current.2)],
    piece ∈ log.pieces ∨ piece.2 = [] := by
  intro piece member
  rcases written.pieces with ⟨older, new⟩ | whole
  · rcases List.mem_append.mp member with old | last
    · rw [older]
      exact Or.inl (List.mem_append_right _ old)
    · rw [List.mem_singleton.mp last, new]
      exact Or.inr rfl
  · rw [whole]
    exact Or.inl (List.mem_append_right _ member)

theorem active_located (follows : Follows log.pieces spool.nextSeq)
    (filled : ∀ piece ∈ log.pieces, piece.2 ≠ []) {cursor : Cursor} {seq known : Nat}
    (located : Located log.pieces spool.nextSeq cursor seq known) :
    Located (mid.pieces ++ [(current.1.firstSeq, current.2)]) spool.nextSeq cursor seq known := by
  rcases written.pieces with ⟨older, new⟩ | whole
  · rw [older] at located follows filled
    rw [new]
    exact (located.drop follows fun piece member =>
      filled piece (List.mem_append_left _ member)).newPiece
  · rw [whole] at located follows filled
    exact located.drop follows fun piece member => filled piece (List.mem_append_left _ member)

end Written

namespace ReaderRun.Keeps

variable {h : ReaderRun} {pieces front : List Piece} {next : Nat}

theorem begins_appended {log : Log} (keeps : h.Keeps log.pieces next) {cursor : Cursor}
    {entry : Entry} (begins : Begins log cursor entry) : entry ∈ h.appended := by
  cases begins with
  | @mk front rest kept done todo parts entries segment offset =>
      have member : kept ∈ log := by
        rw [parts]
        exact List.mem_append_right _ List.mem_cons_self
      have inKept : entry ∈ kept.2 := by
        rw [entries]
        exact List.mem_append_right _ List.mem_cons_self
      exact keeps.held _ (List.mem_map_of_mem member) entry inKept

theorem moved (keeps : h.Keeps pieces next) {others : List Piece} {higher : Nat}
    (above : next ≤ higher) (held : ∀ piece ∈ others, piece ∈ pieces ∨ piece.2 = [])
    (moves : ∀ cursor seq known, Located pieces next cursor seq known →
      Located others higher cursor seq known) : h.Keeps others higher := by
  refine ⟨keeps.increasing, ?_, keeps.short, ?_, ?_, ?_⟩
  · intro entry appended
    exact Nat.lt_of_lt_of_le (keeps.below entry appended) above
  · intro piece member entry inEntries
    rcases held piece member with old | empty
    · exact keeps.held piece old entry inEntries
    · rw [empty] at inEntries
      cases inEntries
  · intro cursor member
    rcases keeps.cursors cursor member with ⟨seq, located⟩
    exact ⟨seq, moves _ _ _ located⟩
  · intro found member
    rcases keeps.found found member with ⟨appended, located⟩
    exact ⟨appended, moves _ _ _ located⟩

theorem raise (keeps : h.Keeps pieces next) {higher : Nat} (above : next ≤ higher) :
    h.Keeps pieces higher :=
  keeps.moved above (fun _ member => Or.inl member) fun _ _ _ located => located.raise above

theorem drop {rest : List Piece} (keeps : h.Keeps (front ++ rest) next)
    (follows : Follows (front ++ rest) next) (filled : ∀ piece ∈ front, piece.2 ≠ []) :
    h.Keeps rest next :=
  keeps.moved (Nat.le_refl _) (fun _ member => Or.inl (List.mem_append_right _ member))
    fun _ _ _ located => located.drop follows filled

theorem push {name : Nat} {entries : List Entry} {entry : Entry}
    (keeps : h.Keeps (front ++ [(name, entries)]) next) (number : entry.seq = next)
    (short : entry.key.length < 65536) :
    ReaderRun.Keeps { h with appended := h.appended ++ [entry] }
      (front ++ [(name, entries ++ [entry])]) (next + 1) := by
  constructor
  · change ((h.appended ++ [entry]).map (·.seq)).Pairwise (· < ·)
    rw [List.map_append]
    apply List.pairwise_append.mpr
    refine ⟨keeps.increasing, List.pairwise_singleton _ _, ?_⟩
    intro seq old other new
    rcases List.mem_map.mp old with ⟨before, appended, rfl⟩
    rw [List.mem_singleton.mp new]
    exact (keeps.below before appended).trans_eq number.symm
  · intro other member
    rcases List.mem_append.mp member with old | new
    · exact Nat.lt_succ_of_lt (keeps.below other old)
    · rw [List.mem_singleton.mp new, number]
      exact Nat.lt_succ_self _
  · intro other member
    rcases List.mem_append.mp member with old | new
    · exact keeps.short other old
    · rw [List.mem_singleton.mp new]
      exact short
  · intro piece member other inEntries
    rcases List.mem_append.mp member with old | last
    · exact List.mem_append_left _ (keeps.held piece (List.mem_append_left _ old) other inEntries)
    · rw [List.mem_singleton.mp last] at inEntries
      rcases List.mem_append.mp inEntries with before | new
      · have inLast := keeps.held (name, entries)
          (List.mem_append_right _ (List.mem_singleton_self _)) other before
        exact List.mem_append_left _ inLast
      · exact List.mem_append_right _ new
  · intro cursor member
    rcases keeps.cursors cursor member with ⟨seq, located⟩
    exact ⟨seq, located.push entry⟩
  · intro found member
    rcases keeps.found found member with ⟨appended, located⟩
    exact ⟨List.mem_append_left _ appended, located.push entry⟩

theorem machine (keeps : h.Keeps pieces next) (m : Machine) :
    ReaderRun.Keeps { h with machine := m } pieces next :=
  ⟨keeps.increasing, keeps.below, keeps.short, keeps.held, keeps.cursors, keeps.found⟩

theorem handed (keeps : h.Keeps pieces next) {cursors : List Cursor} {found : List (Cursor × Entry)}
    (located : ∀ cursor ∈ cursors, ∃ seq, Located pieces next cursor seq 0)
    (read : ∀ other ∈ found, other.2 ∈ h.appended ∧ Located pieces next other.1 other.2.seq 1) :
    ReaderRun.Keeps { h with cursors := h.cursors ++ cursors, found := h.found ++ found }
      pieces next := by
  refine ⟨keeps.increasing, keeps.below, keeps.short, keeps.held, ?_, ?_⟩
  · intro cursor member
    rcases List.mem_append.mp member with old | new
    · exact keeps.cursors cursor old
    · exact located cursor new
  · intro other member
    rcases List.mem_append.mp member with old | new
    · exact keeps.found other old
    · exact read other new

end ReaderRun.Keeps

namespace ReaderRun

/-- The files, or the open spool, agree with what the run knows. -/
inductive Sound (h : ReaderRun) : Prop where
  | stopped {files : List StoredFile} (closed : h.machine.spool = none)
      (recoverable : Recoverable h.machine.disk files) (filled : ∀ f ∈ files, f.entries ≠ [])
      (keeps : h.Keeps (files.map StoredFile.piece)
        (Spool.readNumber h.machine.disk.sequence)) : h.Sound
  | running {spool : Spool} {log : Log} (opened : h.machine.spool = some spool)
      (agrees : Agrees h.machine.disk spool log) (keeps : h.Keeps log.pieces spool.nextSeq) :
      h.Sound

theorem sound_start : ReaderRun.start.Sound := by
  refine .stopped rfl recoverable_empty ?_ ⟨List.Pairwise.nil, ?_, ?_, ?_, ?_, ?_⟩
  all_goals
    intro other member
    cases member

namespace Sound

variable {h : ReaderRun}

/-- What is found in the directory when the spool is opened. -/
theorem files (sound : h.Sound) : ∃ files, Recoverable h.machine.disk files ∧
    (∀ f ∈ files, f.entries ≠ []) ∧ h.Keeps (files.map StoredFile.piece)
      (Spool.readNumber h.machine.disk.sequence) := by
  cases sound with
  | stopped closed recoverable filled keeps => exact ⟨_, recoverable, filled, keeps⟩
  | @running spool log opened agrees keeps =>
      have reached : spool.nextSeq ≤ Spool.readNumber h.machine.disk.sequence := by
        rw [agrees.inFile]
        exact agrees.reserved
      refine ⟨_, agrees.recoverable, ?_, ?_⟩
      · intro f member
        rcases List.mem_map.mp member with ⟨kept, inLog, rfl⟩
        have positive := agrees.ordered.nonempty kept inLog
        rw [(agrees.ordered.holds kept inLog).count] at positive
        exact List.length_pos_iff.mp positive
      · rw [List.map_map]
        exact keeps.raise reached

theorem filled_pieces {disk : Disk} {spool : Spool} {log : Log} (layout : Layout disk spool log) :
    ∀ piece ∈ log.pieces, piece.2 ≠ [] := by
  intro piece member
  rcases List.mem_map.mp member with ⟨kept, inLog, rfl⟩
  have positive := layout.ordered.nonempty kept inLog
  rw [(layout.ordered.holds kept inLog).count] at positive
  exact List.length_pos_iff.mp positive

theorem quiet_step {call : Call} (quiet : added h.machine call = []) :
    h.step (.call call) = { h with machine := h.machine.step call } := by
  rw [ReaderRun.step, quiet, List.append_nil]

theorem opens (sound : h.Sound) (config : SpoolConfig) : (h.step (.call (.open config))).Sound := by
  rcases sound.files with ⟨files, recoverable, filled, keeps⟩
  rw [quiet_step rfl]
  cases opened : (Spool.open config h.machine.disk).2 with
  | some spool =>
      rcases Agrees.recovered recoverable opened with ⟨front, log, agrees, parts, _⟩
      rcases open_reserves config h.machine.disk with ⟨_, _, reserves⟩
      have reached := (reserves spool opened).2.1
      have pieces : files.map StoredFile.piece = front.pieces ++ log.pieces := by
        rw [← recoverable.markedLog_pieces filled (Spool.readNumber h.machine.disk.acked), parts]
        exact List.map_append
      have follows := recoverable.follows
      rw [pieces] at keeps follows
      have some' : ∀ piece ∈ front.pieces, piece.2 ≠ [] := by
        intro piece member
        have inFiles : piece ∈ files.map StoredFile.piece := by
          rw [pieces]
          exact List.mem_append_left _ member
        rcases List.mem_map.mp inFiles with ⟨f, isFile, rfl⟩
        exact filled f isFile
      exact .running opened agrees (((keeps.drop follows some').raise reached).machine _)
  | none =>
      rcases open_refused opened with nothing | recovery
      · have same : h.machine.step (.open config) = ⟨h.machine.disk, none⟩ := by
          simp only [Machine.step, Machine.perform, opened, nothing]
          rfl
        rw [same]
        exact .stopped rfl recoverable filled (keeps.machine _)
      · have same : h.machine.step (.open config) = ⟨h.machine.disk.applyAll
            (h.machine.disk.sorted.flatMap Spool.recoveryEffects), none⟩ := by
          simp only [Machine.step, Machine.perform, opened, recovery]
        rw [same]
        refine .stopped rfl recoverable.clean ?_ ?_
        · intro f member
          rcases Recoverable.mem_cleaned member with ⟨before, inFiles, rfl⟩
          exact filled before inFiles
        · have numbers := numbers_applyAll h.machine.disk
            (h.machine.disk.sorted.flatMap Spool.recoveryEffects)
          rw [recovery_quiet] at numbers
          have sequence := congrArg Prod.fst numbers
          rw [cleaned_pieces filled]
          refine ReaderRun.Keeps.machine ?_ _
          exact keeps.raise (Nat.le_of_eq (congrArg Spool.readNumber sequence.symm))

theorem written_keeps {disk : Disk} {spool : Spool} {log front mid : Log} {event : Spool.Event}
    {current : Segment × List Entry} {before : List Effect}
    (keeps : h.Keeps log.pieces spool.nextSeq) (follows : Follows log.pieces spool.nextSeq)
    (filled : ∀ piece ∈ log.pieces, piece.2 ≠ [])
    (written : Written disk spool log event front mid current before) :
    h.Keeps (mid.pieces ++ [(current.1.firstSeq, current.2)]) spool.nextSeq :=
  keeps.moved (Nat.le_refl _) written.active_old
    fun _ _ _ located => written.active_located follows filled located

theorem appends (sound : h.Sound) (event : Spool.Event)
    (records : h.Records (.call (.append event))) : (h.step (.call (.append event))).Sound := by
  cases sound with
  | stopped closed recoverable filled keeps =>
      have nothing : h.machine.perform (.append event) = ⟨[], none, none⟩ := by
        simp only [Machine.perform, closed]
      have same : h.machine.step (.append event) = ⟨h.machine.disk, none⟩ := by
        rw [Machine.step, nothing]
        rfl
      have quiet : added h.machine (.append event) = [] := by
        rw [added, nothing]
        rfl
      rw [quiet_step quiet, same]
      exact .stopped rfl recoverable filled (keeps.machine _)
  | @running spool log opened agrees keeps =>
      cases given : (spool.append event).2 with
      | none =>
          have effects : (spool.append event).1 = [] := by
            rcases agrees.toLayout.append event with failed | ⟨_, _, whole, _⟩
            · rw [failed]
            · rw [whole] at given
              cases given
          have nothing : h.machine.perform (.append event) = ⟨[], none, none⟩ := by
            simp only [Machine.perform, opened, given, effects, Option.map_none]
          have same : h.machine.step (.append event) = ⟨h.machine.disk, none⟩ := by
            rw [Machine.step, nothing]
            rfl
          have quiet : added h.machine (.append event) = [] := by
            rw [added, nothing]
            rfl
          rcases Sound.files (.running opened agrees keeps) with
            ⟨files, recoverable, filled, stored⟩
          rw [quiet_step quiet, same]
          exact .stopped rfl recoverable filled (stored.machine _)
      | some answer =>
          have room := records.2 spool opened
          rcases agrees.append room given with
            ⟨front, mid, current, reserving, ready, before, whole, isReady, _, written, isAnswer,
              after⟩
          have performed : h.machine.perform (.append event) =
              ⟨(spool.append event).1, some answer.1, some answer.2⟩ := by
            simp only [Machine.perform, opened, given, Option.map_some]
          have step : h.step (.call (.append event)) =
              { h with
                machine := ⟨h.machine.disk.applyAll (spool.append event).1, some answer.1⟩
                appended := h.appended ++ [event.entry spool.nextSeq] } := by
            rw [ReaderRun.step, Machine.step, added, performed, isAnswer]
            rfl
          have sameSeq : ready.nextSeq = spool.nextSeq := by
            rw [isReady]
          have next : answer.1.nextSeq = spool.nextSeq + 1 := by
            rcases append_reserves h.machine.disk spool event agrees.inFile with ⟨_, _, numbers⟩
            exact (numbers answer given).2.2.1
          have open' : h.Keeps (mid.pieces ++ [(current.1.firstSeq, current.2)]) ready.nextSeq := by
            have keeps' : h.Keeps log.pieces ready.nextSeq := by
              rw [sameSeq]
              exact keeps
            have follows : Follows log.pieces ready.nextSeq := by
              rw [sameSeq]
              exact agrees.toLayout.follows
            exact written_keeps keeps' follows (filled_pieces agrees.toLayout) written
          rw [sameSeq] at open'
          have pushed' : ReaderRun.Keeps
              { h with appended := h.appended ++ [event.entry spool.nextSeq] }
              (mid.pieces ++ [(current.1.firstSeq, current.2 ++ [event.entry spool.nextSeq])])
              (spool.nextSeq + 1) := open'.push rfl records.1
          have pieces : Log.pieces (mid ++ [pushed current (event.entry spool.nextSeq)]) =
              mid.pieces ++ [(current.1.firstSeq, current.2 ++ [event.entry spool.nextSeq])] :=
            List.map_append
          rw [← pieces, ← next] at pushed'
          rw [step]
          exact .running rfl after (pushed'.machine _)

theorem acks (sound : h.Sound) (seq : Nat) : (h.step (.call (.ack seq))).Sound := by
  rw [quiet_step rfl]
  cases sound with
  | stopped closed recoverable filled keeps =>
      have same : h.machine.step (.ack seq) = ⟨h.machine.disk, none⟩ := by
        simp only [Machine.step, Machine.perform, closed]
        rfl
      rw [same]
      exact .stopped rfl recoverable filled (keeps.machine _)
  | @running spool log opened agrees keeps =>
      rcases agrees.ack seq with ⟨front, rest, parts, _, after⟩
      have same : h.machine.step (.ack seq) =
          ⟨h.machine.disk.applyAll (spool.ack seq).1, some (spool.ack seq).2⟩ := by
        simp only [Machine.step, Machine.perform, opened]
      have next : (spool.ack seq).2.nextSeq = spool.nextSeq := by
        unfold Spool.ack
        split
        · rfl
        · rfl
      have split : log.pieces = front.pieces ++ rest.pieces := by
        rw [← log.acknowledge_pieces seq, parts]
        exact List.map_append
      have follows := agrees.toLayout.follows
      have filled := filled_pieces agrees.toLayout
      rw [split] at keeps follows filled
      have left' := keeps.drop follows fun piece member => filled piece (List.mem_append_left _ member)
      rw [← next] at left'
      rw [same]
      exact .running rfl after (left'.machine _)

theorem syncs (sound : h.Sound) : (h.step (.call .sync)).Sound := by
  rw [quiet_step rfl]
  cases sound with
  | stopped closed recoverable filled keeps =>
      have same : h.machine.step .sync = ⟨h.machine.disk, none⟩ := by
        simp only [Machine.step, Machine.perform, closed]
        rfl
      rw [same]
      exact .stopped rfl recoverable filled (keeps.machine _)
  | @running spool log opened agrees keeps =>
      have same : h.machine.step .sync = ⟨h.machine.disk.applyAll spool.sync, some spool⟩ := by
        simp only [Machine.step, Machine.perform, opened]
      rw [same]
      exact .running rfl agrees.sync (keeps.machine _)

theorem calls (sound : h.Sound) (call : Call) (records : h.Records (.call call)) :
    (h.step (.call call)).Sound := by
  cases call with
  | «open» config => exact sound.opens config
  | append event => exact sound.appends event records
  | ack seq => exact sound.acks seq
  | sync => exact sound.syncs

theorem recordable {spool : Spool} {log : Log} (agrees : Agrees h.machine.disk spool log)
    (keeps : h.Keeps log.pieces spool.nextSeq) : ∀ kept ∈ log, ∀ entry ∈ kept.2,
      entry.Recordable := by
  intro kept member entry inEntries
  have appended := keeps.held _ (List.mem_map_of_mem member) entry inEntries
  exact ⟨agrees.readable kept member entry inEntries, keeps.short entry appended⟩

theorem rewinds (sound : h.Sound) : (h.step .rewind).Sound := by
  cases sound with
  | stopped closed recoverable filled keeps =>
      have same : h.step .rewind = h := by
        simp only [ReaderRun.step, closed, Option.toList_none, List.map_nil, List.append_nil]
      rw [same]
      exact .stopped closed recoverable filled keeps
  | @running spool log opened agrees keeps =>
      have located : ∃ seq, Located log.pieces spool.nextSeq spool.rewind seq 0 := by
        unfold Spool.rewind
        rw [agrees.segments]
        cases found : (log.segments.find? fun s => decide (0 < s.unacked)).or
            log.segments.getLast? with
        | some s =>
            have member : s ∈ log.segments := by
              rcases Option.or_eq_some_iff.mp found with first | ⟨_, last⟩
              · exact List.mem_of_find?_eq_some first
              · exact List.mem_of_getLast? last
            rcases List.mem_map.mp member with ⟨kept, inLog, rfl⟩
            have piece : (kept.1.firstSeq, ([] ++ kept.2 : List Entry)) ∈ log.pieces :=
              List.mem_map_of_mem (f := fun kept : Segment × List Entry =>
                (kept.1.firstSeq, kept.2)) inLog
            exact ⟨_, .here piece rfl rfl (Nat.zero_le _)⟩
        | none =>
            have empty : log = [] := by
              have last := (Option.or_eq_none_iff.mp found).2
              exact List.map_eq_nil_iff.mp (List.getLast?_eq_none_iff.mp last)
            rw [empty]
            exact ⟨0, located_origin spool.nextSeq⟩
      have step : h.step .rewind =
          { h with cursors := h.cursors ++ [spool.rewind], found := h.found ++ [] } := by
        rw [List.append_nil]
        simp only [ReaderRun.step, opened, Option.toList_some, List.map_cons, List.map_nil]
      rw [step]
      refine .running opened agrees (keeps.handed ?_ ?_)
      · intro cursor member
        rw [List.mem_singleton.mp member]
        exact located
      · intro other member
        cases member

theorem reads (sound : h.Sound) (cursor limit : Nat) : (h.step (.read cursor limit)).Sound := by
  cases sound with
  | stopped closed recoverable filled keeps =>
      have same : h.step (.read cursor limit) = h := by
        simp only [ReaderRun.step, closed]
      rw [same]
      exact .stopped closed recoverable filled keeps
  | @running spool log opened agrees keeps =>
      cases given : h.cursors[cursor]? with
      | none =>
          have same : h.step (.read cursor limit) = h := by
            simp only [ReaderRun.step, opened, given]
          rw [same]
          exact .running opened agrees keeps
      | some position =>
          have step : h.step (.read cursor limit) = { h with
              cursors := h.cursors ++ (spool.read h.machine.disk position limit).2 ::
                (spool.read h.machine.disk position limit).1.map Prod.fst
              found := h.found ++ (spool.read h.machine.disk position limit).1 } := by
            simp only [ReaderRun.step, opened, given]
          rcases keeps.cursors position (List.mem_of_getElem? given) with ⟨seq, located⟩
          have stands := stands_ahead agrees.toLayout keeps agrees.readable located
          have read := read_stands agrees.toLayout (recordable agrees keeps) stands limit
          rw [step]
          rcases read with read | ⟨empty, _, nothing⟩
          · have positions : ∀ found ∈ (spool.read h.machine.disk position limit).1,
                found.2 ∈ h.appended ∧
                  Located log.pieces spool.nextSeq found.1 found.2.seq 1 := by
              intro found member
              have begins := read.positions found member
              exact ⟨keeps.begins_appended begins,
                located_of_begins agrees.toLayout begins spool.nextSeq⟩
            refine .running opened agrees (keeps.handed ?_ positions)
            intro cursor member
            rcases List.mem_cons.mp member with rfl | inFound
            · exact read.next.located spool.nextSeq
            · rcases List.mem_map.mp inFound with ⟨found, isFound, rfl⟩
              exact ⟨_, (positions found isFound).2.forget⟩
          · rw [nothing]
            refine .running opened agrees (keeps.handed ?_ ?_)
            · intro cursor member
              rw [List.mem_singleton.mp member, empty]
              exact ⟨0, located_origin spool.nextSeq⟩
            · intro found member
              cases member

theorem step (sound : h.Sound) (step : ReaderStep) (records : h.Records step) :
    (h.step step).Sound := by
  cases step with
  | call call => exact sound.calls call records
  | rewind => exact sound.rewinds
  | read cursor limit => exact sound.reads cursor limit

theorem readsBack (sound : h.Sound) : h.ReadsBack := by
  cases sound with
  | stopped closed recoverable filled keeps =>
      refine ⟨keeps.increasing, ?_, ?_⟩
      · intro spool opened
        rw [closed] at opened
        cases opened
      · intro spool opened
        rw [closed] at opened
        cases opened
  | @running spool log opened agrees keeps =>
      have layout := agrees.toLayout
      have records := recordable agrees keeps
      refine ⟨keeps.increasing, ?_, ?_⟩
      · intro other isOpen cursor member limits positive
        rw [opened] at isOpen
        cases isOpen
        rcases keeps.cursors cursor member with ⟨seq, located⟩
        have stands := stands_ahead layout keeps agrees.readable located
        exact ⟨reads_end layout records stands limits,
          fun calls nothing => reads_all layout records stands limits positive nothing⟩
      · intro other isOpen found member waits limit positive
        rw [opened] at isOpen
        cases isOpen
        rcases keeps.found found member with ⟨appended, located⟩
        exact reads_again layout keeps records located appended waits positive

end Sound

/-- In every run from an empty directory whose keys and bodies have lengths that fit their fields,
reads are complete and can be repeated. -/
theorem reads_back (steps : List ReaderStep) (records : Runs.Meets step Records start steps) :
    (Runs.run step start steps).ReadsBack := by
  have preserves : ∀ (h : ReaderRun) (event : ReaderStep), h.Sound → h.Records event →
      (h.step event).Sound := fun h event sound records => sound.step event records
  have sound : (Runs.run step start steps).Sound :=
    Runs.run_invariant preserves sound_start records
  exact sound.readsBack

/-- A record of 58 bytes, so that a segment of 100 bytes has one. -/
def keyed : Spool.Event := ⟨.flows, [107], 5, fun seq => List.replicate 30 (UInt8.ofNat seq)⟩

def keyedSteps : List ReaderStep :=
  [.call (.open smallSegments), .call (.append keyed), .call (.append keyed), .rewind,
    .call (.append keyed), .read 0 2, .call (.ack 1), .read 0 5, .read 1 5]

theorem records_keyed (h : ReaderRun) : h.Records (.call (.append keyed)) := by
  refine ⟨by decide, ?_⟩
  intro spool _
  rw [entryBody_length]
  exact show 19 + 1 + (List.replicate 30 (UInt8.ofNat spool.nextSeq)).length < 2 ^ 32 by
    rw [List.length_replicate]
    decide

theorem reads_back_keyed : (Runs.run step start keyedSteps).ReadsBack ∧
    (Runs.run step start keyedSteps).found.map (·.2.seq) = [0, 1, 0, 2, 2] := by
  constructor
  · exact reads_back keyedSteps ⟨trivial, records_keyed _, records_keyed _, trivial,
      records_keyed _, trivial, trivial, trivial, trivial, trivial⟩
  · have opened : start.step (.call (.open smallSegments)) =
        { start with machine := Machine.step ⟨.empty, none⟩ (.open smallSegments) } := rfl
    rw [keyedSteps, Runs.run_cons, opened, opened_empty]
    decide +kernel
/-! The length of a key is written in two bytes. A longer key is cut when its record is read. -/

def keySteps (event : Spool.Event) : List ReaderStep :=
  [.call (.open smallSegments), .call (.append event), .rewind]

/-- The spool and its directory after one append on an empty directory. -/
def alone (event : Spool.Event) : Machine :=
  Machine.step ⟨⟨[], some (numberLine 4096), none, none, none⟩,
    some ⟨smallSegments, [], none, 0, 4096, 0⟩⟩ (.append event)

theorem key_run (event : Spool.Event) : Runs.run step start (keySteps event) =
    ⟨alone event, [event.entry 0], [⟨0, 0⟩], []⟩ := by
  have opened : start.step (.call (.open smallSegments)) =
      { start with machine := Machine.step ⟨.empty, none⟩ (.open smallSegments) } := rfl
  rw [keySteps, Runs.run_cons, opened, opened_empty]
  rfl

section Cut

variable {event : Spool.Event}

theorem readRest_zero (segment : Segment) (rounds : Nat) (bytes : List UInt8) (cursor : Cursor) :
    Spool.readRest segment rounds 0 bytes cursor = ([], cursor) := by
  cases rounds with
  | zero => rfl
  | succ rounds => rw [Spool.readRest, if_pos rfl]

theorem read_alone (body : (entryBody (event.entry 0)).length < 2 ^ 32) :
    ∃ spool, (alone event).spool = some spool ∧
      (spool.read (alone event).disk ⟨0, 0⟩ 1).1 = [(⟨0, 0⟩, stored (event.entry 0))] := by
  let active : Segment := ⟨0, 0, 1, [false], 1, min Int64.maxValue event.eventTimeMs,
    max Int64.minValue event.eventTimeMs, 0 + (encodeEntry (event.entry 0)).length⟩
  let spool : Spool := ⟨smallSegments, [active], some 0, 1, 4096,
    0 + (encodeEntry (event.entry 0)).length⟩
  have made : alone event =
      ⟨⟨[(0, encodeEntry (event.entry 0))], some (numberLine 4096), none, none, none⟩,
        some spool⟩ := rfl
  have frame := readFrame_frame body []
  rw [List.append_nil] at frame
  have start' : (event.entry 0).seq < 2 ^ 64 := show 0 < 2 ^ 64 by decide
  have decoded := decodeBody_entryBody start'
  have wanted : (active.contains (stored (event.entry 0)).seq &&
      !active.isAcked (stored (event.entry 0)).seq) = true := rfl
  rw [made]
  refine ⟨spool, rfl, ?_⟩
  change (readHere _ active 1 ⟨0, 0⟩).1 = _
  change (Spool.readRest active ((encodeEntry (event.entry 0)).length + 1) 1
    (encodeEntry (event.entry 0)) ⟨0, 0⟩).1 = _
  simp only [Spool.readRest, encodeEntry, frame, decoded, Option.filter_some, wanted, if_true,
    Nat.one_ne_zero, if_false]
  exact congrArg _ (congrArg Prod.fst (readRest_zero active _ [] _))

theorem reads_cut (long : 65536 ≤ event.key.length)
    (body : (entryBody (event.entry 0)).length < 2 ^ 32) :
    ¬ (Runs.run step start (keySteps event)).ReadsBack := by
  intro readsBack
  rw [key_run] at readsBack
  rcases read_alone body with ⟨spool, opened, read⟩
  have all := readsBack.complete spool opened ⟨0, 0⟩ (List.mem_singleton_self _) (fun _ => 1)
    fun _ => Nat.one_pos
  have one : ReaderRun.ahead ⟨alone event, [event.entry 0], [⟨0, 0⟩], []⟩ spool ⟨0, 0⟩ =
      [stored (event.entry 0)] := by
    rcases all.ends with ⟨calls, few, nothing⟩
    have short : (ReaderRun.ahead ⟨alone event, [event.entry 0], [⟨0, 0⟩], []⟩ spool
        ⟨0, 0⟩).length ≤ 1 := List.length_filter_le _ _
    have cases' : calls = 0 ∨ calls = 1 := by omega
    rcases cases' with rfl | rfl
    · change (spool.read (alone event).disk ⟨0, 0⟩ 1).1 = [] at nothing
      rw [read] at nothing
      cases nothing
    · have returned := all.all 1 nothing
      change (([] ++ (spool.read (alone event).disk ⟨0, 0⟩ 1).1).map Prod.snd) = _ at returned
      rw [read] at returned
      exact returned.symm
  have member : stored (event.entry 0) ∈ [event.entry 0] := by
    apply List.mem_of_mem_filter
    change stored (event.entry 0) ∈
      ReaderRun.ahead ⟨alone event, [event.entry 0], [⟨0, 0⟩], []⟩ spool ⟨0, 0⟩
    rw [one]
    exact List.mem_singleton_self _
  have same := congrArg (fun entry : Entry => entry.key.length) (List.mem_singleton.mp member)
  change ((event.key ++ event.payload 0).take (event.key.length % 65536)).length =
    event.key.length at same
  rw [List.length_take] at same
  omega

end Cut

def longKey : Spool.Event := ⟨.flows, List.replicate 65536 97, 0, fun _ => []⟩

theorem longKey_length : longKey.key.length = 65536 := List.length_replicate

theorem reads_back_of_long_key : ¬ (Runs.run step start (keySteps longKey)).ReadsBack := by
  apply reads_cut
  · exact Nat.le_of_eq longKey_length.symm
  · rw [entryBody_length]
    have key : (longKey.entry 0).key.length = 65536 := longKey_length
    have payload : ((longKey.entry 0).payload).length = 0 := rfl
    rw [key, payload]
    decide

end ReaderRun

end PiAgents.Spooling
