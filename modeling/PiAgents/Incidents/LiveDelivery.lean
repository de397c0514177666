import PiAgents.Lib.StableOrder
import PiAgents.Incidents.LiveFeed

/-! What the messages of one socket bring their receiver: every message continues what came before,
whatever is committed between the handler's steps. -/

namespace PiAgents.Incidents

def Database.feedUpTo (db : Database) (cursor : Int) : List FeedRow :=
  db.incidentFeed.filter fun row => row.cursor ≤ cursor

/-- The snapshot is the newest transition of every incident up to its cursor. -/
def Snapshot.Exact (s : Snapshot) (db : Database) : Prop :=
  s.cursor ≤ db.cursorSequence ∧ (db.incidents.length ≤ snapshotLimit → ∀ incidentId,
    newestOf (s.incidents.map (·.transition)) incidentId =
      newestOf ((db.feedUpTo s.cursor).map (·.payload)) incidentId)

private theorem filter_incidentId {rows : List IncidentRow}
    (distinct : (rows.map (·.incidentId)).Nodup)
    (incidentId : String) : rows.filter (·.incidentId == incidentId) =
      (rows.find? (·.incidentId == incidentId)).toList := by
  induction rows with
  | nil => rfl
  | cons row rest ih =>
      have parts := List.nodup_cons.mp distinct
      rw [List.filter_cons, List.find?_cons]
      by_cases here : (row.incidentId == incidentId) = true
      · have none : rest.filter (·.incidentId == incidentId) = [] := by
          apply List.filter_eq_nil_iff.mpr
          intro other member same
          apply parts.1
          change row.incidentId ∈ _
          rw [beq_iff_eq.mp here, ← beq_iff_eq.mp same]
          exact List.mem_map_of_mem member
        rw [if_pos here, none, here]
        rfl
      · rw [if_neg here, ih parts.2, Bool.eq_false_iff.mpr here]

namespace Database.Feeding

variable {db : Database}

theorem latestCursor (feeding : db.Feeding) : db.latestCursor ≤ db.cursorSequence ∧
    ∀ row ∈ db.incidentFeed, row.cursor ≤ db.latestCursor := by
  cases found : (db.incidentFeed.map (·.cursor)).max? with
  | none =>
      have empty : db.incidentFeed = [] := List.map_eq_nil_iff.mp (List.max?_eq_none_iff.mp found)
      rw [Database.latestCursor, found, empty]
      exact ⟨Nat.zero_le _, fun row member => by cases member⟩
  | some latest =>
      have greatest := List.max?_eq_some_iff.mp found
      rw [Database.latestCursor, found]
      constructor
      · rcases List.mem_map.mp greatest.1 with ⟨row, member, rfl⟩
        exact feeding.drawn row member
      · intro row member
        exact greatest.2 row.cursor (List.mem_map_of_mem member)

theorem feedUpTo_latest (feeding : db.Feeding) :
    db.feedUpTo db.latestCursor = db.incidentFeed := by
  apply List.filter_eq_self.mpr
  intro row member
  have within := feeding.latestCursor.2 row member
  apply decide_eq_true
  omega

theorem snapshot_exact (feeding : db.Feeding) (order : RowOrder) :
    (snapshot order db false snapshotLimit).Exact db := by
  refine ⟨feeding.latestCursor.1, ?_⟩
  intro few incidentId
  have perm := order.perm db.incidents
  have whole : (order.arrange db.incidents).take snapshotLimit = order.arrange db.incidents := by
    apply List.take_of_length_le
    rwa [perm.length_eq]
  have items : (snapshot order db false snapshotLimit).incidents.map (·.transition) =
      (order.arrange db.incidents).map (·.current.lastTransition) := by
    change (((order.arrange db.incidents).take snapshotLimit).map IncidentRow.shown).map _ = _
    rw [whole, List.map_map]
    rfl
  have distinct : ((order.arrange db.incidents).map (·.incidentId)).Nodup :=
    ((perm.map _).nodup_iff).mpr feeding.named.distinct
  have named : ∀ row ∈ order.arrange db.incidents,
      (row.current.lastTransition.incidentId == incidentId) = (row.incidentId == incidentId) := by
    intro row member
    rw [(feeding.named.rows row (perm.mem_iff.mp member)).transition]
  have rows : (order.arrange db.incidents).filter (·.incidentId == incidentId) =
      (db.incident incidentId).toList := by
    have same := perm.filter (·.incidentId == incidentId)
    rw [filter_incidentId feeding.named.distinct] at same
    change List.Perm _ (db.incident incidentId).toList at same
    cases found : db.incident incidentId with
    | none =>
        rw [found] at same
        exact List.perm_nil.mp same
    | some row =>
        rw [found] at same
        exact List.perm_singleton.mp same
  change _ = newestOf ((db.feedUpTo db.latestCursor).map (·.payload)) incidentId
  rw [items, feeding.feedUpTo_latest, ← feeding.table incidentId, newestOf, List.filter_map]
  have filtered : (order.arrange db.incidents).filter ((fun t : TransitionPayload =>
      t.incidentId == incidentId) ∘ fun row => row.current.lastTransition) =
      (order.arrange db.incidents).filter (·.incidentId == incidentId) :=
    List.filter_congr named
  rw [filtered, rows]
  cases db.incident incidentId with
  | none => rfl
  | some row => rfl

end Database.Feeding

/-- The message continues what the receiver has. -/
def Wire.Fits (db : Database) (r : Received) : Wire → Prop
  | .health _ => True
  | .snapshot s => s.Exact db
  | .reset => ∃ start, r.start = some start ∧ db.showsGap (lastCursor r.changes start)
  | .change row => r.cleared = false ∧
      ∃ start, r.start = some start ∧ r.changes ++ [row] <+: db.above start
  | .live cursor | .ping cursor => r.cleared = false ∧
      ∃ start, r.start = some start ∧ lastCursor r.changes start = cursor

def Follows (db : Database) : Received → List Wire → Prop
  | _, [] => True
  | r, message :: rest => message.Fits db r ∧ Follows db (r.take message) rest

theorem follows_append {db : Database} {r : Received} {first second : List Wire} :
    Follows db r (first ++ second) ↔
      Follows db r first ∧ Follows db (Runs.run Received.take r first) second := by
  induction first generalizing r with
  | nil => simp [Follows]
  | cons message rest ih => simp only [List.cons_append, Follows, ih, Runs.run_cons, and_assoc]

theorem Snapshot.Exact.grow {s : Snapshot} {db after : Database} (exact' : s.Exact db)
    (grows : db.Grows after) : s.Exact after := by
  refine ⟨exact'.1.trans grows.sequence, ?_⟩
  intro few incidentId
  rcases grows.feed with ⟨more, feed, later⟩
  have none : more.filter (fun row => (row.cursor : Int) ≤ s.cursor) = [] := by
    apply List.filter_eq_nil_iff.mpr
    intro row member within
    have low := of_decide_eq_true within
    have drawn := later row member
    have bound := exact'.1
    omega
  have same : after.feedUpTo s.cursor = db.feedUpTo s.cursor := by
    rw [Database.feedUpTo, feed, List.filter_append, none, List.append_nil]
    rfl
  rw [same]
  exact exact'.2 (grows.incidents.trans few) incidentId

theorem Wire.Fits.grow {message : Wire} {r : Received} {db after : Database}
    (fits : message.Fits db r) (feeding : db.Feeding) (later : after.Feeding)
    (grows : db.Grows after) : message.Fits after r := by
  cases message with
  | health gateways => trivial
  | snapshot s => exact Snapshot.Exact.grow fits grows
  | reset =>
      rcases fits with ⟨start, isStart, gap⟩
      exact ⟨start, isStart, feeding.showsGap later grows gap⟩
  | change row =>
      rcases fits with ⟨kept, start, isStart, within⟩
      exact ⟨kept, start, isStart, within.trans (grows.above start)⟩
  | live cursor => exact fits
  | ping cursor => exact fits

theorem Follows.grow {messages : List Wire} {r : Received} {db after : Database}
    (follows : Follows db r messages) (feeding : db.Feeding) (later : after.Feeding)
    (grows : db.Grows after) : Follows after r messages := by
  induction messages generalizing r with
  | nil => trivial
  | cons message rest ih => exact ⟨follows.1.grow feeding later grows, ih follows.2⟩

/-- With the rows still to be sent, the receiver has everything up to the position. -/
structure Received.Reads (r : Received) (db : Database) (start : Int) (rows : List FeedRow)
    (last : Int) : Prop where
  started : r.start = some start
  position : lastCursor (r.changes ++ rows) start = last
  changes : r.changes ++ rows = db.upTo start last

/-- A row above the position has a notification that the handler is yet to take. -/
def Live.Woken (l : Live) (last : Int) : Prop :=
  (∃ row ∈ l.database.incidentFeed, last < row.cursor) → ∃ note ∈ l.undelivered, note.1 = feedChannel

def Live.Holds (l : Live) (r : Received) : Prop :=
  match l.stage with
  | .accepted | .listening | .starting => r.start = l.after ∧ r.changes = [] ∧
      (r.cleared = true → ∃ last, l.after = some last ∧ l.database.showsGap last)
  | .snapshotting => True
  | .checking last => (∃ start, r.Reads l.database start [] last) ∧
      (r.cleared = true → l.database.showsGap last)
  | .reading last => r.cleared = false ∧ ∃ start, r.Reads l.database start [] last
  | .sending rows last complete => r.cleared = false ∧
      (∃ start, r.Reads l.database start rows last) ∧ (complete = true → l.Woken last)
  | .expired => ∃ start last, r.Reads l.database start [] last ∧ l.database.showsGap last
  | .ready last | .waiting last => r.cleared = false ∧
      (∃ start, r.Reads l.database start [] last) ∧ l.Woken last

/-- What a receiver makes of the messages, from what it had when the socket was opened. -/
def Live.receivedFrom (l : Live) (r : Received) : Received := Runs.run Received.take r l.sent

structure Live.Sound (r : Received) (l : Live) : Prop where
  feeding : l.database.Feeding
  heard : l.heard ≤ l.database.notifications.length
  follows : Follows l.database r l.sent
  holds : l.Holds (l.receivedFrom r)

theorem lastCursor_mem (rows : List FeedRow) (start : Int) :
    lastCursor rows start = start ∨ ∃ row ∈ rows, (row.cursor : Int) = lastCursor rows start := by
  cases found : rows.getLast? with
  | none =>
      left
      rw [lastCursor, found]
      rfl
  | some row =>
      right
      refine ⟨row, List.mem_of_getLast? found, ?_⟩
      rw [lastCursor, found]
      rfl

namespace Received.Reads

variable {r : Received} {db after : Database} {start last : Int} {rows : List FeedRow}

theorem reached (reads : r.Reads db start rows last) (feeding : db.Feeding) :
    last = start ∨ last ≤ db.cursorSequence := by
  have position := lastCursor_mem (r.changes ++ rows) start
  rw [reads.position] at position
  rcases position with same | ⟨row, member, same⟩
  · exact Or.inl same
  · right
    rw [reads.changes] at member
    have inFeed := (List.mem_filter.mp (List.mem_filter.mp member).1).1
    have drawn := feeding.drawn row inFeed
    omega

theorem grow (reads : r.Reads db start rows last) (feeding : db.Feeding)
    (grows : db.Grows after) : r.Reads after start rows last where
  started := reads.started
  position := reads.position
  changes := by rw [reads.changes, grows.upTo (reads.reached feeding)]

theorem start_le (reads : r.Reads db start rows last) : start ≤ last := by
  have position := lastCursor_mem (r.changes ++ rows) start
  rw [reads.position] at position
  rcases position with same | ⟨row, member, same⟩
  · exact le_of_eq same.symm
  · rw [reads.changes] at member
    have above := of_decide_eq_true (List.mem_filter.mp (List.mem_filter.mp member).1).2
    omega

theorem opened (start : Int) (db : Database) (cleared : Bool) :
    Received.Reads ⟨some start, [], cleared⟩ db start [] start where
  started := rfl
  position := rfl
  changes := by
    apply Eq.symm
    apply List.filter_eq_nil_iff.mpr
    intro row member within
    have low := of_decide_eq_true within
    have high := of_decide_eq_true (List.mem_filter.mp member).2
    omega

end Received.Reads

theorem lastCursor_append (first second : List FeedRow) (start : Int) :
    lastCursor (first ++ second) start = lastCursor second (lastCursor first start) := by
  rw [lastCursor, lastCursor, List.getLast?_append]
  cases second.getLast? with
  | none => rfl
  | some row => rfl

section Rows

variable {rows : List FeedRow}

theorem above_increasing {db : Database} (feeding : db.Feeding) (start : Int) :
    (db.above start).Pairwise (·.cursor < ·.cursor) :=
  feeding.increasing.sublist List.filter_sublist

private theorem filter_le_prefix (increasing : rows.Pairwise (·.cursor < ·.cursor)) (last : Int) :
    (rows.filter fun row => (row.cursor : Int) ≤ last) <+: rows := by
  have span := (StableOrder.span_sorted increasing (fun row => (row.cursor : Int) ≤ last) (by
    intro a b before within
    have low := of_decide_eq_true within
    apply decide_eq_true
    omega)).1
  rw [← span]
  exact List.takeWhile_prefix _

theorem filter_split (increasing : rows.Pairwise (·.cursor < ·.cursor)) (last : Int) :
    rows = (rows.filter fun row => (row.cursor : Int) ≤ last) ++
      rows.filter fun row => last < (row.cursor : Int) := by
  have span := StableOrder.span_sorted increasing (fun row => (row.cursor : Int) ≤ last) (by
    intro a b before within
    have low := of_decide_eq_true within
    apply decide_eq_true
    omega)
  have others : (fun row : FeedRow => !decide ((row.cursor : Int) ≤ last)) =
      fun row => decide (last < (row.cursor : Int)) := by
    funext row
    by_cases within : (row.cursor : Int) ≤ last
    · rw [decide_eq_true within, decide_eq_false (Int.not_lt.mpr within)]
      rfl
    · rw [decide_eq_false within, decide_eq_true (Int.not_le.mp within)]
      rfl
  rw [← others, ← span.1, ← span.2, List.takeWhile_append_dropWhile]

theorem filter_page (increasing : rows.Pairwise (·.cursor < ·.cursor)) {last : Int}
    (above : ∀ row ∈ rows, last < (row.cursor : Int)) (limit : Nat) :
    (rows.filter fun row => (row.cursor : Int) ≤ lastCursor (rows.take limit) last) =
      rows.take limit := by
  rcases List.eq_nil_or_concat (rows.take limit) with none | ⟨front, final, page⟩
  · rw [none]
    apply List.filter_eq_nil_iff.mpr
    intro row member within
    have low : (row.cursor : Int) ≤ last := of_decide_eq_true within
    have high := above row member
    omega
  · rw [List.concat_eq_append] at page
    have parts : (front ++ [final]) ++ rows.drop limit = rows := by
      rw [← page, List.take_append_drop]
    have position : lastCursor (rows.take limit) last = final.cursor := by
      rw [page, lastCursor, List.getLast?_concat]
      rfl
    rw [← parts] at increasing
    have halves := List.pairwise_append.mp increasing
    have before : (front ++ [final]).filter (fun row => (row.cursor : Int) ≤ final.cursor) =
        front ++ [final] := by
      apply List.filter_eq_self.mpr
      intro row member
      apply decide_eq_true
      rcases List.mem_append.mp member with early | same
      · have less := (List.pairwise_append.mp halves.1).2.2 row early final
          (List.mem_singleton_self _)
        omega
      · rw [List.mem_singleton.mp same]
    have behind : (rows.drop limit).filter (fun row => (row.cursor : Int) ≤ final.cursor) = [] := by
      apply List.filter_eq_nil_iff.mpr
      intro row member within
      have less := halves.2.2 final (List.mem_append_right _ (List.mem_singleton_self _)) row member
      have low := of_decide_eq_true within
      omega
    rw [position, page]
    calc
      rows.filter (fun row => (row.cursor : Int) ≤ final.cursor)
        = ((front ++ [final]) ++ rows.drop limit).filter
            fun row => (row.cursor : Int) ≤ final.cursor := by rw [parts]
      _ = front ++ [final] := by rw [List.filter_append, before, behind, List.append_nil]

end Rows

namespace Received.Reads

variable {r : Received} {db : Database} {start last : Int}

theorem page (reads : r.Reads db start [] last) (feeding : db.Feeding) (limit : Nat) :
    r.Reads db start ((db.above last).take limit)
      (lastCursor ((db.above last).take limit) last) := by
  have position := reads.position
  have changes := reads.changes
  rw [List.append_nil] at position changes
  have later : (db.above start).filter (fun row => last < (row.cursor : Int)) = db.above last := by
    rw [Database.above, List.filter_filter]
    apply List.filter_congr
    intro row member
    have ordered := reads.start_le
    by_cases above : last < (row.cursor : Int)
    · have reached : start < (row.cursor : Int) := by omega
      simp only [above, reached, decide_true, Bool.and_self]
    · simp only [above, decide_false, Bool.false_and]
  have ordered : last ≤ lastCursor ((db.above last).take limit) last := by
    rcases lastCursor_mem ((db.above last).take limit) last with same | ⟨row, member, same⟩
    · exact le_of_eq same.symm
    · have above := of_decide_eq_true (List.mem_filter.mp (List.mem_of_mem_take member)).2
      omega
  refine ⟨reads.started, ?_, ?_⟩
  · rw [lastCursor_append, position]
  · have split := filter_split (above_increasing feeding start) last
    have earlier : ((db.above start).filter fun row => (row.cursor : Int) ≤ last).filter (fun row =>
        (row.cursor : Int) ≤ lastCursor ((db.above last).take limit) last) =
        (db.above start).filter fun row => (row.cursor : Int) ≤ last := by
      apply List.filter_eq_self.mpr
      intro row member
      have low := of_decide_eq_true (List.mem_filter.mp member).2
      apply decide_eq_true
      omega
    rw [later] at split
    rw [Database.upTo, split, List.filter_append, earlier, changes]
    congr 1
    apply Eq.symm
    apply filter_page (above_increasing feeding last)
    intro row member
    exact of_decide_eq_true (List.mem_filter.mp member).2

end Received.Reads

namespace Live

variable {l : Live} {r : Received}

theorem Woken.grow {last : Int} (woken : l.Woken last) (heard : l.heard ≤ l.database.notifications.length)
    {after : Database} (grows : l.database.Grows after) :
    Woken { l with database := after } last := by
  have kept : ∀ more, after.notifications = l.database.notifications ++ more →
      undelivered { l with database := after } = l.undelivered ++ more := by
    intro more same
    rw [undelivered, undelivered, same]
    exact List.drop_append_of_le_length heard
  intro later
  cases grows with
  | quiet feed _ notifications _ =>
      rcases notifications with ⟨more, same⟩
      rw [kept more same]
      rcases later with ⟨row, member, above⟩
      rw [feed] at member
      rcases woken ⟨row, member, above⟩ with ⟨note, inNotes, channel⟩
      exact ⟨note, List.mem_append_left _ inNotes, channel⟩
  | row _ _ _ _ notifications _ =>
      rcases notifications with ⟨text, same⟩
      rw [kept _ same]
      exact ⟨_, List.mem_append_right _ (List.mem_singleton_self _), rfl⟩

theorem Holds.grow (holds : l.Holds r) (sound : l.database.Feeding) (heard : l.heard ≤
    l.database.notifications.length) {after : Database} (later : after.Feeding)
    (grows : l.database.Grows after) : Holds { l with database := after } r := by
  have gap : ∀ {last : Int}, l.database.showsGap last → after.showsGap last :=
    sound.showsGap later grows
  have reads : ∀ {rows : List FeedRow} {last : Int},
      (∃ start, r.Reads l.database start rows last) → ∃ start, r.Reads after start rows last := by
    rintro rows last ⟨start, held⟩
    exact ⟨start, held.grow sound grows⟩
  have early : (r.start = l.after ∧ r.changes = [] ∧
      (r.cleared = true → ∃ last, l.after = some last ∧ l.database.showsGap last)) →
      r.start = l.after ∧ r.changes = [] ∧
        (r.cleared = true → ∃ last, l.after = some last ∧ after.showsGap last) := by
    rintro ⟨start, changes, cleared⟩
    refine ⟨start, changes, ?_⟩
    intro isCleared
    rcases cleared isCleared with ⟨last, same, shown⟩
    exact ⟨last, same, gap shown⟩
  unfold Holds at holds ⊢
  cases stage : l.stage with
  | accepted =>
      rw [stage] at holds
      exact early holds
  | listening =>
      rw [stage] at holds
      exact early holds
  | starting =>
      rw [stage] at holds
      exact early holds
  | snapshotting => trivial
  | checking last =>
      rw [stage] at holds
      exact ⟨reads holds.1, fun cleared => gap (holds.2 cleared)⟩
  | reading last =>
      rw [stage] at holds
      exact ⟨holds.1, reads holds.2⟩
  | sending rows last complete =>
      rw [stage] at holds
      exact ⟨holds.1, reads holds.2.1, fun done => (holds.2.2 done).grow heard grows⟩
  | expired =>
      rw [stage] at holds
      rcases holds with ⟨start, last, held, shown⟩
      exact ⟨start, last, held.grow sound grows, gap shown⟩
  | ready last =>
      rw [stage] at holds
      exact ⟨holds.1, reads holds.2.1, holds.2.2.grow heard grows⟩
  | waiting last =>
      rw [stage] at holds
      exact ⟨holds.1, reads holds.2.1, holds.2.2.grow heard grows⟩

theorem Sound.commit (sound : l.Sound r) (commit : Commit) :
    Sound r { l with database := l.database.commit commit } := by
  have grows : l.database.Grows (l.database.commit commit) := Database.commit_grows commit
  have later := sound.feeding.commit commit
  rcases grows.notifications with ⟨more, same⟩
  constructor
  · exact later
  · change l.heard ≤ (l.database.commit commit).notifications.length
    rw [same, List.length_append]
    exact Nat.le_add_right_of_le sound.heard
  · exact sound.follows.grow sound.feeding later grows
  · exact sound.holds.grow sound.feeding sound.heard later grows

theorem receivedFrom_send (message : Wire) (stage : Stage) :
    (l.send message stage).receivedFrom r = (l.receivedFrom r).take message :=
  Runs.run_append _ _ _ _

theorem Sound.send (sound : l.Sound r) {message : Wire} {stage : Stage}
    (fits : message.Fits l.database (l.receivedFrom r))
    (holds : (l.send message stage).Holds ((l.receivedFrom r).take message)) :
    (l.send message stage).Sound r where
  feeding := sound.feeding
  heard := sound.heard
  follows := follows_append.mpr ⟨sound.follows, fits, trivial⟩
  holds := by rwa [receivedFrom_send]

theorem holds_caughtUp {received : Received} {last : Int} {m : Live} (stage : m.stage = l.caughtUp last)
    (kept : received.cleared = false) (reads : ∃ start, received.Reads m.database start [] last)
    (woken : m.Woken last) : m.Holds received := by
  unfold Holds
  rw [stage, caughtUp]
  by_cases announced : l.announced = true
  · rw [if_pos announced]
    exact ⟨kept, reads, woken⟩
  · rw [if_neg announced]
    exact ⟨kept, reads, woken⟩

theorem Sound.snapshotting (sound : l.Sound r) (order : RowOrder) :
    Sound r (l.send (.snapshot (snapshot order l.database false snapshotLimit))
      (l.caughtUp l.database.latestCursor)) := by
  have fits : Wire.Fits l.database (l.receivedFrom r)
      (.snapshot (snapshot order l.database false snapshotLimit)) :=
    sound.feeding.snapshot_exact order
  apply sound.send fits
  apply holds_caughtUp rfl rfl
  · exact ⟨_, Received.Reads.opened _ _ _⟩
  · rintro ⟨row, member, above⟩
    have within := sound.feeding.latestCursor.2 row member
    omega

theorem Sound.checking (sound : l.Sound r) {last : Int} (stage : l.stage = .checking last)
    (order : RowOrder) : Sound r (l.handle order) := by
  have holds := sound.holds
  unfold Holds at holds
  rw [stage] at holds
  rcases holds with ⟨reads, cleared⟩
  have kept : ¬ l.database.showsGap last → (l.receivedFrom r).cleared = false := by
    intro noGap
    rw [Bool.eq_false_iff]
    exact fun isCleared => noGap (cleared isCleared)
  cases found : l.database.oldestCursor with
  | none =>
      have noGap : ¬ l.database.showsGap last := by
        rintro ⟨oldest, isOldest, _⟩
        rw [found] at isOldest
        cases isOldest
      simp only [handle, stage, found]
      exact ⟨sound.feeding, sound.heard, sound.follows, kept noGap, reads⟩
  | some oldest =>
      simp only [handle, stage, found]
      by_cases below : last < oldest - 1
      · simp only [below, if_true]
        rcases reads with ⟨start, held⟩
        exact ⟨sound.feeding, sound.heard, sound.follows, start, last, held, oldest, found, below⟩
      · have noGap : ¬ l.database.showsGap last := by
          rintro ⟨other, isOldest, gap⟩
          rw [found] at isOldest
          cases isOldest
          exact below gap
        simp only [below, if_false]
        exact ⟨sound.feeding, sound.heard, sound.follows, kept noGap, reads⟩

theorem feedAfter_eq {db : Database} (feeding : db.Feeding) (last : Int) (limit : Nat) :
    db.feedAfter last limit = (db.above last).take limit := by
  rw [Database.feedAfter, List.mergeSort_of_pairwise]
  · rfl
  · apply (above_increasing feeding last).imp
    intro earlier later below
    exact decide_eq_true (Nat.le_of_lt below)

theorem Sound.reading (sound : l.Sound r) {last : Int} (stage : l.stage = .reading last)
    (order : RowOrder) : Sound r (l.handle order) := by
  have holds := sound.holds
  unfold Holds at holds
  rw [stage] at holds
  rcases holds with ⟨kept, start, reads⟩
  simp only [handle, stage]
  refine ⟨sound.feeding, sound.heard, sound.follows, kept, ⟨start, ?_⟩, ?_⟩
  · rw [feedAfter_eq sound.feeding]
    exact reads.page sound.feeding batch
  · intro complete
    have short := of_decide_eq_true complete
    rw [feedAfter_eq sound.feeding] at short ⊢
    rintro ⟨row, member, above⟩
    have whole : (l.database.above last).take batch = l.database.above last := by
      apply List.take_of_length_le
      rw [List.length_take] at short
      omega
    have ordered : last ≤ lastCursor ((l.database.above last).take batch) last := by
      rcases lastCursor_mem ((l.database.above last).take batch) last with same | ⟨other, held, same⟩
      · exact le_of_eq same.symm
      · have higher := of_decide_eq_true (List.mem_filter.mp (List.mem_of_mem_take held)).2
        omega
    have page := filter_page (above_increasing sound.feeding last)
      (fun row held => of_decide_eq_true (List.mem_filter.mp held).2) batch
    have inPage : row ∈ (l.database.above last).take batch := by
      rw [whole]
      exact List.mem_filter.mpr ⟨member, decide_eq_true (by omega)⟩
    rw [← page] at inPage
    have low := of_decide_eq_true (List.mem_filter.mp inPage).2
    omega

theorem Sound.sending (sound : l.Sound r) {rows : List FeedRow} {last : Int} {complete : Bool}
    (stage : l.stage = .sending rows last complete) (order : RowOrder) :
    Sound r (l.handle order) := by
  have holds := sound.holds
  unfold Holds at holds
  rw [stage] at holds
  rcases holds with ⟨kept, ⟨start, reads⟩, woken⟩
  cases rows with
  | nil =>
      simp only [handle, stage]
      cases complete with
      | true =>
          refine ⟨sound.feeding, sound.heard, sound.follows, ?_⟩
          exact holds_caughtUp rfl kept ⟨start, reads⟩ (woken rfl)
      | false =>
          refine ⟨sound.feeding, sound.heard, sound.follows, ⟨start, reads⟩, ?_⟩
          intro cleared
          change (l.receivedFrom r).cleared = true at cleared
          rw [kept] at cleared
          cases cleared
  | cons row rows =>
      have parts : (l.receivedFrom r).changes ++ row :: rows =
          (l.receivedFrom r).changes ++ [row] ++ rows := by
        rw [List.append_assoc, List.singleton_append]
      have position := reads.position
      have changes := reads.changes
      rw [parts] at position changes
      have fits : Wire.Fits l.database (l.receivedFrom r) (.change row) := by
        refine ⟨kept, start, reads.started, ?_⟩
        have whole : (l.receivedFrom r).changes ++ [row] ++ rows <+: l.database.above start := by
          rw [changes]
          exact filter_le_prefix (above_increasing sound.feeding start) last
        exact (List.prefix_append _ _).trans whole
      simp only [handle, stage]
      exact sound.send fits ⟨kept, ⟨start, reads.started, position, changes⟩, woken⟩

theorem Sound.expired (sound : l.Sound r) (stage : l.stage = .expired) (order : RowOrder) :
    Sound r (l.handle order) := by
  have holds := sound.holds
  unfold Holds at holds
  rw [stage] at holds
  rcases holds with ⟨start, last, reads, gap⟩
  simp only [handle, stage]
  have position := reads.position
  rw [List.append_nil] at position
  have fits : Wire.Fits l.database (l.receivedFrom r) .reset := by
    refine ⟨start, reads.started, ?_⟩
    rw [position]
    exact gap
  exact sound.send fits trivial

theorem Sound.telling (sound : l.Sound r) {last : Int} (kept : (l.receivedFrom r).cleared = false)
    (reads : ∃ start, (l.receivedFrom r).Reads l.database start [] last) (woken : l.Woken last)
    {message : Wire} (tells : message = .live last ∨ message = .ping last) :
    Sound r (l.send message (.waiting last)) := by
  have positioned : (l.receivedFrom r).cleared = false ∧ ∃ start,
      (l.receivedFrom r).start = some start ∧
        lastCursor (l.receivedFrom r).changes start = last := by
    rcases reads with ⟨start, held⟩
    have position := held.position
    rw [List.append_nil] at position
    exact ⟨kept, start, held.started, position⟩
  rcases tells with rfl | rfl
  · have fits : Wire.Fits l.database (l.receivedFrom r) (.live last) := positioned
    exact sound.send fits ⟨kept, reads, woken⟩
  · have fits : Wire.Fits l.database (l.receivedFrom r) (.ping last) := positioned
    exact sound.send fits ⟨kept, reads, woken⟩

theorem Sound.waiting (sound : l.Sound r) {last : Int} (stage : l.stage = .waiting last)
    (order : RowOrder) : Sound r (l.handle order) := by
  have holds := sound.holds
  unfold Holds at holds
  rw [stage] at holds
  rcases holds with ⟨kept, reads, woken⟩
  cases notes : l.undelivered with
  | nil =>
      simp only [handle, stage, notes]
      exact sound.telling kept reads woken (Or.inr rfl)
  | cons note rest =>
      have more : l.heard < l.database.notifications.length := by
        have length := congrArg List.length notes
        rw [undelivered, List.length_drop, List.length_cons] at length
        omega
      have next : l.database.notifications.drop (l.heard + 1) = rest := by
        rw [← List.drop_drop]
        change List.drop 1 l.undelivered = rest
        rw [notes]
        rfl
      simp only [handle, stage, notes]
      by_cases channel : note.1 = feedChannel
      · simp only [channel, if_true]
        refine ⟨sound.feeding, more, sound.follows, reads, ?_⟩
        intro cleared
        change (l.receivedFrom r).cleared = true at cleared
        rw [kept] at cleared
        cases cleared
      · simp only [channel, if_false]
        refine ⟨sound.feeding, more, follows_append.mpr ⟨sound.follows, trivial, trivial⟩, ?_⟩
        have received : Live.receivedFrom { l.send (.health l.database.gatewayHealth)
            (.waiting last) with heard := l.heard + 1 } r = l.receivedFrom r :=
          Runs.run_append _ _ _ _
        rw [received]
        refine ⟨kept, reads, ?_⟩
        intro later
        rcases woken later with ⟨other, member, isFeed⟩
        rw [notes] at member
        rcases List.mem_cons.mp member with rfl | inRest
        · exact absurd isFeed channel
        · refine ⟨other, ?_, isFeed⟩
          change other ∈ l.database.notifications.drop (l.heard + 1)
          rw [next]
          exact inRest

theorem Sound.starting (sound : l.Sound r) (stage : l.stage = .starting) (order : RowOrder) :
    Sound r (l.handle order) := by
  have holds := sound.holds
  unfold Holds at holds
  rw [stage] at holds
  rcases holds with ⟨start, changes, cleared⟩
  cases position : l.after with
  | none =>
      simp only [handle, stage, position]
      exact ⟨sound.feeding, sound.heard, sound.follows, trivial⟩
  | some last =>
      have opened := Received.Reads.opened last l.database (l.receivedFrom r).cleared
      have same : l.receivedFrom r = ⟨some last, [], (l.receivedFrom r).cleared⟩ := by
        rw [← position, ← start, ← changes]
      rw [← same] at opened
      simp only [handle, stage, position]
      refine ⟨sound.feeding, sound.heard, sound.follows, ⟨last, opened⟩, ?_⟩
      intro isCleared
      rcases cleared isCleared with ⟨other, isLast, gap⟩
      rw [position] at isLast
      cases isLast
      exact gap

/-- Every step of the handler keeps what it holds. -/
theorem Sound.handle (sound : l.Sound r) (order : RowOrder) : Sound r (l.handle order) := by
  have holds := sound.holds
  unfold Holds at holds
  cases stage : l.stage with
  | accepted =>
      rw [stage] at holds
      simp only [Live.handle, stage]
      exact ⟨sound.feeding, Nat.le_refl _, sound.follows, holds⟩
  | listening =>
      rw [stage] at holds
      simp only [Live.handle, stage]
      have fits : Wire.Fits l.database (l.receivedFrom r) (.health l.database.gatewayHealth) :=
        trivial
      exact sound.send fits holds
  | starting => exact sound.starting stage order
  | snapshotting =>
      simp only [Live.handle, stage]
      exact sound.snapshotting order
  | checking last => exact sound.checking stage order
  | reading last => exact sound.reading stage order
  | sending rows last complete => exact sound.sending stage order
  | expired => exact sound.expired stage order
  | ready last =>
      rw [stage] at holds
      have told := sound.telling holds.1 holds.2.1 holds.2.2 (Or.inl rfl)
      simp only [Live.handle, stage]
      exact ⟨told.feeding, told.heard, told.follows, told.holds⟩
  | waiting last => exact sound.waiting stage order

theorem Sound.step (sound : l.Sound r) (turn : Turn) : Sound r (l.step turn) := by
  cases turn with
  | projector commit => exact sound.commit commit
  | handler order => exact sound.handle order

theorem Sound.run (sound : l.Sound r) (turns : List Turn) : Sound r (Runs.run Live.step l turns) := by
  induction turns generalizing l with
  | nil => exact sound
  | cons turn rest ih => exact ih (sound.step turn)

theorem sound_connect {db : Database} (feeding : db.Feeding) (after : Option Int) {cleared : Bool}
    (gap : cleared = true → ∃ last, after = some last ∧ db.showsGap last) :
    Sound ⟨after, [], cleared⟩ (connect db after) :=
  ⟨feeding, Nat.zero_le _, trivial, rfl, rfl, gap⟩

theorem sound_reached (history : List Commit) (after : Option Int) (turns : List Turn) :
    Sound ⟨after, [], false⟩ (reached history after turns) := by
  apply Sound.run
  apply sound_connect (Database.Feeding.empty.commits history)
  intro cleared
  cases cleared

end Live

theorem Live.handle_keeps {l : Live} (order : RowOrder) :
    (l.handle order).database = l.database ∧ (l.handle order).after = l.after := by
  unfold Live.handle
  split
  · exact ⟨rfl, rfl⟩
  · exact ⟨rfl, rfl⟩
  · split
    · exact ⟨rfl, rfl⟩
    · exact ⟨rfl, rfl⟩
  · exact ⟨rfl, rfl⟩
  · split
    · exact ⟨rfl, rfl⟩
    · exact ⟨rfl, rfl⟩
  · exact ⟨rfl, rfl⟩
  · exact ⟨rfl, rfl⟩
  · exact ⟨rfl, rfl⟩
  · exact ⟨rfl, rfl⟩
  · exact ⟨rfl, rfl⟩
  · split
    · exact ⟨rfl, rfl⟩
    · split
      · exact ⟨rfl, rfl⟩
      · exact ⟨rfl, rfl⟩

theorem Live.after_run (l : Live) (turns : List Turn) : (Runs.run step l turns).after = l.after := by
  induction turns generalizing l with
  | nil => rfl
  | cons turn rest ih =>
      rw [Runs.run_cons, ih]
      cases turn with
      | projector commit => rfl
      | handler order => exact (handle_keeps order).2

/-- The position is the one to start from, or the feed has a row up to it. -/
def Live.Placed (l : Live) (last : Int) : Prop :=
  last = l.after.getD 0 ∨ ∃ row ∈ l.database.incidentFeed, (row.cursor : Int) ≤ last

/-- A reset was caused by a gap between the position to start from and the feed's first row. -/
structure Live.Resets (l : Live) : Prop where
  sent : Wire.reset ∈ l.sent → l.database.showsGap (l.after.getD 0)
  stage : match l.stage with
    | .accepted | .listening | .starting => True
    | .snapshotting => l.after = none ∨ l.database.showsGap (l.after.getD 0)
    | .expired => l.database.showsGap (l.after.getD 0)
    | .checking last | .reading last | .sending _ last _ | .ready last | .waiting last =>
        l.Placed last

namespace Live

variable {l : Live}

theorem Placed.grow {last : Int} (placed : l.Placed last) {after : Database}
    (grows : l.database.Grows after) : Placed { l with database := after } last := by
  rcases placed with same | ⟨row, member, below⟩
  · exact Or.inl same
  · rcases grows.feed with ⟨more, feed, _⟩
    refine Or.inr ⟨row, ?_, below⟩
    change row ∈ after.incidentFeed
    rw [feed]
    exact List.mem_append_left _ member

/-- A gap before a position in the feed is impossible. -/
theorem Placed.gap {last : Int} (placed : l.Placed last) (gap : l.database.showsGap last) : l.database.showsGap (l.after.getD 0) := by
  rcases placed with rfl | ⟨row, member, below⟩
  · exact gap
  · rcases gap with ⟨oldest, found, above⟩
    have least := (List.min?_eq_some_iff.mp found).2 row.cursor (List.mem_map_of_mem member)
    omega

theorem Resets.commit (resets : l.Resets) (feeding : l.database.Feeding) (commit : Commit) :
    Resets { l with database := l.database.commit commit } := by
  have grows : l.database.Grows (l.database.commit commit) := Database.commit_grows commit
  have gap : l.database.showsGap (l.after.getD 0) →
      (l.database.commit commit).showsGap (l.after.getD 0) :=
    feeding.showsGap (feeding.commit commit) grows
  constructor
  · exact fun sent => gap (resets.sent sent)
  · have before := resets.stage
    cases stage : l.stage with
    | accepted => trivial
    | listening => trivial
    | starting => trivial
    | snapshotting =>
        rw [stage] at before
        exact before.imp_right gap
    | expired =>
        rw [stage] at before
        exact gap before
    | checking last =>
        rw [stage] at before
        exact Placed.grow before grows
    | reading last =>
        rw [stage] at before
        exact Placed.grow before grows
    | sending rows last complete =>
        rw [stage] at before
        exact Placed.grow before grows
    | ready last =>
        rw [stage] at before
        exact Placed.grow before grows
    | waiting last =>
        rw [stage] at before
        exact Placed.grow before grows

theorem resets_caughtUp {m : Live} {last : Int} (stage : m.stage = l.caughtUp last)
    (sent : Wire.reset ∈ m.sent → m.database.showsGap (m.after.getD 0)) (placed : m.Placed last) :
    m.Resets := by
  refine ⟨sent, ?_⟩
  rw [stage, caughtUp]
  by_cases announced : l.announced = true
  · rw [if_pos announced]
    exact placed
  · rw [if_neg announced]
    exact placed

theorem not_reset_mem {message : Wire} (other : message ≠ .reset)
    (member : Wire.reset ∈ l.sent ++ [message]) : Wire.reset ∈ l.sent := by
  rcases List.mem_append.mp member with old | new
  · exact old
  · exact absurd (List.mem_singleton.mp new).symm other

theorem placed_latest {db : Database} (feeding : db.Feeding) :
    db.latestCursor = 0 ∧ db.incidentFeed = [] ∨
      ∃ row ∈ db.incidentFeed, row.cursor ≤ db.latestCursor := by
  cases feed : db.incidentFeed with
  | nil =>
      left
      rw [Database.latestCursor, feed]
      exact ⟨rfl, rfl⟩
  | cons row rest =>
      right
      refine ⟨row, List.mem_cons_self .., feeding.latestCursor.2 row ?_⟩
      rw [feed]
      exact List.mem_cons_self ..

theorem handle_fresh (stage : l.stage = .starting) (fresh : l.after = none) (order : RowOrder) :
    l.handle order = { l with stage := .snapshotting } := by
  simp only [Live.handle, stage, fresh]

theorem handle_resumed (stage : l.stage = .starting) {last : Int} (resumed : l.after = some last)
    (order : RowOrder) : l.handle order = { l with stage := .checking last } := by
  simp only [Live.handle, stage, resumed]

theorem Resets.starting (resets : l.Resets) (stage : l.stage = .starting) (order : RowOrder) :
    (l.handle order).Resets := by
  rcases Option.eq_none_or_eq_some l.after with fresh | ⟨last, resumed⟩
  · rw [handle_fresh stage fresh]
    exact ⟨resets.sent, Or.inl fresh⟩
  · rw [handle_resumed stage resumed]
    refine ⟨resets.sent, Or.inl ?_⟩
    change last = l.after.getD 0
    rw [resumed]
    rfl

theorem Resets.snapshotting (resets : l.Resets) (stage : l.stage = .snapshotting)
    (feeding : l.database.Feeding) (order : RowOrder) : (l.handle order).Resets := by
  have before := resets.stage
  rw [stage] at before
  simp only [Live.handle, stage]
  have placed : l.Placed l.database.latestCursor := by
    rcases placed_latest feeding with ⟨zero, empty⟩ | ⟨row, member, below⟩
    · left
      rcases before with start | ⟨oldest, found, _⟩
      · rw [start, zero]
        rfl
      · rw [feeding.oldestCursor, empty] at found
        cases found
    · exact Or.inr ⟨row, member, by exact_mod_cast below⟩
  let s := snapshot order l.database false snapshotLimit
  have returned : (l.send (.snapshot s) (l.caughtUp s.cursor)).stage = l.caughtUp s.cursor := rfl
  have kept : (l.send (.snapshot s) (l.caughtUp s.cursor)).Placed s.cursor := placed
  apply resets_caughtUp returned _ kept
  exact fun sent => resets.sent (not_reset_mem (fun same => by cases same) sent)

theorem Resets.checking (resets : l.Resets) {last : Int} (stage : l.stage = .checking last)
    (order : RowOrder) : (l.handle order).Resets := by
  have placed := resets.stage
  rw [stage] at placed
  cases found : l.database.oldestCursor with
  | none =>
      simp only [Live.handle, stage, found]
      exact ⟨resets.sent, placed⟩
  | some oldest =>
      simp only [Live.handle, stage, found]
      by_cases below : last < oldest - 1
      · simp only [below, if_true]
        exact ⟨resets.sent, Placed.gap placed ⟨oldest, found, below⟩⟩
      · simp only [below, if_false]
        exact ⟨resets.sent, placed⟩

theorem Resets.reading (resets : l.Resets) {last : Int} (stage : l.stage = .reading last)
    (order : RowOrder) : (l.handle order).Resets := by
  have placed := resets.stage
  rw [stage] at placed
  simp only [Live.handle, stage]
  refine ⟨resets.sent, ?_⟩
  rcases lastCursor_mem (l.database.feedAfter last batch) last with same | ⟨row, member, same⟩
  · change l.Placed (lastCursor _ last)
    rw [same]
    exact placed
  · have inFeed := List.mem_of_mem_take member
    rw [List.mem_mergeSort] at inFeed
    exact Or.inr ⟨row, (List.mem_filter.mp inFeed).1, le_of_eq same⟩

theorem Resets.sending (resets : l.Resets) {rows : List FeedRow} {last : Int} {complete : Bool}
    (stage : l.stage = .sending rows last complete) (order : RowOrder) :
    (l.handle order).Resets := by
  have placed := resets.stage
  rw [stage] at placed
  cases rows with
  | cons row rows =>
      simp only [Live.handle, stage]
      exact ⟨fun sent => resets.sent (not_reset_mem (fun same => by cases same) sent), placed⟩
  | nil =>
      simp only [Live.handle, stage]
      cases complete with
      | true => exact resets_caughtUp rfl resets.sent placed
      | false => exact ⟨resets.sent, placed⟩

theorem Resets.waiting (resets : l.Resets) {last : Int} (stage : l.stage = .waiting last)
    (order : RowOrder) : (l.handle order).Resets := by
  have placed := resets.stage
  rw [stage] at placed
  cases notes : l.undelivered with
  | nil =>
      simp only [Live.handle, stage, notes]
      exact ⟨fun sent => resets.sent (not_reset_mem (fun same => by cases same) sent), placed⟩
  | cons note rest =>
      simp only [Live.handle, stage, notes]
      by_cases channel : note.1 = feedChannel
      · simp only [channel, if_true]
        exact ⟨resets.sent, placed⟩
      · simp only [channel, if_false]
        exact ⟨fun sent => resets.sent (not_reset_mem (fun same => by cases same) sent), placed⟩

theorem Resets.handle (resets : l.Resets) (feeding : l.database.Feeding) (order : RowOrder) :
    (l.handle order).Resets := by
  have before := resets.stage
  cases stage : l.stage with
  | accepted =>
      simp only [Live.handle, stage]
      exact ⟨resets.sent, trivial⟩
  | listening =>
      simp only [Live.handle, stage]
      exact ⟨fun sent => resets.sent (not_reset_mem (fun same => by cases same) sent), trivial⟩
  | starting => exact resets.starting stage order
  | snapshotting => exact resets.snapshotting stage feeding order
  | checking last => exact resets.checking stage order
  | reading last => exact resets.reading stage order
  | sending rows last complete => exact resets.sending stage order
  | expired =>
      rw [stage] at before
      simp only [Live.handle, stage]
      exact ⟨fun _ => before, Or.inr before⟩
  | ready last =>
      rw [stage] at before
      simp only [Live.handle, stage]
      exact ⟨fun sent => resets.sent (not_reset_mem (fun same => by cases same) sent), before⟩
  | waiting last => exact resets.waiting stage order

theorem resets_reached (history : List Commit) (after : Option Int) (turns : List Turn) :
    (reached history after turns).Resets := by
  have feeding := Database.Feeding.empty.commits history
  have kept : ∀ l : Live, l.database.Feeding → l.Resets → (Runs.run step l turns).Resets := by
    induction turns with
    | nil => exact fun _ _ resets => resets
    | cons turn rest ih =>
        intro l feeding resets
        cases turn with
        | projector commit => exact ih _ (feeding.commit commit) (resets.commit feeding commit)
        | handler order =>
            have same : (l.handle order).database = l.database := (handle_keeps order).1
            exact ih _ (same ▸ feeding) (resets.handle feeding order)
  apply kept _ feeding
  exact ⟨fun sent => absurd sent List.not_mem_nil, trivial⟩

end Live

/-- What a receiver may have: the first rows above the position they start from. -/
def Received.InOrder (r : Received) (db : Database) : Prop :=
  (∀ start, r.start = some start → r.changes <+: db.above start) ∧ (r.start = none → r.changes = [])

theorem Received.InOrder.take {r : Received} {db : Database} (ordered : r.InOrder db)
    {message : Wire} (fits : message.Fits db r) : (r.take message).InOrder db := by
  cases message with
  | health gateways => exact ordered
  | reset => exact ordered
  | live cursor => exact ordered
  | ping cursor => exact ordered
  | snapshot s => exact ⟨fun start _ => List.nil_prefix, fun _ => rfl⟩
  | change row =>
      rcases fits with ⟨_, start, isStart, within⟩
      constructor
      · intro other isOther
        change r.start = some other at isOther
        rw [isStart] at isOther
        cases isOther
        exact within
      · intro unopened
        change r.start = none at unopened
        rw [isStart] at unopened
        cases unopened

theorem Follows.inOrder {db : Database} {messages : List Wire} {r : Received}
    (follows : Follows db r messages) (ordered : r.InOrder db) :
    (Runs.run Received.take r messages).InOrder db := by
  induction messages generalizing r with
  | nil => exact ordered
  | cons message rest ih => exact ih follows.2 (ordered.take follows.1)

/-- The change messages since the last snapshot are the first rows above the cursor they start
from, and all of them whenever the handler waits with no notification left to take. A reset comes
only from a gap between the cursor to start from and the feed's first row. -/
structure Live.Delivers (l : Live) : Prop where
  increasing : l.database.incidentFeed.Pairwise (·.cursor < ·.cursor)
  ordered : ∀ start, l.received.start = some start → l.received.changes <+: l.database.above start
  fresh : l.received.start = none → l.received.changes = []
  complete : ∀ last, l.stage = .waiting last → l.undelivered = [] →
    ∃ start, l.received.start = some start ∧ l.received.changes = l.database.above start
  resets : Wire.reset ∈ l.sent → l.database.showsGap (l.after.getD 0)

theorem Live.Sound.delivers {l : Live} (sound : l.Sound ⟨l.after, [], false⟩) (resets : l.Resets) :
    l.Delivers := by
  have start : Received.InOrder ⟨l.after, [], false⟩ l.database :=
    ⟨fun _ _ => List.nil_prefix, fun _ => rfl⟩
  have ordered := sound.follows.inOrder start
  refine ⟨sound.feeding.increasing, ordered.1, ordered.2, ?_, resets.sent⟩
  intro last stage quiet
  have holds := sound.holds
  unfold Holds at holds
  rw [stage] at holds
  rcases holds with ⟨_, ⟨start, reads⟩, woken⟩
  refine ⟨start, reads.started, ?_⟩
  have none : ∀ row ∈ l.database.incidentFeed, (row.cursor : Int) ≤ last := by
    intro row member
    by_contra above
    rcases woken ⟨row, member, Int.not_le.mp above⟩ with ⟨note, inNotes, _⟩
    rw [quiet] at inNotes
    cases inNotes
  have changes := reads.changes
  rw [List.append_nil] at changes
  change (l.receivedFrom _).changes = _
  rw [changes]
  apply List.filter_eq_self.mpr
  intro row member
  exact decide_eq_true (none row (List.mem_filter.mp member).1)

/-- Whatever the projector commits between the handler's steps, the socket delivers. -/
theorem live_feed_delivers (history : List Commit) (after : Option Int) (turns : List Live.Turn) :
    (Live.reached history after turns).Delivers := by
  have kept : (Live.reached history after turns).after = after := by
    rw [Live.reached, Live.after_run]
    rfl
  have sound := Live.sound_reached history after turns
  apply Live.Sound.delivers
  · rw [kept]
    exact sound
  · exact Live.resets_reached history after turns

def Wire.row : Wire → Option FeedRow
  | .change row => some row
  | _ => none

/-- When the first cursor drawn is lost with its transaction, a client that starts from cursor 0 is
reset: the first row comes in a snapshot and never as a change. -/
theorem lost_first_cursor_resets :
    ¬ ∀ (history : List Commit) (start : Int) (turns : List Live.Turn) (last : Int),
      (Live.reached history (some start) turns).stage = .waiting last →
      (Live.reached history (some start) turns).undelivered = [] →
      (Live.reached history (some start) turns).sent.filterMap Wire.row =
        (Live.reached history (some start) turns).database.above start := by
  intro claimed
  have same := claimed [.rollBack 1, .transition (sampleTransition 1 1 1) 0] 0
    (List.replicate 8 (.handler (.ranked fun _ => 0))) 2 rfl rfl
  have lengths := congrArg List.length same
  cases lengths

end PiAgents.Incidents
