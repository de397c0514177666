import PiAgents.Incidents.Snapshot

/-! The WebSocket handler of the API: it listens, catches up and then reads on at every
notification, while the projector commits between any two of its steps. -/

namespace PiAgents.Incidents

def batch : Nat := 500

inductive Commit where
  | transition (t : DetectionTransition) (now : Timestamp)
  | health (h : HealthEvent) (now : Timestamp)
  | rollBack (drawn : Nat)

def Database.commit (db : Database) : Commit → Database
  | .transition t now =>
      match db.applyTransition t now with
      | .ok (committed, _) => committed
      | .error _ => db
  | .health h now =>
      match db.applyHealth h now with
      | .ok (committed, _) => committed
      | .error _ => db
  | .rollBack drawn => db.skipCursors drawn

inductive Wire where
  | health (gateways : List HealthRow)
  | snapshot (s : Snapshot)
  | reset
  | change (row : FeedRow)
  | live (cursor : Int)
  | ping (cursor : Int)

/-- Where the handler is. With a position, `last`, it is in `send_changes` or past it. -/
inductive Stage where
  | accepted
  | listening
  | starting
  | snapshotting
  /-- Before `SELECT min(cursor)`. -/
  | checking (last : Int)
  /-- Before the page of rows is read. -/
  | reading (last : Int)
  /-- Some of a page is not sent; `last` is the page's cursor. -/
  | sending (rows : List FeedRow) (last : Int) (complete : Bool)
  | expired
  /-- Caught up for the first time: `live` is sent next. -/
  | ready (last : Int)
  | waiting (last : Int)

/-- One socket: the database it reads, how many of all notifications it has taken or missed, and
the messages sent. -/
structure Live where
  database : Database
  after : Option Int
  stage : Stage
  announced : Bool
  heard : Nat
  sent : List Wire

namespace Live

def connect (db : Database) (after : Option Int) : Live := ⟨db, after, .accepted, false, 0, []⟩

def undelivered (l : Live) : List (String × String) := l.database.notifications.drop l.heard

def send (l : Live) (message : Wire) (stage : Stage) : Live :=
  { l with sent := l.sent ++ [message], stage := stage }

/-- `send_changes` or `send_snapshot` returns. -/
def caughtUp (l : Live) (last : Int) : Stage := if l.announced then .waiting last else .ready last

/-- The handler's next step. A wait without a notification ends in a ping. -/
def handle (order : RowOrder) (l : Live) : Live :=
  match l.stage with
  | .accepted => { l with heard := l.database.notifications.length, stage := .listening }
  | .listening => l.send (.health l.database.gatewayHealth) .starting
  | .starting =>
      match l.after with
      | none => { l with stage := .snapshotting }
      | some last => { l with stage := .checking last }
  | .snapshotting =>
      let s := snapshot order l.database false snapshotLimit
      l.send (.snapshot s) (l.caughtUp s.cursor)
  | .checking last =>
      match l.database.oldestCursor with
      | some oldest =>
          { l with stage := if last < oldest - 1 then .expired else .reading last }
      | none => { l with stage := .reading last }
  | .reading last =>
      let rows := l.database.feedAfter last batch
      { l with stage := .sending rows (lastCursor rows last) (rows.length < batch) }
  | .sending (row :: rows) last complete => l.send (.change row) (.sending rows last complete)
  | .sending [] last complete =>
      { l with stage := if complete then l.caughtUp last else .checking last }
  | .expired => l.send .reset .snapshotting
  | .ready last => { l.send (.live last) (.waiting last) with announced := true }
  | .waiting last =>
      match l.undelivered with
      | [] => l.send (.ping last) (.waiting last)
      | note :: _ =>
          if note.1 = feedChannel then { l with heard := l.heard + 1, stage := .checking last }
          else
            { l.send (.health l.database.gatewayHealth) (.waiting last) with heard := l.heard + 1 }

inductive Turn where
  | projector (commit : Commit)
  | handler (order : RowOrder)

def step (l : Live) : Turn → Live
  | .projector commit => { l with database := l.database.commit commit }
  | .handler order => l.handle order

/-- A socket opened after some commits and what happens while it is open. -/
def reached (history : List Commit) (after : Option Int) (turns : List Turn) : Live :=
  Runs.run step (connect (Runs.run Database.commit .empty history) after) turns

end Live

/-- What a receiver of the messages has: the cursor of the last snapshot, or the one it connected
with, the rows sent since, and whether a reset waits for its snapshot. -/
structure Received where
  start : Option Int
  changes : List FeedRow
  cleared : Bool

def Received.take (r : Received) : Wire → Received
  | .snapshot s => ⟨some s.cursor, [], false⟩
  | .reset => { r with cleared := true }
  | .change row => { r with changes := r.changes ++ [row] }
  | .health _ | .live _ | .ping _ => r

def Live.received (l : Live) : Received := Runs.run Received.take ⟨l.after, [], false⟩ l.sent

def Database.above (db : Database) (start : Int) : List FeedRow :=
  db.incidentFeed.filter fun row => start < row.cursor

/-- The first transition of the highest revision among those of the incident. -/
def newestOf (payloads : List TransitionPayload) (incidentId : String) : Option TransitionPayload :=
  (payloads.filter (·.incidentId == incidentId)).argmax (·.revision.toNat)

theorem newestOf_other {payloads : List TransitionPayload} {t : TransitionPayload}
    {incidentId : String} (other : t.incidentId ≠ incidentId) :
    newestOf (payloads ++ [t]) incidentId = newestOf payloads incidentId := by
  rw [newestOf, List.filter_append, List.filter_singleton, beq_eq_false_iff_ne.mpr other]
  simp only [cond_false, List.append_nil, newestOf]

theorem newestOf_same (payloads : List TransitionPayload) (t : TransitionPayload) :
    newestOf (payloads ++ [t]) t.incidentId =
      some ((newestOf payloads t.incidentId).elim t fun stored =>
        if stored.revision < t.revision then t else stored) := by
  rw [newestOf, List.filter_append, List.filter_singleton, beq_self_eq_true, cond_true,
    List.argmax_concat, ← newestOf]
  cases newestOf payloads t.incidentId with
  | none => rfl
  | some stored =>
      simp only [Option.elim_some, UInt64.lt_iff_toNat_lt]
      split
      · rfl
      · rfl

/-- The feed is in cursor order, and the incident table holds the newest transition of every
incident in it. -/
structure Database.Feeding (db : Database) : Prop where
  increasing : db.incidentFeed.Pairwise (·.cursor < ·.cursor)
  drawn : ∀ row ∈ db.incidentFeed, row.cursor ≤ db.cursorSequence
  named : db.Named
  table : ∀ incidentId, (db.incident incidentId).map (·.current.lastTransition) =
    newestOf (db.incidentFeed.map (·.payload)) incidentId

/-- What a commit adds to the feed, beside the notifications of others. -/
inductive Database.Grows (db after : Database) : Prop where
  | quiet (feed : after.incidentFeed = db.incidentFeed)
      (sequence : db.cursorSequence ≤ after.cursorSequence)
      (notifications : ∃ more, after.notifications = db.notifications ++ more)
      (incidents : db.incidents.length ≤ after.incidents.length)
  | row (added : FeedRow) (feed : after.incidentFeed = db.incidentFeed ++ [added])
      (cursor : added.cursor = db.cursorSequence + 1)
      (sequence : after.cursorSequence = db.cursorSequence + 1)
      (notifications : ∃ text, after.notifications = db.notifications ++ [(feedChannel, text)])
      (incidents : db.incidents.length ≤ after.incidents.length)

theorem upsert_length (rows : List IncidentRow) (excluded : IncidentRow) :
    rows.length ≤ (upsert rows excluded).length := by
  by_cases held : rows.any (·.incidentId == excluded.incidentId) = true
  · rw [upsert, if_pos held, List.length_map]
  · rw [upsert, if_neg held, List.length_append]
    exact Nat.le_add_right _ _

namespace Database.Feeding

variable {db : Database}

theorem empty : Database.empty.Feeding where
  increasing := List.Pairwise.nil
  drawn row member := by cases member
  named := ⟨List.nodup_nil, fun row member => by cases member⟩
  table _ := rfl

theorem insert (feeding : db.Feeding) {t : DetectionTransition} {state : IncidentState}
    (ok : incidentState t = .ok state) (now : Timestamp) : (db.insert t state now).Feeding := by
  have shows := incidentState_shows ok
  constructor
  · apply List.pairwise_append.mpr
    refine ⟨feeding.increasing, List.pairwise_singleton _ _, ?_⟩
    intro earlier member later single
    rw [List.mem_singleton.mp single]
    exact Nat.lt_succ_of_le (feeding.drawn earlier member)
  · intro row member
    rcases List.mem_append.mp member with old | new
    · exact Nat.le_succ_of_le (feeding.drawn row old)
    · rw [List.mem_singleton.mp new]
      exact Nat.le_refl _
  · exact feeding.named.insert ok now
  · intro incidentId
    have before := feeding.table incidentId
    have payloads : (db.insert t state now).incidentFeed.map (·.payload) =
        db.incidentFeed.map (·.payload) ++ [transitionPayload t] := List.map_append
    rw [payloads]
    by_cases same : t.incidentId = incidentId
    · subst same
      have after := find_upsert_same db.incidents (incidentRow t state now)
      have newest := newestOf_same (db.incidentFeed.map (·.payload)) (transitionPayload t)
      change newestOf _ t.incidentId = some ((newestOf _ t.incidentId).elim _ _) at newest
      rw [newest, ← before]
      change ((Incidents.upsert db.incidents (incidentRow t state now)).find?
        (·.incidentId == (incidentRow t state now).incidentId)).map _ = _
      rw [after]
      change Option.map _ (some ((db.incident t.incidentId).elim _ _)) = _
      cases found : db.incident t.incidentId with
      | none => exact congrArg some shows.lastTransition
      | some row =>
          have member : row ∈ db.incidents := List.mem_of_find?_eq_some found
          have stored := (feeding.named.rows row member).revision
          have revision : (incidentRow t state now).current.revision =
              (transitionPayload t).revision := shows.revision
          simp only [Option.map_some, Option.elim_some, revise_current, stored, revision]
          split
          · exact congrArg some shows.lastTransition
          · rfl
    · have other : (transitionPayload t).incidentId ≠ incidentId := same
      rw [newestOf_other other, ← before]
      exact congrArg _ (find_upsert_other db.incidents (incidentRow t state now) same)

end Database.Feeding

theorem notify_ok {db after : Database} {channel payload : String}
    (ok : db.notify channel payload = .ok after) :
    after = { db with notifications := db.notifications ++ [(channel, payload)] } := by
  by_cases short : payload.utf8ByteSize < 8000
  · rw [Database.notify, if_pos short] at ok
    cases ok
    rfl
  · rw [Database.notify, if_neg short] at ok
    cases ok

theorem applyHealth_ok {db after : Database} {h : HealthEvent} {now : Timestamp} {changed : Bool}
    (ok : db.applyHealth h now = .ok (after, changed)) : ∃ rows more,
      after = { db with gatewayHealth := rows, notifications := db.notifications ++ more } := by
  rcases bind_ok ok with ⟨excluded, _, ok⟩
  cases found : db.gatewayHealth.find? (fun row => HealthRow.SameKey row excluded) with
  | none =>
      simp only [found] at ok
      rcases bind_ok ok with ⟨notified, sent, ok⟩
      cases ok
      rw [notify_ok sent]
      exact ⟨_, _, rfl⟩
  | some stored =>
      simp only [found] at ok
      by_cases yields : HealthRow.yields stored excluded = true
      · rw [if_pos yields] at ok
        rcases bind_ok ok with ⟨notified, sent, ok⟩
        cases ok
        rw [notify_ok sent]
        exact ⟨_, _, rfl⟩
      · rw [if_neg yields] at ok
        cases ok
        exact ⟨db.gatewayHealth, [], by rw [List.append_nil]⟩

namespace Database

variable {db : Database}

theorem Grows.refl : db.Grows db :=
  .quiet rfl (Nat.le_refl _) ⟨[], (List.append_nil _).symm⟩ (Nat.le_refl _)

theorem insert_grows (t : DetectionTransition) (state : IncidentState) (now : Timestamp) :
    db.Grows (db.insert t state now) :=
  .row _ rfl rfl rfl ⟨_, rfl⟩ (upsert_length _ _)

theorem commit_grows (commit : Commit) : db.Grows (db.commit commit) := by
  cases commit with
  | rollBack drawn =>
      exact .quiet rfl (Nat.le_add_right _ _) ⟨[], (List.append_nil _).symm⟩ (Nat.le_refl _)
  | transition t now =>
      cases outcome : db.applyTransition t now with
      | error failure =>
          simp only [Database.commit, outcome]
          exact Grows.refl
      | ok answer =>
          simp only [Database.commit, outcome]
          rcases applyTransition_cases outcome with same | ⟨state, _, same⟩
          · rw [same]
            exact Grows.refl
          · rw [same]
            exact insert_grows t state now
  | health h now =>
      cases outcome : db.applyHealth h now with
      | error failure =>
          simp only [Database.commit, outcome]
          exact Grows.refl
      | ok answer =>
          simp only [Database.commit, outcome]
          rcases applyHealth_ok outcome with ⟨rows, more, same⟩
          rw [same]
          exact .quiet rfl (Nat.le_refl _) ⟨more, rfl⟩ (Nat.le_refl _)

theorem Feeding.commit (feeding : db.Feeding) (commit : Commit) : (db.commit commit).Feeding := by
  cases commit with
  | rollBack drawn =>
      exact { feeding with
        named := ⟨feeding.named.distinct, feeding.named.rows⟩
        drawn := fun row member => Nat.le_add_right_of_le (feeding.drawn row member) }
  | transition t now =>
      cases outcome : db.applyTransition t now with
      | error failure =>
          simp only [Database.commit, outcome]
          exact feeding
      | ok answer =>
          simp only [Database.commit, outcome]
          rcases applyTransition_cases outcome with same | ⟨state, ok, same⟩
          · rw [same]
            exact feeding
          · rw [same]
            exact feeding.insert ok now
  | health h now =>
      cases outcome : db.applyHealth h now with
      | error failure =>
          simp only [Database.commit, outcome]
          exact feeding
      | ok answer =>
          simp only [Database.commit, outcome]
          rcases applyHealth_ok outcome with ⟨rows, more, same⟩
          rw [same]
          exact { feeding with named := ⟨feeding.named.distinct, feeding.named.rows⟩ }

theorem Feeding.commits (feeding : db.Feeding) (history : List Commit) :
    (Runs.run Database.commit db history).Feeding := by
  induction history generalizing db with
  | nil => exact feeding
  | cons commit rest ih => exact ih (feeding.commit commit)

end Database

def Database.upTo (db : Database) (start last : Int) : List FeedRow :=
  (db.above start).filter fun row => row.cursor ≤ last

section Growth

variable {db after : Database}

namespace Database.Grows

theorem sequence (grows : db.Grows after) : db.cursorSequence ≤ after.cursorSequence := by
  cases grows with
  | quiet _ sequence _ _ => exact sequence
  | row _ _ _ sequence _ _ => omega

theorem incidents (grows : db.Grows after) : db.incidents.length ≤ after.incidents.length := by
  cases grows with
  | quiet _ _ _ incidents => exact incidents
  | row _ _ _ _ _ incidents => exact incidents

/-- New rows stand at the end of the feed, above every cursor drawn before. -/
theorem feed (grows : db.Grows after) : ∃ more, after.incidentFeed = db.incidentFeed ++ more ∧
    ∀ row ∈ more, db.cursorSequence < row.cursor := by
  cases grows with
  | quiet feed _ _ _ =>
      refine ⟨[], by rw [feed, List.append_nil], ?_⟩
      intro row member
      cases member
  | row added feed cursor _ _ _ =>
      refine ⟨[added], feed, ?_⟩
      intro row member
      rw [List.mem_singleton.mp member, cursor]
      exact Nat.lt_succ_self _

theorem above (grows : db.Grows after) (start : Int) : db.above start <+: after.above start := by
  rcases grows.feed with ⟨more, feed, _⟩
  rw [Database.above, Database.above, feed, List.filter_append]
  exact List.prefix_append _ _

theorem upTo (grows : db.Grows after) {start last : Int}
    (reached : last = start ∨ last ≤ db.cursorSequence) :
    after.upTo start last = db.upTo start last := by
  rcases grows.feed with ⟨more, feed, later⟩
  have none : (more.filter fun row => start < row.cursor).filter (fun row => row.cursor ≤ last) =
      [] := by
    apply List.filter_eq_nil_iff.mpr
    intro row member within
    have parts := List.mem_filter.mp member
    have low := of_decide_eq_true within
    have high := of_decide_eq_true parts.2
    have drawn := later row parts.1
    omega
  rw [Database.upTo, Database.upTo, Database.above, Database.above, feed, List.filter_append,
    List.filter_append, none, List.append_nil]

theorem notifications (grows : db.Grows after) :
    ∃ more, after.notifications = db.notifications ++ more := by
  cases grows with
  | quiet _ _ notifications _ => exact notifications
  | row _ _ _ _ notifications _ =>
      rcases notifications with ⟨text, same⟩
      exact ⟨_, same⟩

end Database.Grows

theorem Database.Feeding.oldestCursor (feeding : db.Feeding) :
    db.oldestCursor = db.incidentFeed.head?.map (·.cursor) := by
  rw [Database.oldestCursor]
  cases feed : db.incidentFeed with
  | nil => rfl
  | cons first rest =>
      have increasing := feeding.increasing
      rw [feed] at increasing
      have least := (List.pairwise_cons.mp increasing).1
      change ((first :: rest).map (·.cursor)).min? = some first.cursor
      rw [List.min?_eq_some_iff]
      refine ⟨List.mem_map_of_mem (List.mem_cons_self ..), ?_⟩
      intro cursor member
      rcases List.mem_map.mp member with ⟨row, inFeed, rfl⟩
      rcases List.mem_cons.mp inFeed with rfl | later
      · exact Nat.le_refl _
      · exact Nat.le_of_lt (least row later)

theorem Database.Feeding.showsGap (feeding : db.Feeding) (after' : after.Feeding)
    (grows : db.Grows after) {last : Int} (gap : db.showsGap last) : after.showsGap last := by
  rcases gap with ⟨oldest, found, below⟩
  rcases grows.feed with ⟨more, feed, _⟩
  refine ⟨oldest, ?_, below⟩
  rw [feeding.oldestCursor] at found
  rw [after'.oldestCursor, feed, List.head?_append]
  cases head : db.incidentFeed.head? with
  | none =>
      rw [head] at found
      cases found
  | some first =>
      rw [head] at found
      exact found

end Growth

end PiAgents.Incidents
