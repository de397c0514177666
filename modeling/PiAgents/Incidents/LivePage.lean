import PiAgents.Incidents.LiveDelivery

/-! The live page: what it makes of the messages of one socket after the other, each resumed with
the cursor that it stored. -/

namespace PiAgents.Incidents

/-- The page's numbers are doubles: an integer is read as the nearest one. -/
def toDouble (n : Nat) : Nat :=
  let places := n.log2 + 1 - 53
  divideHalfEven n (1 <<< places) <<< places

def readNumber (n : Int) : Int := n.sign * (toDouble n.natAbs : Nat)

/-- The incidents of the page, one of each ID, in the order in which they came. -/
def applyTo (incidents : List Shown) (item : Shown) : List Shown :=
  if incidents.any (·.transition.incidentId == item.transition.incidentId) then
    incidents.map fun current =>
      if current.transition.incidentId = item.transition.incidentId then
        if toDouble item.transition.revision.toNat ≤ toDouble current.transition.revision.toNat then
          current
        else item
      else current
  else incidents ++ [item]

def shownIncident (incidents : List Shown) (incidentId : String) : Option TransitionPayload :=
  (incidents.find? (·.transition.incidentId == incidentId)).map (·.transition)

structure Page where
  incidents : List Shown
  cursor : Option Int
  health : List HealthRow

namespace Page

def blank : Page := ⟨[], none, []⟩

def onMessage (p : Page) : Wire → Page
  | .snapshot s => { p with
      incidents := Runs.run applyTo [] s.incidents
      cursor := some (readNumber s.cursor) }
  | .reset => { p with incidents := [] }
  | .change row => { p with
      incidents := applyTo p.incidents ⟨row.payload, row.committedAt⟩
      cursor := some (readNumber row.cursor) }
  | .health gateways => { p with health := gateways }
  | .live cursor | .ping cursor => { p with cursor := some (readNumber cursor) }

end Page

structure Browser where
  live : Live
  page : Page
  delivered : Nat

namespace Browser

def start (db : Database) : Browser := ⟨Live.connect db none, .blank, 0⟩

inductive Happening where
  | turn (turn : Live.Turn)
  | deliver
  /-- The connection is lost with what is under way, and a new one opened. -/
  | reconnect

def step (b : Browser) : Happening → Browser
  | .turn turn => { b with live := b.live.step turn }
  | .deliver =>
      match b.live.sent[b.delivered]? with
      | some message =>
          { b with page := b.page.onMessage message, delivered := b.delivered + 1 }
      | none => b
  | .reconnect => ⟨Live.connect b.live.database b.page.cursor, b.page, 0⟩

def reached (history : List Commit) (happenings : List Happening) : Browser :=
  Runs.run step (start (Runs.run Database.commit .empty history)) happenings

end Browser

def exactNumbers : Nat := 9007199254740992

private theorem divideHalfEven_one (n : Nat) : divideHalfEven n 1 = n := by
  have rest : 2 * (n % 1) < 1 := by
    rw [Nat.mod_one]
    decide
  rw [divideHalfEven, if_pos rest, Nat.div_one]

theorem toDouble_of_le {n : Nat} (small : n ≤ exactNumbers) : toDouble n = n := by
  rcases Nat.lt_or_eq_of_le small with less | rfl
  · have bits : n.log2 < 53 := by
      by_cases zero : n = 0
      · rw [zero]
        decide
      · exact (Nat.log2_lt zero).mpr less
    have none : n.log2 + 1 - 53 = 0 := by omega
    simp only [toDouble, none, Nat.shiftLeft_zero, divideHalfEven_one]
  · decide

theorem readNumber_of_le {n : Int} (positive : 0 ≤ n) (small : n ≤ exactNumbers) :
    readNumber n = n := by
  have bound : n.natAbs ≤ exactNumbers := by omega
  rw [readNumber, toDouble_of_le bound]
  exact Int.sign_mul_natAbs n

private theorem find_applyTo_other {incidents : List Shown} {item : Shown} {incidentId : String}
    (other : item.transition.incidentId ≠ incidentId) :
    (applyTo incidents item).find? (·.transition.incidentId == incidentId) =
      incidents.find? (·.transition.incidentId == incidentId) := by
  by_cases held : incidents.any (·.transition.incidentId == item.transition.incidentId) = true
  · rw [applyTo, if_pos held]
    clear held
    induction incidents with
    | nil => rfl
    | cons current rest ih =>
        rw [List.map_cons, List.find?_cons, List.find?_cons, ih]
        by_cases same : current.transition.incidentId = item.transition.incidentId
        · have missed : (current.transition.incidentId == incidentId) = false := by
            rw [same]
            exact beq_eq_false_iff_ne.mpr other
          have replaced : ((if toDouble item.transition.revision.toNat ≤
              toDouble current.transition.revision.toNat then current
              else item).transition.incidentId == incidentId) = false := by
            split
            · exact missed
            · exact beq_eq_false_iff_ne.mpr other
          rw [if_pos same, missed, replaced]
        · rw [if_neg same]
  · rw [applyTo, if_neg held, List.find?_append]
    have missed : [item].find? (·.transition.incidentId == incidentId) = none := by
      rw [List.find?_cons, beq_eq_false_iff_ne.mpr other]
      rfl
    rw [missed, Option.or_none]

/-- The item of the incident after a newer one, or one that is not newer, is applied. -/
def newerOf (current item : Shown) : Shown :=
  if toDouble item.transition.revision.toNat ≤ toDouble current.transition.revision.toNat then
    current
  else item

private theorem find_applyTo_same (incidents : List Shown) (item : Shown) :
    (applyTo incidents item).find? (·.transition.incidentId == item.transition.incidentId) =
      some ((incidents.find? (·.transition.incidentId == item.transition.incidentId)).elim item
        (newerOf · item)) := by
  by_cases held : incidents.any (·.transition.incidentId == item.transition.incidentId) = true
  · rw [applyTo, if_pos held]
    induction incidents with
    | nil => cases held
    | cons current rest ih =>
        rw [List.map_cons, List.find?_cons, List.find?_cons]
        by_cases same : current.transition.incidentId = item.transition.incidentId
        · have named : (newerOf current item).transition.incidentId =
              item.transition.incidentId := by
            rw [newerOf]
            split
            · exact same
            · rfl
          have replaced : (if current.transition.incidentId = item.transition.incidentId then
              if toDouble item.transition.revision.toNat ≤
                toDouble current.transition.revision.toNat then current else item
              else current) = newerOf current item := if_pos same
          rw [replaced, beq_iff_eq.mpr named, beq_iff_eq.mpr same]
          rfl
        · have later : rest.any (·.transition.incidentId == item.transition.incidentId) = true := by
            rw [List.any_cons, beq_eq_false_iff_ne.mpr same, Bool.false_or] at held
            exact held
          rw [if_neg same, beq_eq_false_iff_ne.mpr same]
          exact ih later
  · have missed : incidents.find? (·.transition.incidentId == item.transition.incidentId) = none := by
      apply List.find?_eq_none.mpr
      intro current member same
      exact held (List.any_eq_true.mpr ⟨current, member, same⟩)
    rw [applyTo, if_neg held, List.find?_append, missed, Option.none_or, List.find?_cons,
      beq_self_eq_true]
    rfl

/-- With exact revisions the page keeps, of what is applied, the newest of every incident. -/
theorem applyTo_newest {incidents : List Shown} {applied : List TransitionPayload}
    (shows : ∀ incidentId, shownIncident incidents incidentId = newestOf applied incidentId)
    (exactly : ∀ t ∈ applied, t.revision.toNat ≤ exactNumbers) {item : Shown}
    (small : item.transition.revision.toNat ≤ exactNumbers) (incidentId : String) :
    shownIncident (applyTo incidents item) incidentId =
      newestOf (applied ++ [item.transition]) incidentId := by
  by_cases same : item.transition.incidentId = incidentId
  · subst same
    have before := shows item.transition.incidentId
    rw [newestOf_same, ← before, shownIncident, find_applyTo_same, shownIncident]
    cases found : incidents.find? (·.transition.incidentId == item.transition.incidentId) with
    | none => rfl
    | some current =>
        rw [shownIncident, found] at before
        have member : current.transition ∈ applied := by
          have chosen := List.argmax_mem (Option.mem_def.mpr before.symm)
          exact (List.mem_filter.mp chosen).1
        have revision : toDouble current.transition.revision.toNat =
            current.transition.revision.toNat := toDouble_of_le (exactly _ member)
        simp only [Option.elim_some, Option.map_some, newerOf, toDouble_of_le small, revision]
        by_cases newer : current.transition.revision < item.transition.revision
        · have less := UInt64.lt_iff_toNat_lt.mp newer
          rw [if_pos newer, if_neg (Nat.not_le.mpr less)]
        · have more : item.transition.revision.toNat ≤ current.transition.revision.toNat := by
            rw [UInt64.lt_iff_toNat_lt] at newer
            exact Nat.le_of_not_lt newer
          rw [if_neg newer, if_pos more]
  · rw [newestOf_other same, ← shows incidentId, shownIncident, find_applyTo_other same,
      shownIncident]

theorem applied_newest {items : List Shown}
    (exactly : ∀ item ∈ items, item.transition.revision.toNat ≤ exactNumbers)
    (incidentId : String) : shownIncident (Runs.run applyTo [] items) incidentId =
      newestOf (items.map (·.transition)) incidentId := by
  induction items using List.reverseRecOn generalizing incidentId with
  | nil => rfl
  | append_singleton front item ih =>
      have before := ih fun other member => exactly other (List.mem_append_left _ member)
      have small := exactly item (List.mem_append_right _ (List.mem_singleton_self _))
      have revisions : ∀ t ∈ front.map (·.transition), t.revision.toNat ≤ exactNumbers := by
        intro t member
        rcases List.mem_map.mp member with ⟨other, inFront, rfl⟩
        exact exactly other (List.mem_append_left _ inFront)
      rw [Runs.run_append, List.map_append]
      exact applyTo_newest before revisions small incidentId

theorem Snapshot.Exact.revisions {s : Snapshot} {db : Database} (exact' : s.Exact db)
    (few : db.incidents.length ≤ snapshotLimit) {bound : Nat}
    (bounded : ∀ row ∈ db.incidentFeed, row.payload.revision.toNat ≤ bound) :
    ∀ item ∈ s.incidents, item.transition.revision.toNat ≤ bound := by
  intro item member
  have listed : item.transition ∈ (s.incidents.map (·.transition)).filter
      (·.incidentId == item.transition.incidentId) :=
    List.mem_filter.mpr ⟨List.mem_map_of_mem member, beq_self_eq_true _⟩
  have same := exact'.2 few item.transition.incidentId
  cases found : newestOf (s.incidents.map (·.transition)) item.transition.incidentId with
  | none =>
      rw [newestOf, List.argmax_eq_none] at found
      rw [found] at listed
      cases listed
  | some newest =>
      have highest := List.le_of_mem_argmax listed (Option.mem_def.mpr found)
      rw [found] at same
      have inFeed := List.mem_filter.mp (List.argmax_mem (Option.mem_def.mpr same.symm))
      rcases List.mem_map.mp inFeed.1 with ⟨row, inRows, rfl⟩
      exact highest.trans (bounded row (List.mem_filter.mp inRows).1)

/-- Everything that the page shows is a number that it can hold. -/
structure Database.Small (db : Database) : Prop where
  incidents : db.incidents.length ≤ snapshotLimit
  cursors : db.cursorSequence ≤ exactNumbers
  revisions : ∀ row ∈ db.incidentFeed, row.payload.revision.toNat ≤ exactNumbers

theorem Database.Small.before {db after : Database} (small : after.Small)
    (grows : db.Grows after) : db.Small := by
  rcases grows.feed with ⟨more, feed, _⟩
  constructor
  · exact grows.incidents.trans small.incidents
  · exact grows.sequence.trans small.cursors
  · intro row member
    apply small.revisions row
    rw [feed]
    exact List.mem_append_left _ member

/-- The cursor of the last message that has one, or the one that the socket was opened with. -/
def Received.position (r : Received) : Option Int := r.start.map (lastCursor r.changes)

/-- The page shows the feed up to its cursor, or a reset has cleared it. -/
structure Page.Shows (p : Page) (db : Database) (r : Received) : Prop where
  cursor : p.cursor = r.position
  drawn : ∀ c, r.position = some c → 0 ≤ c ∧ c ≤ db.cursorSequence
  incidents : r.cleared = false → ∀ c, r.position = some c → ∀ incidentId,
    shownIncident p.incidents incidentId =
      newestOf ((db.feedUpTo c).map (·.payload)) incidentId
  gap : r.cleared = true → ∃ c, r.position = some c ∧ db.showsGap c

namespace Page.Shows

variable {p : Page} {db after : Database} {r : Received}

theorem grow (shows : p.Shows db r) (feeding : db.Feeding) (later : after.Feeding)
    (grows : db.Grows after) : p.Shows after r := by
  constructor
  · exact shows.cursor
  · intro c position
    have drawn := shows.drawn c position
    have sequence := grows.sequence
    omega
  · intro kept c position incidentId
    have drawn := shows.drawn c position
    rcases grows.feed with ⟨more, feed, above⟩
    have none : more.filter (fun row => (row.cursor : Int) ≤ c) = [] := by
      apply List.filter_eq_nil_iff.mpr
      intro row member within
      have low := of_decide_eq_true within
      have high := above row member
      omega
    have same : after.feedUpTo c = db.feedUpTo c := by
      rw [Database.feedUpTo, feed, List.filter_append, none, List.append_nil]
      rfl
    rw [same]
    exact shows.incidents kept c position incidentId
  · intro cleared
    rcases shows.gap cleared with ⟨c, position, gap⟩
    exact ⟨c, position, feeding.showsGap later grows gap⟩

end Page.Shows

theorem feedUpTo_changes {db : Database} (feeding : db.Feeding) {changes : List FeedRow}
    {start : Int} (within : changes <+: db.above start) :
    db.feedUpTo (lastCursor changes start) = db.feedUpTo start ++ changes := by
  have page : (db.above start).take changes.length = changes :=
    (List.prefix_iff_eq_take.mp within).symm
  have ordered : start ≤ lastCursor changes start := by
    rcases lastCursor_mem changes start with same | ⟨row, member, same⟩
    · exact le_of_eq same.symm
    · have above := of_decide_eq_true (List.mem_filter.mp (within.subset member)).2
      omega
  have earlier : (db.feedUpTo start).filter
      (fun row => (row.cursor : Int) ≤ lastCursor changes start) = db.feedUpTo start := by
    apply List.filter_eq_self.mpr
    intro row member
    have low := of_decide_eq_true (List.mem_filter.mp member).2
    apply decide_eq_true
    omega
  have later : (db.above start).filter
      (fun row => (row.cursor : Int) ≤ lastCursor changes start) = changes := by
    have filtered := filter_page (above_increasing feeding start) (fun row member =>
      of_decide_eq_true (List.mem_filter.mp member).2) changes.length
    rwa [page] at filtered
  calc
    db.feedUpTo (lastCursor changes start)
      = (db.feedUpTo start ++ db.above start).filter
          (fun row => (row.cursor : Int) ≤ lastCursor changes start) := by
        rw [Database.feedUpTo, Database.feedUpTo, Database.above,
          ← filter_split feeding.increasing start]
    _ = db.feedUpTo start ++ changes := by rw [List.filter_append, earlier, later]

namespace Page.Shows

variable {p : Page} {db : Database} {r : Received}

theorem onSnapshot {s : Snapshot} (exact' : s.Exact db) (small : db.Small) :
    (p.onMessage (.snapshot s)).Shows db (r.take (.snapshot s)) := by
  have drawn : (0 : Int) ≤ s.cursor ∧ (s.cursor : Int) ≤ db.cursorSequence :=
    ⟨Int.natCast_nonneg _, Int.ofNat_le.mpr exact'.1⟩
  have read : readNumber s.cursor = s.cursor := by
    apply readNumber_of_le drawn.1
    exact Int.ofNat_le.mpr (exact'.1.trans small.cursors)
  constructor
  · exact congrArg some read
  · rintro c position
    cases position
    exact drawn
  · rintro _ c position incidentId
    cases position
    have revisions := exact'.revisions small.incidents small.revisions
    exact (applied_newest revisions incidentId).trans (exact'.2 small.incidents incidentId)
  · intro cleared
    cases cleared

theorem onChange (shows : p.Shows db r) (feeding : db.Feeding) (small : db.Small) {row : FeedRow}
    (fits : Wire.Fits db r (.change row)) :
    (p.onMessage (.change row)).Shows db (r.take (.change row)) := by
  rcases fits with ⟨kept, start, isStart, within⟩
  have held : r.changes <+: db.above start := (List.prefix_append _ _).trans within
  have member : row ∈ db.incidentFeed := by
    have inRows := within.subset (List.mem_append_right _ (List.mem_singleton_self row))
    exact (List.mem_filter.mp inRows).1
  have before : r.position = some (lastCursor r.changes start) := by
    rw [Received.position, isStart]
    rfl
  have last : lastCursor (r.changes ++ [row]) start = row.cursor := by
    rw [lastCursor, List.getLast?_concat]
    rfl
  have position : (r.take (.change row)).position = some (row.cursor : Int) := by
    change r.start.map _ = _
    rw [isStart, Option.map_some]
    exact congrArg some last
  have drawn : (0 : Int) ≤ row.cursor ∧ (row.cursor : Int) ≤ db.cursorSequence :=
    ⟨Int.natCast_nonneg _, Int.ofNat_le.mpr (feeding.drawn row member)⟩
  constructor
  · rw [position]
    have bound := drawn.2.trans (Int.ofNat_le.mpr small.cursors)
    exact congrArg some (readNumber_of_le drawn.1 bound)
  · intro c isPosition
    rw [position] at isPosition
    cases isPosition
    exact drawn
  · intro _ c isPosition incidentId
    rw [position] at isPosition
    cases isPosition
    have shown := shows.incidents kept _ before
    have grown := feedUpTo_changes feeding within
    rw [last, ← List.append_assoc, ← feedUpTo_changes feeding held] at grown
    rw [grown, List.map_append]
    apply applyTo_newest shown
    · intro t inFeed
      rcases List.mem_map.mp inFeed with ⟨earlier, inRows, rfl⟩
      exact small.revisions earlier (List.mem_filter.mp inRows).1
    · exact small.revisions row member
  · intro cleared
    change r.cleared = true at cleared
    rw [kept] at cleared
    cases cleared

theorem onCursor (shows : p.Shows db r) (small : db.Small) {c start : Int}
    (isStart : r.start = some start) (same : lastCursor r.changes start = c) :
    Shows { p with cursor := some (readNumber c) } db r := by
  have position : r.position = some c := by
    rw [Received.position, isStart, Option.map_some, same]
  have drawn := shows.drawn c position
  have bound := drawn.2.trans (Int.ofNat_le.mpr small.cursors)
  refine ⟨?_, shows.drawn, shows.incidents, shows.gap⟩
  rw [position]
  exact congrArg some (readNumber_of_le drawn.1 bound)

theorem onMessage (shows : p.Shows db r) (feeding : db.Feeding) (small : db.Small)
    {message : Wire} (fits : message.Fits db r) :
    (p.onMessage message).Shows db (r.take message) := by
  cases message with
  | health gateways => exact ⟨shows.cursor, shows.drawn, shows.incidents, shows.gap⟩
  | snapshot s => exact onSnapshot fits small
  | change row => exact shows.onChange feeding small fits
  | live c =>
      rcases fits with ⟨_, start, isStart, same⟩
      exact shows.onCursor small isStart same
  | ping c =>
      rcases fits with ⟨_, start, isStart, same⟩
      exact shows.onCursor small isStart same
  | reset =>
      rcases fits with ⟨start, isStart, gap⟩
      refine ⟨shows.cursor, shows.drawn, ?_, ?_⟩
      · intro kept
        cases kept
      · intro _
        refine ⟨_, ?_, gap⟩
        change r.start.map _ = _
        rw [isStart]
        rfl

end Page.Shows

theorem Live.handle_sent {l : Live} (order : RowOrder) : l.sent <+: (l.handle order).sent := by
  unfold Live.handle
  split
  · exact List.prefix_refl _
  · exact List.prefix_append _ _
  · split
    · exact List.prefix_refl _
    · exact List.prefix_refl _
  · exact List.prefix_append _ _
  · split
    · exact List.prefix_refl _
    · exact List.prefix_refl _
  · exact List.prefix_refl _
  · exact List.prefix_append _ _
  · exact List.prefix_refl _
  · exact List.prefix_append _ _
  · exact List.prefix_append _ _
  · split
    · exact List.prefix_append _ _
    · split
      · exact List.prefix_refl _
      · exact List.prefix_append _ _

namespace Browser

def received (b : Browser) (r : Received) : Received :=
  Runs.run Received.take r (b.live.sent.take b.delivered)

/-- The socket goes on from what the page had when it was opened. -/
structure Synced (b : Browser) (r : Received) : Prop where
  start : r.start = b.live.after
  changes : r.changes = []
  sound : b.live.Sound r
  delivered : b.delivered ≤ b.live.sent.length
  shows : b.page.Shows b.live.database (b.received r)

variable {b : Browser} {r : Received}

theorem step_grows (b : Browser) (happening : Happening) :
    b.live.database = (b.step happening).live.database ∨
      b.live.database.Grows (b.step happening).live.database := by
  cases happening with
  | turn turn =>
      cases turn with
      | projector commit => exact Or.inr (Database.commit_grows commit)
      | handler order => exact Or.inl (Live.handle_keeps order).1.symm
  | deliver =>
      left
      simp only [step]
      split
      · rfl
      · rfl
  | reconnect => exact Or.inl rfl

theorem Synced.turn (synced : b.Synced r) (turn : Live.Turn) :
    (b.step (.turn turn)).Synced r := by
  have sound := synced.sound.step turn
  cases turn with
  | projector commit =>
      have grows : b.live.database.Grows (b.live.database.commit commit) :=
        Database.commit_grows commit
      have shows := synced.shows.grow synced.sound.feeding sound.feeding grows
      exact ⟨synced.start, synced.changes, sound, synced.delivered, shows⟩
  | handler order =>
      rcases Live.handle_sent (l := b.live) order with ⟨more, sent⟩
      have kept := Live.handle_keeps (l := b.live) order
      have taken : (b.live.handle order).sent.take b.delivered = b.live.sent.take b.delivered := by
        rw [← sent, List.take_append_of_le_length synced.delivered]
      constructor
      · exact synced.start.trans kept.2.symm
      · exact synced.changes
      · exact sound
      · change b.delivered ≤ (b.live.handle order).sent.length
        rw [← sent, List.length_append]
        exact Nat.le_add_right_of_le synced.delivered
      · change b.page.Shows (b.live.handle order).database
          (Runs.run Received.take r ((b.live.handle order).sent.take b.delivered))
        rw [kept.1, taken]
        exact synced.shows

/-- The next message continues what the page has received. -/
theorem Synced.fits (synced : b.Synced r) {message : Wire}
    (next : b.live.sent[b.delivered]? = some message) :
    message.Fits b.live.database (b.received r) := by
  rcases List.getElem?_eq_some_iff.mp next with ⟨inside, same⟩
  have follows := synced.sound.follows
  rw [← List.take_append_drop b.delivered b.live.sent, follows_append,
    List.drop_eq_getElem_cons inside, same] at follows
  exact follows.2.1

theorem received_deliver {message : Wire} (next : b.live.sent[b.delivered]? = some message) :
    Runs.run Received.take r (b.live.sent.take (b.delivered + 1)) =
      (b.received r).take message := by
  rcases List.getElem?_eq_some_iff.mp next with ⟨inside, same⟩
  rw [List.take_succ_eq_append_getElem inside, same, Runs.run_append]
  rfl

theorem step_deliver {message : Wire} (next : b.live.sent[b.delivered]? = some message) :
    b.step .deliver =
      { b with page := b.page.onMessage message, delivered := b.delivered + 1 } := by
  simp only [step, next]

theorem Synced.deliver (synced : b.Synced r) (small : b.live.database.Small) :
    (b.step .deliver).Synced r := by
  cases next : b.live.sent[b.delivered]? with
  | none =>
      simp only [step, next]
      exact synced
  | some message =>
      have inside := (List.getElem?_eq_some_iff.mp next).1
      rw [step_deliver next]
      refine ⟨synced.start, synced.changes, synced.sound, inside, ?_⟩
      change Page.Shows _ _ (Runs.run Received.take r (b.live.sent.take (b.delivered + 1)))
      rw [received_deliver next]
      exact synced.shows.onMessage synced.sound.feeding small (synced.fits next)

/-- The new socket starts from the page's cursor. -/
theorem Synced.reconnect (synced : b.Synced r) :
    (b.step .reconnect).Synced ⟨b.page.cursor, [], (b.received r).cleared⟩ := by
  have shows := synced.shows
  have position : Received.position ⟨b.page.cursor, [], (b.received r).cleared⟩ =
      (b.received r).position := by
    rw [← shows.cursor]
    change b.page.cursor.map (fun start => start) = _
    rw [Option.map_id']
  constructor
  · rfl
  · rfl
  · apply Live.sound_connect synced.sound.feeding
    rw [shows.cursor]
    exact shows.gap
  · exact Nat.zero_le _
  · change b.page.Shows b.live.database ⟨b.page.cursor, [], (b.received r).cleared⟩
    constructor
    · rw [position, shows.cursor]
    · rw [position]
      exact shows.drawn
    · rw [position]
      exact shows.incidents
    · rw [position]
      exact shows.gap

theorem Synced.step (synced : b.Synced r) (happening : Happening)
    (small : b.live.database.Small) : ∃ r', (b.step happening).Synced r' := by
  cases happening with
  | turn turn => exact ⟨r, synced.turn turn⟩
  | deliver => exact ⟨r, synced.deliver small⟩
  | reconnect => exact ⟨_, synced.reconnect⟩

theorem small_before (happening : Happening) (small : (b.step happening).live.database.Small) :
    b.live.database.Small := by
  rcases step_grows b happening with same | grows
  · rw [same]
    exact small
  · exact small.before grows

theorem synced_reached (history : List Commit) (happenings : List Happening)
    (small : (reached history happenings).live.database.Small) :
    ∃ r, (reached history happenings).Synced r := by
  induction happenings using List.reverseRecOn with
  | nil =>
      refine ⟨⟨none, [], false⟩, rfl, rfl, ?_, Nat.zero_le _, ?_⟩
      · apply Live.sound_connect (Database.Feeding.empty.commits history)
        intro cleared
        cases cleared
      · constructor
        · rfl
        · intro c position
          cases position
        · intro _ c position
          cases position
        · intro cleared
          cases cleared
  | append_singleton front happening ih =>
      rw [reached, Runs.run_append] at small ⊢
      have before := small_before happening small
      rcases ih before with ⟨r, synced⟩
      exact synced.step happening before

end Browser

/-- At every `live` message the page shows the newest transition of every incident in the feed up
to the message's cursor, however often it was cut off before. -/
theorem page_converges (history : List Commit) (happenings : List Browser.Happening) (c : Int)
    (small : (Browser.reached history happenings).live.database.Small)
    (next : (Browser.reached history happenings).live.sent[
      (Browser.reached history happenings).delivered]? = some (.live c)) (incidentId : String) :
    shownIncident ((Browser.reached history happenings).step .deliver).page.incidents incidentId =
      newestOf (((Browser.reached history happenings).live.database.feedUpTo c).map (·.payload))
        incidentId := by
  rcases Browser.synced_reached history happenings small with ⟨r, synced⟩
  rcases synced.fits next with ⟨kept, start, isStart, same⟩
  have position : ((Browser.reached history happenings).received r).position = some c := by
    rw [Received.position, isStart, Option.map_some, same]
  rw [Browser.step_deliver next]
  exact synced.shows.incidents kept c position incidentId

def handlerTurns (count : Nat) : List Browser.Happening :=
  List.replicate count (.turn (.handler (.ranked fun _ => 0)))

def shownAfter (revision : UInt64) : List Browser.Happening :=
  [.turn (.projector (.transition (sampleTransition revision 1 1) 0))] ++ handlerTurns 5 ++
    [.deliver]

def Wire.liveCursor : Wire → Option Int
  | .live cursor => some cursor
  | _ => none

theorem next_live {next : Option Wire} {c : Int} (live : next.bind Wire.liveCursor = some c) :
    next = some (.live c) := by
  cases next with
  | none => cases live
  | some message =>
      cases message with
      | live cursor =>
          cases live
          rfl
      | health gateways => cases live
      | snapshot s => cases live
      | reset => cases live
      | change row => cases live
      | ping cursor => cases live

/-- The revisions 1 and 3 are shown and the connection is lost; revision 2 comes with the next. -/
def cutOff : List Browser.Happening :=
  handlerTurns 5 ++ [.deliver, .deliver, .deliver] ++ shownAfter 1 ++ shownAfter 3 ++
    [.turn (.projector (.transition (sampleTransition 2 1 1) 0)), .reconnect] ++ handlerTurns 8 ++
    [.deliver, .deliver]

theorem page_converges_cut_off :
    shownIncident ((Browser.reached [] cutOff).step .deliver).page.incidents "inc-1" =
        newestOf (((Browser.reached [] cutOff).live.database.feedUpTo 3).map (·.payload)) "inc-1" ∧
      ((Browser.reached [] cutOff).live.database.feedUpTo 3).map (·.payload.revision) =
        [1, 3, 2] := by
  have small : (Browser.reached [] cutOff).live.database.Small := by
    constructor
    · decide +kernel
    · decide +kernel
    · decide +kernel
  have next := next_live (show ((Browser.reached [] cutOff).live.sent[2]?).bind
    Wire.liveCursor = some 3 by decide +kernel)
  have delivered : (Browser.reached [] cutOff).delivered = 2 := by decide +kernel
  rw [← delivered] at next
  exact ⟨page_converges [] cutOff 3 small next "inc-1", by decide +kernel⟩

/-- The page reads the revisions 2^53 and 2^53 + 1 as one number, and keeps the first. -/
theorem page_keeps_older_revision :
    ¬ ∀ (history : List Commit) (happenings : List Browser.Happening) (c : Int),
      (Browser.reached history happenings).live.database.incidents.length ≤ snapshotLimit →
      (Browser.reached history happenings).live.sent[
        (Browser.reached history happenings).delivered]? = some (.live c) →
      ∀ incidentId,
        shownIncident ((Browser.reached history happenings).step .deliver).page.incidents
            incidentId =
          newestOf (((Browser.reached history happenings).live.database.feedUpTo c).map
            (·.payload)) incidentId := by
  intro claimed
  have same := claimed [] (handlerTurns 5 ++ [.deliver, .deliver, .deliver] ++
    shownAfter 9007199254740992 ++ shownAfter 9007199254740993 ++ [.reconnect] ++
    handlerTurns 8 ++ [.deliver]) 2 (by decide +kernel)
    (next_live (by decide +kernel)) "inc-1"
  have revisions := congrArg (Option.map (·.revision)) same
  revert revisions
  decide +kernel

end PiAgents.Incidents
