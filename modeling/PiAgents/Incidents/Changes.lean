import PiAgents.Incidents.Projection

/-! The change feed as a client reads it: what the API answers to a cursor while the projector
appends to the feed and prunes it. -/

namespace PiAgents.Incidents

/-- `SELECT min(cursor) FROM incident_feed`. -/
def Database.oldestCursor (db : Database) : Option Nat := (db.incidentFeed.map (·.cursor)).min?

/-- `WHERE cursor > after ORDER BY cursor LIMIT limit`. -/
def Database.feedAfter (db : Database) (after : Int) (limit : Nat) : List FeedRow :=
  ((db.incidentFeed.filter fun row => after < row.cursor).mergeSort
    fun a b => a.cursor ≤ b.cursor).take limit

inductive Answer where
  | cursorExpired
  | page (changes : List FeedRow) (cursor : Int)

def lastCursor (rows : List FeedRow) (after : Int) : Int :=
  (rows.getLast?.map fun row => (row.cursor : Int)).getD after

/-- Two statements, each on the database as it then is. -/
def changes (atMin atRows : Database) (after : Int) (limit : Nat) : Answer :=
  let rows := atRows.feedAfter after limit
  match atMin.oldestCursor with
  | some oldest =>
      if after < oldest - 1 then .cursorExpired else .page rows (lastCursor rows after)
  | none => .page rows (lastCursor rows after)

inductive Transaction where
  | apply (t : DetectionTransition) (now : Timestamp)
  | prune (now : Timestamp) (olderThan : Int)
  | rollBack (drawn : Nat)

structure FeedRun where
  database : Database
  fed : List FeedRow

namespace FeedRun

def start : FeedRun := ⟨.empty, []⟩

def step (run : FeedRun) (transaction : Transaction) : FeedRun :=
  match transaction with
  | .apply t now =>
      match run.database.applyTransition t now with
      | .ok (committed, _) =>
          ⟨committed, run.fed ++ committed.incidentFeed.drop run.database.incidentFeed.length⟩
      | .error _ => run
  | .prune now olderThan => { run with database := (run.database.pruneFeed now olderThan).1 }
  | .rollBack drawn => { run with database := run.database.skipCursors drawn }

def after (transactions : List Transaction) : FeedRun := Runs.run step start transactions

end FeedRun

theorem applyTransition_feed {db committed : Database} {t : DetectionTransition} {now : Timestamp}
    {cursor : Option Nat} (ok : db.applyTransition t now = .ok (committed, cursor)) :
    (committed.incidentFeed = db.incidentFeed ∧ committed.cursorSequence = db.cursorSequence) ∨
      ∃ row : FeedRow, row.cursor = db.cursorSequence + 1 ∧
        committed.incidentFeed = db.incidentFeed ++ [row] ∧
        committed.cursorSequence = db.cursorSequence + 1 := by
  rcases bind_ok ok with ⟨row, _, ok⟩
  by_cases applied : db.applied t.transitionId = true
  · rw [if_pos applied] at ok
    cases ok
    exact Or.inl ⟨rfl, rfl⟩
  · rw [if_neg applied] at ok
    rcases bind_ok ok with ⟨state, _, ok⟩
    cases ok
    exact Or.inr ⟨_, rfl, rfl, rfl⟩

/-- The feed is what pruning left of the rows ever committed, which are in cursor order. -/
structure FeedRun.Ordered (run : FeedRun) : Prop where
  retained : run.database.incidentFeed.Sublist run.fed
  increasing : run.fed.Pairwise (·.cursor < ·.cursor)
  drawn : ∀ row ∈ run.fed, row.cursor ≤ run.database.cursorSequence

namespace FeedRun

theorem ordered_start : start.Ordered := by
  constructor
  · exact List.Sublist.refl _
  · exact List.Pairwise.nil
  · intro row member
    cases member

theorem Ordered.append {run : FeedRun} (ordered : run.Ordered) {committed : Database}
    {row : FeedRow} (cursor : row.cursor = run.database.cursorSequence + 1)
    (feed : committed.incidentFeed = run.database.incidentFeed ++ [row])
    (sequence : committed.cursorSequence = run.database.cursorSequence + 1) :
    Ordered ⟨committed, run.fed ++ [row]⟩ := by
  constructor
  · change committed.incidentFeed.Sublist _
    rw [feed]
    exact ordered.retained.append (List.Sublist.refl _)
  · apply List.pairwise_append.mpr
    refine ⟨ordered.increasing, List.pairwise_singleton _ _, ?_⟩
    intro earlier member later single
    rw [List.mem_singleton.mp single, cursor]
    exact Nat.lt_succ_of_le (ordered.drawn earlier member)
  · intro other member
    change other.cursor ≤ committed.cursorSequence
    rw [sequence]
    rcases List.mem_append.mp member with old | new
    · exact Nat.le_succ_of_le (ordered.drawn other old)
    · rw [List.mem_singleton.mp new, cursor]

theorem step_ordered (run : FeedRun) (transaction : Transaction) (ordered : run.Ordered) :
    (run.step transaction).Ordered := by
  cases transaction with
  | apply t now =>
      cases outcome : run.database.applyTransition t now with
      | error failure =>
          simp only [step, outcome]
          exact ordered
      | ok answer =>
          simp only [step, outcome]
          rcases applyTransition_feed outcome with ⟨feed, sequence⟩ | ⟨row, cursor, feed, sequence⟩
          · rw [feed, List.drop_length, List.append_nil]
            constructor
            · change answer.1.incidentFeed.Sublist _
              rw [feed]
              exact ordered.retained
            · exact ordered.increasing
            · intro row member
              change row.cursor ≤ answer.1.cursorSequence
              rw [sequence]
              exact ordered.drawn row member
          · rw [feed, List.drop_left]
            exact ordered.append cursor feed sequence
  | prune now olderThan =>
      exact { ordered with retained := List.filter_sublist.trans ordered.retained }
  | rollBack drawn =>
      exact { ordered with
        drawn := fun row member => Nat.le_add_right_of_le (ordered.drawn row member) }

theorem run_ordered {run : FeedRun} (ordered : run.Ordered) (transactions : List Transaction) :
    (Runs.run step run transactions).Ordered := by
  induction transactions generalizing run with
  | nil => exact ordered
  | cons transaction rest ih => exact ih (step_ordered run transaction ordered)

end FeedRun

theorem take_of_sublist {α : Type} {part whole : List α} (sublist : part.Sublist whole)
    (distinct : whole.Nodup) (limit : Nat) (holds : ∀ item ∈ whole.take limit, item ∈ part) :
    part.take limit = whole.take limit := by
  induction sublist generalizing limit with
  | slnil => rfl
  | cons first sublist ih =>
      cases limit with
      | zero => rfl
      | succ limit =>
          have inPart := holds first (List.mem_cons_self ..)
          exact absurd (sublist.subset inPart) (List.nodup_cons.mp distinct).1
  | cons_cons first sublist ih =>
      cases limit with
      | zero => rfl
      | succ limit =>
          rw [List.take_succ_cons, List.take_succ_cons]
          congr 1
          apply ih (List.nodup_cons.mp distinct).2
          intro item member
          rcases List.mem_cons.mp (holds item (List.mem_cons_of_mem _ member)) with rfl | inPart
          · exact absurd (List.mem_of_mem_take member) (List.nodup_cons.mp distinct).1
          · exact inPart

def FeedRun.unseen (run : FeedRun) (after : Int) (limit : Nat) : List FeedRow :=
  (run.fed.filter fun row => after < row.cursor).take limit

namespace FeedRun.Ordered

variable {run : FeedRun}

theorem feedAfter_eq (ordered : run.Ordered) (after : Int) (limit : Nat) :
    run.database.feedAfter after limit =
      (run.database.incidentFeed.filter fun row => after < row.cursor).take limit := by
  have increasing : run.database.incidentFeed.Pairwise (·.cursor < ·.cursor) :=
    ordered.increasing.sublist ordered.retained
  rw [Database.feedAfter, List.mergeSort_of_pairwise]
  apply (increasing.sublist List.filter_sublist).imp
  intro earlier later below
  exact decide_eq_true (Nat.le_of_lt below)

/-- The rows returned are the first rows ever committed exactly when none of these is pruned. -/
theorem feedAfter_exact (ordered : run.Ordered) (after : Int) (limit : Nat) :
    run.database.feedAfter after limit = run.unseen after limit ↔
      ∀ row ∈ run.unseen after limit, row ∈ run.database.incidentFeed := by
  rw [ordered.feedAfter_eq]
  constructor
  · intro same row member
    rw [← same] at member
    exact (List.mem_filter.mp (List.mem_of_mem_take member)).1
  · intro held
    have distinct : (run.fed.filter fun row => after < row.cursor).Nodup := by
      apply (ordered.increasing.sublist List.filter_sublist).imp
      intro earlier later below same
      rw [same] at below
      exact Nat.lt_irrefl _ below
    apply take_of_sublist (ordered.retained.filter _) distinct
    intro row member
    have passed := (List.mem_filter.mp (List.mem_of_mem_take member)).2
    exact List.mem_filter.mpr ⟨held row member, passed⟩

end FeedRun.Ordered

/-- The client is told to load a snapshot or gets exactly the next rows ever committed. -/
def Answer.Exact (answer : Answer) (run : FeedRun) (after : Int) (limit : Nat) : Prop :=
  answer = .cursorExpired ∨
    answer = .page (run.unseen after limit) (lastCursor (run.unseen after limit) after)

/-- The feed is not empty and its least cursor shows that rows after this one are missing. -/
def Database.showsGap (db : Database) (after : Int) : Prop :=
  ∃ oldest, db.oldestCursor = some oldest ∧ after < oldest - 1

theorem changes_of_gap {atMin : Database} {after : Int} (gap : atMin.showsGap after)
    (atRows : Database) (limit : Nat) : changes atMin atRows after limit = .cursorExpired := by
  rcases gap with ⟨oldest, found, below⟩
  simp only [changes, found, below, if_true]

theorem changes_of_no_gap {atMin : Database} {after : Int} (noGap : ¬ atMin.showsGap after)
    (atRows : Database) (limit : Nat) : changes atMin atRows after limit =
      .page (atRows.feedAfter after limit) (lastCursor (atRows.feedAfter after limit) after) := by
  cases found : atMin.oldestCursor with
  | none => simp only [changes, found]
  | some oldest =>
      have covered : ¬ after < oldest - 1 := fun below => noGap ⟨oldest, found, below⟩
      simp only [changes, found, covered, if_false]

theorem FeedRun.Ordered.exact_iff {run : FeedRun} (ordered : run.Ordered) (atMin : Database)
    (after : Int) (limit : Nat) :
    (changes atMin run.database after limit).Exact run after limit ↔
      atMin.showsGap after ∨
        ∀ row ∈ run.unseen after limit, row ∈ run.database.incidentFeed := by
  have sameRows := ordered.feedAfter_exact after limit
  by_cases gap : atMin.showsGap after
  · rw [changes_of_gap gap]
    exact iff_of_true (Or.inl rfl) (Or.inl gap)
  · rw [changes_of_no_gap gap]
    constructor
    · rintro (refused | same)
      · cases refused
      · injection same with rows
        exact Or.inr (sameRows.mp rows)
    · rintro (shown | held)
      · exact absurd shown gap
      · rw [sameRows.mpr held]
        exact Or.inr rfl

/-- The two reads, with whatever commits before them and between them, answer exactly when the
first one shows a gap or the second one still finds the next rows. -/
theorem changes_exact_iff (history between : List Transaction) (after : Int) (limit : Nat) :
    (changes (FeedRun.after history).database (FeedRun.after (history ++ between)).database after
        limit).Exact (FeedRun.after (history ++ between)) after limit ↔
      (FeedRun.after history).database.showsGap after ∨
        ∀ row ∈ (FeedRun.after (history ++ between)).unseen after limit,
          row ∈ (FeedRun.after (history ++ between)).database.incidentFeed := by
  have ordered := FeedRun.run_ordered FeedRun.ordered_start (history ++ between)
  exact ordered.exact_iff (FeedRun.after history).database after limit

/-- Eight quiet days empty the feed; a client that saw its first row is told it is up to date. -/
theorem emptied_feed_hides_changes :
    ¬ ∀ (history between : List Transaction) (after : Int) (limit : Nat),
      (∃ row ∈ (FeedRun.after history).fed, (row.cursor : Int) = after) →
      (changes (FeedRun.after history).database (FeedRun.after (history ++ between)).database after
        limit).Exact (FeedRun.after (history ++ between)) after limit := by
  intro claimed
  have ordered := FeedRun.run_ordered FeedRun.ordered_start
    [.apply (sampleTransition 1 1 1) 0, .apply (sampleTransition 2 2 2) 0,
      .prune (8 * 24 * 3600 * 1000000) feedRetention]
  have exactly := (ordered.exact_iff _ 1 500).mp
    (claimed [.apply (sampleTransition 1 1 1) 0, .apply (sampleTransition 2 2 2) 0,
      .prune (8 * 24 * 3600 * 1000000) feedRetention] [] 1 500 ⟨_, List.mem_cons_self .., rfl⟩)
  rcases exactly with ⟨oldest, found, _⟩ | held
  · cases found
  · cases held _ (List.mem_cons_self ..)

end PiAgents.Incidents
