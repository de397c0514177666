import PiAgents.Capture.FlowTable

/-! What the operations of the flow table do to the open flow of one key: `upsert` records the
packet in one flow, and every flow that leaves the table is reported once, as it was. -/

namespace PiAgents.Capture

@[simp] theorem mem_retain {α : Type} {β : α → Type} [DecidableEq α] (keep : Sigma β → Bool)
    (map : AList β) (entry : Sigma β) :
    entry ∈ (retain keep map).entries ↔ entry ∈ map.entries ∧ keep entry = true :=
  List.mem_filter

theorem mem_entries_iff_lookup {map : Entries} {key : FlowKey} {flow : MicroFlow} :
    (⟨key, flow⟩ : Sigma fun _ : FlowKey => MicroFlow) ∈ map.entries ↔
      map.lookup key = some flow :=
  AList.mem_lookup_iff.symm

namespace FlowTable

/-- The records of `out` are the open flows of the keys they name, as they were, and these keys
are the ones that are no longer open. -/
structure Closes (before after : FlowTable) (out : List FlowRecord) : Prop where
  reported : ∀ record ∈ out, before.get record.key = some record.flow ∧
    record.attemptOutcome = record.flow.attemptOutcome record.key.protocol
  closed : ∀ record ∈ out, after.get record.key = none
  kept : ∀ key, (∀ record ∈ out, record.key ≠ key) → after.get key = before.get key

theorem Closes.refl (table : FlowTable) : Closes table table [] where
  reported := by simp
  closed := by simp
  kept := by simp

theorem Closes.trans {first second third : FlowTable} {out rest : List FlowRecord}
    (one : Closes first second out) (two : Closes second third rest) :
    Closes first third (out ++ rest) := by
  have fresh : ∀ record ∈ rest, ∀ earlier ∈ out, earlier.key ≠ record.key := by
    intro record member earlier earlierMember sameKey
    have gone := one.closed earlier earlierMember
    rw [sameKey, (two.reported record member).1] at gone
    cases gone
  have stays : ∀ record ∈ out, third.get record.key = none := by
    intro record member
    by_cases again : ∃ later ∈ rest, later.key = record.key
    · obtain ⟨later, laterMember, sameKey⟩ := again
      rw [← sameKey]
      exact two.closed later laterMember
    · push Not at again
      rw [two.kept record.key again]
      exact one.closed record member
  refine ⟨?_, ?_, ?_⟩
  · intro record member
    rcases List.mem_append.mp member with early | late
    · exact one.reported record early
    · have reported := two.reported record late
      rw [one.kept record.key (fresh record late)] at reported
      exact reported
  · intro record member
    rcases List.mem_append.mp member with early | late
    · exact stays record early
    · exact two.closed record late
  · intro key other
    rw [two.kept key fun record member => other record (List.mem_append_right _ member),
      one.kept key fun record member => other record (List.mem_append_left _ member)]

theorem remove_and_close_closes (table : FlowTable) (key : FlowKey) (flow : MicroFlow)
    (present : table.get key = some flow) :
    Closes table (table.removeAndClose key flow).1 [(table.removeAndClose key flow).2] where
  reported := by
    intro record member
    rw [List.mem_singleton.mp member]
    exact ⟨present, rfl⟩
  closed := by
    intro record member
    rw [List.mem_singleton.mp member]
    exact AList.lookup_erase key table.entries
  kept := by
    intro other differs
    have distinct : key ≠ other := differs _ (List.mem_singleton_self _)
    exact AList.lookup_erase_ne distinct.symm

theorem drain_keys_closes (table : FlowTable) (keys : List FlowKey) :
    Closes table (table.drainKeys keys).1 (table.drainKeys keys).2 := by
  induction keys generalizing table with
  | nil => exact .refl table
  | cons key keys ih =>
      unfold drainKeys
      split
      · next flow present =>
          exact (remove_and_close_closes table key flow present).trans (ih _)
      · exact ih table

theorem flush_due_closes (table : FlowTable) (nowUs : Int) :
    Closes table (table.flushDue nowUs).1 (table.flushDue nowUs).2 := by
  have drained := drain_keys_closes table
    (((table.entries.entries.filter fun entry => table.due entry.2 nowUs).insertionSort
      flushOrder).map Sigma.fst)
  exact ⟨drained.reported, drained.closed, drained.kept⟩

theorem flush_all_closes (table : FlowTable) :
    Closes table table.flushAll.1 table.flushAll.2 :=
  drain_keys_closes table _

theorem drain_keys_removes (table : FlowTable) (keys : List FlowKey) (key : FlowKey)
    (member : key ∈ keys) : (table.drainKeys keys).1.get key = none := by
  induction keys generalizing table with
  | nil => cases member
  | cons first keys ih =>
      by_cases later : key ∈ keys
      · unfold drainKeys
        split
        · exact ih _ later
        · exact ih table later
      · have isFirst : key = first := (List.mem_cons.mp member).resolve_right later
        subst isFirst
        -- The rest of the keys leaves the flow of `key` as `removeAndClose` left it.
        have stays : ∀ after : FlowTable, after.get key = none →
            (after.drainKeys keys).1.get key = none := by
          intro after absent
          have closes := drain_keys_closes after keys
          rw [closes.kept key, absent]
          intro record emitted own
          have present := (closes.reported record emitted).1
          rw [own, absent] at present
          cases present
        unfold drainKeys
        split
        · exact stays _ (AList.lookup_erase key table.entries)
        · next absent => exact stays table absent

theorem flush_all_reports (table : FlowTable) (key : FlowKey) (flow : MicroFlow)
    (present : table.get key = some flow) :
    ∃ record ∈ table.flushAll.2, record.key = key ∧ record.flow = flow := by
  have listed : key ∈ (table.entries.entries.insertionSort flushOrder).map Sigma.fst := by
    refine List.mem_map.mpr ⟨⟨key, flow⟩, ?_, rfl⟩
    rw [List.mem_insertionSort]
    exact mem_entries_iff_lookup.mpr present
  have removed : table.flushAll.1.get key = none := drain_keys_removes table _ key listed
  have closes := flush_all_closes table
  by_contra unreported
  push Not at unreported
  have kept := closes.kept key fun record member own => by
    have same := (closes.reported record member).1
    rw [own, present, Option.some.injEq] at same
    exact unreported record member own same.symm
  rw [removed, present] at kept
  cases kept

theorem oldest_open (table : FlowTable) (entry : Sigma fun _ : FlowKey => MicroFlow)
    (oldest : table.oldest = some entry) : table.get entry.1 = some entry.2 := by
  have member : entry ∈ table.entries.entries.insertionSort evictionOrder :=
    List.mem_of_mem_head? oldest
  rw [List.mem_insertionSort] at member
  exact mem_entries_iff_lookup.mp member

theorem evict_closes (table : FlowTable) : Closes table table.evict.1 table.evict.2.1 := by
  unfold evict
  split
  · split
    · next entry oldest =>
        exact remove_and_close_closes table entry.1 entry.2 (oldest_open table entry oldest)
    · exact .refl table
  · exact .refl table

/-- The micro-flow that `upsert` records the packet in, as it is before the packet. -/
def landing (table : FlowTable) (obs : Observation) : MicroFlow :=
  match table.get obs.key with
  | some flow =>
    if table.due flow obs.timestampUs then .new obs (some flow.direction) else flow
  | none => .new obs ((table.recent.lookup obs.key).map Prod.fst)

/-- What `upsert` does: the flows it reports leave the table as they were, and the packet is
recorded in the flow it lands in. -/
structure Upserts (before after : FlowTable) (obs : Observation) (out : List FlowRecord) :
    Prop where
  reported : ∀ record ∈ out, before.get record.key = some record.flow ∧
    record.attemptOutcome = record.flow.attemptOutcome record.key.protocol
  /-- The open flow of the key itself is reported exactly if it is due. -/
  due : (∃ record ∈ out, record.key = obs.key) ↔
    ∃ flow, before.get obs.key = some flow ∧ before.due flow obs.timestampUs = true
  own : after.get obs.key = some ((before.landing obs).record obs)
  closed : ∀ record ∈ out, record.key ≠ obs.key → after.get record.key = none
  kept : ∀ key, key ≠ obs.key → (∀ record ∈ out, record.key ≠ key) →
    after.get key = before.get key

theorem evict_recent (table : FlowTable) (key : FlowKey) (absent : table.get key = none) :
    table.evict.1.recent.lookup key = table.recent.lookup key := by
  unfold evict
  split
  · split
    · next entry oldest =>
        have present := oldest_open table entry oldest
        have distinct : key ≠ entry.1 := by
          intro same
          rw [same, present] at absent
          cases absent
        exact AList.lookup_insert_ne distinct
    · rfl
  · rfl

theorem open_new_upserts (table : FlowTable) (obs : Observation)
    (absent : table.get obs.key = none) :
    Upserts table (table.openNew obs).1 obs (table.openNew obs).2.1 := by
  have evicted := evict_closes table
  have landed : table.landing obs = .new obs ((table.recent.lookup obs.key).map Prod.fst) := by
    simp only [landing, absent]
  refine ⟨evicted.reported, ?_, ?_, ?_, ?_⟩
  · constructor
    · rintro ⟨record, member, own⟩
      have present := (evicted.reported record member).1
      rw [own, absent] at present
      cases present
    · rintro ⟨flow, present, -⟩
      rw [absent] at present
      cases present
  · rw [landed, ← evict_recent table obs.key absent]
    exact AList.lookup_insert _
  · intro record member other
    exact (AList.lookup_insert_ne other).trans (evicted.closed record member)
  · intro key other unreported
    exact (AList.lookup_insert_ne other).trans (evicted.kept key unreported)

theorem reopen_upserts (table : FlowTable) (obs : Observation) (flow : MicroFlow)
    (present : table.get obs.key = some flow) (due : table.due flow obs.timestampUs = true) :
    Upserts table (((table.removeAndClose obs.key flow).1.openNew obs).1) obs
      ((table.removeAndClose obs.key flow).2 ::
        ((table.removeAndClose obs.key flow).1.openNew obs).2.1) := by
  have closes := remove_and_close_closes table obs.key flow present
  set record := (table.removeAndClose obs.key flow).2
  set closed := (table.removeAndClose obs.key flow).1
  have absent : closed.get obs.key = none := closes.closed record (List.mem_singleton_self _)
  have opened := open_new_upserts closed obs absent
  have remembered : closed.recent.lookup obs.key = some (flow.direction, flow.lastPacketUs) :=
    AList.lookup_insert _
  have fresh : table.landing obs = .new obs (some flow.direction) := by
    simp only [landing, present, due, if_true]
  have landed : closed.landing obs = table.landing obs := by
    rw [fresh]
    simp only [landing, absent, remembered, Option.map_some]
  refine ⟨?_, ?_, landed ▸ opened.own, ?_, ?_⟩
  · intro later member
    rcases List.mem_cons.mp member with own | member
    · rw [own]
      exact closes.reported record (List.mem_singleton_self _)
    · have reported := opened.reported later member
      have other : obs.key ≠ later.key := by
        intro same
        rw [← same, absent] at reported
        cases reported.1
      rw [closes.kept later.key fun earlier earlierMember =>
        List.mem_singleton.mp earlierMember ▸ other] at reported
      exact reported
  · exact ⟨fun _ => ⟨flow, present, due⟩, fun _ => ⟨record, List.mem_cons_self, rfl⟩⟩
  · intro later member other
    rcases List.mem_cons.mp member with own | member
    · rw [own] at other
      exact absurd rfl other
    · exact opened.closed later member other
  · intro key other unreported
    rw [opened.kept key other fun later member =>
      unreported later (List.mem_cons_of_mem _ member)]
    exact closes.kept key fun earlier member =>
      List.mem_singleton.mp member ▸ unreported record List.mem_cons_self

theorem upsert_upserts (table : FlowTable) (obs : Observation) :
    Upserts table (table.upsert obs).1 obs (table.upsert obs).2.1 := by
  cases present : table.get obs.key with
  | none =>
      have plain : table.upsert obs = table.openNew obs := by
        unfold upsert
        rw [show table.entries.lookup obs.key = none from present]
      rw [plain]
      exact open_new_upserts table obs present
  | some flow =>
      have looked : table.entries.lookup obs.key = some flow := present
      by_cases due : table.due flow obs.timestampUs = true
      · have reopened := reopen_upserts table obs flow present due
        have closedFirst : table.upsert obs =
            (((table.removeAndClose obs.key flow).1.openNew obs).1,
              (table.removeAndClose obs.key flow).2 ::
                ((table.removeAndClose obs.key flow).1.openNew obs).2.1,
              ((table.removeAndClose obs.key flow).1.openNew obs).2.2) := by
          simp only [upsert, looked, due, if_true]
        rw [closedFirst]
        exact reopened
      · have updated : table.upsert obs =
            ({ table with entries := table.entries.insert obs.key (flow.record obs) }, [],
              .updated) := by
          simp only [upsert, looked, due, if_false, Bool.false_eq_true]
        have landed : table.landing obs = flow := by
          simp only [landing, present, due, if_false, Bool.false_eq_true]
        rw [updated]
        refine ⟨by simp, ?_, ?_, by simp, ?_⟩
        · simp only [present, List.not_mem_nil, false_and, exists_false, Option.some.injEq,
            exists_eq_left', due, Bool.false_eq_true]
        · rw [landed]
          exact AList.lookup_insert _
        · intro key other _
          exact AList.lookup_insert_ne other

end FlowTable

end PiAgents.Capture
