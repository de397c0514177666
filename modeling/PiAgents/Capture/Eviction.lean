import PiAgents.Capture.Moves

/-! The order of flow keys is linear, so that a full table has one flow to evict: the least by last
packet and key. -/

namespace PiAgents.Capture

private theorem rankLe_total (a b : List Nat) : rankLe a b = true ∨ rankLe b a = true := by
  induction a generalizing b with
  | nil => exact .inl rfl
  | cons x xs ih =>
      cases b with
      | nil => exact .inr rfl
      | cons y ys =>
          simp only [rankLe, Bool.or_eq_true, decide_eq_true_eq, Bool.and_eq_true, beq_iff_eq]
          rcases Nat.lt_trichotomy x y with less | same | greater
          · exact .inl (.inl less)
          · rcases ih ys with first | second
            · exact .inl (.inr ⟨same, first⟩)
            · exact .inr (.inr ⟨same.symm, second⟩)
          · exact .inr (.inl greater)

private theorem rankLe_trans {a b c : List Nat} (first : rankLe a b = true)
    (second : rankLe b c = true) :
    rankLe a c = true := by
  induction a generalizing b c with
  | nil => rfl
  | cons x xs ih =>
      cases b with
      | nil => cases first
      | cons y ys =>
          cases c with
          | nil => cases second
          | cons z zs =>
              simp only [rankLe, Bool.or_eq_true, decide_eq_true_eq, Bool.and_eq_true,
                beq_iff_eq] at first second ⊢
              rcases first with less | ⟨rfl, first⟩
              · rcases second with later | ⟨rfl, second⟩
                · exact .inl (less.trans later)
                · exact .inl less
              · rcases second with later | ⟨rfl, second⟩
                · exact .inl later
                · exact .inr ⟨rfl, ih first second⟩

private theorem rankLe_antisymm {a b : List Nat} (first : rankLe a b = true)
    (second : rankLe b a = true) :
    a = b := by
  induction a generalizing b with
  | nil =>
      cases b with
      | nil => rfl
      | cons y ys => cases second
  | cons x xs ih =>
      cases b with
      | nil => cases first
      | cons y ys =>
          simp only [rankLe, Bool.or_eq_true, decide_eq_true_eq, Bool.and_eq_true,
            beq_iff_eq] at first second
          have same : x = y := by omega
          have tails : rankLe xs ys = true ∧ rankLe ys xs = true := by
            constructor
            · exact (first.resolve_left (by omega)).2
            · exact (second.resolve_left (by omega)).2
          rw [same, ih tails.1 tails.2]

private theorem octets_injective {n : Nat} {a b : Vector UInt8 n}
    (same : a.toList.map UInt8.toNat = b.toList.map UInt8.toNat) : a = b := by
  have injective : Function.Injective UInt8.toNat := fun _ _ equal => UInt8.toNat.inj equal
  exact Vector.toList_inj.mp (injective.list_map same)

private theorem ip_rank_append {a b : IpAddr} {rest other : List Nat}
    (same : a.rank ++ rest = b.rank ++ other) : a = b ∧ rest = other := by
  cases a with
  | v4 octets =>
      cases b with
      | v4 others =>
          have parts := List.append_inj same (by simp only [IpAddr.rank, List.length_cons,
            List.length_map, Vector.length_toList])
          exact ⟨congrArg IpAddr.v4 (octets_injective (List.cons.inj parts.1).2), parts.2⟩
      | v6 others => cases (List.cons.inj same).1
  | v6 octets =>
      cases b with
      | v4 others => cases (List.cons.inj same).1
      | v6 others =>
          have parts := List.append_inj same (by simp only [IpAddr.rank, List.length_cons,
            List.length_map, Vector.length_toList])
          exact ⟨congrArg IpAddr.v6 (octets_injective (List.cons.inj parts.1).2), parts.2⟩

private theorem protocol_rank_injective {a b : Protocol} (same : a.rank = b.rank) : a = b := by
  cases a with
  | other number =>
      cases b with
      | other value =>
          have numbers := (List.cons.inj (List.cons.inj same).2).1
          exact congrArg Protocol.other (UInt8.toNat.inj numbers)
      | tcp => cases same
      | udp => cases same
      | icmp => cases same
      | icmpv6 => cases same
  | tcp => cases b <;> first | rfl | cases same
  | udp => cases b <;> first | rfl | cases same
  | icmp => cases b <;> first | rfl | cases same
  | icmpv6 => cases b <;> first | rfl | cases same

theorem rank_injective {a b : FlowKey} (same : a.rank = b.rank) : a = b := by
  rcases a with ⟨mac, ip, remote, port, remotePort, protocol⟩
  rcases b with ⟨mac', ip', remote', port', remotePort', protocol'⟩
  simp only [FlowKey.rank, List.append_assoc] at same
  have macs := List.append_inj same (by simp only [List.length_map, Vector.length_toList])
  have ips := ip_rank_append macs.2
  have remotes := ip_rank_append ips.2
  have ports := List.append_inj remotes.2 rfl
  have first := UInt16.toNat.inj (List.cons.inj ports.1).1
  have second := UInt16.toNat.inj (List.cons.inj (List.cons.inj ports.1).2).1
  rw [octets_injective macs.1, ips.1, remotes.1, first, second, protocol_rank_injective ports.2]

namespace FlowTable

theorem evictionOrder_total (a b : Sigma fun _ : FlowKey => MicroFlow) :
    evictionOrder a b ∨ evictionOrder b a := by
  unfold evictionOrder
  rcases Int.lt_trichotomy a.2.lastPacketUs b.2.lastPacketUs with less | same | greater
  · exact .inl (.inl less)
  · rcases rankLe_total a.1.rank b.1.rank with first | second
    · exact .inl (.inr ⟨same, first⟩)
    · exact .inr (.inr ⟨same.symm, second⟩)
  · exact .inr (.inl greater)

theorem evictionOrder_trans {a b c : Sigma fun _ : FlowKey => MicroFlow}
    (first : evictionOrder a b) (second : evictionOrder b c) : evictionOrder a c := by
  unfold evictionOrder at first second ⊢
  rcases first with less | ⟨same, first⟩
  · rcases second with later | ⟨equal, second⟩
    · exact .inl (less.trans later)
    · exact .inl (equal ▸ less)
  · rcases second with later | ⟨equal, second⟩
    · exact .inl (same ▸ later)
    · exact .inr ⟨same.trans equal, rankLe_trans first second⟩

theorem evictionOrder_key {a b : Sigma fun _ : FlowKey => MicroFlow}
    (first : evictionOrder a b) (second : evictionOrder b a) : a.1 = b.1 := by
  unfold evictionOrder at first second
  rcases first with less | ⟨same, first⟩
  · rcases second with later | ⟨equal, second⟩
    · omega
    · omega
  · rcases second with later | ⟨equal, second⟩
    · omega
    · exact rank_injective (rankLe_antisymm first second)

theorem oldest_least {table : FlowTable} {entry : Sigma fun _ : FlowKey => MicroFlow}
    (oldest : table.oldest = some entry) (other : FlowKey) (flow : MicroFlow)
    (present : table.get other = some flow) : evictionOrder entry ⟨other, flow⟩ := by
  have total : Std.Total evictionOrder := ⟨evictionOrder_total⟩
  have trans : IsTrans _ evictionOrder := ⟨fun _ _ _ => evictionOrder_trans⟩
  have sorted := List.pairwise_insertionSort evictionOrder table.entries.entries
  have member : (⟨other, flow⟩ : Sigma fun _ : FlowKey => MicroFlow) ∈
      table.entries.entries.insertionSort evictionOrder :=
    (List.mem_insertionSort evictionOrder).mpr (mem_entries_iff_lookup.mpr present)
  rw [FlowTable.oldest] at oldest
  cases order : table.entries.entries.insertionSort evictionOrder with
  | nil =>
      rw [order] at member
      cases member
  | cons first rest =>
      rw [order] at sorted member oldest
      have head : first = entry := Option.some.inj oldest
      rw [← head]
      rcases List.mem_cons.mp member with own | later
      · rw [own]
        exact (evictionOrder_total first first).elim id id
      · exact (List.pairwise_cons.mp sorted).1 _ later

/-- The flow of a key is evicted: it was the least of the table, and it alone is reported. -/
structure Evicts (before after : FlowTable) (obs : Observation) (out : List FlowRecord)
    (key : FlowKey) (flow : MicroFlow) : Prop where
  present : before.get key = some flow
  full : before.capacity ≤ before.len
  fresh : before.get obs.key = none
  least : ∀ other entry, before.get other = some entry → evictionOrder ⟨key, flow⟩ ⟨other, entry⟩
  only : ∀ other entry, before.get other = some entry →
    evictionOrder ⟨other, entry⟩ ⟨key, flow⟩ → other = key
  removed : after.get key = none
  reported : out.map (fun record => (record.key, record.flow)) = [(key, flow)]

theorem evict_evicts {table : FlowTable} {key : FlowKey}
    (evicted : table.evict.2.2 = some key) :
    table.capacity ≤ table.len ∧ ∃ flow, table.oldest = some ⟨key, flow⟩ ∧
      table.evict = ((table.removeAndClose key flow).1, [(table.removeAndClose key flow).2],
        some key) := by
  by_cases full : table.capacity ≤ table.len
  · refine ⟨full, ?_⟩
    rcases oldest_isSome table full with ⟨⟨least, flow⟩, oldest⟩
    have call : table.evict = ((table.removeAndClose least flow).1,
        [(table.removeAndClose least flow).2], some least) := by
      simp only [evict, full, if_true, oldest]
    rw [call] at evicted
    have same : least = key := Option.some.inj evicted
    subst same
    exact ⟨flow, oldest, call⟩
  · simp only [evict, full, if_false] at evicted
    cases evicted

theorem openNew_evicts {table : FlowTable} {obs : Observation} {key : FlowKey}
    (fresh : table.get obs.key = none) (evicted : (table.openNew obs).2.2 = .evicted key) :
    ∃ flow, Evicts table (table.openNew obs).1 obs (table.openNew obs).2.1 key flow := by
  have chosen : table.evict.2.2 = some key := by
    unfold openNew at evicted
    cases result : table.evict.2.2 with
    | none =>
        simp only [result] at evicted
        cases evicted
    | some other =>
        simp only [result] at evicted
        exact congrArg some (UpsertResult.evicted.inj evicted)
  rcases evict_evicts chosen with ⟨full, flow, oldest, call⟩
  have present := oldest_open table ⟨key, flow⟩ oldest
  have distinct : key ≠ obs.key := by
    intro same
    rw [same, fresh] at present
    cases present
  refine ⟨flow, present, full, fresh, oldest_least oldest, ?_, ?_, ?_⟩
  · intro other entry held order
    exact evictionOrder_key order (oldest_least oldest other entry held)
  · simp only [openNew, call]
    exact (AList.lookup_insert_ne distinct).trans (AList.lookup_erase key table.entries)
  · simp only [openNew, call]
    rfl

/-- On a table within its capacity, only a packet of a new flow evicts another. -/
theorem upsert_evicts {table : FlowTable} (bounded : table.Bounded) {obs : Observation}
    {key : FlowKey} (evicted : (table.upsert obs).2.2 = .evicted key) :
    ∃ flow, Evicts table (table.upsert obs).1 obs (table.upsert obs).2.1 key flow := by
  cases present : table.entries.lookup obs.key with
  | none =>
      have plain : table.upsert obs = table.openNew obs := by simp only [upsert, present]
      rw [plain] at evicted ⊢
      exact openNew_evicts present evicted
  | some flow =>
      by_cases due : table.due flow obs.timestampUs = true
      · simp only [upsert, present, due, if_true] at evicted
        have closed := len_removeAndClose table present
        have absent : (table.removeAndClose obs.key flow).1.get obs.key = none :=
          AList.lookup_erase obs.key table.entries
        rcases openNew_evicts absent evicted with ⟨other, evicts⟩
        have full : table.capacity ≤ (table.removeAndClose obs.key flow).1.len := evicts.full
        unfold Bounded at bounded
        omega
      · simp only [upsert, present, due, if_false, Bool.false_eq_true] at evicted
        cases evicted

end FlowTable

end PiAgents.Capture
