import PiAgents.Spooling.Spool

/-! The bookkeeping of a segment: its acknowledgement bits, the sequence numbers still
unacknowledged and their count. -/

namespace PiAgents.Spooling

namespace Segment

theorem contains_iff (s : Segment) (seq : Nat) :
    s.contains seq = true ↔ s.firstSeq ≤ seq ∧ seq < s.firstSeq + s.count := by
  simp only [contains, Bool.and_eq_true, decide_eq_true_eq]

theorem mem_seqs (s : Segment) (seq : Nat) : seq ∈ s.seqs ↔ s.contains seq = true := by
  rw [contains_iff, seqs, List.mem_range'_1]

theorem seqs_nodup (s : Segment) : s.seqs.Nodup := List.nodup_range'

theorem mem_unackedSeqs (s : Segment) (seq : Nat) :
    seq ∈ s.unackedSeqs ↔ s.contains seq = true ∧ s.isAcked seq = false := by
  rw [unackedSeqs, List.mem_filter, mem_seqs, Bool.not_eq_true']

theorem unackedSeqs_nodup (s : Segment) : s.unackedSeqs.Nodup := s.seqs_nodup.filter _

theorem unackedSeqs_sorted (s : Segment) : s.unackedSeqs.Pairwise (· < ·) := by
  have sorted : s.seqs.Pairwise (· < ·) := List.pairwise_lt_range' 1
  exact sorted.sublist List.filter_sublist

/-- There is a bit for every record, and the count is that of the clear ones. -/
structure Sound (s : Segment) : Prop where
  bits : s.acked.length = s.count
  unacked : s.unacked = s.unackedSeqs.length

theorem sound_new (path firstSeq : Nat) : (new path firstSeq).Sound := ⟨rfl, rfl⟩

section SetAcked

variable (s : Segment) (seq : Nat)

@[simp] theorem setAcked_path : (s.setAcked seq).path = s.path := rfl
@[simp] theorem setAcked_firstSeq : (s.setAcked seq).firstSeq = s.firstSeq := rfl
@[simp] theorem setAcked_count : (s.setAcked seq).count = s.count := rfl
@[simp] theorem setAcked_minTime : (s.setAcked seq).minTime = s.minTime := rfl
@[simp] theorem setAcked_maxTime : (s.setAcked seq).maxTime = s.maxTime := rfl
@[simp] theorem setAcked_bytes : (s.setAcked seq).bytes = s.bytes := rfl
@[simp] theorem setAcked_seqs : (s.setAcked seq).seqs = s.seqs := rfl

end SetAcked

theorem isAcked_setAcked {s : Segment} (sound : s.Sound) {seq : Nat}
    (held : s.contains seq = true) {other : Nat} (alsoHeld : s.contains other = true) :
    (s.setAcked seq).isAcked other = (decide (other = seq) || s.isAcked other) := by
  have bounds := (s.contains_iff seq).mp held
  have otherBounds := (s.contains_iff other).mp alsoHeld
  have inside : seq - s.firstSeq < s.acked.length := by
    rw [sound.bits]
    omega
  simp only [isAcked, setAcked, List.getD_eq_getElem?_getD]
  by_cases same : other = seq
  · subst same
    rw [List.getElem?_set_self inside]
    simp only [Option.getD_some, decide_true, Bool.true_or]
  · have apart : seq - s.firstSeq ≠ other - s.firstSeq := by omega
    rw [List.getElem?_set_ne apart]
    simp only [same, decide_false, Bool.false_or]

theorem unackedSeqs_setAcked {s : Segment} (sound : s.Sound) {seq : Nat}
    (held : s.contains seq = true) :
    (s.setAcked seq).unackedSeqs = s.unackedSeqs.erase seq := by
  rw [s.unackedSeqs_nodup.erase_eq_filter, unackedSeqs, unackedSeqs, setAcked_seqs,
    List.filter_filter]
  apply List.filter_congr
  intro other member
  rw [isAcked_setAcked sound held ((s.mem_seqs other).mp member), Bool.not_or]
  by_cases same : other = seq
  · simp only [same, decide_true, Bool.not_true, Bool.false_and, bne_self_eq_false]
  · simp only [same, decide_false, Bool.not_false, Bool.true_and, bne_iff_ne.mpr same]

theorem Sound.setAcked {s : Segment} (sound : s.Sound) {seq : Nat}
    (held : s.contains seq = true) : (s.setAcked seq).Sound := by
  constructor
  · change (s.acked.set _ true).length = s.count
    rw [List.length_set, sound.bits]
  · rw [unackedSeqs_setAcked sound held]
    change (if s.isAcked seq then s.unacked else s.unacked - 1) = _
    by_cases acked : s.isAcked seq = true
    · have absent : seq ∉ s.unackedSeqs := by
        rw [mem_unackedSeqs, acked]
        simp
      rw [if_pos acked, List.erase_of_not_mem absent, sound.unacked]
    · have present : seq ∈ s.unackedSeqs :=
        (s.mem_unackedSeqs seq).mpr ⟨held, Bool.eq_false_iff.mpr acked⟩
      rw [if_neg acked, List.length_erase_of_mem present, sound.unacked]

section Push

variable (s : Segment) (time : Int64) (recordLen : Nat)

@[simp] theorem push_path : (s.push time recordLen).path = s.path := rfl
@[simp] theorem push_firstSeq : (s.push time recordLen).firstSeq = s.firstSeq := rfl
@[simp] theorem push_count : (s.push time recordLen).count = s.count + 1 := rfl
@[simp] theorem push_bytes : (s.push time recordLen).bytes = s.bytes + recordLen := rfl

theorem push_seqs : (s.push time recordLen).seqs = s.seqs ++ [s.firstSeq + s.count] := by
  rw [seqs, push_firstSeq, push_count, List.range'_concat, Nat.one_mul]
  rfl

end Push

theorem unackedSeqs_push {s : Segment} (sound : s.Sound) (time : Int64) (recordLen : Nat) :
    (s.push time recordLen).unackedSeqs = s.unackedSeqs ++ [s.firstSeq + s.count] := by
  have older : ∀ seq, s.contains seq = true →
      (s.push time recordLen).isAcked seq = s.isAcked seq := by
    intro seq held
    have bounds := (s.contains_iff seq).mp held
    have inside : seq - s.firstSeq < s.acked.length := by
      rw [sound.bits]
      omega
    simp only [isAcked, push, List.getD_eq_getElem?_getD, List.getElem?_append_left inside]
  have newest : (s.push time recordLen).isAcked (s.firstSeq + s.count) = false := by
    have end' : s.firstSeq + s.count - s.firstSeq = s.acked.length := by
      rw [sound.bits]
      omega
    simp only [isAcked, push, List.getD_eq_getElem?_getD, end']
    rw [List.getElem?_append_right (Nat.le_refl _), Nat.sub_self]
    rfl
  rw [unackedSeqs, push_seqs, List.filter_append, List.filter_singleton, newest]
  congr 1
  apply List.filter_congr
  intro seq member
  rw [older seq ((s.mem_seqs seq).mp member)]

theorem Sound.push {s : Segment} (sound : s.Sound) (time : Int64) (recordLen : Nat) :
    (s.push time recordLen).Sound := by
  constructor
  · change (s.acked ++ [false]).length = s.count + 1
    rw [List.length_append, sound.bits, List.length_singleton]
  · rw [unackedSeqs_push sound, List.length_append, List.length_singleton, ← sound.unacked]
    rfl

end Segment

end PiAgents.Spooling
