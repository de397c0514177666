import Mathlib.Data.List.DropRight
import Mathlib.Data.List.Sort

/-! Stable order under a total preorder: a sorted list is determined by what it lists, in turn,
of each rank. A queue that takes every new element behind the elements it does not precede is
the stable sort of what was put into it. -/

namespace PiAgents.StableOrder

section

variable {α : Type*} {r : α → α → Prop} {l : List α}

theorem span_sorted (sorted : l.Pairwise r) (p : α → Bool)
    (lower : ∀ a b, r a b → p b = true → p a = true) :
    l.takeWhile p = l.filter p ∧ l.dropWhile p = l.filter (fun a => !p a) := by
  induction l with
  | nil => exact ⟨rfl, rfl⟩
  | cons a l ih =>
      obtain ⟨least, tailSorted⟩ := List.pairwise_cons.mp sorted
      by_cases front : p a = true
      · simp only [List.takeWhile_cons, List.dropWhile_cons, List.filter_cons, front, if_true,
          Bool.not_true, Bool.false_eq_true, if_false]
        exact ⟨congrArg _ (ih tailSorted).1, (ih tailSorted).2⟩
      · have behind : ∀ b ∈ l, ¬ p b = true := by
          intro b member inFront
          exact front (lower a b (least b member) inFront)
        have none : l.filter p = [] := List.filter_eq_nil_iff.mpr behind
        have all : l.filter (fun b => !p b) = l := by
          apply List.filter_eq_self.mpr
          intro b member
          rw [Bool.not_eq_true', Bool.eq_false_iff]
          exact behind b member
        simp only [List.takeWhile_cons, List.dropWhile_cons, List.filter_cons, front, if_false,
          Bool.not_false, Bool.false_eq_true, if_true, none, all, and_self]

end

variable {α : Type*} (r : α → α → Prop) [DecidableRel r]

/-- Of the same rank. -/
def tied (a b : α) : Bool := r a b && r b a

private theorem tied_iff {a b : α} : tied r a b = true ↔ r a b ∧ r b a := by
  simp only [tied, Bool.and_eq_true, decide_eq_true_eq]

/-- Puts `a` behind everything it does not precede, searching from the end. -/
def insertLast (l : List α) (a : α) : List α :=
  l.rdropWhile (fun b => !decide (r b a)) ++ a :: l.rtakeWhile (fun b => !decide (r b a))

theorem insertLast_perm (l : List α) (a : α) : (insertLast r l a).Perm (a :: l) := by
  have parts : l.rdropWhile (fun b => !decide (r b a)) ++ l.rtakeWhile (fun b => !decide (r b a)) =
      l := List.rdropWhile_append_rtakeWhile
  have middle : (insertLast r l a).Perm (a :: (l.rdropWhile (fun b => !decide (r b a)) ++
      l.rtakeWhile (fun b => !decide (r b a)))) := List.perm_middle
  rwa [parts] at middle

theorem insertLast_filter_not (l : List α) (a : α) (p : α → Bool) (drop : ¬ p a = true) :
    (insertLast r l a).filter p = l.filter p := by
  have parts : l.rdropWhile (fun b => !decide (r b a)) ++ l.rtakeWhile (fun b => !decide (r b a)) =
      l := List.rdropWhile_append_rtakeWhile
  calc (insertLast r l a).filter p
    _ = (l.rdropWhile (fun b => !decide (r b a)) ++
          l.rtakeWhile (fun b => !decide (r b a))).filter p := by
        rw [insertLast, List.filter_append, List.filter_append, List.filter_cons_of_neg drop]
    _ = l.filter p := by rw [parts]

theorem insertLast_of_last (l : List α) (a : α) (before : ∀ b ∈ l.getLast?, r b a) :
    insertLast r l a = l ++ [a] := by
  rcases List.eq_nil_or_concat' l with rfl | ⟨front, b, rfl⟩
  · rfl
  · have early : r b a := before b (by simp)
    rw [insertLast, List.rdropWhile_concat_neg _ _ _ (by simp [early]),
      List.rtakeWhile_concat_neg _ _ _ (by simp [early])]

theorem insertLast_getLast (l : List α) (a b : α) (last : b ∈ l.getLast?) (after : ¬ r b a) :
    b ∈ (insertLast r l a).getLast? := by
  rcases List.eq_nil_or_concat' l with rfl | ⟨front, c, rfl⟩
  · cases last
  · have same : c = b := by simpa using last
    subst same
    rw [insertLast, List.rtakeWhile_concat_pos _ _ _ (by simp [after]), ← List.cons_append,
      ← List.append_assoc, List.getLast?_concat]
    rfl

private theorem tied_self [Std.Total r] (a : α) : tied r a a = true :=
  (tied_iff r).mpr ⟨(Std.Total.total a a).elim id id, (Std.Total.total a a).elim id id⟩

/-- A sorted list is determined by its elements of each rank, in turn. -/
theorem eq_of_fibers [Std.Total r] {l m : List α} (left : l.Pairwise r) (right : m.Pairwise r)
    (fibers : ∀ c, l.filter (tied r c) = m.filter (tied r c)) : l = m := by
  induction l generalizing m with
  | nil =>
      cases m with
      | nil => rfl
      | cons b m =>
          have fiber := fibers b
          simp only [List.filter_nil, List.filter_cons, tied_self, if_true] at fiber
          cases fiber
  | cons a l ih =>
      cases m with
      | nil =>
          have fiber := fibers a
          simp only [List.filter_nil, List.filter_cons, tied_self, if_true] at fiber
          cases fiber
      | cons b m =>
          obtain ⟨leastLeft, leftTail⟩ := List.pairwise_cons.mp left
          obtain ⟨leastRight, rightTail⟩ := List.pairwise_cons.mp right
          have reflexive : ∀ c, r c c := fun c => (Std.Total.total c c).elim id id
          have aInRight : a ∈ b :: m := by
            have member : a ∈ (a :: l).filter (tied r a) :=
              List.mem_filter.mpr ⟨List.mem_cons_self, tied_self r a⟩
            rw [fibers a] at member
            exact List.mem_of_mem_filter member
          have bInLeft : b ∈ a :: l := by
            have member : b ∈ (b :: m).filter (tied r b) :=
              List.mem_filter.mpr ⟨List.mem_cons_self, tied_self r b⟩
            rw [← fibers b] at member
            exact List.mem_of_mem_filter member
          have aFirst : r a b := (List.mem_cons.mp bInLeft).elim (fun same => same ▸ reflexive b)
            (leastLeft b)
          have bFirst : r b a := (List.mem_cons.mp aInRight).elim (fun same => same ▸ reflexive a)
            (leastRight a)
          have same : a = b := by
            have fiber := fibers a
            rw [List.filter_cons_of_pos (tied_self r a),
              List.filter_cons_of_pos ((tied_iff r).mpr ⟨aFirst, bFirst⟩)] at fiber
            exact (List.cons.inj fiber).1
          subst same
          congr 1
          apply ih leftTail rightTail
          intro c
          have fiber := fibers c
          simp only [List.filter_cons] at fiber
          split at fiber
          · exact (List.cons.inj fiber).2
          · exact fiber

section

variable [IsTrans α r] {l : List α}

private theorem insertLast_eq (sorted : l.Pairwise r) (a : α) :
    insertLast r l a =
      l.filter (fun b => decide (r b a)) ++ a :: l.filter (fun b => !decide (r b a)) := by
  have reversed : l.reverse.Pairwise (fun b c => r c b) := List.pairwise_reverse.mpr sorted
  have span := span_sorted reversed (fun b => !decide (r b a)) (by
    intro b c order after
    simp only [Bool.not_eq_true', decide_eq_false_iff_not] at after ⊢
    intro before
    exact after (IsTrans.trans c b a order before))
  rw [insertLast, List.rdropWhile, List.rtakeWhile, span.1, span.2]
  simp only [Bool.not_not, List.filter_reverse, List.reverse_reverse]

theorem insertLast_filter (sorted : l.Pairwise r) (a : α) (p : α → Bool) (keep : p a = true) :
    (insertLast r l a).filter p = insertLast r (l.filter p) a := by
  rw [insertLast_eq r sorted, insertLast_eq r (sorted.filter p), List.filter_append,
    List.filter_cons_of_pos keep, List.filter_comm, List.filter_comm (fun b => !decide (r b a))]

theorem insertLast_fiber (sorted : l.Pairwise r) (a c : α) :
    (insertLast r l a).filter (tied r c) = (l ++ [a]).filter (tied r c) := by
  have behind : (l.filter (fun b => !decide (r b a))).filter (tied r c) =
      if r c a then [] else l.filter (tied r c) := by
    rw [List.filter_filter]
    split
    · next order =>
        apply List.filter_eq_nil_iff.mpr
        intro b member
        simp only [Bool.and_eq_true, tied_iff, Bool.not_eq_true', decide_eq_false_iff_not]
        intro both
        exact both.2 (IsTrans.trans b c a both.1.2 order)
    · next order =>
        apply List.filter_congr
        intro b member
        by_cases same : tied r c b = true
        · have after : ¬ r b a := fun before =>
            order (IsTrans.trans c b a ((tied_iff r).mp same).1 before)
          simp only [same, after, decide_false, Bool.not_false, Bool.and_self]
        · simp only [same, Bool.false_and]
  have before : (l.filter (fun b => decide (r b a))).filter (tied r c) =
      if r c a then l.filter (tied r c) else [] := by
    rw [List.filter_filter]
    split
    · next order =>
        apply List.filter_congr
        intro b member
        by_cases same : tied r c b = true
        · have early : r b a := IsTrans.trans b c a ((tied_iff r).mp same).2 order
          simp only [same, early, decide_true, Bool.and_self]
        · simp only [same, Bool.false_and]
    · next order =>
        apply List.filter_eq_nil_iff.mpr
        intro b member
        simp only [Bool.and_eq_true, tied_iff, decide_eq_true_eq]
        intro both
        exact order (IsTrans.trans c b a both.1.1 both.2)
  rw [insertLast_eq r sorted, List.filter_append, List.filter_append, List.filter_cons, before,
    behind]
  by_cases order : r c a
  · simp only [order, if_true, List.filter_singleton]
    split <;> simp only [*, Bool.cond_true, Bool.cond_false]
  · have untied : ¬ tied r c a = true := fun same => order ((tied_iff r).mp same).1
    simp only [order, if_false, untied, Bool.false_eq_true, List.filter_singleton, List.nil_append,
      Bool.cond_false, List.append_nil]

theorem insertionSort_fiber (l : List α) (c : α) :
    (l.insertionSort r).filter (tied r c) = l.filter (tied r c) := by
  have fiberSorted : (l.filter (tied r c)).Pairwise r := by
    apply List.pairwise_of_forall_mem_list
    intro a aMember b bMember
    have ofA := (tied_iff r).mp (List.mem_filter.mp aMember).2
    have ofB := (tied_iff r).mp (List.mem_filter.mp bMember).2
    exact IsTrans.trans a c b ofA.2 ofB.1
  have kept := (List.sublist_insertionSort fiberSorted List.filter_sublist).filter (tied r c)
  simp only [List.filter_filter, Bool.and_self] at kept
  apply (List.Sublist.eq_of_length kept ?_).symm
  exact ((List.perm_insertionSort r l).filter (tied r c)).length_eq.symm

end

section

variable [Std.Total r] [IsTrans α r]

theorem insertLast_sorted {l : List α} (sorted : l.Pairwise r) (a : α) :
    (insertLast r l a).Pairwise r := by
  rw [insertLast_eq r sorted]
  have after : ∀ b ∈ l.filter (fun b => !decide (r b a)), r a b := by
    intro b member
    have later := (List.mem_filter.mp member).2
    simp only [Bool.not_eq_true', decide_eq_false_iff_not] at later
    exact (Std.Total.total a b).resolve_right later
  apply List.pairwise_append.mpr
  refine ⟨sorted.filter _, List.pairwise_cons.mpr ⟨after, sorted.filter _⟩, ?_⟩
  intro b early c member
  have before : r b a := of_decide_eq_true (List.mem_filter.mp early).2
  rcases List.mem_cons.mp member with rfl | late
  · exact before
  · exact IsTrans.trans b a c before (after c late)

/-- Putting one more element into the sorted queue sorts it behind the earlier ones. -/
theorem insertLast_insertionSort (l : List α) (a : α) :
    insertLast r (l.insertionSort r) a = (l ++ [a]).insertionSort r := by
  have sorted := List.pairwise_insertionSort r l
  apply eq_of_fibers r (insertLast_sorted r sorted a) (List.pairwise_insertionSort r _)
  intro c
  rw [insertLast_fiber r sorted, insertionSort_fiber, List.filter_append, List.filter_append,
    insertionSort_fiber]

theorem filter_insertionSort (l : List α) (p : α → Bool) :
    (l.insertionSort r).filter p = (l.filter p).insertionSort r := by
  apply eq_of_fibers r ((List.pairwise_insertionSort r l).filter p)
    (List.pairwise_insertionSort r _)
  intro c
  rw [List.filter_comm, insertionSort_fiber, insertionSort_fiber, List.filter_comm]

end

end PiAgents.StableOrder
