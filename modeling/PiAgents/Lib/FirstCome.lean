import PiAgents.Lib.Runs
import Mathlib.Data.List.MinMax
import Mathlib.Data.List.Nodup

/-! A ledger that keeps, of the items recorded under one key, the first. -/

namespace PiAgents.FirstCome

variable {α : Type*} {κ : Type*} [DecidableEq κ] (key : α → κ)

def record (kept : List α) (item : α) : List α :=
  if key item ∈ kept.map key then kept else kept ++ [item]

def ledger (items : List α) : List α := Runs.run (record key) [] items

theorem record_known {kept : List α} {item : α} (known : key item ∈ kept.map key) :
    record key kept item = kept := if_pos known

theorem record_new {kept : List α} {item : α} (new : key item ∉ kept.map key) :
    record key kept item = kept ++ [item] := if_neg new

private theorem record_keys (kept : List α) (item : α) (k : κ) :
    k ∈ (record key kept item).map key ↔ k ∈ kept.map key ∨ k = key item := by
  by_cases known : key item ∈ kept.map key
  · rw [record_known key known]
    constructor
    · exact Or.inl
    · rintro (held | rfl)
      · exact held
      · exact known
  · rw [record_new key known, List.map_append, List.mem_append, List.map_singleton,
      List.mem_singleton]

theorem record_twice (kept : List α) (item : α) :
    record key (record key kept item) item = record key kept item :=
  record_known key ((record_keys key kept item _).mpr (Or.inr rfl))

theorem record_nodup {kept : List α} (distinct : (kept.map key).Nodup) (item : α) :
    ((record key kept item).map key).Nodup := by
  by_cases known : key item ∈ kept.map key
  · rwa [record_known key known]
  · rw [record_new key known, List.map_append]
    exact List.Nodup.append distinct (List.nodup_singleton _) (List.disjoint_singleton.mpr known)

private theorem run_keys (kept items : List α) (k : κ) :
    k ∈ (Runs.run (record key) kept items).map key ↔ k ∈ kept.map key ∨ k ∈ items.map key := by
  induction items generalizing kept with
  | nil => simp
  | cons item rest ih => rw [Runs.run_cons, ih, record_keys, List.map_cons, List.mem_cons, or_assoc]

theorem run_nodup {kept : List α} (distinct : (kept.map key).Nodup) (items : List α) :
    ((Runs.run (record key) kept items).map key).Nodup := by
  induction items generalizing kept with
  | nil => exact distinct
  | cons item rest ih => exact ih (record_nodup key distinct item)

theorem run_subset (kept items : List α) {item : α}
    (member : item ∈ Runs.run (record key) kept items) : item ∈ kept ∨ item ∈ items := by
  induction items generalizing kept with
  | nil => exact Or.inl member
  | cons first rest ih =>
      rcases ih _ member with held | later
      · by_cases known : key first ∈ kept.map key
        · rw [record_known key known] at held
          exact Or.inl held
        · rw [record_new key known, List.mem_append, List.mem_singleton] at held
          rcases held with old | rfl
          · exact Or.inl old
          · exact Or.inr (List.mem_cons_self ..)
      · exact Or.inr (List.mem_cons_of_mem _ later)

theorem ledger_keys (items : List α) (k : κ) : k ∈ (ledger key items).map key ↔ k ∈ items.map key := by
  rw [ledger, run_keys, List.map_nil]
  simp only [List.not_mem_nil, false_or]

theorem ledger_nodup (items : List α) : ((ledger key items).map key).Nodup := by
  apply run_nodup
  exact List.nodup_nil

theorem ledger_subset {items : List α} {item : α} (member : item ∈ ledger key items) :
    item ∈ items :=
  (run_subset key [] items member).resolve_left (List.not_mem_nil)

theorem mem_ledger {items : List α} (unique : ∀ a ∈ items, ∀ b ∈ items, key a = key b → a = b)
    (item : α) : item ∈ ledger key items ↔ item ∈ items := by
  constructor
  · exact ledger_subset key
  · intro member
    have held := (ledger_keys key items (key item)).mpr (List.mem_map_of_mem member)
    rcases List.mem_map.mp held with ⟨kept, inLedger, sameKey⟩
    rwa [← unique kept (ledger_subset key inLedger) item member sameKey]

/-- Where a key names one item, the order of the recording and its repetitions do not matter. -/
theorem ledger_perm {items other : List α}
    (unique : ∀ a ∈ items, ∀ b ∈ items, key a = key b → a = b)
    (same : ∀ item, item ∈ items ↔ item ∈ other) : (ledger key items).Perm (ledger key other) := by
  have otherUnique : ∀ a ∈ other, ∀ b ∈ other, key a = key b → a = b := by
    intro a inA b inB
    exact unique a ((same a).mpr inA) b ((same b).mpr inB)
  have distinct := List.Nodup.of_map key (ledger_nodup key items)
  have otherDistinct := List.Nodup.of_map key (ledger_nodup key other)
  apply (List.perm_ext_iff_of_nodup distinct otherDistinct).mpr
  intro item
  rw [mem_ledger key unique, mem_ledger key otherUnique, same]

theorem argmax_perm {β : Type*} [LinearOrder β] {rank : α → β} {l m : List α} (perm : l.Perm m)
    (unique : ∀ a ∈ l, ∀ b ∈ l, rank a = rank b → a = b) : l.argmax rank = m.argmax rank := by
  cases left : l.argmax rank with
  | none =>
      rw [List.argmax_eq_none] at left
      subst left
      rw [List.nil_perm.mp perm, List.argmax_nil]
  | some a =>
      cases right : m.argmax rank with
      | none =>
          rw [List.argmax_eq_none] at right
          subst right
          rw [List.perm_nil.mp perm] at left
          cases left
      | some b =>
          have inLeft := List.argmax_mem left
          have inRight := perm.mem_iff.mpr (List.argmax_mem right)
          have upper := List.le_of_mem_argmax (perm.mem_iff.mp inLeft) right
          have lower := List.le_of_mem_argmax inRight left
          rw [unique a inLeft b inRight (le_antisymm upper lower)]

end PiAgents.FirstCome
