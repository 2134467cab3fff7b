import HardcodedText.Session.Debouncer
import Mathlib.Data.List.Basic

/-!
What waits in a debouncer after each of its operations, and under which numbers.
-/

namespace HardcodedText

namespace Debouncer

variable {α ε σ : Type}

@[simp] theorem waiting_cancel (debouncer : Debouncer α ε) (key : Text) :
    (debouncer.cancel key).waiting =
      debouncer.waiting.filter fun delayed => delayed.key != key := by
  simp only [cancel, List.partition_eq_filter_filter]
  rfl

@[simp] theorem waiting_release (debouncer : Debouncer α ε) (number : Nat) :
    (debouncer.release number).waiting =
      debouncer.waiting.filter fun delayed => delayed.number != number := rfl

@[simp] theorem waiting_finish (debouncer : Debouncer α ε) (delayed : DelayedCall α)
    (ending : Ending ε) : (debouncer.finish delayed ending).waiting = debouncer.waiting := rfl

theorem waiting_cancelEach (keys : List Text) (debouncer : Debouncer α ε) :
    (keys.foldl cancel debouncer).waiting =
      debouncer.waiting.filter fun delayed => !keys.contains delayed.key := by
  induction keys generalizing debouncer with
  | nil => simp
  | cons key keys ih =>
      rw [List.foldl_cons, ih, waiting_cancel, List.filter_filter]
      apply List.filter_congr
      intro delayed _
      rw [List.contains_cons, Bool.not_or, Bool.and_comm]
      rfl

@[simp] theorem waiting_cancelAll (debouncer : Debouncer α ε) :
    debouncer.cancelAll.waiting = [] := by
  rw [cancelAll, waiting_cancelEach, List.filter_eq_nil_iff]
  intro delayed member
  have listed : delayed.key ∈ debouncer.pending := List.mem_map_of_mem member
  simpa using listed

@[simp] theorem waiting_schedule (debouncer : Debouncer α ε) (key : Text) (action : α) :
    (debouncer.schedule key action).waiting =
      (debouncer.waiting.filter fun delayed => delayed.key != key) ++
        [⟨debouncer.nextNumber, key, action⟩] := by
  rw [← waiting_cancel]
  rfl

/-- The calls that wait have numbers of their own, below the one that is next. -/
structure Numbered (debouncer : Debouncer α ε) : Prop where
  below : ∀ delayed ∈ debouncer.waiting, delayed.number < debouncer.nextNumber
  unique : ∀ first ∈ debouncer.waiting, ∀ second ∈ debouncer.waiting,
    first.number = second.number → first = second

theorem Numbered.of_nil {debouncer : Debouncer α ε} (none : debouncer.waiting = []) :
    debouncer.Numbered := by
  constructor <;> simp [none]

theorem Numbered.fewer {before after : Debouncer α ε} (numbered : before.Numbered)
    (subset : after.waiting ⊆ before.waiting) (next : after.nextNumber = before.nextNumber) :
    after.Numbered where
  below delayed member := next ▸ numbered.below delayed (subset member)
  unique first firstMember second secondMember :=
    numbered.unique first (subset firstMember) second (subset secondMember)

theorem Numbered.cancel {debouncer : Debouncer α ε} (numbered : debouncer.Numbered)
    (key : Text) : (debouncer.cancel key).Numbered :=
  numbered.fewer (waiting_cancel debouncer key ▸ List.filter_subset_self _) rfl

theorem Numbered.schedule {debouncer : Debouncer α ε} (numbered : debouncer.Numbered)
    (key : Text) (action : α) : (debouncer.schedule key action).Numbered := by
  have next : (debouncer.schedule key action).nextNumber = debouncer.nextNumber + 1 := rfl
  have listed {delayed : DelayedCall α}
      (member : delayed ∈ (debouncer.schedule key action).waiting) :
      delayed ∈ debouncer.waiting ∨ delayed = ⟨debouncer.nextNumber, key, action⟩ := by
    simp only [waiting_schedule, List.mem_append, List.mem_filter, List.mem_singleton] at member
    exact member.imp And.left id
  constructor
  · intro delayed member
    rw [next]
    rcases listed member with waits | rfl
    · have below := numbered.below delayed waits
      omega
    · exact Nat.lt_succ_self _
  · intro first firstMember second secondMember same
    rcases listed firstMember with waits | rfl <;> rcases listed secondMember with waits' | rfl
    · exact numbered.unique first waits second waits' same
    · have below := numbered.below first waits
      simp only at same
      omega
    · have below := numbered.below second waits'
      simp only at same
      omega
    · rfl

theorem isWaiting_of_mem {debouncer : Debouncer α ε} {delayed : DelayedCall α}
    (waits : delayed ∈ debouncer.waiting) : debouncer.isWaiting delayed.number = true :=
  List.any_eq_true.mpr ⟨delayed, waits, beq_self_eq_true _⟩

theorem expire_of_mem {host : Host α ε σ} {delayed : DelayedCall α} {state : σ}
    (waits : delayed ∈ (host.debouncer state).waiting) :
    expire host delayed state =
      let ran := runCall host delayed (host.modify (·.release delayed.number) state)
      host.modify (·.finish delayed ran.2) ran.1 :=
  if_pos (isWaiting_of_mem waits)

theorem mem_pending {debouncer : Debouncer α ε} {key : Text} :
    key ∈ debouncer.pending ↔ ∃ delayed ∈ debouncer.waiting, delayed.key = key :=
  List.mem_map

theorem mem_pending_cancel {debouncer : Debouncer α ε} {key other : Text}
    (different : other ≠ key) : other ∈ (debouncer.cancel key).pending ↔
      other ∈ debouncer.pending := by
  simp only [mem_pending, waiting_cancel, List.mem_filter]
  constructor
  · rintro ⟨delayed, ⟨waits, -⟩, rfl⟩
    exact ⟨delayed, waits, rfl⟩
  · rintro ⟨delayed, waits, rfl⟩
    exact ⟨delayed, ⟨waits, by simpa using different⟩, rfl⟩

theorem mem_pending_schedule (debouncer : Debouncer α ε) (key other : Text) (action : α) :
    other ∈ (debouncer.schedule key action).pending ↔
      other ∈ (debouncer.cancel key).pending ∨ other = key := by
  simp only [mem_pending, waiting_schedule, waiting_cancel, List.mem_append, List.mem_singleton]
  constructor
  · rintro ⟨delayed, left | rfl, rfl⟩
    · exact Or.inl ⟨delayed, left, rfl⟩
    · exact Or.inr rfl
  · rintro (⟨delayed, left, rfl⟩ | rfl)
    · exact ⟨delayed, Or.inl left, rfl⟩
    · exact ⟨_, Or.inr rfl, rfl⟩

theorem Numbered.mem_pending_release {debouncer : Debouncer α ε} (numbered : debouncer.Numbered)
    {delayed : DelayedCall α} (waits : delayed ∈ debouncer.waiting) {key : Text}
    (different : key ≠ delayed.key) (pending : key ∈ debouncer.pending) :
    key ∈ (debouncer.release delayed.number).pending := by
  obtain ⟨other, otherWaits, rfl⟩ := mem_pending.mp pending
  refine mem_pending.mpr ⟨other, ?_, rfl⟩
  rw [waiting_release, List.mem_filter]
  refine ⟨otherWaits, ?_⟩
  have distinct : other.number ≠ delayed.number := by
    intro same
    exact different (congrArg DelayedCall.key (numbered.unique _ otherWaits _ waits same))
  simpa using distinct

end Debouncer

end HardcodedText
