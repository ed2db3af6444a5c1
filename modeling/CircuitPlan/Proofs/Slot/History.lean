import CircuitPlan.Proofs.Slot.Service

namespace CircuitPlan

structure Call where
  space : Space
  node : Nat
  width : Nat
deriving DecidableEq

abbrev Answer := Except Overflow Span

namespace Allocator

def answer (allocator : Allocator) (call : Call) : Answer × Allocator :=
  match (bump call.space call.node call.width).run allocator with
  | .ok span after => (.ok span, after)
  | .error overflow after => (.error overflow, after)

def run (allocator : Allocator) : List Call → List (Call × Answer) × Allocator
  | [] => ([], allocator)
  | call :: rest =>
      let given := allocator.answer call
      let later := given.2.run rest
      ((call, given.1) :: later.1, later.2)

def granted (answers : List (Call × Answer)) (space : Space) : List Span :=
  answers.filterMap fun entry => if entry.1.space = space then entry.2.toOption else none

/-- What a call makes of an allocator. -/
structure Answered (before : Allocator) (call : Call) (given : Answer) (after : Allocator) :
    Prop where
  succeeds_iff : (∃ span, given = .ok span) ↔ before.used call.space + call.width < padding
  span_eq : ∀ span, given = .ok span →
    span = ⟨before.used call.space, before.used call.space + call.width⟩ ∧
      after.used call.space = span.stop
  others : ∀ other, other ≠ call.space → after.used other = before.used other
  failed : ∀ overflow, given = .error overflow →
    overflow = ⟨call.space, call.node, call.width⟩ ∧ after = before

theorem answer_of_room {allocator : Allocator} {call : Call}
    (room : allocator.used call.space + call.width < padding) :
    allocator.answer call =
      (.ok ⟨allocator.used call.space, allocator.used call.space + call.width⟩,
        allocator.advance call.space (allocator.used call.space + call.width)) := by
  rw [answer, run_bump_of_room room]

theorem answer_of_full {allocator : Allocator} {call : Call}
    (full : ¬ allocator.used call.space + call.width < padding) :
    allocator.answer call = (.error ⟨call.space, call.node, call.width⟩, allocator) := by
  rw [answer, run_bump_of_full full]

theorem answer_answered (allocator : Allocator) (call : Call) :
    Answered allocator call (allocator.answer call).1 (allocator.answer call).2 := by
  by_cases room : allocator.used call.space + call.width < padding
  · rw [answer_of_room room]
    refine ⟨⟨fun _ => room, fun _ => ⟨_, rfl⟩⟩, ?_, fun other different => if_neg different, nofun⟩
    intro span same
    obtain rfl := Except.ok.inj same
    exact ⟨rfl, if_pos rfl⟩
  · rw [answer_of_full room]
    refine ⟨⟨nofun, fun fits => absurd fits room⟩, nofun, fun _ _ => rfl, ?_⟩
    intro overflow same
    obtain rfl := Except.error.inj same
    exact ⟨rfl, rfl⟩

theorem answer_bounded {allocator : Allocator} (bounded : ∀ space, allocator.used space < padding)
    (call : Call) (space : Space) : (allocator.answer call).2.used space < padding := by
  by_cases room : allocator.used call.space + call.width < padding
  · rw [answer_of_room room, used_advance]
    split
    · exact room
    · exact bounded space
  · rw [answer_of_full room]
    exact bounded space

theorem answer_consecutive (allocator : Allocator) (call : Call) (space : Space) :
    Span.Consecutive (allocator.used space) (granted [(call, (allocator.answer call).1)] space)
      ((allocator.answer call).2.used space) := by
  by_cases room : allocator.used call.space + call.width < padding
  · rw [answer_of_room room]
    by_cases own : call.space = space
    · subst own
      let span : Span := ⟨allocator.used call.space, allocator.used call.space + call.width⟩
      have single : Span.Consecutive span.start [span] span.stop :=
        .cons (Nat.le_add_right _ _) (.nil _)
      simpa [granted, Except.toOption] using single
    · simpa [granted, own, Ne.symm own] using Span.Consecutive.nil (allocator.used space)
  · rw [answer_of_full room]
    have none : granted [(call, .error ⟨call.space, call.node, call.width⟩)] space = [] := by
      simp [granted, Except.toOption]
    rw [none]
    exact .nil _

theorem run_append (allocator : Allocator) (first second : List Call) :
    allocator.run (first ++ second) =
      ((allocator.run first).1 ++ ((allocator.run first).2.run second).1,
        ((allocator.run first).2.run second).2) := by
  induction first generalizing allocator with
  | nil => rfl
  | cons call rest ih =>
      rw [List.cons_append, run, run, ih]
      rfl

theorem run_length (allocator : Allocator) (calls : List Call) :
    (allocator.run calls).1.length = calls.length := by
  induction calls generalizing allocator with
  | nil => rfl
  | cons call rest ih => exact congrArg (· + 1) (ih _)

theorem run_bounded {allocator : Allocator} (bounded : ∀ space, allocator.used space < padding)
    (calls : List Call) (space : Space) : (allocator.run calls).2.used space < padding := by
  induction calls generalizing allocator with
  | nil => exact bounded space
  | cons call rest ih => exact ih (answer_bounded bounded call)

theorem granted_append (first second : List (Call × Answer)) (space : Space) :
    granted (first ++ second) space = granted first space ++ granted second space :=
  List.filterMap_append

theorem run_consecutive (allocator : Allocator) (calls : List Call) (space : Space) :
    Span.Consecutive (allocator.used space) (granted (allocator.run calls).1 space)
      ((allocator.run calls).2.used space) := by
  induction calls generalizing allocator with
  | nil => exact .nil _
  | cons call rest ih =>
      have split := granted_append [(call, (allocator.answer call).1)]
        ((allocator.answer call).2.run rest).1 space
      rw [List.singleton_append] at split
      rw [run, split]
      exact (answer_consecutive allocator call space).append (ih _)

theorem run_getElem? (allocator : Allocator) {calls : List Call} {position : Nat}
    (inside : position < calls.length) :
    (allocator.run calls).1[position]? = some (calls[position],
      ((allocator.run (calls.take position)).2.answer calls[position]).1) ∧
    (allocator.run (calls.take (position + 1))).2 =
      ((allocator.run (calls.take position)).2.answer calls[position]).2 := by
  have length := run_length allocator (calls.take position)
  rw [List.length_take_of_le (Nat.le_of_lt inside)] at length
  constructor
  · conv_lhs => rw [← List.take_append_drop position calls, List.drop_eq_getElem_cons inside]
    rw [run_append, List.getElem?_append_right (Nat.le_of_eq length), length, Nat.sub_self]
    rfl
  · rw [List.take_add_one, List.getElem?_eq_getElem inside, run_append]
    rfl

/-- What a new allocator gives out, whatever the calls. -/
structure Ledger (granted : Space → List Span) (allocator : Allocator) : Prop where
  consecutive : ∀ space, Span.Consecutive 0 (granted space) (allocator.used space)
  disjoint : ∀ space, (granted space).Pairwise fun before after =>
    ∀ offset, ¬ (before.contains offset = true ∧ after.contains offset = true)
  unpadded : ∀ space, ∀ span ∈ granted space, span.contains padding = false

theorem run_ledger (calls : List Call) :
    Ledger (granted (empty.run calls).1) (empty.run calls).2 ∧
    ∀ (position : Nat) (inside : position < calls.length), ∃ given,
      (empty.run calls).1[position]? = some (calls[position], given) ∧
      Answered (empty.run (calls.take position)).2 calls[position] given
        (empty.run (calls.take (position + 1))).2 := by
  have chain (space : Space) := run_consecutive empty calls space
  refine ⟨⟨chain, fun space => ?_, fun space span member => ?_⟩, fun position inside => ?_⟩
  · apply (chain space).ordered.imp
    rintro before after ordered offset ⟨first, second⟩
    exact Span.Apart.not_contains (.inl ordered) first second
  · have bounded (space : Space) : empty.used space < padding := Nat.succ_pos 4294967294
    have limit := run_bounded bounded calls space
    have last := ((chain space).bounds member).2.2
    apply eq_false_of_ne_true
    rw [Span.contains_iff]
    omega
  · obtain ⟨found, after⟩ := run_getElem? empty inside
    refine ⟨_, found, ?_⟩
    rw [after]
    exact answer_answered _ _

end Allocator
end CircuitPlan
