import Mathlib.Data.List.Pairwise
import CircuitPlan.Slot.Span

namespace CircuitPlan.Span

/-- Each span starts where the one before it stops. -/
inductive Consecutive : Nat → List Span → Nat → Prop
  | nil (start : Nat) : Consecutive start [] start
  | cons {span : Span} {rest : List Span} {stop : Nat} (ordered : span.start ≤ span.stop)
      (chain : Consecutive span.stop rest stop) : Consecutive span.start (span :: rest) stop

def Apart (left right : Span) : Prop := left.stop ≤ right.start ∨ right.stop ≤ left.start

instance (left right : Span) : Decidable (Apart left right) :=
  inferInstanceAs (Decidable (_ ∨ _))

theorem Apart.symm {left right : Span} (apart : Apart left right) : Apart right left :=
  Or.symm apart

theorem contains_iff {span : Span} {offset : Nat} :
    span.contains offset = true ↔ span.start ≤ offset ∧ offset < span.stop := by
  simp [contains]

variable {start stop : Nat} {spans : List Span}

theorem Consecutive.nil_eq (chain : Consecutive start [] stop) : start = stop := by
  cases chain
  rfl

theorem Consecutive.le (chain : Consecutive start spans stop) : start ≤ stop := by
  induction chain with
  | nil start => exact Nat.le_refl start
  | cons ordered _ ih => exact Nat.le_trans ordered ih

theorem Consecutive.stop_le (chain : Consecutive start spans stop) {bound : Nat}
    (first : start ≤ bound) (each : ∀ span ∈ spans, span.stop ≤ bound) : stop ≤ bound := by
  induction chain with
  | nil start => exact first
  | cons _ _ ih =>
      exact ih (each _ List.mem_cons_self) fun span member =>
        each span (List.mem_cons_of_mem _ member)

theorem Consecutive.bounds (chain : Consecutive start spans stop) {span : Span}
    (member : span ∈ spans) :
    start ≤ span.start ∧ span.start ≤ span.stop ∧ span.stop ≤ stop := by
  induction chain with
  | nil start => cases member
  | cons ordered chain ih =>
      cases member with
      | head => exact ⟨Nat.le_refl _, ordered, chain.le⟩
      | tail _ member =>
          have inside := ih member
          exact ⟨Nat.le_trans ordered inside.1, inside.2⟩

theorem Consecutive.ordered (chain : Consecutive start spans stop) :
    spans.Pairwise fun before after => before.stop ≤ after.start := by
  induction chain with
  | nil start => exact .nil
  | cons ordered chain ih => exact .cons (fun span member => (chain.bounds member).1) ih

theorem Consecutive.exists_contains (chain : Consecutive start spans stop) {offset : Nat}
    (above : start ≤ offset) (below : offset < stop) :
    ∃ span ∈ spans, span.contains offset = true := by
  induction chain with
  | nil start => exact absurd below (Nat.not_lt_of_le above)
  | @cons first rest stop ordered chain ih =>
      by_cases inside : offset < first.stop
      · exact ⟨first, List.mem_cons_self, contains_iff.mpr ⟨above, inside⟩⟩
      · obtain ⟨span, member, contained⟩ := ih (Nat.le_of_not_lt inside) below
        exact ⟨span, List.mem_cons_of_mem _ member, contained⟩

theorem Consecutive.apart {α : Type} {xs : List α} (range : α → Span)
    (chain : Consecutive start (xs.map range) stop) {x y : α} (left : x ∈ xs) (right : y ∈ xs)
    (different : x ≠ y) : Apart (range x) (range y) := by
  have ordered := List.pairwise_map.mp chain.ordered
  have apart : xs.Pairwise fun before after => Apart (range before) (range after) :=
    ordered.imp fun earlier => .inl earlier
  have : Std.Symm fun before after => Apart (range before) (range after) :=
    ⟨fun _ _ => Apart.symm⟩
  exact apart.forall left right different

theorem Consecutive.append {middle : Nat} {before after : List Span}
    (first : Consecutive start before middle) (second : Consecutive middle after stop) :
    Consecutive start (before ++ after) stop := by
  induction first with
  | nil start => exact second
  | cons ordered _ ih => exact .cons ordered (ih second)

theorem Consecutive.split {before after : List Span}
    (chain : Consecutive start (before ++ after) stop) :
    ∃ middle, Consecutive start before middle ∧ Consecutive middle after stop := by
  induction before generalizing start with
  | nil => exact ⟨start, .nil start, chain⟩
  | cons span before ih =>
      cases chain with
      | cons ordered chain =>
          obtain ⟨middle, first, second⟩ := ih chain
          exact ⟨middle, .cons ordered first, second⟩

theorem Consecutive.flatMap {α : Type} {xs : List α} {range : α → Span} {pieces : α → List Span}
    (chain : Consecutive start (xs.map range) stop)
    (each : ∀ x ∈ xs, Consecutive (range x).start (pieces x) (range x).stop) :
    Consecutive start (xs.flatMap pieces) stop := by
  induction xs generalizing start with
  | nil => exact chain
  | cons x xs ih =>
      cases chain with
      | cons ordered chain =>
          rw [List.flatMap_cons]
          exact (each x List.mem_cons_self).append
            (ih chain fun y member => each y (List.mem_cons_of_mem _ member))

def hull (spans : List Span) : Span :=
  ⟨(spans.head?.map (·.start)).getD 0, (spans.getLast?.map (·.stop)).getD 0⟩

theorem Consecutive.hull_eq (chain : Consecutive start spans stop) (nonempty : spans ≠ []) :
    hull spans = ⟨start, stop⟩ := by
  induction chain with
  | nil start => exact absurd rfl nonempty
  | @cons span rest stop ordered chain ih =>
      cases rest with
      | nil =>
          obtain rfl := chain.nil_eq
          rfl
      | cons next rest =>
          have later := congrArg Span.stop (ih (List.cons_ne_nil next rest))
          simp only [hull, List.getLast?_cons_cons] at later ⊢
          rw [later]
          rfl

theorem Consecutive.piece {α : Type} {xs : List α} {pieces : α → List Span}
    (chain : Consecutive start (xs.flatMap pieces) stop) {x : α} (member : x ∈ xs)
    (nonempty : pieces x ≠ []) :
    Consecutive (hull (pieces x)).start (pieces x) (hull (pieces x)).stop := by
  obtain ⟨before, after, rfl⟩ := List.append_of_mem member
  rw [List.flatMap_append, List.flatMap_cons] at chain
  obtain ⟨_, -, chain⟩ := chain.split
  obtain ⟨_, chain, -⟩ := chain.split
  rw [chain.hull_eq nonempty]
  exact chain

theorem Consecutive.hulls {α : Type} {xs : List α} {pieces : α → List Span}
    (chain : Consecutive start (xs.flatMap pieces) stop) (nonempty : ∀ x ∈ xs, pieces x ≠ []) :
    Consecutive start (xs.map fun x => hull (pieces x)) stop := by
  induction xs generalizing start with
  | nil => exact chain
  | cons x xs ih =>
      rw [List.flatMap_cons] at chain
      obtain ⟨middle, first, second⟩ := chain.split
      have same := first.hull_eq (nonempty x List.mem_cons_self)
      have rest := ih second fun y member => nonempty y (List.mem_cons_of_mem _ member)
      have joined : Consecutive (hull (pieces x)).start
          (hull (pieces x) :: xs.map fun x => hull (pieces x)) stop := by
        apply Consecutive.cons
        · rw [same]
          exact first.le
        · rw [same]
          exact rest
      rw [same] at joined
      simpa only [List.map_cons, same] using joined

variable {α : Type} {xs : List α} {range : α → Span}

theorem consecutive_parts (start count width : Nat) :
    Consecutive start ((List.range count).map fun k =>
      ⟨start + k * width, start + k * width + width⟩) (start + count * width) := by
  induction count with
  | zero => exact (Nat.zero_mul width).symm ▸ .nil start
  | succ count ih =>
      let last : Span := ⟨start + count * width, start + count * width + width⟩
      have single : Consecutive last.start [last] last.stop :=
        .cons (Nat.le_add_right _ _) (.nil _)
      rw [List.range_succ, List.map_append, Nat.succ_mul, ← Nat.add_assoc]
      exact ih.append single

theorem part_inside {start count width k : Nat} (inside : k < count) :
    start ≤ start + k * width ∧ start + k * width + width ≤ start + count * width := by
  have part : (⟨start + k * width, start + k * width + width⟩ : Span) ∈
      (List.range count).map fun k => ⟨start + k * width, start + k * width + width⟩ :=
    List.mem_map.mpr ⟨k, List.mem_range.mpr inside, rfl⟩
  have bounds := (consecutive_parts start count width).bounds part
  exact ⟨bounds.1, bounds.2.2⟩

theorem parts_apart {start count width left right : Nat} (leftInside : left < count)
    (rightInside : right < count) (different : left ≠ right) :
    Apart ⟨start + left * width, start + left * width + width⟩
      ⟨start + right * width, start + right * width + width⟩ :=
  (consecutive_parts start count width).apart
    (fun k => ⟨start + k * width, start + k * width + width⟩) (List.mem_range.mpr leftInside)
    (List.mem_range.mpr rightInside) different

theorem Apart.mono {left right outerLeft outerRight : Span} (apart : Apart outerLeft outerRight)
    (leftInside : outerLeft.start ≤ left.start ∧ left.stop ≤ outerLeft.stop)
    (rightInside : outerRight.start ≤ right.start ∧ right.stop ≤ outerRight.stop) :
    Apart left right := by
  unfold Apart at apart ⊢
  omega

theorem Consecutive.offsets_eq (chain : Consecutive start (xs.map range) stop) :
    (xs.flatMap fun x => (List.range (range x).size).map ((range x).start + ·)) =
      List.range' start (stop - start) := by
  induction xs generalizing start with
  | nil =>
      obtain rfl := chain.nil_eq
      simp
  | cons x xs ih =>
      cases chain with
      | cons ordered chain =>
          have whole : stop - (range x).start = (range x).size + (stop - (range x).stop) := by
            have rest := chain.le
            rw [size]
            omega
          have next : (range x).start + (range x).size = (range x).stop := by
            rw [size]
            omega
          rw [List.flatMap_cons, ih chain, whole, ← List.range'_append_1, next,
            ← List.range'_eq_map_range]

theorem Consecutive.prefix_drop {β : Type} {gather : α → List β}
    (chain : Consecutive start (xs.map range) stop)
    (widths : ∀ x ∈ xs, (range x).stop = (range x).start + (gather x).length) {x : α}
    (member : x ∈ xs) : gather x <+: (xs.flatMap gather).drop ((range x).start - start) := by
  induction xs generalizing start with
  | nil => cases member
  | cons y xs ih =>
      cases chain with
      | cons ordered chain =>
          rw [List.flatMap_cons]
          cases member with
          | head =>
              rw [Nat.sub_self, List.drop_zero]
              exact List.prefix_append _ _
          | tail _ member =>
              have width := widths y List.mem_cons_self
              have later := (chain.bounds (List.mem_map_of_mem member)).1
              have place : (range x).start - (range y).start =
                  (gather y).length + ((range x).start - (range y).stop) := by omega
              rw [place, List.drop_length_add_append]
              exact ih chain (fun z inside => widths z (List.mem_cons_of_mem _ inside)) member

theorem Apart.not_contains {left right : Span} (apart : Apart left right) {offset : Nat}
    (inside : left.contains offset = true) : ¬ right.contains offset = true := by
  rw [contains_iff] at inside ⊢
  unfold Apart at apart
  omega

end CircuitPlan.Span
