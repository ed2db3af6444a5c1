import CircuitPlan.Proofs.Reduction.Tiling

namespace CircuitPlan

namespace Span

variable {left right : Span}

theorem precedes_iff : left.precedes right = true ↔
    left.start < right.start ∨ left.start = right.start ∧ left.stop ≤ right.stop := by
  rw [precedes, bne_iff_ne, ne_eq, order]
  rcases Nat.lt_trichotomy left.start right.start with less | same | greater
  · simp [Nat.compare_eq_lt.mpr less, less]
  · simp [same, Nat.compare_eq_gt]
  · simp [Nat.compare_eq_gt.mpr greater, Nat.not_lt_of_lt greater, Nat.ne_of_gt greater]

theorem apart_iff (leftNonempty : left.start < left.stop) (rightNonempty : right.start < right.stop) :
    left.Apart right ↔ ∀ offset, left.contains offset = true → ¬ right.contains offset = true := by
  constructor
  · exact fun apart _ => apart.not_contains
  · intro free
    -- Two spans that meet have the greater of their starts in common.
    have here := free (max left.start right.start)
    rw [contains_iff, contains_iff] at here
    unfold Apart
    omega

end Span

namespace Reduction

section Spans

variable {spans others : List Span}

theorem neighboursApart_iff (ordered : ∀ span ∈ spans, span.start ≤ span.stop) :
    neighboursApart spans = true ↔
      spans.Pairwise fun before after => before.stop ≤ after.start := by
  induction spans with
  | nil => simp [neighboursApart]
  | cons first rest ih =>
      cases rest with
      | nil => simp [neighboursApart]
      | cons second rest =>
          have secondOrdered := ordered second (List.mem_cons_of_mem _ List.mem_cons_self)
          rw [neighboursApart, Bool.and_eq_true, decide_eq_true_iff,
            ih fun span member => ordered span (List.mem_cons_of_mem _ member),
            List.pairwise_cons (a := first)]
          apply and_congr_left
          intro later
          rw [List.forall_mem_cons]
          refine ⟨fun next => ⟨next, ?_⟩, And.left⟩
          intro span member
          exact Nat.le_trans next
            (Nat.le_trans secondOrdered ((List.pairwise_cons.mp later).1 span member))

theorem mergeSort_sorted (spans : List Span) :
    (spans.mergeSort Span.precedes).Pairwise fun left right => left.precedes right = true := by
  apply List.pairwise_mergeSort
  · intro first second third
    simp only [Span.precedes_iff]
    omega
  · intro first second
    rw [Bool.or_eq_true, Span.precedes_iff, Span.precedes_iff]
    omega

theorem spansApart_iff_sorted (ordered : ∀ span ∈ spans, span.start ≤ span.stop) :
    spansApart spans = true ↔
      (spans.mergeSort Span.precedes).Pairwise fun before after => before.stop ≤ after.start :=
  neighboursApart_iff fun span member => ordered span (List.mem_mergeSort.mp member)

theorem pairwise_of_spansApart (ordered : ∀ span ∈ spans, span.start ≤ span.stop)
    (apart : spansApart spans = true) : spans.Pairwise Span.Apart := by
  have chain := (spansApart_iff_sorted ordered).mp apart
  exact ((List.mergeSort_perm spans _).pairwise_iff Span.Apart.symm).mp (chain.imp .inl)

/-- Of two spans that lie apart the one that comes first in order is in front, unless one of them is
empty. -/
theorem spansApart_iff (nonempty : ∀ span ∈ spans, span.start < span.stop) :
    spansApart spans = true ↔ spans.Pairwise Span.Apart := by
  have ordered : ∀ span ∈ spans, span.start ≤ span.stop :=
    fun span member => Nat.le_of_lt (nonempty span member)
  refine ⟨pairwise_of_spansApart ordered, fun apart => (spansApart_iff_sorted ordered).mpr ?_⟩
  have sortedApart :=
    ((List.mergeSort_perm spans Span.precedes).pairwise_iff Span.Apart.symm).mpr apart
  refine ((mergeSort_sorted spans).and sortedApart).imp_of_mem ?_
  rintro left right isLeft isRight ⟨inOrder, separate⟩
  have leftNonempty := nonempty left (List.mem_mergeSort.mp isLeft)
  have rightNonempty := nonempty right (List.mem_mergeSort.mp isRight)
  rw [Span.precedes_iff] at inOrder
  unfold Span.Apart at separate
  omega

theorem spansApart_congr (perm : spans.Perm others) : spansApart spans = spansApart others := by
  have same : spans.mergeSort Span.precedes = others.mergeSort Span.precedes := by
    have sortedPerm := (List.mergeSort_perm spans Span.precedes).trans
      (perm.trans (List.mergeSort_perm others Span.precedes).symm)
    apply sortedPerm.eq_of_pairwise ?_ (mergeSort_sorted spans) (mergeSort_sorted others)
    rintro ⟨start, stop⟩ ⟨otherStart, otherStop⟩ - - before after
    rw [Span.precedes_iff] at before after
    rw [Span.mk.injEq]
    dsimp only at before after
    omega
  rw [spansApart, spansApart, same]

end Spans

variable {reduction : Reduction}

theorem writesApart_eq_ok {answer : Bool} : reduction.writesApart = .ok answer ↔
    reduction.Readable ∧ spansApart (reduction.jobs.map Job.span) = answer := by
  rw [writesApart, bind_eq_ok]
  simp only [mapM_readJobs_eq_ok, pure_eq_ok, and_assoc, exists_and_left, exists_eq_left']

def Disjoint (reduction : Reduction) : Prop :=
  reduction.jobs.Pairwise fun left right => ∀ offset,
    left.span.contains offset = true → ¬ right.span.contains offset = true

/-- What comparing neighbours tells about a reduction. -/
structure Compared (reduction : Reduction) : Prop where
  answers : (∃ answer, reduction.writesApart = .ok answer) ↔ reduction.Readable
  sound : reduction.writesApart = .ok true → reduction.Disjoint
  complete : reduction.Readable → (∀ job ∈ reduction.jobs, 0 < job.width) →
    (reduction.writesApart = .ok true ↔ reduction.Disjoint)
  congr : ∀ other : Reduction, reduction.Readable → other.Readable →
    (reduction.jobs.map Job.span).Perm (other.jobs.map Job.span) →
      reduction.writesApart = other.writesApart

theorem disjoint_of_writesApart (apart : reduction.writesApart = .ok true) :
    reduction.Disjoint := by
  have ordered : ∀ span ∈ reduction.jobs.map Job.span, span.start ≤ span.stop :=
    List.forall_mem_map.mpr fun job _ => Nat.le_add_right _ _
  have separate := pairwise_of_spansApart ordered (writesApart_eq_ok.mp apart).2
  exact (List.pairwise_map.mp separate).imp fun lies _ => lies.not_contains

theorem writesApart_iff (readable : reduction.Readable)
    (nonempty : ∀ job ∈ reduction.jobs, 0 < job.width) :
    reduction.writesApart = .ok true ↔ reduction.Disjoint := by
  have spansNonempty : ∀ span ∈ reduction.jobs.map Job.span, span.start < span.stop :=
    List.forall_mem_map.mpr fun job member => Nat.lt_add_of_pos_right (nonempty job member)
  rw [writesApart_eq_ok, and_iff_right readable, spansApart_iff spansNonempty, List.pairwise_map]
  apply List.Pairwise.iff_of_mem
  intro left right isLeft isRight
  exact Span.apart_iff (spansNonempty _ (List.mem_map_of_mem isLeft))
    (spansNonempty _ (List.mem_map_of_mem isRight))

theorem compared (reduction : Reduction) : Compared reduction where
  answers := by
    simp only [writesApart_eq_ok, exists_and_left]
    exact and_iff_left ⟨_, rfl⟩
  sound := disjoint_of_writesApart
  complete := writesApart_iff
  congr other readable otherReadable perm := by
    rw [writesApart_eq_ok.mpr ⟨readable, rfl⟩, writesApart_eq_ok.mpr ⟨otherReadable, rfl⟩,
      spansApart_congr perm]

end Reduction
end CircuitPlan
