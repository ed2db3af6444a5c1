import CircuitPlan.Slot.Table
import CircuitPlan.Proofs.Checked
import CircuitPlan.Proofs.Slot.Consecutive

namespace CircuitPlan

namespace Allocator

variable {allocator after : Allocator} {space : Space} {node width : Nat} {span : Span}

theorem run_bump_of_room (room : allocator.used space + width < padding) :
    (bump space node width).run allocator =
      .ok ⟨allocator.used space, allocator.used space + width⟩
        (allocator.advance space (allocator.used space + width)) := by
  have word : allocator.used space + width < UInt32.size := Nat.lt_trans room (by decide)
  have small : width < UInt32.size := Nat.lt_of_le_of_lt (Nat.le_add_left _ _) word
  simp only [bump, EStateM.run_bind, EStateM.run_get, require_pos small, require_pos word,
    require_pos room, run_ofExcept_ok]
  rfl

theorem run_bump_of_full (full : ¬ allocator.used space + width < padding) :
    (bump space node width).run allocator = .error ⟨space, node, width⟩ allocator := by
  simp only [bump, EStateM.run_bind, EStateM.run_get]
  by_cases small : width < UInt32.size
  · rw [require_pos small, run_ofExcept_ok]
    by_cases word : allocator.used space + width < UInt32.size
    · simp only [require_pos word, require_neg full, run_ofExcept_ok, run_ofExcept_error]
    · simp only [require_neg word, run_ofExcept_error]
  · rw [require_neg small, run_ofExcept_error]

theorem allocate_eq_ok : allocator.allocate space node width = .ok (span, after) ↔
    allocator.used space + width < padding ∧
    span = ⟨allocator.used space, allocator.used space + width⟩ ∧
    after = allocator.advance space (allocator.used space + width) := by
  unfold allocate
  by_cases room : allocator.used space + width < padding
  · rw [run_bump_of_room room]
    simp [room, eq_comm]
  · rw [run_bump_of_full room]
    simp [room]

theorem allocate_eq_error {overflow : Overflow}
    (failed : allocator.allocate space node width = .error overflow) :
    overflow.space = space ∧ padding ≤ allocator.used space + width := by
  unfold allocate at failed
  by_cases room : allocator.used space + width < padding
  · rw [run_bump_of_room room] at failed
    cases failed
  · rw [run_bump_of_full room] at failed
    obtain rfl := Except.error.inj failed
    exact ⟨rfl, Nat.le_of_not_lt room⟩

end Allocator

namespace SlotTable

variable {served : List (Purpose × Span)} {purpose other : Purpose} {span : Span}

theorem spanOf_cons_self : spanOf ((purpose, span) :: served) purpose = span := by
  simp [spanOf]

theorem spanOf_cons_ne (different : other ≠ purpose) :
    spanOf ((purpose, span) :: served) other = spanOf served other := by
  have unequal : (other == purpose) = false := beq_eq_false_iff_ne.mpr different
  simp [spanOf, List.lookup_cons, unequal]

end SlotTable

namespace Request

open SlotTable

variable {allocator after : Allocator} {requests : List Request} {served : List (Purpose × Span)}

theorem serve_cons_eq_ok {request : Request} :
    serve allocator (request :: requests) = .ok (served, after) ↔
      ∃ span between rest,
        allocator.allocate request.space request.node request.width = .ok (span, between) ∧
        serve between requests = .ok (rest, after) ∧ served = (request.purpose, span) :: rest := by
  rw [serve, bind_eq_ok]
  constructor
  · rintro ⟨⟨span, between⟩, given, continued⟩
    obtain ⟨⟨rest, last⟩, servedRest, finished⟩ := bind_eq_ok.mp continued
    obtain ⟨rfl, rfl⟩ := Prod.mk.inj (pure_eq_ok.mp finished)
    exact ⟨span, between, rest, given, servedRest, rfl⟩
  · rintro ⟨span, between, rest, given, servedRest, rfl⟩
    refine ⟨(span, between), given, ?_⟩
    dsimp only
    rw [servedRest]
    rfl

/-- What a function says of the purposes that are asked for in a space. -/
def askedIn {α : Type} (requests : List Request) (f : Purpose → α) (space : Space) : List α :=
  (requests.filter fun request => request.space = space).map fun request => f request.purpose

section Asked

variable {α : Type} (f : Purpose → α) (space : Space)

@[simp] theorem askedIn_nil : askedIn [] f space = [] := rfl

@[simp] theorem askedIn_cons (request : Request) (requests : List Request) :
    askedIn (request :: requests) f space =
      if request.space = space then f request.purpose :: askedIn requests f space
      else askedIn requests f space := by
  by_cases own : request.space = space <;> simp [askedIn, own]

@[simp] theorem askedIn_append (first second : List Request) :
    askedIn (first ++ second) f space = askedIn first f space ++ askedIn second f space := by
  simp [askedIn]

end Asked

theorem askedIn_cons_served {request : Request} {span : Span}
    (fresh : request.purpose ∉ requests.map (·.purpose)) (space : Space) :
    askedIn requests (spanOf ((request.purpose, span) :: served)) space =
      askedIn requests (spanOf served) space := by
  unfold askedIn
  apply List.map_congr_left
  intro later member
  apply spanOf_cons_ne
  intro same
  exact fresh (same ▸ List.mem_map_of_mem (List.mem_of_mem_filter member))

theorem serve_consecutive (distinct : (requests.map (·.purpose)).Nodup)
    (success : serve allocator requests = .ok (served, after)) (space : Space) :
    Span.Consecutive (allocator.used space) (askedIn requests (spanOf served) space)
      (after.used space) := by
  induction requests generalizing allocator served with
  | nil =>
      obtain ⟨-, rfl⟩ := Prod.mk.inj (Except.ok.inj success)
      exact .nil _
  | cons request rest ih =>
      obtain ⟨span, between, servedRest, given, success, rfl⟩ := serve_cons_eq_ok.mp success
      obtain ⟨-, rfl, rfl⟩ := Allocator.allocate_eq_ok.mp given
      obtain ⟨fresh, distinct⟩ := List.nodup_cons.mp distinct
      have chain := ih distinct success
      rw [← askedIn_cons_served fresh] at chain
      rw [askedIn_cons, spanOf_cons_self]
      by_cases own : request.space = space
      · subst own
        rw [if_pos rfl]
        have start : allocator.used request.space = (Span.mk (allocator.used request.space)
          (allocator.used request.space + request.width)).start := rfl
        rw [start]
        exact .cons (Nat.le_add_right _ _) (by simpa using chain)
      · rw [if_neg own]
        simpa [Ne.symm own] using chain

theorem serve_width (distinct : (requests.map (·.purpose)).Nodup)
    (success : serve allocator requests = .ok (served, after)) {request : Request}
    (member : request ∈ requests) :
    (spanOf served request.purpose).stop =
        (spanOf served request.purpose).start + request.width ∧
      (spanOf served request.purpose).stop < padding := by
  induction requests generalizing allocator served with
  | nil => simp at member
  | cons first rest ih =>
      obtain ⟨span, between, servedRest, given, success, rfl⟩ := serve_cons_eq_ok.mp success
      obtain ⟨room, rfl, rfl⟩ := Allocator.allocate_eq_ok.mp given
      obtain ⟨fresh, distinct⟩ := List.nodup_cons.mp distinct
      rcases List.mem_cons.mp member with rfl | member
      · rw [spanOf_cons_self]
        exact ⟨rfl, room⟩
      · have different : request.purpose ≠ first.purpose := by
          intro same
          exact fresh (List.mem_map.mpr ⟨request, member, same⟩)
        rw [spanOf_cons_ne different]
        exact ih distinct success member

end Request
end CircuitPlan
