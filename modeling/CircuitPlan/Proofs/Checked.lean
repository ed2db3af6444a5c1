import Mathlib.Data.List.Forall2
import CircuitPlan.Fault

namespace CircuitPlan

variable {ε δ α β : Type}

theorem bind_eq_ok {x : Except ε α} {f : α → Except ε β} {b : β} :
    (x >>= f) = .ok b ↔ ∃ a, x = .ok a ∧ f a = .ok b := by
  cases x <;> simp [bind, Except.bind]

theorem bind_congr_ok {x : Except ε α} {f g : α → Except ε β}
    (same : ∀ a, x = .ok a → f a = g a) : (x >>= f) = (x >>= g) := by
  cases x with
  | error failure => rfl
  | ok a => exact same a rfl

theorem bind_eq_error {x : Except ε α} {f : α → Except ε β} {failure : ε} :
    (x >>= f) = .error failure ↔ x = .error failure ∨ ∃ a, x = .ok a ∧ f a = .error failure := by
  cases x <;> simp [bind, Except.bind]

@[simp] theorem pure_eq_ok {a b : α} : (pure a : Except ε α) = .ok b ↔ a = b := by
  simp [pure, Except.pure]

@[simp] theorem ok_bind {a : α} {f : α → Except ε β} : (Except.ok a >>= f) = f a := rfl

@[simp] theorem error_bind {failure : ε} {f : α → Except ε β} :
    (Except.error failure >>= f) = .error failure := rfl

@[simp] theorem map_eq_ok {x : Except ε α} {f : α → β} {b : β} :
    x.map f = .ok b ↔ ∃ a, x = .ok a ∧ f a = b := by
  cases x <;> simp [Except.map]

@[simp] theorem mapError_eq_ok {x : Except ε α} {f : ε → δ} {a : α} :
    x.mapError f = .ok a ↔ x = .ok a := by
  cases x <;> simp [Except.mapError]

theorem mapError_eq_error {x : Except ε α} {f : ε → δ} {failure : δ} :
    x.mapError f = .error failure ↔ ∃ cause, x = .error cause ∧ f cause = failure := by
  cases x <;> simp [Except.mapError]

theorem unit_bind_eq_ok {x : Except ε Unit} {next : Unit → Except ε α} {a : α} :
    (x >>= next) = .ok a ↔ x = .ok () ∧ next () = .ok a := by
  rw [bind_eq_ok]
  exact ⟨fun ⟨_, first, rest⟩ => ⟨first, rest⟩, fun ⟨first, rest⟩ => ⟨(), first, rest⟩⟩

theorem unit_bind_eq_error {x : Except ε Unit} {next : Unit → Except ε α} {failure : ε} :
    (x >>= next) = .error failure ↔
      x = .error failure ∨ x = .ok () ∧ next () = .error failure := by
  rw [bind_eq_error]
  apply or_congr_right
  exact ⟨fun ⟨_, first, rest⟩ => ⟨first, rest⟩, fun ⟨first, rest⟩ => ⟨(), first, rest⟩⟩

@[simp] theorem elim_eq_ok {found : Option α} {failure : ε} {a : α} :
    found.elim (.error failure) .ok = (.ok a : Except ε α) ↔ found = some a := by
  cases found <;> simp

theorem require_pos {condition : Prop} [Decidable condition] (holds : condition) (failure : ε) :
    require condition failure = .ok () :=
  if_pos holds

theorem require_neg {condition : Prop} [Decidable condition] (fails : ¬ condition) (failure : ε) :
    require condition failure = .error failure :=
  if_neg fails

theorem require_eq_error {condition : Prop} [Decidable condition] {failure other : ε} :
    require condition failure = .error other ↔ ¬ condition ∧ failure = other := by
  unfold require
  split <;> simp_all

@[simp] theorem run_ofExcept_ok {σ : Type} (a : α) (state : σ) :
    (ofExcept (.ok a) : EStateM ε σ α).run state = .ok a state := rfl

@[simp] theorem run_ofExcept_error {σ : Type} (failure : ε) (state : σ) :
    (ofExcept (.error failure) : EStateM ε σ α).run state = .error failure state := rfl

theorem exists_of_isOk {x : Except ε α} (passes : x.isOk = true) : ∃ a, x = .ok a := by
  cases x with
  | error failure => simp [Except.isOk, Except.toBool] at passes
  | ok a => exact ⟨a, rfl⟩

theorem exists_ok_of_any {x : Except ε α} {p : α → Bool} (passes : x.toOption.any p = true) :
    ∃ a, x = .ok a ∧ p a = true := by
  cases x with
  | error failure => simp [Except.toOption] at passes
  | ok a => exact ⟨a, rfl, passes⟩

theorem forM_eq_ok {xs : List α} {check : α → Except ε Unit} :
    xs.forM check = .ok () ↔ ∀ x ∈ xs, check x = .ok () := by
  induction xs with
  | nil => simp [List.forM, pure, Except.pure]
  | cons x xs ih =>
      change (check x >>= fun _ => xs.forM check) = .ok () ↔ _
      rw [unit_bind_eq_ok, List.forall_mem_cons, ih]

theorem forM_congr {xs : List α} {f g : α → Except ε Unit} (same : ∀ x ∈ xs, f x = g x) :
    xs.forM f = xs.forM g := by
  induction xs with
  | nil => rfl
  | cons x xs ih =>
      change (f x >>= fun _ => xs.forM f) = (g x >>= fun _ => xs.forM g)
      rw [same x List.mem_cons_self, ih fun x member => same x (List.mem_cons_of_mem _ member)]

theorem forM_eq_error_iff {xs : List α} {check : α → Except ε Unit} {failure : ε} :
    xs.forM check = .error failure ↔ ∃ (index : Nat) (x : α), xs[index]? = some x ∧
      check x = .error failure ∧ ∀ before < index, ∀ y, xs[before]? = some y → check y = .ok () := by
  induction xs with
  | nil =>
      constructor
      · intro failed
        cases failed
      · rintro ⟨index, x, found, -⟩
        cases found
  | cons x xs ih =>
      change (check x >>= fun _ => xs.forM check) = .error failure ↔ _
      rw [unit_bind_eq_error]
      constructor
      · rintro (here | ⟨passed, later⟩)
        · exact ⟨0, x, rfl, here, fun before inside => absurd inside (Nat.not_lt_zero before)⟩
        · obtain ⟨index, y, found, broken, earlier⟩ := ih.mp later
          refine ⟨index + 1, y, found, broken, ?_⟩
          rintro (_ | before) inside z same
          · cases same
            exact passed
          · exact earlier before (Nat.lt_of_succ_lt_succ inside) z same
      · rintro ⟨_ | index, y, found, broken, earlier⟩
        · cases found
          exact .inl broken
        · refine .inr ⟨earlier 0 (Nat.succ_pos index) x rfl, ih.mpr ?_⟩
          exact ⟨index, y, found, broken, fun before inside =>
            earlier (before + 1) (Nat.succ_lt_succ inside)⟩

theorem mapM_eq_ok {xs : List α} {f : α → Except ε β} {ys : List β} :
    xs.mapM f = .ok ys ↔ List.Forall₂ (fun x y => f x = .ok y) xs ys := by
  induction xs generalizing ys with
  | nil => cases ys <;> simp
  | cons x xs ih =>
      rw [List.mapM_cons, bind_eq_ok]
      simp only [bind_eq_ok, pure_eq_ok]
      constructor
      · rintro ⟨y, head, rest, tail, rfl⟩
        exact .cons head (ih.mp tail)
      · rintro (_ | ⟨head, tail⟩)
        exact ⟨_, head, _, ih.mpr tail, rfl⟩

theorem forall₂_origin {related : α → β → Prop} {xs : List α} {ys : List β}
    (pairs : List.Forall₂ related xs ys) {y : β} (member : y ∈ ys) : ∃ x ∈ xs, related x y := by
  induction pairs with
  | nil => cases member
  | cons head tail ih =>
      cases member with
      | head => exact ⟨_, List.mem_cons_self, head⟩
      | tail _ member =>
          obtain ⟨x, inside, same⟩ := ih member
          exact ⟨x, List.mem_cons_of_mem _ inside, same⟩

theorem forall₂_getElem? {related : α → β → Prop} {xs : List α} {ys : List β}
    (pairs : List.Forall₂ related xs ys) {index : Nat} {y : β} (found : ys[index]? = some y) :
    ∃ x, xs[index]? = some x ∧ related x y := by
  induction pairs generalizing index with
  | nil => cases found
  | cons head tail ih =>
      cases index with
      | zero =>
          cases found
          exact ⟨_, rfl, head⟩
      | succ index => exact ih found

theorem mapM_origin {xs : List α} {f : α → Except ε β} {ys : List β} (success : xs.mapM f = .ok ys)
    {y : β} (member : y ∈ ys) : ∃ x ∈ xs, f x = .ok y :=
  forall₂_origin (mapM_eq_ok.mp success) member

theorem mapM_result {xs : List α} {f : α → Except ε β} {ys : List β} (success : xs.mapM f = .ok ys)
    {x : α} (member : x ∈ xs) : ∃ y ∈ ys, f x = .ok y :=
  forall₂_origin (mapM_eq_ok.mp success).flip member

theorem mapM_map_eq {γ : Type} {xs : List α} {f : α → Except ε β} {ys : List β}
    (success : xs.mapM f = .ok ys) {g : β → γ} {h : α → γ}
    (same : ∀ x y, f x = .ok y → g y = h x) : ys.map g = xs.map h := by
  have pairs := mapM_eq_ok.mp success
  clear success
  induction pairs with
  | nil => rfl
  | cons head tail ih => rw [List.map_cons, List.map_cons, same _ _ head, ih]

theorem mapM_ok {xs : List α} {f : α → Except ε β} {g : α → β}
    (succeeds : ∀ x ∈ xs, f x = .ok (g x)) : xs.mapM f = .ok (xs.map g) := by
  rw [mapM_eq_ok, List.forall₂_map_right_iff, List.forall₂_same]
  exact succeeds

theorem mapM_exists {xs : List α} {f : α → Except ε β}
    (succeeds : ∀ x ∈ xs, ∃ y, f x = .ok y) : ∃ ys, xs.mapM f = .ok ys := by
  induction xs with
  | nil => exact ⟨[], rfl⟩
  | cons x xs ih =>
      obtain ⟨y, head⟩ := succeeds x List.mem_cons_self
      obtain ⟨ys, tail⟩ := ih fun x member => succeeds x (List.mem_cons_of_mem _ member)
      exact ⟨y :: ys, by rw [List.mapM_cons, head, tail]; rfl⟩

theorem mapM_congr {xs : List α} {f g : α → Except ε β} (same : ∀ x ∈ xs, f x = g x) :
    xs.mapM f = xs.mapM g := by
  induction xs with
  | nil => rfl
  | cons x xs ih =>
      rw [List.mapM_cons, List.mapM_cons, same x List.mem_cons_self,
        ih fun x member => same x (List.mem_cons_of_mem _ member)]

theorem mapM_eq_error {xs : List α} {f : α → Except ε β} {failure : ε}
    (each : ∀ x ∈ xs, (∃ y, f x = .ok y) ∨ f x = .error failure)
    (fails : ∃ x ∈ xs, f x = .error failure) : xs.mapM f = .error failure := by
  induction xs with
  | nil =>
      obtain ⟨x, member, -⟩ := fails
      cases member
  | cons x xs ih =>
      rw [List.forall_mem_cons] at each
      rw [List.mapM_cons]
      rcases each.1 with ⟨y, head⟩ | head
      · have later : ∃ z ∈ xs, f z = .error failure := by
          obtain ⟨z, member, broken⟩ := fails
          rcases List.mem_cons.mp member with rfl | member
          · cases head.symm.trans broken
          · exact ⟨z, member, broken⟩
        rw [head, ok_bind, ih each.2 later, error_bind]
      · rw [head, error_bind]

theorem mapM_eq_error_iff {xs : List α} {f : α → Except ε β} {failure : ε} :
    xs.mapM f = .error failure ↔ ∃ before x after, xs = before ++ x :: after ∧
      (∀ y ∈ before, ∃ z, f y = .ok z) ∧ f x = .error failure := by
  constructor
  · intro failed
    induction xs with
    | nil => cases failed
    | cons x xs ih =>
        rw [List.mapM_cons] at failed
        rcases bind_eq_error.mp failed with here | ⟨y, passed, failed⟩
        · exact ⟨[], x, xs, rfl, nofun, here⟩
        · rcases bind_eq_error.mp failed with later | ⟨ys, -, finished⟩
          · obtain ⟨before, z, after, rfl, passes, broken⟩ := ih later
            exact ⟨x :: before, z, after, rfl,
              List.forall_mem_cons.mpr ⟨⟨y, passed⟩, passes⟩, broken⟩
          · cases finished
  · rintro ⟨before, x, after, rfl, passes, broken⟩
    obtain ⟨ys, success⟩ := mapM_exists passes
    rw [List.mapM_append, success, ok_bind, List.mapM_cons, broken, error_bind, error_bind]

/-! ## Places of a list -/

theorem map_range_eq {xs : List α} {f : Nat → β} {g : α → β}
    (same : ∀ (index : Nat) (x : α), xs[index]? = some x → f index = g x) :
    (List.range xs.length).map f = xs.map g := by
  apply List.ext_getElem
  · rw [List.length_map, List.length_map, List.length_range]
  · intro index _ inside
    rw [List.length_map] at inside
    rw [List.getElem_map, List.getElem_map, List.getElem_range]
    exact same index _ (List.getElem?_eq_getElem inside)

theorem mapM_zipIdx {xs : List α} {f : α × Nat → Except ε β} {g : α → Except ε β}
    (same : ∀ (index : Nat) (inside : index < xs.length), f (xs[index], index) = g xs[index]) :
    xs.zipIdx.mapM f = xs.mapM g := by
  have entries : xs.mapM g = xs.zipIdx.mapM fun entry => g entry.1 := by
    conv_lhs => rw [← List.zipIdx_map_fst 0 xs, List.mapM_map]
    rfl
  rw [entries]
  apply mapM_congr
  rintro ⟨x, index⟩ member
  have found : xs[index]? = some x := List.mem_zipIdx_iff_getElem?.mp member
  obtain ⟨inside, rfl⟩ := List.getElem?_eq_some_iff.mp found
  exact same index inside

/-! ## Translated failures -/

theorem mapError_bind (x : Except ε α) (f : α → Except ε β) (g : ε → δ) :
    (x >>= f).mapError g = x.mapError g >>= fun a => (f a).mapError g := by
  cases x <;> rfl

theorem mapError_require (condition : Prop) [Decidable condition] (failure : ε) (g : ε → δ) :
    (require condition failure).mapError g = require condition (g failure) := by
  unfold require
  split <;> rfl

theorem mapError_forM (xs : List α) (check : α → Except ε Unit) (g : ε → δ) :
    (xs.forM check).mapError g = xs.forM fun x => (check x).mapError g := by
  induction xs with
  | nil => rfl
  | cons x xs ih =>
      change (check x >>= fun _ => xs.forM check).mapError g = _
      rw [mapError_bind, ih]
      rfl

/-! ## Allowed failures -/

/-- Whether a computation succeeds or stops with a failure of a given kind. -/
def FailsOnly (allowed : ε → Prop) (x : Except ε α) : Prop :=
  ∀ failure, x = .error failure → allowed failure

namespace FailsOnly

variable {allowed : ε → Prop}

theorem ok (allowed : ε → Prop) (a : α) : FailsOnly allowed (.ok a) := by
  intro failure failed
  cases failed

theorem bind {x : Except ε α} {next : α → Except ε β} (first : FailsOnly allowed x)
    (rest : ∀ a, x = .ok a → FailsOnly allowed (next a)) : FailsOnly allowed (x >>= next) := by
  intro failure failed
  rcases bind_eq_error.mp failed with early | ⟨a, success, late⟩
  · exact first failure early
  · exact rest a success failure late

theorem require {condition : Prop} [Decidable condition] {failure : ε}
    (broken : ¬ condition → allowed failure) :
    FailsOnly allowed (require condition failure) := by
  intro other failed
  obtain ⟨fails, rfl⟩ := require_eq_error.mp failed
  exact broken fails

theorem mono {kept : ε → Prop} {x : Except ε α} (fails : FailsOnly allowed x)
    (weaker : ∀ failure, allowed failure → kept failure) : FailsOnly kept x :=
  fun failure failed => weaker failure (fails failure failed)

theorem of_mapError_eq {x : Except ε α} {g : ε → ε} (same : x.mapError g = x) :
    FailsOnly (fun failure => g failure = failure) x := by
  rintro failure rfl
  exact Except.error.inj same

theorem forM {xs : List α} {check : α → Except ε Unit}
    (each : ∀ x ∈ xs, FailsOnly allowed (check x)) : FailsOnly allowed (xs.forM check) := by
  intro failure failed
  obtain ⟨index, x, found, here, -⟩ := forM_eq_error_iff.mp failed
  exact each x (List.mem_of_getElem? found) failure here

theorem mapM {xs : List α} {f : α → Except ε β} (each : ∀ x ∈ xs, FailsOnly allowed (f x)) :
    FailsOnly allowed (xs.mapM f) := by
  induction xs with
  | nil => exact ok allowed []
  | cons x xs ih =>
      rw [List.mapM_cons]
      apply bind (each x List.mem_cons_self)
      intro y _
      apply bind (ih fun x member => each x (List.mem_cons_of_mem _ member))
      intro ys _
      exact ok allowed (y :: ys)

end FailsOnly

end CircuitPlan
