import Mathlib.Algebra.GroupWithZero.Nat
import CircuitPlan.Fingerprint.Plan

/-!
# Encodings without loss

Bytes are read from the left: those of a value tell the value, and where they end, whatever comes
after them. Records are read field by field, so an encoding of records loses nothing when none of
its fields does.
-/

namespace CircuitPlan.Encoding

variable {α β γ δ : Type} {encode : α → Bytes} {storable : α → Prop} {view : α → β}

/-- An encoding that writes the storable values, and whose bytes tell what `view` sees of a value
and where they end. -/
structure Reads (encode : α → Bytes) (storable : α → Prop) (view : α → β) : Prop where
  written : ∀ a, (∃ x, encode a = some x) ↔ storable a
  determined : ∀ a b x y s t, encode a = some x → encode b = some y → x ++ s = y ++ t →
    view a = view b ∧ s = t

abbrev Lossless (encode : α → Bytes) (storable : α → Prop) : Prop := Reads encode storable id

theorem both_eq_some {first second : Bytes} {z : List UInt8} : both first second = some z ↔
    ∃ x, first = some x ∧ ∃ y, second = some y ∧ x ++ y = z := by
  simp [both, Option.bind_eq_some_iff, pure]

theorem exists_both {first second : Bytes} : (∃ z, both first second = some z) ↔
    (∃ x, first = some x) ∧ ∃ y, second = some y := by
  constructor
  · rintro ⟨z, found⟩
    obtain ⟨x, isFirst, y, isSecond, -⟩ := both_eq_some.mp found
    exact ⟨⟨x, isFirst⟩, y, isSecond⟩
  · rintro ⟨⟨x, isFirst⟩, y, isSecond⟩
    exact ⟨_, both_eq_some.mpr ⟨x, isFirst, y, isSecond, rfl⟩⟩

namespace Reads

theorem head (reads : Reads encode storable view) {a b : α} {tail otherTail : Bytes}
    {x y s t : List UInt8} (first : both (encode a) tail = some x)
    (second : both (encode b) otherTail = some y) (same : x ++ s = y ++ t) :
    view a = view b ∧ ∃ next later, tail = some next ∧ otherTail = some later ∧
      next ++ s = later ++ t := by
  obtain ⟨firstHead, isFirst, next, isNext, rfl⟩ := both_eq_some.mp first
  obtain ⟨secondHead, isSecond, later, isLater, rfl⟩ := both_eq_some.mp second
  rw [List.append_assoc, List.append_assoc] at same
  obtain ⟨sameField, sameRest⟩ := reads.determined _ _ _ _ _ _ isFirst isSecond same
  exact ⟨sameField, next, later, isNext, isLater, sameRest⟩

theorem field {rest : δ → Bytes} {others : δ → Prop} {remaining : δ → γ}
    (reads : Reads encode storable view) (project : δ → α)
    (later : Reads rest others remaining) :
    Reads (fun d => both (encode (project d)) (rest d))
      (fun d => storable (project d) ∧ others d) fun d => (view (project d), remaining d) where
  written d := exists_both.trans (and_congr (reads.written _) (later.written d))
  determined a b x y s t first second same := by
    obtain ⟨sameField, firstTail, secondTail, isFirst, isSecond, sameTail⟩ :=
      reads.head first second same
    obtain ⟨sameRest, rest⟩ := later.determined _ _ _ _ _ _ isFirst isSecond sameTail
    exact ⟨Prod.ext sameField sameRest, rest⟩

theorem of_project (reads : Reads encode storable view) (project : δ → α) :
    Reads (fun d => encode (project d)) (fun d => storable (project d))
      fun d => view (project d) where
  written d := reads.written (project d)
  determined a b := reads.determined (project a) (project b)

theorem last (reads : Reads encode storable view) (project : δ → α) :
    Reads (fun d => join [encode (project d)]) (fun d => storable (project d))
      fun d => view (project d) := by
  have alone (bytes : Bytes) : join [bytes] = bytes := by
    cases bytes <;> simp [join, each, both]
  simpa only [alone] using reads.of_project project

theorem lossless {whole : α → Prop} (reads : Reads encode storable view)
    (storable_iff : ∀ a, whole a ↔ storable a) (injective : ∀ a b, view a = view b → a = b) :
    Lossless encode whole where
  written a := (reads.written a).trans (storable_iff a).symm
  determined a b x y s t first second same :=
    (reads.determined a b x y s t first second same).imp_left (injective a b)

end Reads

theorem length_lowBytes (count n : Nat) : (lowBytes count n).length = count := by
  induction count generalizing n with
  | zero => rfl
  | succ count ih => rw [lowBytes, List.length_cons, ih]

theorem lowBytes_inj {count m n : Nat} (small : m < 256 ^ count) (otherSmall : n < 256 ^ count)
    (same : lowBytes count m = lowBytes count n) : m = n := by
  induction count generalizing m n with
  | zero => rw [Nat.lt_one_iff.mp small, Nat.lt_one_iff.mp otherSmall]
  | succ count ih =>
      obtain ⟨sameByte, sameRest⟩ := List.cons.inj same
      have lowest : m % 256 = n % 256 := by simpa using congrArg UInt8.toNat sameByte
      rw [Nat.pow_succ] at small otherSmall
      have higher : m / 256 = n / 256 :=
        ih (Nat.div_lt_of_lt_mul (Nat.mul_comm _ _ ▸ small))
          (Nat.div_lt_of_lt_mul (Nat.mul_comm _ _ ▸ otherSmall)) sameRest
      rw [← Nat.div_add_mod m 256, ← Nat.div_add_mod n 256, lowest, higher]

theorem fixed_eq_some {count n : Nat} {x : List UInt8} :
    fixed count n = some x ↔ n < 256 ^ count ∧ lowBytes count n = x := by
  rw [fixed, Nat.one_shiftLeft, Nat.pow_mul, Option.ite_none_right_eq_some, Option.some.injEq]

theorem lossless_fixed (count : Nat) : Lossless (fixed count) (· < 256 ^ count) where
  written n := by simp [fixed_eq_some]
  determined m n x y s t first second same := by
    obtain ⟨small, rfl⟩ := fixed_eq_some.mp first
    obtain ⟨otherSmall, rfl⟩ := fixed_eq_some.mp second
    obtain ⟨sameBytes, rest⟩ :=
      List.append_inj same ((length_lowBytes count m).trans (length_lowBytes count n).symm)
    exact ⟨lowBytes_inj small otherSmall sameBytes, rest⟩

def IsWord (n : Nat) : Prop := n < UInt32.size

def IsLong (n : Nat) : Prop := n < UInt64.size

theorem lossless_word : Lossless word IsWord :=
  (lossless_fixed 4).lossless (fun _ => Iff.rfl) fun _ _ => id

theorem lossless_long : Lossless long IsLong :=
  (lossless_fixed 8).lossless (fun _ => Iff.rfl) fun _ _ => id

theorem lossless_single : Lossless single fun _ => True := by
  refine (lossless_word.of_project fun x : Single => x.bits.toNat).lossless ?_ ?_
  · exact fun x => iff_of_true trivial x.bits.toNat_lt
  · rintro ⟨bits⟩ ⟨otherBits⟩ same
    exact congrArg Single.mk (UInt32.toNat_inj.mp same)

def Counted (storable : α → Prop) (xs : List α) : Prop := IsLong xs.length ∧ ∀ x ∈ xs, storable x

theorem exists_each (reads : Reads encode storable view) (xs : List α) :
    (∃ x, each encode xs = some x) ↔ ∀ x ∈ xs, storable x := by
  induction xs with
  | nil => simp [each]
  | cons x xs ih => rw [each, exists_both, reads.written, ih, List.forall_mem_cons]

theorem each_determined (lossless : Lossless encode storable) {xs ys : List α}
    (sameLength : xs.length = ys.length) {x y s t : List UInt8} (first : each encode xs = some x)
    (second : each encode ys = some y) (same : x ++ s = y ++ t) : xs = ys ∧ s = t := by
  induction xs generalizing ys x y with
  | nil =>
      obtain rfl := List.eq_nil_of_length_eq_zero sameLength.symm
      cases first
      cases second
      exact ⟨rfl, same⟩
  | cons a as ih =>
      cases ys with
      | nil => cases sameLength
      | cons b bs =>
          obtain ⟨rfl, tail, otherTail, isTail, isOtherTail, sameTail⟩ :=
            lossless.head first second same
          obtain ⟨rfl, rest⟩ := ih (Nat.succ.inj sameLength) isTail isOtherTail sameTail
          exact ⟨rfl, rest⟩

theorem lossless_sequence (lossless : Lossless encode storable) :
    Lossless (sequence encode) (Counted storable) where
  written xs :=
    exists_both.trans (and_congr (lossless_long.written _) (exists_each lossless xs))
  determined xs ys x y s t first second same := by
    obtain ⟨sameLength, body, otherBody, isBody, isOtherBody, sameBody⟩ :=
      lossless_long.head first second same
    exact each_determined lossless sameLength isBody isOtherBody sameBody

theorem lossless_words : Lossless words (Counted IsWord) := lossless_sequence lossless_word

theorem lossless_text : Lossless text fun s => IsLong s.utf8ByteSize where
  written s := exists_both.trans
    ((and_iff_left ⟨_, rfl⟩).trans (lossless_long.written _))
  determined left right x y s t first second same := by
    obtain ⟨sameLength, body, otherBody, isBody, isOtherBody, sameBody⟩ :=
      lossless_long.head first second same
    cases isBody
    cases isOtherBody
    obtain ⟨sameBytes, rest⟩ := List.append_inj sameBody sameLength
    exact ⟨String.toByteArray_inj.mp (ByteArray.ext (Array.toList_inj.mp sameBytes)), rest⟩

theorem lossless_optional (lossless : Lossless encode storable) :
    Lossless (optional encode) fun found => ∀ x ∈ found, storable x where
  written found := by
    cases found with
    | none => simp [optional]
    | some x => simp [optional, exists_both, lossless.written]
  determined left right x y s t first second same := by
    cases left with
    | none =>
        cases right with
        | none =>
            cases first
            cases second
            exact ⟨rfl, List.tail_eq_of_cons_eq same⟩
        | some b =>
            obtain ⟨mark, isMark, body, -, rfl⟩ := both_eq_some.mp second
            cases first
            cases isMark
            simp at same
    | some a =>
        obtain ⟨mark, isMark, body, isBody, rfl⟩ := both_eq_some.mp first
        cases isMark
        cases right with
        | none =>
            cases second
            simp at same
        | some b =>
            obtain ⟨otherMark, isOtherMark, otherBody, isOtherBody, rfl⟩ := both_eq_some.mp second
            cases isOtherMark
            obtain ⟨rfl, rest⟩ := lossless.determined _ _ _ _ _ _ isBody isOtherBody
              (List.tail_eq_of_cons_eq same)
            exact ⟨rfl, rest⟩

end CircuitPlan.Encoding
