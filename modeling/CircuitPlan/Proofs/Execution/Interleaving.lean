import CircuitPlan.Proofs.Buffer

/-!
# Interleaved work on a buffer

Units of work share a buffer. Each unit reads some offsets, one after the other in any order, and
then writes what it makes of the numbers to an offset of its own. If no unit reads what another one
writes, it plays no part how their accesses are interleaved.
-/

namespace CircuitPlan

variable {F : Type}

structure Work (F : Type) where
  reads : List Nat
  target : Nat
  combine : List F → F

/-- One access to the buffer, by the index of the unit that makes it. A read is known by its place
among the reads of its unit. -/
inductive Access
  | read (unit place : Nat)
  | write (unit : Nat)
deriving DecidableEq

structure Progress (F : Type) where
  values : Array F
  notes : Nat → Nat → Option F

namespace Progress

def start (values : Array F) : Progress F := ⟨values, fun _ _ => none⟩

def note (progress : Progress F) (unit place : Nat) (number : F) : Progress F :=
  { progress with notes := fun other otherPlace =>
      if other = unit ∧ otherPlace = place then some number else progress.notes other otherPlace }

def operands (progress : Progress F) (unit count : Nat) : Option (List F) :=
  (List.range count).mapM (progress.notes unit)

theorem mapM_eq_some {notes : Nat → Option F} {numbers : Nat → F} {places : List Nat}
    (noted : ∀ place ∈ places, notes place = some (numbers place)) :
    places.mapM notes = some (places.map numbers) := by
  induction places with
  | nil => rfl
  | cons place places ih =>
      rw [List.forall_mem_cons] at noted
      rw [List.mapM_cons, noted.1, ih noted.2]
      rfl

end Progress

namespace Access

def run (works : List (Work F)) (progress : Progress F) : Access → Option (Progress F)
  | read unit place => do
      let work ← works[unit]?
      let offset ← work.reads[place]?
      let number ← progress.values[offset]?
      return progress.note unit place number
  | write unit => do
      let work ← works[unit]?
      let operands ← progress.operands unit work.reads.length
      if work.target < progress.values.size then
        return { progress with
          values := progress.values.setIfInBounds work.target (work.combine operands) }
      else none

def runAll (works : List (Work F)) (progress : Progress F) (schedule : List Access) :
    Option (Progress F) :=
  schedule.foldlM (run works) progress

end Access

namespace Work

def result [Arithmetic F] (work : Work F) (values : Array F) : F :=
  work.combine (work.reads.map (Buffer.number values))

def accesses (works : List (Work F)) : List Access :=
  works.zipIdx.flatMap fun (work, unit) =>
    (List.range work.reads.length).map (Access.read unit) ++ [.write unit]

/-- A schedule has each access of each unit once, and a unit has read its operands before it
writes. -/
structure Interleaves (works : List (Work F)) (schedule : List Access) : Prop where
  complete : schedule.Perm (accesses works)
  ordered : schedule.Pairwise fun before after => ∀ unit place,
    before = .write unit → after ≠ .read unit place

structure Apart (works : List (Work F)) (size : Nat) : Prop where
  target_lt : ∀ work ∈ works, work.target < size
  read_lt : ∀ work ∈ works, ∀ read ∈ work.reads, read < size
  targets_nodup : (works.map (·.target)).Nodup
  unread : ∀ work ∈ works, ∀ other ∈ works, other.target ∉ work.reads

structure Settled [Arithmetic F] (works : List (Work F)) (initial after : Array F) : Prop where
  size_eq : after.size = initial.size
  written : ∀ work ∈ works, after[work.target]? = some (work.result initial)
  others : ∀ offset, (∀ work ∈ works, work.target ≠ offset) → after[offset]? = initial[offset]?

theorem mem_accesses_read {works : List (Work F)} {unit place : Nat} :
    .read unit place ∈ accesses works ↔
      ∃ work, works[unit]? = some work ∧ place < work.reads.length := by
  simp [accesses, List.mem_zipIdx_iff_getElem?]

theorem mem_accesses_write {works : List (Work F)} {unit : Nat} :
    .write unit ∈ accesses works ↔ ∃ work, works[unit]? = some work := by
  simp [accesses, List.mem_zipIdx_iff_getElem?]

theorem interleaves_accesses (works : List (Work F)) : Interleaves works (accesses works) where
  complete := .refl _
  ordered := by
    rw [accesses, List.pairwise_flatMap]
    constructor
    -- Within a unit the only write comes last, and later units have other indices.
    · rintro ⟨work, index⟩ _
      rw [List.pairwise_append]
      refine ⟨?_, List.pairwise_singleton _ _, ?_⟩
      · rw [List.pairwise_map]
        refine List.pairwise_lt_range.imp ?_
        rintro _ _ _ unit place ⟨⟩
      · intro before isRead _ _ unit place same
        obtain ⟨_, _, rfl⟩ := List.mem_map.mp isRead
        cases same
    · have ascending : works.zipIdx.Pairwise fun before after => before.2 < after.2 := by
        rw [← List.pairwise_map (f := Prod.snd), List.zipIdx_map_snd]
        exact List.pairwise_lt_range'
      refine ascending.imp ?_
      rintro ⟨_, before⟩ ⟨_, after⟩ earlier first isFirst second isSecond unit place rfl rfl
      simp only [List.mem_append, List.mem_map, List.mem_singleton, reduceCtorEq, and_false,
        exists_false, Access.write.injEq, Access.read.injEq, false_or, or_false] at isFirst isSecond
      obtain ⟨_, _, same, -⟩ := isSecond
      exact Nat.ne_of_lt earlier (isFirst.symm.trans same.symm)

theorem Settled.unique [Arithmetic F] {works : List (Work F)} {initial after other : Array F}
    (settled : Settled works initial after) (otherSettled : Settled works initial other) :
    after = other := by
  apply Array.ext_getElem?
  intro offset
  by_cases written : ∃ work ∈ works, work.target = offset
  · obtain ⟨work, isWork, rfl⟩ := written
    rw [settled.written work isWork, otherSettled.written work isWork]
  · push Not at written
    rw [settled.others offset written, otherSettled.others offset written]

section Run

variable [Arithmetic F] {works : List (Work F)} {initial : Array F} {progress : Progress F}
  {done : List Access}

/-- What holds after some accesses of a schedule: the units that have written left their results,
all else is as it was in the beginning, and so is every number read. -/
structure Holds (works : List (Work F)) (initial : Array F) (done : List Access)
    (progress : Progress F) : Prop where
  size_eq : progress.values.size = initial.size
  written : ∀ unit work, works[unit]? = some work → .write unit ∈ done →
    progress.values[work.target]? = some (work.result initial)
  others : ∀ offset, (∀ work ∈ works, work.target ≠ offset) →
    progress.values[offset]? = initial[offset]?
  noted : ∀ unit work place offset, works[unit]? = some work → work.reads[place]? = some offset →
    .read unit place ∈ done → progress.notes unit place = some (Buffer.number initial offset)

theorem Holds.read (holds : Holds works initial done progress) {unit place : Nat}
    (possible : .read unit place ∈ accesses works)
    (fresh : ∀ work ∈ works, ∀ read ∈ work.reads,
      progress.values[read]? = some (Buffer.number initial read)) :
    ∃ next, Access.run works progress (.read unit place) = some next ∧
      next.values = progress.values ∧ Holds works initial (done ++ [.read unit place]) next := by
  obtain ⟨work, found, within⟩ := mem_accesses_read.mp possible
  have located := List.getElem?_eq_getElem within
  have current := fresh work (List.mem_of_getElem? found) _ (List.getElem_mem within)
  refine ⟨progress.note unit place (Buffer.number initial work.reads[place]), ?_, rfl, ?_⟩
  · simp [Access.run, found, located, current]
  · constructor
    case size_eq => exact holds.size_eq
    case written =>
      intro other otherWork otherFound member
      exact holds.written other otherWork otherFound (by simpa using member)
    case others => exact holds.others
    case noted =>
      intro other otherWork otherPlace offset otherFound otherLocated member
      by_cases same : other = unit ∧ otherPlace = place
      · obtain ⟨rfl, rfl⟩ := same
        obtain rfl := Option.some.inj (otherFound.symm.trans found)
        obtain rfl := Option.some.inj (otherLocated.symm.trans located)
        exact if_pos ⟨rfl, rfl⟩
      · have earlier : .read other otherPlace ∈ done := by
          simpa [same] using member
        exact (if_neg same).trans
          (holds.noted other otherWork otherPlace offset otherFound otherLocated earlier)

theorem Holds.operands_eq (holds : Holds works initial done progress) {unit : Nat} {work : Work F}
    (found : works[unit]? = some work)
    (ready : ∀ place < work.reads.length, .read unit place ∈ done) :
    progress.operands unit work.reads.length = some (work.reads.map (Buffer.number initial)) := by
  have noted : ∀ place ∈ List.range work.reads.length, progress.notes unit place =
      some (Buffer.number initial (work.reads.getD place 0)) := by
    intro place member
    have within := List.mem_range.mp member
    have located := List.getElem?_eq_getElem within
    rw [List.getD_eq_getElem?_getD, located, Option.getD_some]
    exact holds.noted unit work place _ found located (ready place within)
  have numbers : (List.range work.reads.length).map
      (fun place => Buffer.number initial (work.reads.getD place 0)) =
      work.reads.map (Buffer.number initial) := by
    apply map_range_eq
    intro place offset located
    rw [List.getD_eq_getElem?_getD, located, Option.getD_some]
  rw [Progress.operands, Progress.mapM_eq_some noted, numbers]

theorem Holds.write (holds : Holds works initial done progress)
    (targets : ∀ work ∈ works, work.target < initial.size)
    (distinct : (works.map (·.target)).Nodup) {unit : Nat}
    (possible : .write unit ∈ accesses works)
    (ready : ∀ place, .read unit place ∈ accesses works → .read unit place ∈ done) :
    ∃ next, Access.run works progress (.write unit) = some next ∧
      Holds works initial (done ++ [.write unit]) next := by
  obtain ⟨work, found⟩ := mem_accesses_write.mp possible
  have isWork := List.mem_of_getElem? found
  have inside : work.target < progress.values.size := by
    rw [holds.size_eq]
    exact targets work isWork
  have operands := holds.operands_eq found fun place within =>
    ready place (mem_accesses_read.mpr ⟨work, found, within⟩)
  refine ⟨{ progress with
    values := progress.values.setIfInBounds work.target (work.result initial) }, ?_, ?_⟩
  · simp [Access.run, found, operands, inside, result]
  · constructor
    case size_eq =>
      rw [Array.size_setIfInBounds]
      exact holds.size_eq
    case written =>
      intro other otherWork otherFound member
      dsimp only
      by_cases same : other = unit
      · subst same
        obtain rfl := Option.some.inj (otherFound.symm.trans found)
        exact Array.getElem?_setIfInBounds_self_of_lt inside
      · have earlier : .write other ∈ done := by simpa [same] using member
        have elsewhere : work.target ≠ otherWork.target := by
          intro equal
          have bound := (List.getElem?_eq_some_iff.mp otherFound).1
          apply same
          rw [← List.getElem?_inj (by rwa [List.length_map]) distinct, List.getElem?_map,
            List.getElem?_map, otherFound, found, Option.map_some, Option.map_some, equal]
        rw [Array.getElem?_setIfInBounds_ne elsewhere,
          holds.written other otherWork otherFound earlier]
    case others =>
      intro offset outside
      dsimp only
      rw [Array.getElem?_setIfInBounds_ne (outside work isWork), holds.others offset outside]
    case noted =>
      intro other otherWork otherPlace offset otherFound otherLocated member
      exact holds.noted other otherWork otherPlace offset otherFound otherLocated
        (by simpa using member)

theorem Holds.fresh (holds : Holds works initial done progress)
    (apart : Apart works initial.size) : ∀ work ∈ works, ∀ read ∈ work.reads,
      progress.values[read]? = some (Buffer.number initial read) := by
  intro work isWork read isRead
  have inside := apart.read_lt work isWork read isRead
  rw [holds.others, Buffer.number, Array.getElem?_eq_getElem inside, Option.getD_some]
  intro other isOther same
  exact apart.unread work isWork other isOther (same ▸ isRead)

theorem Holds.runAll (apart : Apart works initial.size) {rest : List Access}
    (holds : Holds works initial done progress)
    (interleaves : Interleaves works (done ++ rest)) :
    ∃ next, Access.runAll works progress rest = some next ∧
      Holds works initial (done ++ rest) next := by
  -- The induction is on what is left of the schedule; `done` is its beginning.
  induction rest generalizing done progress with
  | nil => exact ⟨progress, rfl, by rwa [List.append_nil]⟩
  | cons access rest ih =>
      have possible : access ∈ accesses works :=
        interleaves.complete.subset (by simp)
      have advanced : ∃ next, Access.run works progress access = some next ∧
          Holds works initial (done ++ [access]) next := by
        cases access with
        | read unit place =>
            obtain ⟨next, step, -, nextHolds⟩ := holds.read possible (holds.fresh apart)
            exact ⟨next, step, nextHolds⟩
        | write unit =>
            apply holds.write apart.target_lt apart.targets_nodup possible
            -- No read of the unit is left, because none may come after its write.
            intro place isRead
            have member := interleaves.complete.symm.subset isRead
            have after : .read unit place ∉ rest := by
              intro later
              have ordered := (List.pairwise_append.mp interleaves.ordered).2.1
              exact (List.pairwise_cons.mp ordered).1 _ later unit place rfl rfl
            simpa [after] using member
      obtain ⟨next, step, nextHolds⟩ := advanced
      have split : done ++ access :: rest = done ++ [access] ++ rest := by simp
      rw [split] at interleaves ⊢
      obtain ⟨final, run, finalHolds⟩ := ih nextHolds interleaves
      refine ⟨final, ?_, finalHolds⟩
      rw [Access.runAll, List.foldlM_cons, step]
      exact run

theorem Holds.start (works : List (Work F)) (initial : Array F) :
    Holds works initial [] (.start initial) :=
  ⟨rfl, fun _ _ _ member => absurd member List.not_mem_nil, fun _ _ => rfl,
    fun _ _ _ _ _ _ member => absurd member List.not_mem_nil⟩

theorem Holds.settled (holds : Holds works initial done progress)
    (complete : done.Perm (accesses works)) : Settled works initial progress.values := by
  refine ⟨holds.size_eq, ?_, holds.others⟩
  intro work isWork
  obtain ⟨unit, found⟩ := List.getElem?_of_mem isWork
  apply holds.written unit work found
  exact complete.symm.subset (mem_accesses_write.mpr ⟨work, found⟩)

theorem Interleaves.exists_run (apart : Apart works initial.size) {schedule : List Access}
    (interleaves : Interleaves works schedule) :
    ∃ final, Access.runAll works (.start initial) schedule = some final ∧
      Settled works initial final.values := by
  obtain ⟨final, run, holds⟩ := (Holds.start works initial).runAll apart interleaves
  exact ⟨final, run, holds.settled interleaves.complete⟩

end Run
end Work
end CircuitPlan
