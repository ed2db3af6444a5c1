import Mathlib.Algebra.GroupWithZero.Nat
import CircuitPlan.Proofs.Layer.Rows
import CircuitPlan.Proofs.Layer.Widths

namespace CircuitPlan

namespace Row

variable {widths places : List Nat} {rows : List Row} {row : Row} {width : Nat}

def ofLayer (circuit : Circuit) (table : SlotTable) (group : InnerGroup) : List Row :=
  group.nodes.flatMap (ofTable circuit table group.kind)

def Narrowest (widths : List Nat) (row : Row) (width : Nat) : Prop :=
  row.reads.length ≤ width ∧ ∀ other ∈ widths, row.reads.length ≤ other → width ≤ other

instance (widths : List Nat) (row : Row) (width : Nat) : Decidable (Narrowest widths row width) :=
  inferInstanceAs (Decidable (_ ∧ _))

def bucket (widths : List Nat) (rows : List Row) (width : Nat) : List Row :=
  rows.filter fun row => Narrowest widths row width

theorem mem_bucket : row ∈ bucket widths rows width ↔ row ∈ rows ∧ Narrowest widths row width := by
  rw [bucket, List.mem_filter, decide_eq_true_iff]

theorem Narrowest.unique {other : Nat} (left : Narrowest widths row width)
    (right : Narrowest widths row other) (member : width ∈ widths) (otherMember : other ∈ widths) :
    width = other :=
  Nat.le_antisymm (left.2 other otherMember right.1) (right.2 width member left.1)

theorem exists_narrowest (serves : Widths.Serves (rows.map (·.reads.length)) widths)
    (member : row ∈ rows) : ∃ width ∈ widths, Narrowest widths row width := by
  obtain ⟨index, placed⟩ := serves.place_ok (List.mem_map_of_mem member)
  obtain ⟨inside, narrowest⟩ := (Widths.place_eq_ok serves.ascending).mp placed
  exact ⟨widths[index], List.getElem_mem inside, narrowest⟩

theorem bucket_ne_nil (serves : Widths.Serves (rows.map (·.reads.length)) widths)
    (member : width ∈ widths) : bucket widths rows width ≠ [] := by
  obtain ⟨row, isRow, rfl⟩ := List.mem_map.mp (serves.of_mem width member)
  exact List.ne_nil_of_mem (mem_bucket.mpr ⟨isRow, Nat.le_refl _, fun _ _ enough => enough⟩)

theorem zip_eq_bucket (ascending : widths.Pairwise (· < ·))
    (placed : List.Forall₂ (fun row place => Widths.place widths row.reads.length = .ok place)
      rows places) {index : Nat} (inside : index < widths.length) :
    ((rows.zip places).filter fun entry => entry.2 == index).map (·.1) =
      bucket widths rows widths[index] := by
  induction placed with
  | nil => rfl
  | @cons row place rows places head tail ih =>
      have own : place = index ↔ Narrowest widths row widths[index] := by
        rw [← Except.ok.injEq (ε := Fault), ← head, Widths.place_eq_ok ascending]
        exact ⟨fun ⟨_, holds⟩ => holds, fun holds => ⟨inside, holds⟩⟩
      unfold bucket at ih ⊢
      by_cases same : place = index
      · rw [List.zip_cons_cons, List.filter_cons_of_pos (by simpa using same), List.map_cons, ih,
          List.filter_cons_of_pos (by simpa using own.mp same)]
      · rw [List.zip_cons_cons, List.filter_cons_of_neg (by simpa using same), ih,
          List.filter_cons_of_neg (by simpa using own.not.mp same)]

end Row

namespace InnerLayer

variable {circuit : Circuit} {table : SlotTable} {group : InnerGroup} {layer : InnerLayer}
  {widths : List Nat}

/-- A layer consists of the partitions of its rows by width. -/
structure Bucketed (circuit : Circuit) (table : SlotTable) (group : InnerGroup)
    (widths : List Nat) (layer : InnerLayer) : Prop where
  kind_eq : layer.kind = group.kind
  groupSize_eq : layer.groupSize = circuit.groupSize
  nodes_eq : layer.nodes = group.nodes
  numEdges_eq : layer.numEdges =
    ((Row.ofLayer circuit table group).map (·.reads.length)).sum * circuit.groupSize
  serves : Widths.Serves ((Row.ofLayer circuit table group).map (·.reads.length)) widths
  partitions : List.Forall₂ (fun width partition =>
    Partition.ofRows group.kind width
      (Row.bucket widths (Row.ofLayer circuit table group) width) = .ok partition)
    widths layer.partitions

theorem ofGroup_eq (rowsOk : ∀ id ∈ group.nodes, Row.ofNode circuit table group.kind id =
      .ok (Row.ofTable circuit table group.kind id)) (tolerance : Float32) (cap : Option Nat) :
    ∃ widths, Widths.Serves ((Row.ofLayer circuit table group).map (·.reads.length)) widths ∧
      ofGroup circuit table tolerance cap group =
        (widths.mapM fun width => Partition.ofRows group.kind width
          (Row.bucket widths (Row.ofLayer circuit table group) width)).map fun partitions =>
            { kind := group.kind
              depth := group.depth
              groupSize := circuit.groupSize
              nodes := group.nodes
              partitions
              numNodes := (Row.ofLayer circuit table group).length * circuit.groupSize
              numEdges := ((Row.ofLayer circuit table group).map (·.reads.length)).sum *
                circuit.groupSize } := by
  have rows : (group.nodes.map (Row.ofTable circuit table group.kind)).flatten =
      Row.ofLayer circuit table group := by rw [Row.ofLayer, List.flatMap_def]
  obtain ⟨widths, chosen, serves⟩ := Widths.choose_ok
    ((Row.ofLayer circuit table group).map (·.reads.length)) tolerance cap
  obtain ⟨places, placesOk⟩ := mapM_exists fun fanIn member => serves.place_ok member
  have placed := List.forall₂_map_left_iff.mp (mapM_eq_ok.mp placesOk)
  refine ⟨widths, serves, ?_⟩
  rw [ofGroup, mapM_ok rowsOk, ok_bind, rows]
  dsimp only
  rw [chosen, ok_bind, placesOk, ok_bind, mapM_zipIdx (g := fun width =>
    Partition.ofRows group.kind width (Row.bucket widths (Row.ofLayer circuit table group) width)),
    ← List.sum_eq_foldl_nat]
  · cases widths.mapM fun width => Partition.ofRows group.kind width
      (Row.bucket widths (Row.ofLayer circuit table group) width) <;> rfl
  · intro index inside
    rw [Row.zip_eq_bucket serves.ascending placed inside]

theorem ofGroup_bucketed {tolerance : Float32} {cap : Option Nat}
    (success : ofGroup circuit table tolerance cap group = .ok layer) :
    ∃ widths, Bucketed circuit table group widths layer := by
  have rowsOk : ∀ id ∈ group.nodes, Row.ofNode circuit table group.kind id =
      .ok (Row.ofTable circuit table group.kind id) := by
    intro id member
    obtain ⟨rowLists, listsOk, -⟩ := bind_eq_ok.mp success
    obtain ⟨rows, -, made⟩ := mapM_result listsOk member
    rw [made, Row.ofNode_eq made]
  obtain ⟨widths, serves, made⟩ := ofGroup_eq rowsOk tolerance cap
  rw [made, map_eq_ok] at success
  obtain ⟨partitions, partitionsOk, rfl⟩ := success
  exact ⟨widths, rfl, rfl, rfl, rfl, serves, mapM_eq_ok.mp partitionsOk⟩

theorem Bucketed.made (bucketed : Bucketed circuit table group widths layer) :
    Made circuit table group layer (widths.map fun width =>
      (width, Row.bucket widths (Row.ofLayer circuit table group) width)) := by
  refine ⟨bucketed.kind_eq, bucketed.groupSize_eq,
    List.forall₂_map_left_iff.mpr bucketed.partitions, ?_⟩
  intro row
  refine Iff.trans (b := row ∈ Row.ofLayer circuit table group) ?_ List.mem_flatMap
  constructor
  · rintro ⟨part, isPart, member⟩
    obtain ⟨width, -, rfl⟩ := List.mem_map.mp isPart
    exact (Row.mem_bucket.mp member).1
  · intro member
    obtain ⟨width, isWidth, narrowest⟩ := Row.exists_narrowest bucketed.serves member
    exact ⟨_, List.mem_map_of_mem isWidth, Row.mem_bucket.mpr ⟨member, narrowest⟩⟩

theorem exists_made {tolerance : Float32} {cap : Option Nat}
    (success : ofGroup circuit table tolerance cap group = .ok layer) :
    ∃ parts, Made circuit table group layer parts := by
  obtain ⟨widths, bucketed⟩ := ofGroup_bucketed success
  exact ⟨_, bucketed.made⟩

end InnerLayer
end CircuitPlan
