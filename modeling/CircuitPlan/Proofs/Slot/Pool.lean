import CircuitPlan.Proofs.Slot.Sharing
import CircuitPlan.Proofs.Slot.Service

namespace CircuitPlan

theorem flatMap_ite_nil {α β : Type} (keep : α → Prop) [DecidablePred keep] (f : α → List β)
    (xs : List α) :
    (xs.flatMap fun x => if keep x then f x else []) =
      (xs.filter fun x => decide (keep x)).flatMap f := by
  induction xs with
  | nil => rfl
  | cons x xs ih => by_cases kept : keep x <;> simp [kept, ih]

theorem flatMap_eq_single {α β : Type} {f : α → List β} {x : α} {xs : List α} (member : x ∈ xs)
    (distinct : xs.Nodup) (others : ∀ y ∈ xs, y ≠ x → f y = []) : xs.flatMap f = f x := by
  induction xs with
  | nil => cases member
  | cons first rest ih =>
      obtain ⟨fresh, distinct⟩ := List.nodup_cons.mp distinct
      rw [List.flatMap_cons]
      cases List.mem_cons.mp member with
      | inl same =>
          subst same
          have empty : rest.flatMap f = [] := by
            rw [List.flatMap_eq_nil_iff]
            intro y later
            apply others y (List.mem_cons_of_mem _ later)
            rintro rfl
            exact fresh later
          rw [empty, List.append_nil]
      | inr later =>
          have different : first ≠ x := by
            rintro rfl
            exact fresh later
          rw [others first List.mem_cons_self different, List.nil_append]
          exact ih later distinct fun y isLater => others y (List.mem_cons_of_mem _ isLater)

/-- Node vectors with common parameter spaces: all sums, or the inputs of one layer. -/
inductive Pool
  | sums
  | inputs (layer : Nat)
deriving DecidableEq

namespace Pool

def params : Pool → Space
  | sums => .sumParams
  | inputs layer => .inputParams layer

def flows : Pool → Space
  | sums => .sumFlows
  | inputs layer => .inputFlows layer

def of? (circuit : Circuit) (id : NodeId) : Option Pool :=
  match (circuit.node id).tag with
  | .input =>
      ((Layout.ofCircuit circuit).inputs.findIdx? fun group => group.nodes.contains id).map inputs
  | .product => none
  | .sum => some sums

def nodes (circuit : Circuit) (pool : Pool) : List NodeId :=
  (Layout.ofCircuit circuit).order.filter fun id => of? circuit id = some pool

@[simp] theorem params_inj {pool other : Pool} : pool.params = other.params ↔ pool = other := by
  cases pool <;> cases other <;> simp [params]

@[simp] theorem flows_inj {pool other : Pool} : pool.flows = other.flows ↔ pool = other := by
  cases pool <;> cases other <;> simp [flows]

@[simp] theorem params_ne_flows (pool other : Pool) : pool.params ≠ other.flows := by
  cases pool <;> cases other <;> simp [params, flows]

@[simp] theorem flows_ne_params (pool other : Pool) : pool.flows ≠ other.params :=
  (params_ne_flows other pool).symm

@[simp] theorem values_ne_params (pool : Pool) : Space.nodeValues ≠ pool.params := by
  cases pool <;> simp [params]

@[simp] theorem values_ne_flows (pool : Pool) : Space.nodeValues ≠ pool.flows := by
  cases pool <;> simp [flows]

@[simp] theorem metadata_ne_params (pool : Pool) (layer : Nat) :
    Space.inputMetadata layer ≠ pool.params := by
  cases pool <;> simp [params]

@[simp] theorem metadata_ne_flows (pool : Pool) (layer : Nat) :
    Space.inputMetadata layer ≠ pool.flows := by
  cases pool <;> simp [flows]

variable {circuit : Circuit} {id : NodeId} {pool : Pool} {layer : Nat} {group : InputGroup}

theorem of_input (found : (Layout.ofCircuit circuit).inputs[layer]? = some group)
    (inside : id ∈ group.nodes) : of? circuit id = some (inputs layer) := by
  have member := List.mem_of_getElem? found
  have index : ((Layout.ofCircuit circuit).inputs.findIdx? fun group =>
      group.nodes.contains id) = some layer := by
    obtain ⟨bound, same⟩ := List.getElem?_eq_some_iff.mp found
    refine List.findIdx?_eq_some_iff_getElem.mpr ⟨bound, by simpa [same] using inside, ?_⟩
    intro other before present
    have otherMember := List.getElem_mem (Nat.lt_trans before bound)
    have apart := List.pairwise_iff_getElem.mp (Layout.inputs_signatures circuit) other layer
      (Nat.lt_trans before bound) bound before
    rw [same] at apart
    apply apart
    apply Option.some.inj
    rw [← ((Layout.mem_nodes_inputs member).mp inside).2]
    exact ((Layout.mem_nodes_inputs otherMember).mp (List.contains_iff_mem.mp present)).2.symm
  rw [of?, Layout.tag_of_mem_inputs member inside]
  simp only [index, Option.map_some]

theorem of_sum (kind : (circuit.node id).kind = .sum) : of? circuit id = some sums := by
  rw [of?, Node.tag_eq_sum.mpr kind]

theorem of_product (kind : (circuit.node id).kind = .product) : of? circuit id = none := by
  rw [of?, Node.tag_eq_product.mpr kind]

theorem of_eq_sums : of? circuit id = some sums ↔ (circuit.node id).kind = .sum := by
  rw [← Node.tag_eq_sum, of?]
  cases (circuit.node id).tag <;> simp

theorem exists_of_eq_inputs (found : of? circuit id = some (inputs layer)) :
    ∃ group, (Layout.ofCircuit circuit).inputs[layer]? = some group ∧ id ∈ group.nodes := by
  unfold of? at found
  cases tag : (circuit.node id).tag with
  | input =>
      rw [tag] at found
      obtain ⟨index, indexed, same⟩ := Option.map_eq_some_iff.mp found
      cases same
      obtain ⟨bound, present, -⟩ := List.findIdx?_eq_some_iff_getElem.mp indexed
      exact ⟨_, List.getElem?_eq_getElem bound, List.contains_iff_mem.mp present⟩
  | product => simp [tag] at found
  | sum => simp [tag] at found

theorem of_eq_none (reachable : id ∈ circuit.reachable) :
    of? circuit id = none ↔ (circuit.node id).tag = .product := by
  cases tag : (circuit.node id).tag with
  | input =>
      obtain ⟨group, member, inside⟩ := Layout.exists_inputs reachable tag
      obtain ⟨layer, found⟩ := List.getElem?_of_mem member
      simp [of_input found inside]
  | product => simp [of_product (Node.tag_eq_product.mp tag)]
  | sum => simp [of_sum (Node.tag_eq_sum.mp tag)]

theorem mem_nodes (wellFormed : circuit.WellFormed) :
    id ∈ pool.nodes circuit ↔ id ∈ circuit.reachable ∧ of? circuit id = some pool := by
  rw [nodes, List.mem_filter, Layout.mem_order wellFormed, decide_eq_true_iff]

theorem nodes_nodup (circuit : Circuit) (pool : Pool) : (pool.nodes circuit).Nodup :=
  (Layout.order_nodup circuit).filter _

theorem of_congr {other : NodeId} (reachable : id ∈ circuit.reachable)
    (otherReachable : other ∈ circuit.reachable)
    (tag : (circuit.node id).tag = (circuit.node other).tag)
    (signature : Layout.signature? circuit id = Layout.signature? circuit other) :
    of? circuit id = of? circuit other := by
  cases kind : (circuit.node id).tag with
  | input =>
      obtain ⟨group, member, inside⟩ := Layout.exists_inputs reachable kind
      obtain ⟨layer, found⟩ := List.getElem?_of_mem member
      have otherInside : other ∈ group.nodes := by
        rw [Layout.mem_nodes_inputs member, ← signature]
        exact ⟨otherReachable, ((Layout.mem_nodes_inputs member).mp inside).2⟩
      rw [of_input found inside, of_input found otherInside]
  | product =>
      rw [of_product (Node.tag_eq_product.mp kind),
        of_product (Node.tag_eq_product.mp (tag ▸ kind))]
  | sum => rw [of_sum (Node.tag_eq_sum.mp kind), of_sum (Node.tag_eq_sum.mp (tag ▸ kind))]

theorem nodes_inputs (found : (Layout.ofCircuit circuit).inputs[layer]? = some group) :
    (inputs layer).nodes circuit = group.nodes := by
  have member := List.mem_of_getElem? found
  have distinct : (Layout.ofCircuit circuit).inputs.Nodup := by
    refine (Layout.inputs_signatures circuit).imp ?_
    rintro first second different rfl
    exact different rfl
  have others (other : InputGroup) (otherMember : other ∈ (Layout.ofCircuit circuit).inputs)
      (different : other ≠ group) :
      (other.nodes.filter fun id => decide (of? circuit id = some (inputs layer))) = [] := by
    rw [List.filter_eq_nil_iff]
    intro id inside same
    obtain ⟨index, present⟩ := List.getElem?_of_mem otherMember
    rw [decide_eq_true_iff, of_input present inside] at same
    cases same
    exact different (Option.some.inj (present.symm.trans found))
  have inner : (((Layout.ofCircuit circuit).inner.flatMap (·.nodes)).filter fun id =>
      decide (of? circuit id = some (inputs layer))) = [] := by
    rw [List.filter_eq_nil_iff]
    intro id inside same
    obtain ⟨innerGroup, innerMember, inside⟩ := List.mem_flatMap.mp inside
    obtain ⟨owning, present, insideOwning⟩ := exists_of_eq_inputs (of_decide_eq_true same)
    exact Layout.tag_of_mem_inner innerMember inside
      (Layout.tag_of_mem_inputs (List.mem_of_getElem? present) insideOwning)
  have own : (group.nodes.filter fun id => decide (of? circuit id = some (inputs layer))) =
      group.nodes := by
    rw [List.filter_eq_self]
    intro id inside
    exact decide_eq_true (of_input found inside)
  rw [nodes, Layout.order, List.filter_append, inner, List.append_nil, List.filter_flatMap,
    flatMap_eq_single member distinct others, own]

theorem nodes_inputs_of_none (missing : (Layout.ofCircuit circuit).inputs[layer]? = none) :
    (inputs layer).nodes circuit = [] := by
  rw [nodes, List.filter_eq_nil_iff]
  intro id _ same
  obtain ⟨group, present, -⟩ := exists_of_eq_inputs (of_decide_eq_true same)
  rw [missing] at present
  cases present

theorem nodes_sums (circuit : Circuit) :
    sums.nodes circuit =
      ((Layout.ofCircuit circuit).inner.filter (·.kind = .sum)).flatMap (·.nodes) := by
  have inputPart : (((Layout.ofCircuit circuit).inputs.flatMap (·.nodes)).filter fun id =>
      decide (of? circuit id = some sums)) = [] := by
    rw [List.filter_eq_nil_iff]
    intro id inside same
    obtain ⟨group, member, inside⟩ := List.mem_flatMap.mp inside
    obtain ⟨layer, found⟩ := List.getElem?_of_mem member
    rw [decide_eq_true_iff, of_input found inside] at same
    cases same
  have groupPart (group : InnerGroup) (member : group ∈ (Layout.ofCircuit circuit).inner) :
      (group.nodes.filter fun id => decide (of? circuit id = some sums)) =
        if group.kind = .sum then group.nodes else [] := by
    have kinds (id : NodeId) (inside : id ∈ group.nodes) :
        of? circuit id = some sums ↔ group.kind = .sum := by
      rw [of_eq_sums, ← Layout.layerKind_eq_sum, ((Layout.mem_nodes_inner member).mp inside).2.2,
        Option.some.injEq]
    split
    · rename_i sum
      rw [List.filter_eq_self]
      intro id inside
      exact decide_eq_true ((kinds id inside).mpr sum)
    · rename_i other
      rw [List.filter_eq_nil_iff]
      intro id inside same
      exact other ((kinds id inside).mp (of_decide_eq_true same))
  rw [nodes, Layout.order, List.filter_append, inputPart, List.nil_append, List.filter_flatMap,
    ← flatMap_ite_nil]
  exact List.flatMap_congr groupPart

end Pool
end CircuitPlan
