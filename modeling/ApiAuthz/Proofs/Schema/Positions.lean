/-
The nodes that conversion visits. `Converter.positions` lists a node and those
below it, each at its depth and under the name it is reported by: a node before
what is below it, properties in their order. Conversion fails exactly if one of
them does on its own, and with the fault of the first (`of?_convertAt`).

The list goes below a node only if the node itself does not fault, since only then
is it known what is below (`children`). So up to the first fault it is what
conversion visits, and behind it nothing is said, nor is anything needed: the
first fault is found by a search along the list, and a search through the
positions of children is one child after the other (`positions_eq`).
-/
import ApiAuthz.Proofs.FirstFault
import ApiAuthz.Proofs.Schema.NodeView

namespace ApiAuthz

/-- A node where conversion comes upon it. -/
structure Position where
  depth : Value
  name : Value
  node : Value

namespace Converter

variable {c : Converter} {p q : Position}

/-- What is wrong with a node itself, if anything is. -/
def nodeFault (c : Converter) (p : Position) : Option Fault :=
  Fault.of? (c.view p.depth p.name p.node)

/-- The nodes right below a node. A property is reported by its own name, an
element by that of its array. -/
def children (c : Converter) (p : Position) : List Position :=
  match c.view p.depth p.name p.node with
  | .ok (.record below ps) => ps.map fun m => ⟨below, .scalar m.1, m.2⟩
  | .ok (.set below element) => [⟨below, p.name, element⟩]
  | _ => []

theorem sizeOf_lt_of_mem_children (h : q ∈ c.children p) : sizeOf q.node < sizeOf p.node := by
  unfold children at h
  split at h
  · next hview =>
    obtain ⟨m, hm, rfl⟩ := List.mem_map.1 h
    exact sizeOf_lt_of_record hview hm
  · next hview =>
    obtain rfl := List.mem_singleton.1 h
    exact sizeOf_lt_of_set hview
  · cases h

/-- A node and all nodes below it, in the order in which they are visited. -/
def positions (c : Converter) (p : Position) : List Position :=
  p :: (c.children p).attach.flatMap fun q => positions c q.1
termination_by sizeOf p.node
decreasing_by exact sizeOf_lt_of_mem_children q.2

/-- The positions of a node: its own, then those of its children in order. -/
theorem positions_eq (c : Converter) (p : Position) :
    c.positions p = p :: (c.children p).flatMap c.positions := by
  rw [positions]
  congr 1
  conv_rhs => rw [← List.attach_map_subtype_val (c.children p), List.flatMap_map]

/-- Every position below a node is below one of its children. -/
theorem mem_positions :
    q ∈ c.positions p ↔ q = p ∨ ∃ child ∈ c.children p, q ∈ c.positions child := by
  rw [positions_eq, List.mem_cons, List.mem_flatMap]

/-- Conversion has the fault of the first node that has one. -/
theorem of?_convertAt (depth name node : Value) :
    Fault.of? (c.convertAt depth name node) =
      (c.positions ⟨depth, name, node⟩).findSome? c.nodeFault := by
  induction depth, name, node using view_induction c with
  | step depth name node properties items =>
      rw [convertAt_eq, positions_eq, Fault.findSome?_cons_or, Fault.findSome?_flatMap]
      refine Fault.of?_bind fun shape hview => ?_
      unfold children
      simp only [hview]
      cases shape with
      | leaf type => rfl
      | record below ps =>
          have hproperties : Fault.of? (ps.mapM fun m => do
              return (m.1, ← c.convertAt below (.scalar m.1) m.2)) =
                ps.findSome? fun m =>
                  (c.positions ⟨below, .scalar m.1, m.2⟩).findSome? c.nodeFault := by
            rw [Fault.of?_mapM]
            refine Fault.findSome?_congr fun m hm => ?_
            rw [← properties hview m hm]
            exact Fault.of?_bind_pure fun t => (m.1, t)
          rw [List.findSome?_map]
          exact (Fault.of?_bind_pure CedarType.record).trans hproperties
      | set below element =>
          rw [List.findSome?_singleton, ← items hview]
          exact Fault.of?_bind_pure CedarType.set

end Converter

end ApiAuthz
