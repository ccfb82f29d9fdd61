import FrameGraph.Proofs.BackwardReach
import FrameGraph.Proofs.DotReader
import Mathlib.Data.List.Forall2

/-!
# What a drawing says of a description

The text of a drawing is read back, and what it says is compared with the
description: the nodes are the operations, the buffers that are read and never
written, and the buffers that are written and never read; the edges lead from
where a buffer comes from to every input port that carries it, and from the first
writer of a buffer to its sink. Every node is declared once, and no edge has an end
that is not declared. All of it holds of any description, malformed ones included.

Names are labels and nothing else. With all of its names erased, a description has
the same nodes and the same edges.
-/
namespace FrameGraph

namespace Dot

/-- An edge by its ends and its label. -/
abbrev Ends := String × String × Option String

namespace Item

/-- A node with its label. -/
def node? : Item → Option (String × Option String)
  | .node id attributes => some (id, attributes.lookup "label")
  | _ => none

def edge? : Item → Option Ends
  | .edge source target attributes => some (source, target, attributes.lookup "label")
  | _ => none

/-- The statement without its attributes. -/
def outline : Item → Item
  | .setting name value => .setting name value
  | .defaults kind _ => .defaults kind []
  | .node id _ => .node id []
  | .edge source target _ => .edge source target []

end Item

/-- A statement of a drawing is about a node or an edge. -/
theorem Statement.node?_or_edge? (s : Statement) :
    (s.item.node?.isNone && s.item.edge?.isNone) = false := by
  cases s <;> rfl

/-- The nodes that statements declare. -/
def ids (items : List Item) : List String := (items.filterMap Item.node?).map (·.1)

end Dot

open Dot

namespace Description

variable {d : Description} {i b : Nat} {buffer : Buffer} {node : Node}

/-- The operation is the first that declares the buffer as an output. -/
def FirstWrites (d : Description) (i b : Nat) : Prop := d.Writes i b ∧ ∀ j < i, ¬d.Writes j b

/-- The nodes that a description has, with their names. -/
inductive Shows (d : Description) : Node → String → Prop where
  | operation {i : Nat} {op : Operation} (hop : d.operations[i]? = some op) :
      Shows d (.operation i) op.name
  | missing {b : Nat} {buffer : Buffer} (hbuffer : d.buffers[b]? = some buffer)
      (hread : ∃ i, d.Reads i b) (hunwritten : ∀ i, ¬d.Writes i b) :
      Shows d (.missing b) buffer.name
  | sink {b : Nat} {buffer : Buffer} (hbuffer : d.buffers[b]? = some buffer)
      (hunread : ∀ i, ¬d.Reads i b) (hwritten : ∃ i, d.Writes i b) : Shows d (.sink b) buffer.name

/-- Where a buffer comes from. -/
inductive Comes (d : Description) (b : Nat) : Node → Prop where
  | written {i : Nat} (h : d.FirstWrites i b) : Comes d b (.operation i)
  | missing (h : ∀ i, ¬d.Writes i b) : Comes d b (.missing b)

/-- An input port whose buffer is in the table. -/
structure Arrival where
  reader : Nat
  port : Port
  index : Nat
  buffer : Buffer

def arrival? (d : Description) (reader : Nat) (port : Port) : Option Arrival := do
  let index ← port.buffer?
  let buffer ← d.buffers[index]?
  return ⟨reader, port, index, buffer⟩

/-- All input ports whose buffers are in the table. -/
def arrivals (d : Description) : List Arrival :=
  d.operations.zipIdx.flatMap fun (op, reader) => op.inputs.filterMap (d.arrival? reader)

/-- The edge of an input port. -/
def Enters (d : Description) (a : Arrival) (edge : Ends) : Prop :=
  ∃ source, d.Comes a.index source ∧
    edge = (source.text, (Node.operation a.reader).text, some s!"{a.buffer.name} ({a.port.name})")

/-- The edge to a sink. -/
def Leaves (d : Description) (edge : Ends) : Prop :=
  ∃ b buffer i, d.buffers[b]? = some buffer ∧ (∀ j, ¬d.Reads j b) ∧ d.FirstWrites i b ∧
    edge = ((Node.operation i).text, (Node.sink b).text, some buffer.name)

/-- The statements are those of the description: every node is declared once, with
its name, and there is one edge for each input port and one for each sink. -/
structure Drawn (d : Description) (items : List Item) : Prop where
  distinct : (ids items).Nodup
  nodes : ∀ id label, (id, label) ∈ items.filterMap Item.node? ↔
    ∃ node name, d.Shows node name ∧ id = node.text ∧ label = some name
  closed : ∀ edge ∈ items.filterMap Item.edge?, edge.1 ∈ ids items ∧ edge.2.1 ∈ ids items
  edges : ∃ entering leaving, items.filterMap Item.edge? = entering ++ leaving ∧
    List.Forall₂ d.Enters d.arrivals entering ∧
    leaving.Nodup ∧ ∀ edge, edge ∈ leaving ↔ d.Leaves edge
  others : items.filter (fun item => item.node?.isNone && item.edge?.isNone) = globalItems

/-! ### The tables of writers and readers -/

theorem writer?_eq_some : d.writer? b = some i ↔ d.FirstWrites i b := by
  have hwrites : ∀ j (hj : j < d.operations.length),
      d.operations[j].writes.contains b = true ↔ d.Writes j b := by
    intro j hj
    simp [Writes, List.getElem?_eq_getElem hj]
  unfold writer? FirstWrites
  rw [List.findIdx?_eq_some_iff_getElem]
  constructor
  · rintro ⟨hi, hwritten, hbefore⟩
    refine ⟨(hwrites i hi).mp hwritten, ?_⟩
    intro j hj hj'
    exact hbefore j hj ((hwrites j (Nat.lt_trans hj hi)).mpr hj')
  · rintro ⟨hwritten, hbefore⟩
    have hi : i < d.operations.length := by
      obtain ⟨op, hop, -⟩ := hwritten
      exact (List.getElem?_eq_some_iff.mp hop).choose
    refine ⟨hi, (hwrites i hi).mpr hwritten, ?_⟩
    intro j hj hj'
    exact hbefore j hj ((hwrites j (Nat.lt_trans hj hi)).mp hj')

theorem writer?_eq_none : d.writer? b = none ↔ ∀ i, ¬d.Writes i b := by
  unfold writer? Writes
  rw [List.findIdx?_eq_none_iff]
  constructor
  · rintro h i ⟨op, hop, hb⟩
    have hnot := h op (List.mem_of_getElem? hop)
    simp [hb] at hnot
  · intro h op hop
    obtain ⟨i, hi⟩ := List.mem_iff_getElem?.mp hop
    rw [Bool.eq_false_iff]
    intro hb
    exact h i ⟨op, hi, by simpa using hb⟩

theorem writer?_ne_none : d.writer? b ≠ none ↔ ∃ i, d.Writes i b := by
  rw [ne_eq, writer?_eq_none, not_forall_not]

theorem isRead_eq_true : d.isRead b = true ↔ ∃ i, d.Reads i b := by
  unfold isRead Reads
  simp only [List.any_eq_true, List.mem_iff_getElem?, List.contains_iff_mem]
  constructor
  · rintro ⟨op, ⟨i, hop⟩, hb⟩
    exact ⟨i, op, hop, hb⟩
  · rintro ⟨i, op, hop, hb⟩
    exact ⟨op, ⟨i, hop⟩, hb⟩

theorem isRead_eq_false : d.isRead b = false ↔ ∀ i, ¬d.Reads i b := by
  rw [← Bool.not_eq_true, isRead_eq_true, not_exists]

theorem comes_sourceNode (d : Description) (b : Nat) : d.Comes b (d.sourceNode b) := by
  unfold sourceNode
  cases hwriter : d.writer? b with
  | some i => exact .written (writer?_eq_some.mp hwriter)
  | none => exact .missing (writer?_eq_none.mp hwriter)

/-! ### Nodes -/

/-- The node of a buffer that is only read or only written. -/
def looseNode? (d : Description) (b : Nat) : Option Node :=
  match d.writer? b, d.isRead b with
  | none, true => some (.missing b)
  | some _, false => some (.sink b)
  | _, _ => none

theorem bufferNode?_eq (d : Description) (buffer : Buffer) (b : Nat) :
    d.bufferNode? buffer b = (d.looseNode? b).map fun node => .node node buffer.name := by
  unfold bufferNode? looseNode?
  cases d.writer? b <;> cases d.isRead b <;> rfl

theorem looseNode?_eq_some : d.looseNode? b = some node ↔
    (node = .missing b ∧ (∃ i, d.Reads i b) ∧ ∀ i, ¬d.Writes i b) ∨
      (node = .sink b ∧ (∀ i, ¬d.Reads i b) ∧ ∃ i, d.Writes i b) := by
  rw [← isRead_eq_true, ← isRead_eq_false, ← writer?_eq_none, ← writer?_ne_none]
  unfold looseNode?
  cases d.writer? b <;> cases d.isRead b <;> simp [eq_comm]

/-- The nodes that are drawn, with their names. -/
def shown (d : Description) : List (Node × String) :=
  (d.operations.zipIdx.map fun (op, i) => (Node.operation i, op.name)) ++
    d.buffers.zipIdx.filterMap fun (buffer, b) =>
      (d.looseNode? b).map fun node => (node, buffer.name)

theorem shown_statements (d : Description) :
    d.operationNodes ++ d.bufferNodes = d.shown.map fun s => .node s.1 s.2 := by
  unfold shown operationNodes bufferNodes
  rw [List.map_append, List.map_map, List.map_filterMap]
  simp only [bufferNode?_eq, Option.map_map]
  rfl

theorem mem_shown {name : String} : (node, name) ∈ d.shown ↔ d.Shows node name := by
  unfold shown
  rw [List.mem_append, List.mem_map, List.mem_filterMap]
  constructor
  · rintro (⟨⟨op, i⟩, hop, heq⟩ | ⟨⟨buffer, b⟩, hbuffer, heq⟩)
    · cases heq
      exact .operation (List.mem_zipIdx_iff_getElem?.mp hop)
    · obtain ⟨loose, hloose, heq⟩ := Option.map_eq_some_iff.mp heq
      cases heq
      rw [List.mem_zipIdx_iff_getElem?] at hbuffer
      obtain ⟨rfl, hread, hwritten⟩ | ⟨rfl, hread, hwritten⟩ := looseNode?_eq_some.mp hloose
      · exact .missing hbuffer hread hwritten
      · exact .sink hbuffer hread hwritten
  · intro h
    cases h with
    | @operation i op hop => exact .inl ⟨(op, i), List.mem_zipIdx_iff_getElem?.mpr hop, rfl⟩
    | @missing b buffer hbuffer hread hwritten =>
        have hloose := looseNode?_eq_some.mpr (.inl ⟨rfl, hread, hwritten⟩)
        exact .inr ⟨(buffer, b), List.mem_zipIdx_iff_getElem?.mpr hbuffer, by simp [hloose]⟩
    | @sink b buffer hbuffer hread hwritten =>
        have hloose := looseNode?_eq_some.mpr (.inr ⟨rfl, hread, hwritten⟩)
        exact .inr ⟨(buffer, b), List.mem_zipIdx_iff_getElem?.mpr hbuffer, by simp [hloose]⟩

/-- What is kept of the members of a list depends on their places only. -/
theorem map_filterMap_zipIdx {α β γ : Type} {l : List α} {f : α × Nat → Option β} {g : β → γ}
    {place : Nat → Option γ} (h : ∀ e, (f e).map g = place e.2) :
    (l.zipIdx.filterMap f).map g = (List.range l.length).filterMap place := by
  rw [List.map_filterMap, funext h, List.range_eq_range', ← List.zipIdx_map_snd 0 l,
    List.filterMap_map]
  rfl

theorem nodes_shown (d : Description) : d.shown.map (·.1) =
    (List.range d.operations.length).map Node.operation ++
      (List.range d.buffers.length).filterMap d.looseNode? := by
  have hoperations : (d.operations.zipIdx.map fun (op, i) => (Node.operation i, op.name)).map
      (·.1) = (List.range d.operations.length).map Node.operation := by
    rw [List.range_eq_range', ← List.zipIdx_map_snd 0 d.operations, List.map_map, List.map_map]
    rfl
  unfold shown
  rw [List.map_append, hoperations, map_filterMap_zipIdx]
  intro e
  simp [Function.comp_def]

/-- No node is drawn twice, although operations and buffers are gone through apart. -/
theorem nodup_shown (d : Description) : (d.shown.map (·.1)).Nodup := by
  have hloose : ∀ b node, d.looseNode? b = some node → node = .missing b ∨ node = .sink b := by
    intro b node h
    exact (looseNode?_eq_some.mp h).imp And.left And.left
  rw [nodes_shown, List.nodup_append]
  refine ⟨?_, ?_, ?_⟩
  · exact List.nodup_range.map fun i j h => Node.operation.inj h
  · apply List.nodup_range.filterMap
    intro b b' node h h'
    obtain rfl | rfl := hloose b node h <;> obtain heq | heq := hloose b' _ h' <;> cases heq <;> rfl
  · intro node hoperation other hother heq
    obtain ⟨i, -, rfl⟩ := List.mem_map.mp hoperation
    obtain ⟨b, -, hb⟩ := List.mem_filterMap.mp hother
    obtain rfl | rfl := hloose b other hb <;> cases heq

/-! ### Edges -/

/-- The first writer of a buffer that is not read. -/
def drain? (d : Description) (b : Nat) : Option Nat :=
  if d.isRead b then none else d.writer? b

theorem drain?_eq_some : d.drain? b = some i ↔ (∀ j, ¬d.Reads j b) ∧ d.FirstWrites i b := by
  rw [← isRead_eq_false, ← writer?_eq_some]
  unfold drain?
  cases d.isRead b <;> simp

theorem sinkEdge?_eq (d : Description) (buffer : Buffer) (b : Nat) : d.sinkEdge? buffer b =
    (d.drain? b).map fun i => .edge (.operation i) (.sink b) buffer.name .solid := by
  unfold sinkEdge? drain?
  cases d.writer? b <;> cases d.isRead b <;> rfl

theorem inputEdge?_eq (d : Description) (op : Operation) (reader : Nat) (p : Port) :
    d.inputEdge? op reader p = (d.arrival? reader p).map fun a =>
      .edge (d.sourceNode a.index) (.operation a.reader) s!"{a.buffer.name} ({a.port.name})"
        (lineOf op p a.buffer) := by
  unfold inputEdge? arrival?
  cases p.buffer? with
  | none => rfl
  | some index =>
      cases hbuffer : d.buffers[index]? with
      | none => simp [hbuffer]
      | some buffer => simp [hbuffer]

theorem mem_arrivals {a : Arrival} : a ∈ d.arrivals ↔ ∃ op, d.operations[a.reader]? = some op ∧
    a.port ∈ op.inputs ∧ a.port.buffer? = some a.index ∧ d.buffers[a.index]? = some a.buffer := by
  have harrival : ∀ reader p, d.arrival? reader p = some a ↔ a.reader = reader ∧ a.port = p ∧
      p.buffer? = some a.index ∧ d.buffers[a.index]? = some a.buffer := by
    intro reader p
    unfold arrival?
    simp only [Option.bind_eq_bind, Option.bind_eq_some_iff, Option.pure_def, Option.some.injEq]
    constructor
    · rintro ⟨index, hindex, buffer, hbuffer, rfl⟩
      exact ⟨rfl, rfl, hindex, hbuffer⟩
    · rintro ⟨rfl, rfl, hindex, hbuffer⟩
      exact ⟨_, hindex, _, hbuffer, rfl⟩
  unfold arrivals
  simp only [List.mem_flatMap, List.mem_filterMap, Prod.exists, List.mem_zipIdx_iff_getElem?,
    harrival]
  constructor
  · rintro ⟨op, reader, hop, p, hp, rfl, rfl, hindex, hbuffer⟩
    exact ⟨op, hop, hp, hindex, hbuffer⟩
  · rintro ⟨op, hop, hp, hindex, hbuffer⟩
    exact ⟨op, a.reader, hop, a.port, hp, rfl, rfl, hindex, hbuffer⟩

/-- The ends and the label of the edge that is drawn for an input port. -/
def entering (d : Description) (a : Arrival) : Ends :=
  ((d.sourceNode a.index).text, (Node.operation a.reader).text,
    some s!"{a.buffer.name} ({a.port.name})")

/-- The ends and the labels of the edges that are drawn to sinks. -/
def leaving (d : Description) : List Ends :=
  d.buffers.zipIdx.filterMap fun (buffer, b) =>
    (d.drain? b).map fun i => ((Node.operation i).text, (Node.sink b).text, some buffer.name)

theorem edges_inputEdges (d : Description) :
    (d.inputEdges.map Statement.item).filterMap Item.edge? = d.arrivals.map d.entering := by
  unfold inputEdges arrivals
  rw [List.map_flatMap, List.filterMap_flatMap, List.map_flatMap]
  congr 1
  funext ⟨op, reader⟩
  rw [List.filterMap_map, List.filterMap_filterMap, List.map_filterMap]
  congr 1
  funext p
  rw [inputEdge?_eq]
  cases d.arrival? reader p with
  | none => rfl
  | some a => rfl

theorem edges_sinkEdges (d : Description) :
    (d.sinkEdges.map Statement.item).filterMap Item.edge? = d.leaving := by
  unfold sinkEdges leaving
  rw [List.filterMap_map, List.filterMap_filterMap]
  congr 1
  funext ⟨buffer, b⟩
  dsimp only
  rw [sinkEdge?_eq]
  cases d.drain? b with
  | none => rfl
  | some i => rfl

theorem mem_leaving {edge : Ends} : edge ∈ d.leaving ↔ d.Leaves edge := by
  unfold leaving Leaves
  simp only [List.mem_filterMap, Prod.exists, List.mem_zipIdx_iff_getElem?,
    Option.map_eq_some_iff, drain?_eq_some]
  constructor
  · rintro ⟨buffer, b, hbuffer, i, ⟨hunread, hwritten⟩, rfl⟩
    exact ⟨b, buffer, i, hbuffer, hunread, hwritten, rfl⟩
  · rintro ⟨b, buffer, i, hbuffer, hunread, hwritten, rfl⟩
    exact ⟨buffer, b, hbuffer, i, ⟨hunread, hwritten⟩, rfl⟩

/-- The ends of the edges that are drawn to sinks. -/
theorem ends_leaving (d : Description) : d.leaving.map (fun e => (e.1, e.2.1)) =
    (List.range d.buffers.length).filterMap fun b =>
      (d.drain? b).map fun i => ((Node.operation i).text, (Node.sink b).text) := by
  apply map_filterMap_zipIdx
  intro e
  simp [Function.comp_def]

theorem nodup_leaving (d : Description) : d.leaving.Nodup := by
  apply List.Nodup.of_map (fun e => (e.1, e.2.1))
  rw [ends_leaving]
  apply List.nodup_range.filterMap
  intro b b' ends h h'
  obtain ⟨i, -, hb⟩ := Option.map_eq_some_iff.mp h
  obtain ⟨i', -, hb'⟩ := Option.map_eq_some_iff.mp h'
  exact Node.sink.inj (Node.text_injective (congrArg Prod.snd (hb.trans hb'.symm)))

/-! ### The statements of a drawing -/

/-- What the text of a drawing says. -/
def items (d : Description) : List Item := globalItems ++ d.drawing.map Statement.item

theorem node?_of_mem_edges {s : Statement} (h : s ∈ d.inputEdges ++ d.sinkEdges) :
    s.item.node? = none := by
  unfold inputEdges sinkEdges at h
  simp only [List.mem_append, List.mem_flatMap, List.mem_filterMap, inputEdge?_eq, sinkEdge?_eq,
    Option.map_eq_some_iff] at h
  obtain ⟨-, -, -, -, -, -, rfl⟩ | ⟨-, -, -, -, rfl⟩ := h
  · rfl
  · rfl

theorem nodes_items (d : Description) :
    d.items.filterMap Item.node? = d.shown.map fun s => (s.1.text, some s.2) := by
  have hshown : ((d.shown.map fun s => Statement.node s.1 s.2).map Statement.item).filterMap
      Item.node? = d.shown.map fun s => (s.1.text, some s.2) := by
    rw [List.map_map, List.filterMap_map, ← List.filterMap_eq_map]
    rfl
  have hedges : ((d.inputEdges ++ d.sinkEdges).map Statement.item).filterMap Item.node? = [] := by
    rw [List.filterMap_eq_nil_iff, List.forall_mem_map]
    exact fun _ => node?_of_mem_edges
  have hglobal : globalItems.filterMap Item.node? = [] := rfl
  unfold items drawing
  rw [shown_statements, List.append_assoc, List.map_append, List.filterMap_append,
    List.filterMap_append, hglobal, hshown, hedges, List.nil_append, List.append_nil]

theorem edges_items (d : Description) :
    d.items.filterMap Item.edge? = d.arrivals.map d.entering ++ d.leaving := by
  have hshown : ((d.shown.map fun s => Statement.node s.1 s.2).map Statement.item).filterMap
      Item.edge? = [] := by
    rw [List.filterMap_eq_nil_iff, List.forall_mem_map, List.forall_mem_map]
    exact fun _ _ => rfl
  have hglobal : globalItems.filterMap Item.edge? = [] := rfl
  unfold items drawing
  rw [shown_statements, List.map_append, List.map_append, List.filterMap_append,
    List.filterMap_append, List.filterMap_append, hglobal, hshown, edges_inputEdges,
    edges_sinkEdges, List.nil_append, List.nil_append]

theorem ids_items (d : Description) : ids d.items = (d.shown.map (·.1)).map Node.text := by
  unfold ids
  rw [nodes_items, List.map_map, List.map_map]
  rfl

theorem Shows.mem_ids {name : String} (h : d.Shows node name) : node.text ∈ ids d.items := by
  rw [ids_items]
  exact List.mem_map_of_mem (List.mem_map_of_mem (mem_shown.mpr h))

theorem FirstWrites.mem_ids (h : d.FirstWrites i b) :
    (Node.operation i).text ∈ ids d.items := by
  obtain ⟨op, hop, -⟩ := h.1
  exact (Shows.operation hop).mem_ids

/-- A buffer that is read comes from a node that is drawn. -/
theorem Comes.mem_ids (h : d.Comes b node) (hbuffer : d.buffers[b]? = some buffer)
    (hread : ∃ i, d.Reads i b) : node.text ∈ ids d.items := by
  cases h with
  | written h => exact h.mem_ids
  | missing h => exact (Shows.missing hbuffer hread h).mem_ids

theorem ends_mem_ids {edge : Ends} (h : edge ∈ d.items.filterMap Item.edge?) :
    edge.1 ∈ ids d.items ∧ edge.2.1 ∈ ids d.items := by
  rw [edges_items, List.mem_append] at h
  rcases h with hentering | hleaving
  · obtain ⟨a, ha, rfl⟩ := List.mem_map.mp hentering
    obtain ⟨op, hop, hport, hindex, hbuffer⟩ := mem_arrivals.mp ha
    have hread : d.Reads a.reader a.index :=
      ⟨op, hop, List.mem_filterMap.mpr ⟨a.port, hport, hindex⟩⟩
    constructor
    · exact (comes_sourceNode d a.index).mem_ids hbuffer ⟨a.reader, hread⟩
    · exact (Shows.operation hop).mem_ids
  · obtain ⟨b, buffer, i, hbuffer, hunread, hwritten, rfl⟩ := mem_leaving.mp hleaving
    constructor
    · exact hwritten.mem_ids
    · exact (Shows.sink hbuffer hunread ⟨i, hwritten.1⟩).mem_ids

theorem drawn_items (d : Description) : d.Drawn d.items where
  distinct := by
    rw [ids_items]
    exact d.nodup_shown.map Node.text_injective
  nodes := by
    intro id label
    rw [nodes_items, List.mem_map]
    constructor
    · rintro ⟨⟨node, name⟩, hs, heq⟩
      cases heq
      exact ⟨node, name, mem_shown.mp hs, rfl, rfl⟩
    · rintro ⟨node, name, hshows, rfl, rfl⟩
      exact ⟨(node, name), mem_shown.mpr hshows, rfl⟩
  closed := fun _ => ends_mem_ids
  edges := by
    refine ⟨d.arrivals.map d.entering, d.leaving, d.edges_items, ?_, d.nodup_leaving,
      fun _ => mem_leaving⟩
    rw [List.forall₂_map_right_iff, List.forall₂_same]
    exact fun a _ => ⟨_, comes_sourceNode d a.index, rfl⟩
  others := by
    have hdrawing : (d.drawing.map Statement.item).filter
        (fun item => item.node?.isNone && item.edge?.isNone) = [] := by
      rw [List.filter_eq_nil_iff, List.forall_mem_map]
      intro s _
      rw [s.node?_or_edge?]
      exact Bool.false_ne_true
    unfold items
    rw [List.filter_append, hdrawing, List.append_nil]
    rfl

/-! ### Names -/

end Description

def Port.unnamed (p : Port) : Port := { p with name := "" }

def Operation.unnamed (op : Operation) : Operation where
  name := ""
  inputs := op.inputs.map Port.unnamed
  outputs := op.outputs.map Port.unnamed

def Buffer.unnamed (b : Buffer) : Buffer := { b with name := "" }

namespace Description

/-- The description with all of its names erased. -/
def unnamed (d : Description) : Description where
  buffers := d.buffers.map Buffer.unnamed
  operations := d.operations.map Operation.unnamed

def Arrival.unnamed (a : Arrival) : Arrival :=
  { a with port := a.port.unnamed, buffer := a.buffer.unnamed }

theorem writer?_unnamed (d : Description) (b : Nat) : d.unnamed.writer? b = d.writer? b := by
  have hwrites (op : Operation) : op.unnamed.writes = op.writes := List.filterMap_map
  unfold writer? unnamed
  rw [List.findIdx?_map]
  simp only [Function.comp_def, hwrites]

theorem isRead_unnamed (d : Description) (b : Nat) : d.unnamed.isRead b = d.isRead b := by
  have hreads (op : Operation) : op.unnamed.reads = op.reads := List.filterMap_map
  unfold isRead unnamed
  rw [List.any_map]
  simp only [Function.comp_def, hreads]

theorem sourceNode_unnamed (d : Description) (b : Nat) :
    d.unnamed.sourceNode b = d.sourceNode b := by
  unfold sourceNode
  rw [writer?_unnamed]

theorem arrivals_unnamed (d : Description) :
    d.unnamed.arrivals = d.arrivals.map Arrival.unnamed := by
  have harrival (reader : Nat) (p : Port) :
      d.unnamed.arrival? reader p.unnamed = (d.arrival? reader p).map Arrival.unnamed := by
    have hbuffer : p.unnamed.buffer? = p.buffer? := rfl
    unfold arrival?
    rw [hbuffer]
    cases p.buffer? with
    | none => rfl
    | some index => cases hbuffer : d.buffers[index]? <;> simp [unnamed, hbuffer, Arrival.unnamed]
  have hinputs (op : Operation) (reader : Nat) :
      op.unnamed.inputs.filterMap (d.unnamed.arrival? reader) =
        (op.inputs.filterMap (d.arrival? reader)).map Arrival.unnamed := by
    have hports : op.unnamed.inputs = op.inputs.map Port.unnamed := rfl
    rw [hports, List.filterMap_map, List.map_filterMap]
    exact congrFun (congrArg List.filterMap (funext (harrival reader))) op.inputs
  have hoperations : d.unnamed.operations = d.operations.map Operation.unnamed := rfl
  unfold arrivals
  rw [hoperations, List.zipIdx_map, List.flatMap_map, List.map_flatMap]
  congr 1
  funext e
  exact hinputs e.1 e.2

/-- Without its names a description has the same nodes. -/
theorem ids_unnamed (d : Description) : ids d.unnamed.items = ids d.items := by
  have hloose : d.unnamed.looseNode? = d.looseNode? := by
    funext b
    unfold looseNode?
    rw [writer?_unnamed, isRead_unnamed]
  rw [ids_items, ids_items, nodes_shown, nodes_shown, hloose]
  simp [unnamed]

/-- Without its names a description has the same edges. -/
theorem ends_unnamed (d : Description) :
    (d.unnamed.items.filterMap Item.edge?).map (fun e => (e.1, e.2.1)) =
      (d.items.filterMap Item.edge?).map (fun e => (e.1, e.2.1)) := by
  have hdrain : d.unnamed.drain? = d.drain? := by
    funext b
    unfold drain?
    rw [writer?_unnamed, isRead_unnamed]
  have hentering : (d.unnamed.arrivals.map d.unnamed.entering).map (fun e => (e.1, e.2.1)) =
      (d.arrivals.map d.entering).map (fun e => (e.1, e.2.1)) := by
    rw [arrivals_unnamed, List.map_map, List.map_map, List.map_map]
    simp only [Function.comp_def, entering, sourceNode_unnamed, Arrival.unnamed]
  have hlength : d.unnamed.buffers.length = d.buffers.length := List.length_map _
  rw [edges_items, edges_items, List.map_append, List.map_append, hentering, ends_leaving,
    ends_leaving, hdrain, hlength]

theorem outline_edges {ss : List Statement} (h : ∀ s ∈ ss, s.item.node? = none) :
    (ss.map Statement.item).map Item.outline =
      (((ss.map Statement.item).filterMap Item.edge?).map (fun e => (e.1, e.2.1))).map
        fun ends => .edge ends.1 ends.2 [] := by
  induction ss with
  | nil => rfl
  | cons s ss ih =>
      obtain ⟨hs, hss⟩ := List.forall_mem_cons.mp h
      cases s with
      | node id label => cases hs
      | edge source target label line => exact congrArg (List.cons _) (ih hss)

/-- Without attributes the statements are the nodes and the ends of the edges. -/
theorem outline_items (d : Description) : d.items.map Item.outline =
    globalItems.map Item.outline ++ ((ids d.items).map (fun id => .node id []) ++
      ((d.items.filterMap Item.edge?).map (fun e => (e.1, e.2.1))).map
        fun ends => .edge ends.1 ends.2 []) := by
  have hnodes : ((d.shown.map fun s => Statement.node s.1 s.2).map Statement.item).map
      Item.outline = (ids d.items).map fun id => .node id [] := by
    rw [ids_items, List.map_map, List.map_map, List.map_map, List.map_map]
    rfl
  have hends : d.items.filterMap Item.edge? =
      ((d.inputEdges ++ d.sinkEdges).map Statement.item).filterMap Item.edge? := by
    rw [edges_items, List.map_append, List.filterMap_append, edges_inputEdges, edges_sinkEdges]
  rw [hends, ← outline_edges fun _ => node?_of_mem_edges, ← hnodes]
  unfold items drawing
  rw [shown_statements, List.append_assoc, List.map_append, List.map_append, List.map_append]

end Description

/-- The text of a drawing is read as a list of statements in which every node is
declared once and every edge has ends that are declared. There is a node for every
operation, for every buffer that is read and never written and for every buffer
that is written and never read, each labelled with its name; an edge for every
input port whose buffer is in the table, from where the buffer comes from; and an
edge for every sink. A description without names is drawn with the same statements,
up to their labels and styles. -/
theorem toDot_drawn (d : Description) : ∃ items unnamed, Dot.read d.toDot = some items ∧
    d.Drawn items ∧ Dot.read d.unnamed.toDot = some unnamed ∧
      items.map Item.outline = unnamed.map Item.outline := by
  refine ⟨d.items, d.unnamed.items, read_write _, d.drawn_items, read_write _, ?_⟩
  rw [d.outline_items, d.unnamed.outline_items, d.ids_unnamed, d.ends_unnamed]

end FrameGraph
