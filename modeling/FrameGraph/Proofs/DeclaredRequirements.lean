import FrameGraph.Proofs.AcceptedPasses
import Mathlib.Data.List.Induction

/-!
# What is required of a declaration

The conditions that operations are checked for, listed in the order in which
they are checked, each with the error that reports its violation. A condition on
a port, a binding or an operation may refer to those declared before it, and
`Requirement.along` lists such conditions for all members of a list.

There is one lemma for each check: it reports the first of its requirements that
is not met, and succeeds if all are met. Checks made one after the other are one
check of all their requirements, and so `Description.refusal?_passes` says the
same of the whole description.
-/
namespace FrameGraph

/-- A condition on a declaration, and the error that reports its violation. -/
structure Requirement where
  met : Bool
  error : GraphError
deriving DecidableEq, Repr

namespace Requirement

def unmet? (r : Requirement) : Option GraphError := if r.met then none else some r.error

theorem unmet?_eq_none {r : Requirement} : r.unmet? = none ↔ r.met = true := by simp [unmet?]

/-- The error of the first requirement that is not met. -/
def firstUnmet (rs : List Requirement) : Option GraphError := rs.findSome? unmet?

/-- The requirements on every member of a list, given the members before it. -/
def along {α : Type} (f : List α → α → List Requirement) (before : List α) :
    List α → List Requirement
  | [] => []
  | a :: rest => f before a ++ along f (before ++ [a]) rest

@[simp] theorem firstUnmet_nil : firstUnmet [] = none := rfl

@[simp] theorem firstUnmet_cons (r : Requirement) (rs : List Requirement) :
    firstUnmet (r :: rs) = r.unmet?.or (firstUnmet rs) := by
  unfold firstUnmet
  rw [List.findSome?_cons]
  cases r.unmet? <;> rfl

@[simp] theorem firstUnmet_append (rs ss : List Requirement) :
    firstUnmet (rs ++ ss) = (firstUnmet rs).or (firstUnmet ss) := by
  exact List.findSome?_append

theorem firstUnmet_eq_none {rs : List Requirement} :
    firstUnmet rs = none ↔ ∀ r ∈ rs, r.met = true := by
  simp [firstUnmet, unmet?_eq_none]

theorem firstUnmet_map {α : Type} (f : α → Requirement) (xs : List α) :
    firstUnmet (xs.map f) = (xs.find? fun x => !(f x).met).map fun x => (f x).error := by
  induction xs with
  | nil => rfl
  | cons x xs ih =>
      rw [List.map_cons, firstUnmet_cons, ih, List.find?_cons, unmet?]
      cases (f x).met <;> rfl

theorem mem_along {α : Type} {f : List α → α → List Requirement} {before xs : List α}
    {r : Requirement} :
    r ∈ along f before xs ↔ ∃ ys a zs, xs = ys ++ a :: zs ∧ r ∈ f (before ++ ys) a := by
  induction xs generalizing before with
  | nil => simp [along]
  | cons a xs ih =>
      rw [along, List.mem_append, ih]
      constructor
      · rintro (hr | ⟨ys, b, zs, rfl, hr⟩)
        · exact ⟨[], a, xs, rfl, by simpa using hr⟩
        · exact ⟨a :: ys, b, zs, rfl, by simpa using hr⟩
      · rintro ⟨ys, b, zs, hsplit, hr⟩
        cases ys with
        | nil =>
            cases hsplit
            exact .inl (by simpa using hr)
        | cons c ys =>
            cases hsplit
            exact .inr ⟨ys, b, zs, rfl, by simpa using hr⟩

/-- All requirements along a list are met if those on each member are. -/
theorem firstUnmet_along_eq_none {α : Type} {f : List α → α → List Requirement} {xs : List α} :
    firstUnmet (along f [] xs) = none ↔
      ∀ ys a zs, xs = ys ++ a :: zs → firstUnmet (f ys a) = none := by
  simp only [firstUnmet_eq_none, mem_along, List.nil_append]
  constructor
  · intro h ys a zs hxs r hr
    exact h r ⟨ys, a, zs, hxs, hr⟩
  · rintro h r ⟨ys, a, zs, hxs, hr⟩
    exact h ys a zs hxs r hr

/-- The first requirement along a list that is not met is one on the first member
whose requirements are not all met. -/
theorem firstUnmet_along_eq_some {α : Type} {f : List α → α → List Requirement}
    {before xs : List α} {e : GraphError} : firstUnmet (along f before xs) = some e ↔
      ∃ ys a zs, xs = ys ++ a :: zs ∧
        (∀ us b vs, ys = us ++ b :: vs → firstUnmet (f (before ++ us) b) = none) ∧
        firstUnmet (f (before ++ ys) a) = some e := by
  induction xs generalizing before with
  | nil => simp [along]
  | cons x xs ih =>
      rw [along, firstUnmet_append]
      cases hx : firstUnmet (f before x) with
      | some e' =>
          rw [Option.some_or]
          constructor
          · intro he
            refine ⟨[], x, xs, rfl, by simp, ?_⟩
            rw [List.append_nil, hx, he]
          · rintro ⟨ys, a, zs, hsplit, hys, ha⟩
            cases ys with
            | nil =>
                cases hsplit
                rwa [List.append_nil, hx] at ha
            | cons y ys =>
                cases hsplit
                have hmet := hys [] x ys rfl
                rw [List.append_nil, hx] at hmet
                cases hmet
      | none =>
          rw [Option.none_or, ih]
          constructor
          · rintro ⟨ys, a, zs, rfl, hys, ha⟩
            refine ⟨x :: ys, a, zs, rfl, ?_, by simpa using ha⟩
            intro us b vs hsplit
            cases us with
            | nil =>
                cases hsplit
                rwa [List.append_nil]
            | cons u us =>
                cases hsplit
                simpa using hys us b vs rfl
          · rintro ⟨ys, a, zs, hsplit, hys, ha⟩
            cases ys with
            | nil =>
                cases hsplit
                rw [List.append_nil, hx] at ha
                cases ha
            | cons y ys =>
                cases hsplit
                refine ⟨ys, a, zs, rfl, ?_, by simpa using ha⟩
                intro us b vs hys'
                simpa using hys (x :: us) b vs (by rw [hys', List.cons_append])

end Requirement

open Requirement

/-- The error of a check that fails. -/
def refusal? {α : Type} : Except GraphError α → Option GraphError
  | .ok _ => none
  | .error e => some e

@[simp] theorem refusal?_ok {α : Type} (a : α) : refusal? (.ok a) = none := rfl

@[simp] theorem refusal?_error {α : Type} (e : GraphError) :
    refusal? (.error e : Except GraphError α) = some e := rfl

theorem refusal?_eq_none {α : Type} {x : Except GraphError α} :
    refusal? x = none ↔ ∃ a, x = .ok a := by
  cases x <;> simp [refusal?]

theorem refusal?_eq_some {α : Type} {x : Except GraphError α} {e : GraphError} :
    refusal? x = some e ↔ x = .error e := by
  cases x <;> simp [refusal?]

/-- Checks made one after the other are one check of all their requirements. -/
theorem refusal?_bind {α β : Type} {x : Except GraphError α} {f : α → Except GraphError β}
    {rs ss : List Requirement} (hx : refusal? x = firstUnmet rs)
    (hf : ∀ a, x = .ok a → refusal? (f a) = firstUnmet ss) :
    refusal? (x >>= f) = firstUnmet (rs ++ ss) := by
  rw [firstUnmet_append, ← hx]
  cases x with
  | error e => rfl
  | ok a => exact hf a rfl

theorem refusal?_ite {α : Type} {c : Prop} [Decidable c] {x : Except GraphError α}
    {e : GraphError} {met : Bool} {rs : List Requirement} (hc : c ↔ met = false)
    (hx : ¬c → refusal? x = firstUnmet rs) :
    refusal? (if c then .error e else x) = firstUnmet (⟨met, e⟩ :: rs) := by
  rw [firstUnmet_cons]
  cases met with
  | false => rw [if_pos (hc.mpr rfl)]; rfl
  | true =>
      have hnot : ¬c := fun h => Bool.noConfusion (hc.mp h)
      rw [if_neg hnot, hx hnot]
      rfl

/-- The members of a list are told apart by a partial key if no key occurs twice. -/
theorem nodup_filterMap_iff {α κ : Type} {f : α → Option κ} {xs : List α} :
    (xs.filterMap f).Nodup ↔
      ∀ ys a zs, xs = ys ++ a :: zs → ∀ k, f a = some k → k ∉ ys.filterMap f := by
  constructor
  · rintro h ys a zs rfl k hk hmem
    rw [List.filterMap_append, List.filterMap_cons_some hk, List.nodup_append] at h
    exact h.2.2 k hmem k (by simp) rfl
  · intro h
    induction xs using List.reverseRecOn with
    | nil => exact .nil
    | append_singleton xs a ih =>
        have hxs := ih fun ys b zs hsplit => h ys b (zs ++ [a]) (by simp [hsplit])
        cases ha : f a with
        | none => simpa [List.filterMap_append, ha] using hxs
        | some k =>
            have hk := h xs a [] rfl k ha
            rw [List.filterMap_append, List.filterMap_cons_some ha, List.filterMap_nil,
              List.nodup_append]
            refine ⟨hxs, List.nodup_singleton k, ?_⟩
            intro l hl m hm heq
            rw [List.mem_singleton.mp hm] at heq
            exact hk (heq ▸ hl)

theorem nodup_map_iff {α κ : Type} {f : α → κ} {xs : List α} :
    (xs.map f).Nodup ↔ ∀ ys a zs, xs = ys ++ a :: zs → f a ∉ ys.map f := by
  rw [← List.filterMap_eq_map, nodup_filterMap_iff]
  simp

namespace Operation

variable {op : Operation} {side : Side} {ports : List Port}

/-- A port has another name than the ports before it. -/
def portName (op : Operation) (side : Side) (before : List Port) (p : Port) : List Requirement :=
  [⟨p.name ∉ before.map (·.name), .malformed op.name (.duplicatePort side p.name)⟩]

/-- A present port has a buffer of the table that no port before it has. -/
def portBuffer (op : Operation) (side : Side) (tableSize : Nat) (before : List Port) (p : Port) :
    List Requirement :=
  match p.buffer? with
  | none => []
  | some b => [
      ⟨b < tableSize, .invalidHandle b⟩,
      ⟨b ∉ before.filterMap (·.buffer?), .malformed op.name (.repeatedBuffer side p.name)⟩]

/-- No buffer is both read and written. -/
def buffersApart (op : Operation) (d : Description) : List Requirement :=
  op.reads.map fun b =>
    ⟨b ∉ op.writes, .malformed op.name (.readAndWritten (d.bufferName b))⟩

/-- Every optional name is that of an output port. -/
def optionalNames (op : Operation) : List Requirement :=
  op.optionalOutputs.map fun o =>
    ⟨o ∈ op.outputs.map (·.name), .malformed op.name (.undeclaredOptional o)⟩

/-- A name in a binding is that of a declared port, and the port is present. -/
def boundPort (op : Operation) (ports : List Port) (name : String) : List Requirement := [
  ⟨name ∈ ports.map (·.name), .malformed op.name (.undeclaredBinding name)⟩,
  ⟨name ∈ (ports.filter (·.buffer?.isSome)).map (·.name),
    .malformed op.name (.absentBinding name)⟩]

/-- A binding joins two present ports that no binding before it names. -/
def binding (op : Operation) (before : List (String × String)) (n : String × String) :
    List Requirement :=
  op.boundPort op.inputs n.1 ++ op.boundPort op.outputs n.2 ++ [
    ⟨n.1 ∉ before.map (·.1), .malformed op.name (.boundTwice .input n.1)⟩,
    ⟨n.2 ∉ before.map (·.2), .malformed op.name (.boundTwice .output n.2)⟩]

/-- What is required of an operation by itself. -/
def requirements (op : Operation) (d : Description) : List Requirement :=
  along (op.portName .input) [] op.inputs ++
  along (op.portName .output) [] op.outputs ++
  along (op.portBuffer .input d.buffers.length) [] op.inputs ++
  along (op.portBuffer .output d.buffers.length) [] op.outputs ++
  op.buffersApart d ++
  op.optionalNames ++
  along op.binding [] op.bindings

/-- No operation before this one writes a buffer that it writes. -/
def outputsUnwritten (op : Operation) (d : Description) (before : List Operation) :
    List Requirement :=
  op.writes.flatMap fun b => before.map fun other =>
    ⟨b ∉ other.writes, .malformed op.name (.producedTwice (d.bufferName b) other.name)⟩

end Operation

/-- What is required of an operation declared after others. -/
def Description.operationRequirements (d : Description) (before : List Operation)
    (op : Operation) : List Requirement :=
  op.requirements d ++ op.outputsUnwritten d before

/-! ## The checks -/

namespace Operation

variable {op : Operation} {side : Side} {ports : List Port}

theorem firstDuplicate_eq {seen : List String} {before : List Port}
    (hseen : ∀ x, x ∈ seen ↔ x ∈ before.map (·.name)) :
    (firstDuplicate seen ports).map (fun name => .malformed op.name (.duplicatePort side name)) =
      firstUnmet (along (op.portName side) before ports) := by
  induction ports generalizing seen before with
  | nil => rfl
  | cons p ports ih =>
      rw [along, firstUnmet_append]
      by_cases hp : p.name ∈ seen
      · have hp' := (hseen p.name).mp hp
        simp [firstDuplicate, portName, unmet?, hp, hp']
      · have hp' : p.name ∉ before.map (·.name) := fun h => hp ((hseen p.name).mpr h)
        have hrest := @ih (p.name :: seen) (before ++ [p]) (by simp [hseen, or_comm])
        simp [firstDuplicate, portName, unmet?, hp, hp', hrest]

theorem refusal?_checkNames : refusal? (op.checkNames side ports) =
    firstUnmet (along (op.portName side) [] ports) := by
  have hfirst := @firstDuplicate_eq op side ports [] [] (by simp)
  rw [← hfirst, checkNames]
  cases firstDuplicate [] ports <;> rfl

theorem refusal?_presentFrom {tableSize place : Nat} {seen : List Nat} {before : List Port}
    (hseen : ∀ b, b ∈ seen ↔ b ∈ before.filterMap (·.buffer?)) :
    refusal? (op.presentFrom side tableSize seen place ports) =
      firstUnmet (along (op.portBuffer side tableSize) before ports) := by
  induction ports generalizing seen before place with
  | nil => rfl
  | cons p ports ih =>
      rw [along, firstUnmet_append]
      cases hp : p.buffer? with
      | none =>
          have hrest := @ih (place + 1) seen (before ++ [p]) (by simp [hseen, hp])
          simp [presentFrom, portBuffer, hp, hrest]
      | some b =>
          have hrest := @ih (place + 1) (b :: seen) (before ++ [p]) (by simp [hseen, hp, or_comm])
          have hb := hseen b
          simp only [presentFrom, portBuffer, hp, ← firstUnmet_append, List.cons_append,
            List.nil_append]
          apply refusal?_ite (by simp)
          intro _
          apply refusal?_ite (by simp [hb])
          intro _
          rw [← List.append_nil (along _ _ ports)]
          exact refusal?_bind hrest fun _ _ => rfl

theorem refusal?_checkDisjoint {d : Description} : refusal? (op.checkDisjoint d
    (presentPorts 0 op.inputs) (presentPorts 0 op.outputs)) = firstUnmet (op.buffersApart d) := by
  have hshared : (fun q : PresentPort => (presentPorts 0 op.outputs).any (·.buffer == q.buffer)) =
      fun q => !decide (q.buffer ∉ op.writes) := by
    funext q
    rw [writes, ← buffers_presentPorts 0, Bool.eq_iff_iff]
    simp
  unfold buffersApart checkDisjoint
  rw [reads, ← buffers_presentPorts 0, List.map_map, firstUnmet_map, hshared]
  dsimp only [Function.comp_apply]
  cases (presentPorts 0 op.inputs).find? fun q => !decide (q.buffer ∉ op.writes) <;> rfl

theorem refusal?_checkOptional : refusal? op.checkOptional = firstUnmet op.optionalNames := by
  have hundeclared : (fun o => !op.outputs.any (·.name == o)) =
      fun o => !decide (o ∈ op.outputs.map (·.name)) := by
    funext o
    rw [Bool.eq_iff_iff]
    simp
  unfold optionalNames checkOptional
  rw [firstUnmet_map, hundeclared]
  cases op.optionalOutputs.find? fun o => !decide (o ∈ op.outputs.map (·.name)) <;> rfl

theorem isSome_iff_of_name (hnames : (ports.map (·.name)).Nodup) {p : Port} (hp : p ∈ ports) :
    p.name ∈ (ports.filter (·.buffer?.isSome)).map (·.name) ↔ p.buffer?.isSome = true := by
  constructor
  · intro hmem
    obtain ⟨q, hq, hname⟩ := List.mem_map.mp hmem
    obtain ⟨hq, hsome⟩ := List.mem_filter.mp hq
    rwa [List.inj_on_of_nodup_map hnames hq hp hname] at hsome
  · intro hsome
    exact List.mem_map_of_mem (List.mem_filter.mpr ⟨hp, hsome⟩)

theorem isSome_iff_of_place {place : Nat} (hlt : place < ports.length) :
    ports[place].buffer?.isSome = true ↔ ∃ q ∈ presentPorts 0 ports, q.port = place := by
  rw [Option.isSome_iff_exists]
  constructor
  · intro hsome
    obtain ⟨b, hb⟩ := hsome
    exact ⟨⟨place, b⟩, mem_presentPorts.mpr ⟨_, List.getElem?_eq_getElem hlt, hb⟩, rfl⟩
  · intro hpresent
    obtain ⟨q, hq, rfl⟩ := hpresent
    obtain ⟨p, hp, hb⟩ := mem_presentPorts.mp hq
    rw [List.getElem?_eq_getElem hlt, Option.some.injEq] at hp
    exact ⟨q.buffer, hp ▸ hb⟩

theorem refusal?_bindingPosition (hnames : (ports.map (·.name)).Nodup) (name : String) :
    refusal? (op.bindingPosition ports (presentPorts 0 ports) name) =
      firstUnmet (op.boundPort ports name) := by
  unfold bindingPosition boundPort
  cases hplace : ports.findIdx? (·.name == name) with
  | none =>
      have hundeclared : name ∉ ports.map (·.name) := by
        simpa using List.findIdx?_eq_none_iff.mp hplace
      simp [unmet?, hundeclared]
  | some place =>
      obtain ⟨hlt, hname, -⟩ := List.findIdx?_eq_some_iff_getElem.mp hplace
      obtain rfl : ports[place].name = name := by simpa using hname
      have hmem : ports[place] ∈ ports := List.getElem_mem hlt
      have hdeclared : ports[place].name ∈ ports.map (·.name) := List.mem_map_of_mem hmem
      have hpresent := (isSome_iff_of_name hnames hmem).trans (isSome_iff_of_place hlt)
      cases hposition : (presentPorts 0 ports).findIdx? (·.port == place) with
      | none =>
          have habsent : ¬∃ q ∈ presentPorts 0 ports, q.port = place := by
            simpa using List.findIdx?_eq_none_iff.mp hposition
          rw [← hpresent] at habsent
          simp [unmet?, hposition, hdeclared, habsent]
      | some position =>
          obtain ⟨hlt', hport, -⟩ := List.findIdx?_eq_some_iff_getElem.mp hposition
          have hfound : ∃ q ∈ presentPorts 0 ports, q.port = place :=
            ⟨_, List.getElem_mem hlt', by simpa using hport⟩
          rw [← hpresent] at hfound
          simp [unmet?, hposition, hdeclared, hfound]

/-- Names of a side lead to one position just if they are equal. -/
theorem Binds.position_iff (hnames : (ports.map (·.name)).Nodup) {a b : String} {i j : Nat}
    (hi : Binds ports (presentPorts 0 ports) a i) (hj : Binds ports (presentPorts 0 ports) b j) :
    i = j ↔ a = b := by
  obtain ⟨q, p, hq, hp, rfl⟩ := hi
  obtain ⟨r, o, hr, ho, rfl⟩ := hj
  have hplaces : ((presentPorts 0 ports).map (·.port)).Nodup :=
    List.pairwise_map.mpr ((ascending_presentPorts 0 ports).imp Nat.ne_of_lt)
  constructor
  · rintro rfl
    obtain rfl : q = r := Option.some.inj (hq.symm.trans hr)
    obtain rfl : p = o := Option.some.inj (hp.symm.trans ho)
    rfl
  · intro hname
    by_contra hij
    apply ne_of_getElem?_ne hplaces hq hr hij
    by_contra hport
    exact ne_of_getElem?_ne hnames hp ho hport hname

theorem mem_map_iff_of_forall₂ {α β γ δ : Type} {f : α → γ} {g : β → δ} {c : γ} {d : δ}
    {xs : List α} {ys : List β} (h : List.Forall₂ (fun x y => f x = c ↔ g y = d) xs ys) :
    c ∈ xs.map f ↔ d ∈ ys.map g := by
  induction h with
  | nil => simp
  | cons hxy _ ih =>
      rw [List.map_cons, List.map_cons, List.mem_cons, List.mem_cons, ih, eq_comm, hxy, eq_comm]

theorem refusal?_bindingsFrom (hin : (op.inputs.map (·.name)).Nodup)
    (hout : (op.outputs.map (·.name)).Nodup) {before names : List (String × String)}
    {done : List (Nat × Nat)}
    (hdone : List.Forall₂ (fun n e => Binds op.inputs (presentPorts 0 op.inputs) n.1 e.1 ∧
      Binds op.outputs (presentPorts 0 op.outputs) n.2 e.2) before done) :
    refusal? (op.bindingsFrom (presentPorts 0 op.inputs) (presentPorts 0 op.outputs) done names) =
      firstUnmet (along op.binding before names) := by
  induction names generalizing before done with
  | nil => rfl
  | cons n names ih =>
      rw [along, binding, List.append_assoc, List.append_assoc]
      apply refusal?_bind (refusal?_bindingPosition hin n.1)
      intro i hi
      apply refusal?_bind (refusal?_bindingPosition hout n.2)
      intro o ho
      have hbinds := bindingPosition_binds hi
      have hbinds' := bindingPosition_binds ho
      have hbound : n.1 ∈ before.map (·.1) ↔ i ∈ done.map (·.1) :=
        mem_map_iff_of_forall₂ (hdone.imp fun m e he => (he.1.position_iff hin hbinds).symm)
      have hbound' : n.2 ∈ before.map (·.2) ↔ o ∈ done.map (·.2) :=
        mem_map_iff_of_forall₂ (hdone.imp fun m e he => (he.2.position_iff hout hbinds').symm)
      apply refusal?_ite (by rw [decide_eq_false_iff_not, not_not, hbound]; simp)
      intro _
      apply refusal?_ite (by rw [decide_eq_false_iff_not, not_not, hbound']; simp)
      intro _
      exact ih (List.rel_append hdone (.cons ⟨hbinds, hbinds'⟩ .nil))

/-- An operation by itself is refused for the first requirement that it does not meet. -/
theorem refusal?_toPass (op : Operation) (d : Description) (index : Nat) :
    refusal? (op.toPass d index) = firstUnmet (op.requirements d) := by
  rw [← List.append_nil (op.requirements d)]
  simp only [requirements, List.append_assoc]
  apply refusal?_bind refusal?_checkNames
  intro _ hin
  apply refusal?_bind refusal?_checkNames
  intro _ hout
  apply refusal?_bind (refusal?_presentFrom (by simp))
  intro inputs hinputs
  obtain ⟨rfl, -⟩ := presentFrom_spec hinputs
  apply refusal?_bind (refusal?_presentFrom (by simp))
  intro outputs houtputs
  obtain ⟨rfl, -⟩ := presentFrom_spec houtputs
  apply refusal?_bind refusal?_checkDisjoint
  intro _ _
  apply refusal?_bind refusal?_checkOptional
  intro _ _
  exact refusal?_bind
    (refusal?_bindingsFrom (checkNames_eq_ok.mp hin) (checkNames_eq_ok.mp hout) .nil)
    fun _ _ => rfl

end Operation

/-- A pass keeps the name of its operation and what it writes. -/
def Operation.Stands (op : Operation) (p : Pass) : Prop := p.name = op.name ∧ p.writes = op.writes

/-- The first operation that writes a buffer is the one whose pass does. -/
theorem name_producer? {before : List Operation} {done : List Pass}
    (hdone : List.Forall₂ Operation.Stands before done) (b : Nat) :
    (producer? done b).map (·.name) =
      (before.find? fun other => !decide (b ∉ other.writes)).map (·.name) := by
  induction hdone with
  | nil => rfl
  | @cons other q before done hq _ ih =>
      have hwrites : q.writes.contains b = !decide (b ∉ other.writes) := by simp [hq.2]
      unfold producer? at ih ⊢
      rw [List.find?_cons, List.find?_cons, hwrites]
      cases !decide (b ∉ other.writes) with
      | true => exact congrArg some hq.1
      | false => exact ih

theorem refusal?_checkFresh {op : Operation} {p : Pass} {d : Description} {before : List Operation}
    {done : List Pass} (hdone : List.Forall₂ Operation.Stands before done) (hp : op.Stands p)
    (bs : List Nat) : refusal? (p.checkFresh d done bs) = firstUnmet (bs.flatMap fun b =>
      before.map fun other =>
        ⟨b ∉ other.writes, .malformed op.name (.producedTwice (d.bufferName b) other.name)⟩) := by
  induction bs with
  | nil => rfl
  | cons b bs ih =>
      have hproducer := congrArg
        (Option.map fun name => GraphError.malformed op.name (.producedTwice (d.bufferName b) name))
        (name_producer? hdone b)
      rw [Option.map_map, Option.map_map] at hproducer
      rw [List.flatMap_cons, firstUnmet_append, firstUnmet_map, ← ih, Pass.checkFresh]
      refine Eq.trans ?_ (congrArg (Option.or · _) hproducer)
      cases producer? done b with
      | none => rfl
      | some q => simp [hp.1]

/-- A description is refused for the first requirement that it does not meet. -/
theorem refusal?_passesFrom {d : Description} {before ops : List Operation} {done : List Pass}
    (hdone : List.Forall₂ Operation.Stands before done) :
    refusal? (d.passesFrom done ops) = firstUnmet (along d.operationRequirements before ops) := by
  induction ops generalizing before done with
  | nil => rfl
  | cons op ops ih =>
      rw [along, Description.operationRequirements, List.append_assoc]
      apply refusal?_bind (op.refusal?_toPass d done.length)
      intro p hp
      have haccepted := Operation.toPass_accepted hp
      have hstands : op.Stands p := ⟨haccepted.name_eq, haccepted.writes_eq⟩
      have hfresh : refusal? (p.checkFresh d done p.writes) =
          firstUnmet (op.outputsUnwritten d before) := by
        rw [hstands.2]
        exact refusal?_checkFresh hdone hstands op.writes
      apply refusal?_bind hfresh
      intro _ _
      exact ih (List.rel_append hdone (.cons hstands .nil))

theorem Description.refusal?_passes (d : Description) :
    refusal? d.passes = firstUnmet (along d.operationRequirements [] d.operations) :=
  refusal?_passesFrom .nil

end FrameGraph
