import CodeAtlas.Proofs.Attempts
import CodeAtlas.Proofs.Planning.Resolve
import CodeAtlas.Store.Faulty

/-!
# Writing a plan

A plan is written in three steps: edges deleted, nodes deleted with their edges, and the rest
inserted. On a graph in memory only the last can fail, and then for a reason that is found in the plan
and the graph together. So writing comes down to one function from graphs to graphs (`Plan.written`),
and the graph it leaves is known node by node and edge by edge.
-/

set_option autoImplicit false

namespace CodeAtlas

open Std

/-! ## A store that fails too often -/

namespace RetryPolicy

variable {σ α : Type}

theorem guarded_succ (call : Call) (run : Session σ α) {f : Faulty σ} {left : Nat}
    (h : f.faults call = left + 1) :
    Faulty.guarded call run f =
      (.error (.unavailable s!"injected {call.name}"), f.setFaults call left) := by
  simp [Faulty.guarded, h]

/-- A store that fails as often as the call is made lets it fail, and nothing behind it changes. -/
theorem session_faulty (policy : RetryPolicy) (call : Call) (run : Session σ α) {f : Faulty σ}
    (h : policy.attempts ≤ f.faults call) :
    ∃ f', policy.session (Faulty.guarded call run) f =
        (.error (.unavailable s!"injected {call.name}"), f') ∧ f'.store = f.store := by
  show ∃ f', retryCall (Faulty.guarded call run).run (policy.maxAttempts - 1) f = _ ∧ _
  unfold attempts at h
  generalize policy.maxAttempts - 1 = further at h ⊢
  induction further generalizing f with
  | zero =>
    obtain ⟨left, hf⟩ : ∃ left, f.faults call = left + 1 := ⟨f.faults call - 1, by omega⟩
    exact ⟨_, guarded_succ call run hf, rfl⟩
  | succ further ih =>
    obtain ⟨left, hf⟩ : ∃ left, f.faults call = left + 1 := ⟨f.faults call - 1, by omega⟩
    have hleft : (f.setFaults call left).faults call = left := by simp [Faulty.setFaults]
    obtain ⟨f', hrest, hstore⟩ := ih (f := f.setFaults call left) (by omega)
    refine ⟨f', ?_, hstore⟩
    rw [retryCall_succ, guarded_succ call run hf]
    simpa [GraphError.isRetryable] using hrest

end RetryPolicy

/-! ## The three steps -/

namespace Plan

/-- The graph after the first step. -/
def withoutEdges (plan : Plan) (g : PropertyGraph) : PropertyGraph :=
  g.deleteEdges plan.deleteEdges.toList

/-- The graph after the first two steps. -/
def cleared (plan : Plan) (g : PropertyGraph) : PropertyGraph :=
  (plan.withoutEdges g).delete plan.deleteNodes.toList

/-- The graph after all three steps. -/
def written (plan : Plan) (g : PropertyGraph) : Except GraphError PropertyGraph :=
  (plan.cleared g).upsert plan.upsertNodes.values plan.upsertEdges.values

/-- Whether all nodes keep what their kinds promise. -/
def Valid (plan : Plan) : Prop := ∀ node ∈ plan.upsertNodes.values, node.validate = .ok ()

/-- Nodes and edges stand under their own ids and keys. -/
structure Keyed (plan : Plan) : Prop where
  nodes : ∀ (id : NodeId) node, plan.upsertNodes[id]? = some node → node.id = id
  edges : ∀ (k : EdgeKey) edge, plan.upsertEdges[k]? = some edge → edge.key = k

end Plan

namespace PropertyGraph

theorem get_deleteEdges (g : PropertyGraph) (keys : List EdgeKey) (k : EdgeKey) :
    (g.deleteEdges keys).edges[k]? = if k ∈ keys then none else g.edges[k]? :=
  Maps.get_foldl_erase keys g.edges k

theorem get_delete_nodes (g : PropertyGraph) (ids : List NodeId) (id : NodeId) :
    (g.delete ids).nodes[id]? = if id ∈ ids then none else g.nodes[id]? :=
  Maps.get_foldl_erase ids g.nodes id

theorem get_delete_edges (g : PropertyGraph) (ids : List NodeId) (k : EdgeKey) :
    (g.delete ids).edges[k]? = if k.source ∈ ids ∨ k.target ∈ ids then none else g.edges[k]? := by
  simp only [delete, ExtTreeMap.getElem?_filter']
  by_cases h : k.source ∈ ids ∨ k.target ∈ ids
  · rw [if_pos h, Option.filter_eq_none_iff]
    rintro a -
    rcases h with h | h <;> simp [h]
  · rw [if_neg h]
    rw [not_or] at h
    cases g.edges[k]? <;> simp [h]

theorem deleteEdges_nil (g : PropertyGraph) : g.deleteEdges [] = g := rfl

theorem delete_nil (g : PropertyGraph) : g.delete [] = g := by
  have hedges : (g.delete []).edges = g.edges := by
    apply ExtTreeMap.ext_getElem?
    intro k
    simp [get_delete_edges]
  show (⟨g.nodes, (g.delete []).edges⟩ : PropertyGraph) = g
  rw [hedges]

/-- The graph with some nodes and edges inserted, whatever the checks say. -/
def inserted (g : PropertyGraph) (nodes : List Node) (edges : List Edge) : PropertyGraph where
  nodes := nodes.foldl (fun m node => m.insert node.id node) g.nodes
  edges := edges.foldl (fun m edge => m.insert edge.key edge) g.edges

theorem upsert_eq (g : PropertyGraph) (nodes : List Node) (edges : List Edge) :
    g.upsert nodes edges =
      match g.acceptNodes ∅ nodes with
      | .error e => .error e
      | .ok accepted =>
        match g.acceptEdges accepted edges with
        | .error e => .error e
        | .ok _ => .ok (g.inserted nodes edges) := by
  unfold upsert
  cases g.acceptNodes ∅ nodes with
  | error e => rfl
  | ok accepted =>
    simp only [bind, Except.bind]
    cases g.acceptEdges accepted edges <;> rfl

end PropertyGraph

namespace Builder

section Checks

variable {σ : Type}

/-- The checks before anything is written. -/
def checkNodes (nodes : List Node) : Session σ PUnit :=
  forIn nodes PUnit.unit fun node _ => do
    ExceptT.mk (pure node.validate)
    pure (ForInStep.yield PUnit.unit)

theorem checkNodes_cons {node : Node} (h : node.validate = .ok ()) (rest : List Node) (s : σ) :
    (checkNodes (node :: rest) : Session σ PUnit) s = (checkNodes rest : Session σ PUnit) s := by
  have hnode : (ExceptT.mk (pure node.validate) : Session σ Unit) s = (.ok (), s) := by
    rw [h]; rfl
  have hstep : (do
      ExceptT.mk (pure node.validate)
      pure (ForInStep.yield PUnit.unit) : Session σ (ForInStep PUnit)) s =
        (.ok (.yield PUnit.unit), s) := by
    rw [Session.bind_ok hnode]; rfl
  unfold checkNodes
  rw [List.forIn_cons, Session.bind_ok hstep]

theorem checkNodes_ok {nodes : List Node} (h : ∀ node ∈ nodes, node.validate = .ok ()) (s : σ) :
    (checkNodes nodes : Session σ PUnit) s = (.ok PUnit.unit, s) := by
  induction nodes with
  | nil => rfl
  | cons node rest ih =>
    rw [checkNodes_cons (h node List.mem_cons_self)]
    exact ih fun m hm => h m (List.mem_cons_of_mem node hm)

/-- The first node that is not valid stops the checks. -/
theorem checkNodes_error {nodes : List Node} (h : ¬ ∀ node ∈ nodes, node.validate = .ok ()) (s : σ) :
    ∃ node ∈ nodes, ∃ e, node.validate = .error e ∧
      (checkNodes nodes : Session σ PUnit) s = (.error e, s) := by
  induction nodes with
  | nil => simp at h
  | cons node rest ih =>
    cases hv : node.validate with
    | ok u =>
      have hrest : ¬ ∀ m ∈ rest, m.validate = .ok () := fun hrest => h fun m hm => by
        rcases List.mem_cons.mp hm with rfl | hm
        · exact hv
        · exact hrest m hm
      obtain ⟨m, hm, e, he, hrun⟩ := ih hrest
      rw [checkNodes_cons hv]
      exact ⟨m, List.mem_cons_of_mem node hm, e, he, hrun⟩
    | error e =>
      refine ⟨node, List.mem_cons_self, e, hv, ?_⟩
      have hnode : (ExceptT.mk (pure node.validate) : Session σ Unit) s = (.error e, s) := by
        rw [hv]; rfl
      have hstep : (do
          ExceptT.mk (pure node.validate)
          pure (ForInStep.yield PUnit.unit) : Session σ (ForInStep PUnit)) s = (.error e, s) :=
        Session.bind_error hnode
      unfold checkNodes
      rw [List.forIn_cons, Session.bind_error hstep]

end Checks

section Steps

variable {σ : Type} [Backend σ]

/-- The first step. -/
def clearEdges (policy : RetryPolicy) (plan : Plan) : Session σ Unit :=
  unless plan.deleteEdges.isEmpty do
    policy.session (Backend.deleteEdges plan.deleteEdges.toList)

/-- The second step. -/
def clearNodes (policy : RetryPolicy) (plan : Plan) : Session σ Unit :=
  unless plan.deleteNodes.isEmpty do
    policy.session (Backend.delete plan.deleteNodes.toList)

/-- The third step. -/
def insertRest (policy : RetryPolicy) (plan : Plan) : Session σ Unit :=
  unless plan.upsertNodes.isEmpty && plan.upsertEdges.isEmpty do
    policy.session (Backend.upsert plan.upsertNodes.values plan.upsertEdges.values)

theorem commit_eq (policy : RetryPolicy) (plan : Plan) :
    (commit policy plan : Session σ Unit) = (do
      checkNodes plan.upsertNodes.values
      clearEdges policy plan
      clearNodes policy plan
      insertRest policy plan) := by
  unfold commit checkNodes clearEdges clearNodes insertRest
  congr 1
  funext _
  cases plan.deleteEdges.isEmpty <;> cases plan.deleteNodes.isEmpty <;>
    cases plan.upsertNodes.isEmpty && plan.upsertEdges.isEmpty <;> simp

end Steps

/-! ### On a graph -/

theorem withoutEdges_of_isEmpty {plan : Plan} (h : plan.deleteEdges.isEmpty = true)
    (g : PropertyGraph) : plan.withoutEdges g = g := by
  have hnil : plan.deleteEdges.toList = [] := List.isEmpty_iff.mp (ExtTreeSet.isEmpty_toList.trans h)
  rw [Plan.withoutEdges, hnil, PropertyGraph.deleteEdges_nil]

theorem delete_of_isEmpty {plan : Plan} (h : plan.deleteNodes.isEmpty = true) (g : PropertyGraph) :
    g.delete plan.deleteNodes.toList = g := by
  have hnil : plan.deleteNodes.toList = [] := List.isEmpty_iff.mp (ExtTreeSet.isEmpty_toList.trans h)
  rw [hnil, PropertyGraph.delete_nil]

theorem clearEdges_run (policy : RetryPolicy) (plan : Plan) (g : PropertyGraph) :
    clearEdges policy plan g = (.ok (), plan.withoutEdges g) := by
  unfold clearEdges
  cases he : plan.deleteEdges.isEmpty with
  | true =>
    rw [withoutEdges_of_isEmpty he]
    rfl
  | false => exact policy.session_ok rfl

theorem clearNodes_run (policy : RetryPolicy) (plan : Plan) (g : PropertyGraph) :
    clearNodes policy plan g = (.ok (), g.delete plan.deleteNodes.toList) := by
  unfold clearNodes
  cases he : plan.deleteNodes.isEmpty with
  | true =>
    rw [delete_of_isEmpty he]
    rfl
  | false => exact policy.session_ok rfl

theorem acceptNodes_error {g : PropertyGraph} {nodes : List Node}
    {accepted : ExtTreeMap NodeId NodeKind} {e : GraphError}
    (h : g.acceptNodes accepted nodes = .error e) : e.isRetryable = false := by
  induction nodes generalizing accepted with
  | nil => simp [PropertyGraph.acceptNodes] at h
  | cons node rest ih =>
    rw [PropertyGraph.acceptNodes] at h
    split at h
    · split at h
      · exact ih h
      · cases h; rfl
    · exact ih h

theorem upsert_error {g : PropertyGraph} {nodes : List Node} {edges : List Edge} {e : GraphError}
    (h : g.upsert nodes edges = .error e) : e.isRetryable = false := by
  rw [PropertyGraph.upsert_eq] at h
  cases ha : g.acceptNodes ∅ nodes with
  | error e' =>
    rw [ha] at h
    cases h
    exact acceptNodes_error ha
  | ok accepted =>
    rw [ha] at h
    cases he : g.acceptEdges accepted edges with
    | ok u => simp [he] at h
    | error e' =>
      simp only [he, Except.error.injEq] at h
      subst h
      unfold PropertyGraph.acceptEdges at he
      dsimp only at he
      split at he
      · cases he; rfl
      · simp at he

/-- On a graph an insertion is made once, whether it is accepted or not. -/
theorem session_upsert (policy : RetryPolicy) (nodes : List Node) (edges : List Edge)
    (g : PropertyGraph) :
    policy.session (Backend.upsert nodes edges) g =
      match g.upsert nodes edges with
      | .ok g' => (.ok (), g')
      | .error e => (.error e, g) := by
  cases hu : g.upsert nodes edges with
  | ok g' =>
    refine policy.session_ok ?_
    show Session.change _ g = _
    simp [Session.change, hu]
  | error e =>
    refine policy.session_error ?_ (upsert_error hu)
    show Session.change _ g = _
    simp [Session.change, hu]

theorem insertRest_run (policy : RetryPolicy) (plan : Plan) (g : PropertyGraph) :
    insertRest policy plan g =
      match g.upsert plan.upsertNodes.values plan.upsertEdges.values with
      | .ok g' => (.ok (), g')
      | .error e => (.error e, g) := by
  unfold insertRest
  cases he : plan.upsertNodes.isEmpty && plan.upsertEdges.isEmpty with
  | true =>
    rw [Bool.and_eq_true] at he
    rw [ExtTreeMap.isEmpty_iff.mp he.1, ExtTreeMap.isEmpty_iff.mp he.2]
    rfl
  | false => exact session_upsert policy _ _ g

/-- Writing a plan of valid nodes succeeds if the insertion does. -/
theorem commit_run (policy : RetryPolicy) {plan : Plan} (valid : plan.Valid) (g : PropertyGraph) :
    commit policy plan g =
      match plan.written g with
      | .ok g' => (.ok (), g')
      | .error e => (.error e, plan.cleared g) := by
  rw [commit_eq, Session.bind_ok (checkNodes_ok valid g), Session.bind_ok (clearEdges_run policy plan g),
    Session.bind_ok (clearNodes_run policy plan _), insertRest_run]
  rfl

/-- A plan with a node that is not valid is refused before anything is written. -/
theorem commit_invalid (policy : RetryPolicy) {plan : Plan} (h : ¬ plan.Valid) (g : PropertyGraph) :
    ∃ node ∈ plan.upsertNodes.values, ∃ e, node.validate = .error e ∧
      commit policy plan g = (.error e, g) := by
  obtain ⟨node, hn, e, he, hrun⟩ := checkNodes_error h g
  exact ⟨node, hn, e, he, by rw [commit_eq, Session.bind_error hrun]⟩

theorem commit_eq_ok_iff {policy : RetryPolicy} {plan : Plan} {g g' : PropertyGraph} :
    commit policy plan g = (.ok (), g') ↔ plan.Valid ∧ plan.written g = .ok g' := by
  by_cases valid : plan.Valid
  · rw [commit_run policy valid]
    cases hw : plan.written g with
    | error e =>
      refine ⟨fun h => ?_, fun h => by simp at h⟩
      cases h
    | ok g'' =>
      refine ⟨fun h => ?_, fun h => by cases h.2; rfl⟩
      cases h
      exact ⟨valid, rfl⟩
  · obtain ⟨-, -, e, -, he⟩ := commit_invalid policy valid g
    rw [he]
    refine ⟨fun h => ?_, fun h => absurd h.1 valid⟩
    cases h

end Builder

/-! ## When an insertion is accepted -/

namespace PropertyGraph

theorem kindOf?_congr {g h : PropertyGraph} (hn : g.nodes = h.nodes)
    (accepted : ExtTreeMap NodeId NodeKind) (id : NodeId) :
    g.kindOf? accepted id = h.kindOf? accepted id := by
  simp only [kindOf?, hn]

/-- Nodes are accepted with a view to the nodes of the graph only. -/
theorem acceptNodes_congr {g h : PropertyGraph} (hn : g.nodes = h.nodes)
    (accepted : ExtTreeMap NodeId NodeKind) (nodes : List Node) :
    g.acceptNodes accepted nodes = h.acceptNodes accepted nodes := by
  induction nodes generalizing accepted with
  | nil => rfl
  | cons node rest ih => simp only [acceptNodes, kindOf?_congr hn, ih]

/-- Nodes of different ids are accepted if none of them changes the kind of a node. -/
theorem acceptNodes_ok {g : PropertyGraph} {nodes : List Node}
    (accepted : ExtTreeMap NodeId NodeKind)
    (hkind : ∀ node ∈ nodes, ∀ old, g.nodes[node.id]? = some old → old.kind = node.kind)
    (hids : (nodes.map (·.id)).Nodup) (hnew : ∀ node ∈ nodes, accepted[node.id]? = none) :
    ∃ kinds, g.acceptNodes accepted nodes = .ok kinds ∧
      ∀ id : NodeId, kinds.contains id = true ↔
        accepted.contains id = true ∨ ∃ node ∈ nodes, node.id = id := by
  induction nodes generalizing accepted with
  | nil => exact ⟨accepted, rfl, by simp⟩
  | cons node rest ih =>
    obtain ⟨hhead, hrest⟩ := List.nodup_cons.mp hids
    have haccept : g.acceptNodes accepted (node :: rest) =
        g.acceptNodes (accepted.insert node.id node.kind) rest := by
      have hkindOf : g.kindOf? accepted node.id = g.nodes[node.id]?.map (·.kind) := by
        simp [kindOf?, hnew node List.mem_cons_self]
      rw [acceptNodes, hkindOf]
      cases hold : g.nodes[node.id]? with
      | none => rfl
      | some old => simp [hkind node List.mem_cons_self old hold]
    have hnew' : ∀ m ∈ rest, (accepted.insert node.id node.kind)[m.id]? = none := by
      intro m hm
      have hne : node.id ≠ m.id := fun he => hhead (List.mem_map.mpr ⟨m, hm, he.symm⟩)
      simpa [ExtTreeMap.getElem?_insert, hne] using hnew m (List.mem_cons_of_mem node hm)
    obtain ⟨kinds, hk, hcontains⟩ := ih (accepted.insert node.id node.kind)
      (fun m hm => hkind m (List.mem_cons_of_mem node hm)) hrest hnew'
    refine ⟨kinds, haccept.trans hk, fun id => ?_⟩
    rw [hcontains]
    simp only [ExtTreeMap.contains_insert, Bool.or_eq_true, beq_iff_eq, LawfulEqCmp.compare_eq_iff_eq,
      List.mem_cons, exists_eq_or_imp]
    exact or_assoc.trans or_left_comm

/-- Edges are accepted if both their ends are known. -/
theorem acceptEdges_ok_iff {g : PropertyGraph} {accepted : ExtTreeMap NodeId NodeKind}
    {edges : List Edge} :
    g.acceptEdges accepted edges = .ok () ↔ ∀ edge ∈ edges,
      (g.kindOf? accepted edge.source).isSome = true ∧
        (g.kindOf? accepted edge.target).isSome = true := by
  unfold acceptEdges
  dsimp only
  split
  next edge hf =>
    refine ⟨fun h => (by cases h), fun h => ?_⟩
    have hbad := List.find?_some hf
    obtain ⟨hs, ht⟩ := h edge (List.mem_of_find?_eq_some hf)
    simp [hs, ht] at hbad
  next hf =>
    refine ⟨fun _ edge he => ?_, fun _ => rfl⟩
    have hok := List.find?_eq_none.mp hf edge he
    simpa [Option.isSome_iff_ne_none] using hok

end PropertyGraph

namespace Plan

variable {plan : Plan} {g g' : PropertyGraph}

theorem nodup_ids (keyed : plan.Keyed) : (plan.upsertNodes.values.map (·.id)).Nodup := by
  rw [Maps.map_values keyed.nodes]
  exact ExtTreeMap.nodup_keys

theorem cleared_nodes (plan : Plan) (g : PropertyGraph) (id : NodeId) :
    (plan.cleared g).nodes[id]? = if id ∈ plan.deleteNodes then none else g.nodes[id]? := by
  rw [cleared, PropertyGraph.get_delete_nodes]
  simp only [ExtTreeSet.mem_toList]
  rfl

theorem cleared_edges (plan : Plan) (g : PropertyGraph) (k : EdgeKey) :
    (plan.cleared g).edges[k]? =
      if k ∈ plan.deleteEdges ∨ k.source ∈ plan.deleteNodes ∨ k.target ∈ plan.deleteNodes then none
      else g.edges[k]? := by
  rw [cleared, PropertyGraph.get_delete_edges, withoutEdges, PropertyGraph.get_deleteEdges]
  simp only [ExtTreeSet.mem_toList]
  by_cases he : k ∈ plan.deleteEdges <;>
    by_cases hs : k.source ∈ plan.deleteNodes ∨ k.target ∈ plan.deleteNodes <;> simp [he, hs]

theorem inserted_of_written (h : plan.written g = .ok g') :
    (plan.cleared g).inserted plan.upsertNodes.values plan.upsertEdges.values = g' := by
  rw [written, PropertyGraph.upsert_eq] at h
  split at h
  · cases h
  · split at h
    · cases h
    · exact Except.ok.inj h

/-- A node is found in the graph after a plan is written if the plan inserts it, or if it was there
and the plan does not delete it. -/
theorem get_written_nodes (keyed : plan.Keyed) (h : plan.written g = .ok g') (id : NodeId) :
    g'.nodes[id]? =
      plan.upsertNodes[id]?.or (if id ∈ plan.deleteNodes then none else g.nodes[id]?) := by
  rw [← cleared_nodes, ← inserted_of_written h]
  exact Maps.get_foldl_insert_values Node.id plan.upsertNodes _ keyed.nodes id

theorem get_written_edges (keyed : plan.Keyed) (h : plan.written g = .ok g') (k : EdgeKey) :
    g'.edges[k]? = plan.upsertEdges[k]?.or
      (if k ∈ plan.deleteEdges ∨ k.source ∈ plan.deleteNodes ∨ k.target ∈ plan.deleteNodes then none
      else g.edges[k]?) := by
  rw [← cleared_edges, ← inserted_of_written h]
  exact Maps.get_foldl_insert_values Edge.key plan.upsertEdges _ keyed.edges k

theorem edge_key_written (keyed : plan.Keyed)
    (hkey : ∀ (k : EdgeKey) edge, g.edges[k]? = some edge → edge.key = k)
    (h : plan.written g = .ok g') {k : EdgeKey} {edge : Edge} (he : g'.edges[k]? = some edge) :
    edge.key = k := by
  rw [get_written_edges keyed h] at he
  rcases Option.or_eq_some_iff.mp he with he | ⟨-, he⟩
  · exact keyed.edges k edge he
  · split at he
    · simp at he
    · exact hkey k edge he

/-- A plan is written if it changes the kind of no node and leaves no edge without its nodes. -/
theorem exists_written (keyed : plan.Keyed)
    (hkind : ∀ (id : NodeId) node old, plan.upsertNodes[id]? = some node → id ∉ plan.deleteNodes →
      g.nodes[id]? = some old → old.kind = node.kind)
    (hends : ∀ (k : EdgeKey) edge, plan.upsertEdges[k]? = some edge →
      ∀ id, id = k.source ∨ id = k.target → plan.upsertNodes.contains id = true ∨
        (id ∉ plan.deleteNodes ∧ g.nodes.contains id = true)) :
    ∃ g', plan.written g = .ok g' := by
  have hagree : ∀ node ∈ plan.upsertNodes.values, ∀ old,
      (plan.cleared g).nodes[node.id]? = some old → old.kind = node.kind := by
    intro node hn old hold
    obtain ⟨id, hid⟩ := (Maps.mem_values _ _).mp hn
    rw [keyed.nodes id node hid, cleared_nodes] at hold
    split at hold
    · simp at hold
    next hdel => exact hkind id node old hid hdel hold
  obtain ⟨kinds, hk, hcontains⟩ :=
    PropertyGraph.acceptNodes_ok ∅ hagree (nodup_ids keyed) (by simp)
  have hknown : ∀ id, plan.upsertNodes.contains id = true ∨
      (id ∉ plan.deleteNodes ∧ g.nodes.contains id = true) →
      ((plan.cleared g).kindOf? kinds id).isSome = true := by
    rintro id (hid | ⟨hdel, hid⟩)
    · obtain ⟨node, hn⟩ := (Maps.contains_iff _ _).mp hid
      have hmem : node ∈ plan.upsertNodes.values := (Maps.mem_values _ _).mpr ⟨id, hn⟩
      have hkinds := (hcontains id).mpr (.inr ⟨node, hmem, keyed.nodes id node hn⟩)
      obtain ⟨kind, hkind⟩ := (Maps.contains_iff _ _).mp hkinds
      simp [PropertyGraph.kindOf?, hkind]
    · obtain ⟨node, hn⟩ := (Maps.contains_iff _ _).mp hid
      simp [PropertyGraph.kindOf?, cleared_nodes, hdel, hn]
  have hedges : (plan.cleared g).acceptEdges kinds plan.upsertEdges.values = .ok () := by
    rw [PropertyGraph.acceptEdges_ok_iff]
    intro edge he
    obtain ⟨k, hk⟩ := (Maps.mem_values _ _).mp he
    have hkey := keyed.edges k edge hk
    have hsource : edge.source = k.source := congrArg EdgeKey.source hkey
    have htarget : edge.target = k.target := congrArg EdgeKey.target hkey
    exact ⟨hknown _ (hends k edge hk _ (.inl hsource)), hknown _ (hends k edge hk _ (.inr htarget))⟩
  refine ⟨(plan.cleared g).inserted plan.upsertNodes.values plan.upsertEdges.values, ?_⟩
  rw [written, PropertyGraph.upsert_eq, hk]
  simp only [hedges]

end Plan

/-! ## Plans of drafts -/

namespace Plan

theorem keyed_empty : Keyed {} where
  nodes id node h := by simp at h
  edges k edge h := by simp at h

theorem Keyed.putNode {plan : Plan} (h : plan.Keyed) (node : Node) : (plan.putNode node).Keyed where
  nodes id m hm := by
    rw [Draft.get_upsertNodes_putNode] at hm
    split at hm
    next he =>
      cases hm
      exact he
    next => exact h.nodes id m hm
  edges := h.edges

theorem Keyed.putEdge {plan : Plan} (h : plan.Keyed) (edge : Edge) : (plan.putEdge edge).Keyed where
  nodes := h.nodes
  edges k e he := by
    rw [Draft.get_upsertEdges_putEdge] at he
    split at he
    next hk =>
      cases hu : plan.upsertEdges[k]? with
      | none => rw [hu] at he; cases he; exact hk
      | some old => rw [hu] at he; cases he; exact h.edges k old hu
    next => exact h.edges k e he

theorem Keyed.dropEdge {plan : Plan} (h : plan.Keyed) (key : EdgeKey) :
    (plan.dropEdge key).Keyed where
  nodes := h.nodes
  edges k e he := by
    rw [Plan.dropEdge, ExtTreeMap.getElem?_erase] at he
    split at he
    · simp at he
    · exact h.edges k e he

theorem Keyed.deleteNode {plan : Plan} (h : plan.Keyed) (id : NodeId) : (plan.deleteNode id).Keyed :=
  ⟨h.nodes, h.edges⟩

theorem Keyed.discard {plan : Plan} (h : plan.Keyed) (id : NodeId) :
    (Draft.discard plan id).Keyed where
  nodes x node hn := by
    rw [Draft.discard, ExtTreeMap.getElem?_erase] at hn
    split at hn
    · simp at hn
    · exact h.nodes x node hn
  edges := h.edges

end Plan

namespace Draft

/-- A draft whose queue and plan are keyed. -/
def Keyed (d : Draft) : Prop := d.book.pending.Keyed ∧ d.plan.Keyed

variable {d : Draft}

theorem Keyed.retractUnit (h : d.Keyed) (path : String) : (d.retractUnit path).Keyed := by
  have hdrop : ∀ {q : PendingQueue}, q.Keyed → (q.dropUnit path).Keyed := by
    intro q hq key r hr
    rw [PendingQueue.dropUnit, ExtTreeMap.getElem?_filter'] at hr
    exact hq key r (Option.filter_eq_some_iff.mp hr).1
  unfold Draft.retractUnit
  dsimp only
  cases d.book.units[path]? with
  | none => exact ⟨hdrop h.1, h.2⟩
  | some old =>
    dsimp only
    have hnodes := forgets_foldl (old.edges.toList.foldl retractEdge
      { d with book := { d.book with units := d.book.units.erase path } }) old.nodes.toList
    refine ⟨hdrop ?_, ?_⟩
    · rw [hnodes.pending, foldl_retractEdge]
      exact h.1
    · rw [hnodes.plan, foldl_retractEdge]
      exact List.foldlRecOn (motive := Plan.Keyed) _ Plan.dropEdge h.2 fun plan hp key _ =>
        hp.dropEdge key

theorem Keyed.addNode (path : String) {unit : UnitState} (h : d.Keyed) (node : Node) :
    (addNode path (d, unit) node).1.Keyed := by
  rw [addNode_eq]
  split
  · exact ⟨h.1, h.2.putNode node⟩
  · exact h

theorem Keyed.addShared (h : d.Keyed) (node : Node) : (d.addShared node).Keyed := by
  unfold Draft.addShared
  split
  · exact h
  · exact ⟨h.1, h.2.putNode node⟩

theorem Keyed.addEdge {unit : UnitState} (h : d.Keyed) (edge : Edge) :
    (addEdge (d, unit) edge).1.Keyed := by
  unfold Draft.addEdge
  dsimp only
  split
  · exact ⟨h.1, h.2.putEdge edge⟩
  · exact h

theorem Keyed.addUnit (markers : List String) (h : d.Keyed) (parsed : ParsedUnit) :
    (d.addUnit markers parsed).Keyed :=
  addUnit_induction (P := Keyed) markers parsed h (fun _ _ node _ hx => hx.addNode _ node)
    (fun _ node _ hx => hx.addShared node) (fun _ _ edge _ hx => hx.addEdge edge)
    fun _ _ _ hx => hx

theorem Keyed.addChange (markers : List String) (h : d.Keyed) (change : UnitChange) :
    (d.addChange markers change).Keyed := by
  cases change with
  | put parsed => exact h.addUnit markers parsed
  | remove path => exact h

theorem Keyed.settle (h : d.Keyed) (r : Reference) : (d.settle r).Keyed := by
  refine ⟨keyed_settle h.1 r, ?_⟩
  rw [settle_eq]
  split
  · exact (h.2.dropEdge _).putEdge _
  · exact h.2

theorem Keyed.place (h : d.Keyed) (r : Reference) : (d.place r).Keyed := by
  refine ⟨keyed_place h.1 r, ?_⟩
  rw [place_eq]
  exact h.2.putEdge _

theorem Keyed.followQueue (h : d.Keyed) (before : List NodeId) : (d.followQueue before).Keyed := by
  refine ⟨h.1, ?_⟩
  unfold Draft.followQueue
  dsimp only
  refine List.foldlRecOn (motive := Plan.Keyed) _ Draft.discard ?_ fun plan hp id _ => hp.discard id
  exact List.foldlRecOn (motive := Plan.Keyed) _ _ h.2 fun plan hp u _ => hp.putNode _

end Draft

theorem Bookkeeping.keyed_added {book : Bookkeeping} (h : book.pending.Keyed)
    (markers : List String) (changes : List UnitChange) : (book.added markers changes).Keyed := by
  unfold Bookkeeping.added
  refine List.foldlRecOn (motive := Draft.Keyed) _ _ ?_ fun d hd c _ => hd.addChange markers c
  exact List.foldlRecOn (motive := Draft.Keyed) _ _ ⟨h, Plan.keyed_empty⟩ fun d hd p _ =>
    hd.retractUnit p

/-- Whatever the changes, queue and plan stay keyed. -/
theorem Bookkeeping.keyed_draftWith {book : Bookkeeping} (h : book.pending.Keyed)
    (markers : List String) (changes : List UnitChange) (opened : List Draft.Reopening) :
    (book.draftWith markers changes opened).Keyed := by
  have hadded := keyed_added h markers changes
  have hdelete : ∀ gone, ((book.added markers changes).deleteAll gone).plan.Keyed := fun gone =>
    List.foldlRecOn (motive := Plan.Keyed) gone _ hadded.2 fun plan hp id _ => hp.deleteNode id
  refine Draft.Keyed.followQueue ?_ _
  refine Draft.resolveAll_induction (P := Draft.Keyed) ⟨?_, hdelete _⟩ (fun _ r hx => hx.settle r)
    fun _ r hx => hx.place r
  show (opened.foldl (fun book o => book.eraseEdge o.unit o.key)
    (book.added markers changes).book).pending.Keyed
  rw [Draft.foldl_eraseEdge_pending]
  exact hadded.1

/-! ## Whole calls -/

namespace Bookkeeping

theorem answersAs_graph (policy : RetryPolicy) (g : PropertyGraph) : AnswersAs policy g g :=
  fun _ => policy.session_ok rfl

/-- The draft of some changes over a graph. -/
def draftOn (book : Bookkeeping) (g : PropertyGraph) (markers : List String)
    (changes : List UnitChange) : Draft :=
  book.draftWith markers changes (book.reopened g markers changes)

end Bookkeeping

namespace Builder

variable {b b' : Builder} {g g' : PropertyGraph} {δ : Delta} {changes : List UnitChange}

/-- A call succeeds if its plan is valid and can be written. -/
theorem apply_ok {d : Draft} (hd : b.book.draftOn g b.markers changes = d) (valid : d.plan.Valid)
    (hw : d.plan.written g = .ok g') :
    b.apply changes g = (.ok (d.plan.toDelta, { b with book := d.book }), g') := by
  unfold apply
  rw [Session.bind_ok (Bookkeeping.draft_run (Bookkeeping.answersAs_graph b.policy g) b.book
    b.markers changes)]
  change b.book.draftWith _ _ _ = d at hd
  rw [hd, Session.bind_ok (commit_eq_ok_iff.mpr ⟨valid, hw⟩)]
  rfl

/-- A call whose plan is not valid is refused, and the graph stays as it is. -/
theorem apply_invalid (h : ¬ (b.book.draftOn g b.markers changes).plan.Valid) :
    ∃ node ∈ (b.book.draftOn g b.markers changes).plan.upsertNodes.values, ∃ e,
      node.validate = .error e ∧ b.apply changes g = (.error e, g) := by
  obtain ⟨node, hn, e, he, hrun⟩ := commit_invalid b.policy h g
  refine ⟨node, hn, e, he, ?_⟩
  unfold apply
  rw [Session.bind_ok (Bookkeeping.draft_run (Bookkeeping.answersAs_graph b.policy g) b.book
    b.markers changes)]
  exact Session.bind_error hrun

theorem of_apply_ok (h : b.apply changes g = (.ok (δ, b'), g')) :
    ∃ d, b.book.draftOn g b.markers changes = d ∧ d.plan.Valid ∧ d.plan.written g = .ok g' ∧
      δ = d.plan.toDelta ∧ b' = { b with book := d.book } := by
  unfold apply at h
  rw [Session.bind_ok (Bookkeeping.draft_run (Bookkeeping.answersAs_graph b.policy g) b.book
    b.markers changes)] at h
  obtain ⟨d, hd⟩ : ∃ d, b.book.draftWith b.markers changes
    (b.book.reopened g b.markers changes) = d := ⟨_, rfl⟩
  rw [hd] at h
  refine ⟨d, hd, ?_⟩
  rcases hc : commit b.policy d.plan g with ⟨e | u, g''⟩
  · rw [Session.bind_error hc] at h
    cases h
  · rw [Session.bind_ok hc] at h
    obtain ⟨valid, hw⟩ := commit_eq_ok_iff.mp hc
    cases h
    exact ⟨valid, hw, rfl, rfl⟩

end Builder

end CodeAtlas
