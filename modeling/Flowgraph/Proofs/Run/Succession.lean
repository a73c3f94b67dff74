import Flowgraph.Proofs.Graph.Wiring
import Flowgraph.Proofs.Run.FailedLoad

/-!
# Which graph comes next

What a load or a clearing that returns leaves of the graphs, and which stages of nodes it has
brought about. In each case the nodes of the old graph are unloaded first, all of them and in order.

* `Loaded.concluded` — a graph cannot be stored or cannot be wired, and no node is initialised; or a
  node fails, and those before it are unloaded again; or all nodes are initialised and their graph
  is live.
* `Cleared.vacant` — after a clearing an empty graph is live.
* `replaced_of_call` — what both have in common.
* `attended_of_call` — each stage that is recorded stands where a program of its node is run.
-/

namespace Flowgraph.Engine

variable {c : Context} {e e' m : Engine}

/-! ### The old graph -/

/-- The graphs that were there do not change when one is retired. -/
theorem graph_retire (empty : Graph) {g : GraphId} (hlt : g < e.graphs.length) :
    (e.retire empty).graph g = e.graph g :=
  graph_addGraph_of_lt empty hlt

/-- The nodes of the live graph are unloaded when it is replaced. -/
theorem Unloaded.stages_eq {empty : Graph} (hm : Unloaded empty e m)
    (hlt : e.live < e.graphs.length) : m.stages = e.stages ++ unloads e.live e.nodeIds := by
  rw [hm.stages, graph_retire empty hlt]
  rfl

/-- Up to where the new graph is built, the old nodes are unloaded and nothing else happens to
nodes. -/
theorem stages_vacated (lines : List LogLine) (hm : Unloaded {} (announce c e) m)
    (hlt : e.live < e.graphs.length) :
    (vacated c e m lines).stages = e.stages ++ unloads e.live e.nodeIds := by
  have hannounce : (announce c e).stages = e.stages := stages_log e _
  show ((m.release e.live).logAll lines).stages = _
  rw [stages_logAll]
  show m.stages = _
  rw [hm.stages_eq hlt, hannounce]
  rfl

/-- The new graph is built with the same types. -/
theorem registry_vacated (lines : List LogLine) (hm : Unloaded {} (announce c e) m) :
    (vacated c e m lines).registry = e.registry := by
  show ((m.release e.live).logAll lines).registry = _
  rw [logAll_eq]
  exact hm.moves.frame.registry

/-! ### Loads -/

/-- What the load of a graph that cannot be wired answers: if it cannot even be stored, that comes
first. -/
def refusal (e : Engine) (err : LoadError) : WorkflowError := e.store.writeError?.getD (.load err)

/-- A graph that can be stored is refused for the reason that wiring gives. -/
theorem refusal_of_stored (h : e.store.writeError? = none) (err : LoadError) :
    e.refusal err = .load err := by
  rw [refusal, h]
  rfl

/-- How a load ends, with the stages that it has brought about. -/
inductive Concluded (c : Context) (e e' : Engine) : Except WorkflowError Unit → List Stage → Prop
  /-- The graph cannot be stored, and it is not even wired. -/
  | unstored {err : WorkflowError} (hw : e.store.writeError? = some err)
      (hlive : e'.live = e.graphs.length) (hlen : e'.graphs.length = e.graphs.length + 1)
      (hnodes : e'.nodeIds = []) :
      Concluded c e e' (.error err) (unloads e.live e.nodeIds)
  /-- The graph cannot be wired, and none of its nodes begins to be initialised. -/
  | refused {err : LoadError} (hw : e.store.writeError? = none) (h : wire e.registry c = .error err)
      (hlive : e'.live = e.graphs.length) (hlen : e'.graphs.length = e.graphs.length + 1)
      (hnodes : e'.nodeIds = []) :
      Concluded c e e' (.error (.load err)) (unloads e.live e.nodeIds)
  /-- The initialisation of a node fails. -/
  | failed (done : List LiveNode) {rest : List LiveNode} {n : LiveNode} (err : WorkflowError)
      (h : wire e.registry c = .ok (done ++ n :: rest)) (hlive : e'.live = e.graphs.length)
      (hlen : e'.graphs.length = e.graphs.length + 2) (hnodes : e'.nodeIds = []) :
      Concluded c e e' (.error err) (unloads e.live e.nodeIds ++
        (inits (e.graphs.length + 1) (done.map (·.id)) ++
          .initialising ⟨e.graphs.length + 1, n.id⟩ ::
            unloads (e.graphs.length + 1) (done.map (·.id))))
  | loaded {nodes : List LiveNode} (h : wire e.registry c = .ok nodes)
      (hlive : e'.live = e.graphs.length + 1) (hlen : e'.graphs.length = e.graphs.length + 2)
      (hnodes : e'.liveGraph.nodes = nodes) :
      Concluded c e e' (.ok ()) (unloads e.live e.nodeIds ++ inits e'.live e'.nodeIds)

/-- A release makes no graph. -/
theorem length_release (e : Engine) (g : GraphId) :
    (e.release g).graphs.length = e.graphs.length := length_modifyGraph ..

/-- A promotion makes no graph. -/
theorem length_promote (e : Engine) (g : GraphId) :
    (e.promote g).graphs.length = e.graphs.length := length_modifyGraph ..

/-- One graph is made to be built. -/
theorem length_raise {graph : Graph} (hm : Moves (e.raise graph) m) :
    m.graphs.length = e.graphs.length + 1 :=
  hm.frame.length.trans List.length_append

/-- The graph that becomes live is the one that was raised. -/
theorem graph_promote {graph : Graph} (hm : Moves (e.raise graph) m)
    (hlt : e.live < e.graphs.length) :
    graph.Follows ((m.promote e.graphs.length).graph e.graphs.length) := by
  have hlive : m.live = e.live := hm.frame.live
  have hother : (m.promote e.graphs.length).graph e.graphs.length = m.graph e.graphs.length :=
    graph_modifyGraph_of_ne _ (hlive ▸ Nat.ne_of_lt hlt)
  have hself : (e.raise graph).graph e.graphs.length = graph := graph_addGraph_self e graph
  rw [hother, ← hself]
  exact hm.frame.graph e.graphs.length

/-! What is reported behind a promotion changes nothing about it. -/

/-- The graph that was promoted is live. -/
theorem live_promoted (m : Engine) (g : GraphId) (lines : List LogLine) :
    ((m.promote g).logAll lines).live = g := by
  rw [logAll_eq]
  rfl

theorem length_promoted (m : Engine) (g : GraphId) (lines : List LogLine) :
    ((m.promote g).logAll lines).graphs.length = m.graphs.length := by
  rw [logAll_eq]
  exact length_promote m g

theorem stages_promoted (m : Engine) (g : GraphId) (lines : List LogLine) :
    ((m.promote g).logAll lines).stages = m.stages :=
  stages_logAll ..

/-- The live nodes are those that were raised. -/
theorem nodes_promoted {graph : Graph} (hm : Moves (e.raise graph) m)
    (hlt : e.live < e.graphs.length) (lines : List LogLine) :
    ((m.promote e.graphs.length).logAll lines).liveGraph.nodes = graph.nodes := by
  rw [liveGraph, live_promoted, graph_logAll]
  exact (graph_promote hm hlt).nodes

/-- How loads end that fail. -/
theorem Loaded.concluded_error {err : WorkflowError} (hlt : e.live < e.graphs.length)
    (h : Loaded c e (.error err) e') :
    ∃ stages, e'.stages = e.stages ++ stages ∧ Concluded c e e' (.error err) stages := by
  obtain ⟨hlive, -, -, hstand, -⟩ := h.failure hlt
  have hnodes : e'.nodeIds = [] := by
    rw [nodeIds, liveGraph, hlive, hstand]
    rfl
  cases h with
  | unstored hm hw =>
    exact ⟨_, stages_vacated _ hm hlt, .unstored hw hlive (length_vacated _ hm.moves) hnodes⟩
  | @failed m e' lines err hm hw hb =>
    have hlen := length_vacated lines hm.moves
    have hstages := stages_vacated lines hm hlt
    have hregistry := registry_vacated lines hm
    -- the old graph is gone in both cases, and the stages differ by what the new one did
    cases hb with
    | refused hwire =>
      rw [hregistry] at hwire
      exact ⟨_, hstages, .refused hw hwire hlive hlen hnodes⟩
    | @failed nodes err stages m' hwire ht ha =>
      rw [hregistry] at hwire
      have hlen' : (m'.release (vacated c e m lines).graphs.length).graphs.length =
          e.graphs.length + 2 := by
        rw [length_release, length_raise (ht.moves rfl), hlen]
      rw [hlen] at ha
      cases ha with
      | failed done err hdone =>
        rw [hdone] at hwire
        refine ⟨_, ?_, .failed done err hwire hlive hlen' hnodes⟩
        show m'.stages = _
        have hs : m'.stages = (vacated c e m lines).stages ++ _ := ht.stages_eq rfl
        rw [hs, hstages, List.append_assoc]
        rfl

/-- How loads end that succeed. -/
theorem Loaded.concluded_ok (hlt : e.live < e.graphs.length) (h : Loaded c e (.ok ()) e') :
    ∃ stages, e'.stages = e.stages ++ stages ∧ Concluded c e e' (.ok ()) stages := by
  cases h with
  | @done m e₁ lines lines' hm hw hb =>
    have hlen := length_vacated lines hm.moves
    cases hb with
    | @live nodes stages m' hwire ht ha =>
      have hm' := ht.moves rfl
      have hs : m'.stages = (vacated c e m lines).stages ++ stages := ht.stages_eq rfl
      rw [registry_vacated lines hm] at hwire
      have hnodes := nodes_promoted hm' (live_lt_vacated lines hm.moves) lines'
      rw [hlen] at ha hnodes ⊢
      have hlive' := live_promoted m' (e.graphs.length + 1) lines'
      have hlen' := length_promoted m' (e.graphs.length + 1) lines'
      have hstages' := stages_promoted m' (e.graphs.length + 1) lines'
      -- what was recorded while the old graph was vacated comes before what the new one adds
      rw [length_raise hm', hlen] at hlen'
      rw [hs, stages_vacated lines hm hlt, List.append_assoc] at hstages'
      have hids : ((m'.promote (e.graphs.length + 1)).logAll lines').nodeIds =
          nodes.map (·.id) := by
        rw [nodeIds, hnodes]
      cases ha
      refine ⟨_, ?_, .loaded hwire hlive' hlen' hnodes⟩
      rw [hstages', hids, hlive']

/-- **How loads end.** -/
theorem Loaded.concluded {r : Except WorkflowError Unit} (hlt : e.live < e.graphs.length)
    (h : Loaded c e r e') :
    ∃ stages, e'.stages = e.stages ++ stages ∧ Concluded c e e' r stages := by
  cases r with
  | error err => exact h.concluded_error hlt
  | ok _ => exact h.concluded_ok hlt

/-! ### Clearings -/

/-- What a clearing leaves, with the stages that it has brought about. -/
structure Vacant (e e' : Engine) : Prop where
  live : e'.live = e.graphs.length
  length : e'.graphs.length = e.graphs.length + 1
  hooks : e'.hooks = none
  graph : e'.graph e.graphs.length = { generation := e.generation + 1 }
  stages : e'.stages = e.stages ++ unloads e.live e.nodeIds

/-- **What clearings leave.** -/
theorem Cleared.vacant (hlt : e.live < e.graphs.length) (h : Cleared e e') : Vacant e e' := by
  cases h with
  | @mk m lines hm =>
    have hframe := hm.moves.frame
    have hstand : m.graph e.graphs.length = { generation := e.generation + 1 } :=
      graph_standIn hlt hm.moves
    have hgraph : (m.release e.live).graph e.graphs.length =
        { generation := e.generation + 1 } := by
      rw [graph_release, if_neg fun h => Nat.ne_of_lt hlt h.1, hstand]
    -- the stand-in is behind the graphs there were, and a release keeps their number
    have hlen : (m.release e.live).graphs.length = e.graphs.length + 1 := by
      rw [length_release]
      exact hframe.length.trans List.length_append
    exact {
      live := by rw [logAll_eq]; exact hframe.live
      length := by rw [logAll_eq]; exact hlen
      hooks := by rw [logAll_eq]; rfl
      graph := by rw [graph_logAll]; exact hgraph
      stages := by rw [stages_logAll]; exact hm.stages_eq hlt }

/-! ### Commands -/

/-- What a command adds to the stages when it replaces the live graph. The nodes of the old graph
are unloaded first. If there is a new graph, its nodes are initialised then; and if one of them
fails, those that were initialised are unloaded. -/
inductive Handover (e e' : Engine) : List Stage → Prop
  | emptied (hnodes : e'.nodeIds = []) : Handover e e' (unloads e.live e.nodeIds)
  | aborted {g : GraphId} {done : List String} {failing : String} (hnodes : e'.nodeIds = [])
      (hg : e.graphs.length ≤ g) (hg' : g < e'.graphs.length) (hids : (done ++ [failing]).Nodup) :
      Handover e e' (unloads e.live e.nodeIds ++
        (inits g done ++ .initialising ⟨g, failing⟩ :: unloads g done))
  | loaded (hids : e'.nodeIds.Nodup) :
      Handover e e' (unloads e.live e.nodeIds ++ inits e'.live e'.nodeIds)

/-- What a command leaves of the graphs when it replaces the live one. -/
structure Replaced (e e' : Engine) : Prop where
  hooks : e'.hooks = none
  live : e.graphs.length ≤ e'.live
  /-- Of the graphs that were made, only the live one holds tasks. -/
  tracked : ∀ g, e.graphs.length ≤ g → g ≠ e'.live → (e'.graph g).tasks.tracked = []
  handover : ∃ stages, e'.stages = e.stages ++ stages ∧ Handover e e' stages

/-- After a clearing there is no live node. -/
theorem Vacant.nodeIds (h : Vacant e e') : e'.nodeIds = [] := by
  rw [Engine.nodeIds, liveGraph, h.live, h.graph]
  rfl

/-- What a clearing has in common with loads. -/
theorem Cleared.replaced (hlt : e.live < e.graphs.length) (h : Cleared e e') : Replaced e e' := by
  have hv := h.vacant hlt
  refine ⟨hv.hooks, Nat.le_of_eq hv.live.symm, fun g hg hne => ?_, _, hv.stages,
    .emptied hv.nodeIds⟩
  -- no other graph was made
  rw [graph_of_le]
  · rfl
  · rw [hv.length]
    exact Nat.lt_of_le_of_ne hg fun h => hne (h.symm.trans hv.live.symm)

/-- The stages of a load are those of a handover. -/
theorem Concluded.handover {r : Except WorkflowError Unit} {stages : List Stage}
    (h : Concluded c e e' r stages) : Handover e e' stages := by
  cases h with
  | unstored _ _ _ hnodes => exact .emptied hnodes
  | refused _ _ _ _ hnodes => exact .emptied hnodes
  | @failed done rest n err hwire _ hlen hnodes =>
    refine .aborted hnodes (Nat.le_succ _) (hlen ▸ Nat.lt_succ_self _) ?_
    -- the nodes up to the failing one are some of those that were wired
    have hsub : List.Sublist (done.map (·.id) ++ [n.id]) ((done ++ n :: rest).map (·.id)) := by
      rw [List.map_append, List.map_cons]
      exact (List.Sublist.refl _).append ((List.nil_sublist _).cons_cons _)
    exact hsub.nodup (nodup_of_wire hwire)
  | loaded hwire _ _ hnodes =>
    refine .loaded ?_
    rw [nodeIds, hnodes]
    exact nodup_of_wire hwire

/-- What a load that succeeds leaves of the graph that stood in for the old one. -/
theorem Loaded.success (hlt : e.live < e.graphs.length) (h : Loaded c e (.ok ()) e') :
    e'.hooks = none ∧ e'.graph e.graphs.length =
      { generation := e.generation + 1, context := c, dropped := true } := by
  cases h with
  | @done m e₁ lines lines' hm hw hb =>
    have hlive := live_vacated lines hm.moves
    have hstand := graph_vacated lines hm.moves hlt
    have hlt' := live_lt_vacated lines hm.moves
    cases hb with
    | @live nodes stages m' hwire ht ha =>
      have hm' := ht.moves rfl
      -- the graph that stands in stays live, and as it was, until the new one is promoted
      have hkept := graph_live_of_raise hlt' hm'
      have hlive' : m'.live = (vacated c e m lines).live := hm'.frame.live
      have hlt'' : m'.live < m'.graphs.length := by
        rw [hlive', length_raise hm']
        exact Nat.lt_succ_of_lt hlt'
      have hgraph : (m'.promote (vacated c e m lines).graphs.length).graph m'.live =
          { m'.graph m'.live with dropped := true } := graph_modifyGraph_self _ hlt''
      rw [hlive', hkept, hlive, hstand] at hgraph
      exact ⟨by rw [logAll_eq]; rfl, by rw [graph_logAll, hgraph]⟩

/-- What a load has in common with clearings. -/
theorem Loaded.replaced {r : Except WorkflowError Unit} (hlt : e.live < e.graphs.length)
    (h : Loaded c e r e') : Replaced e e' := by
  obtain ⟨stages, hstages, hc⟩ := h.concluded hlt
  cases r with
  | error err =>
    obtain ⟨hlive, hhooks, -, -, hclosed⟩ := h.failure hlt
    refine ⟨hhooks, Nat.le_of_eq hlive.symm, fun g hg hne => ?_, stages, hstages, hc.handover⟩
    exact (hclosed g (Nat.lt_of_le_of_ne hg fun h => hne (h.symm.trans hlive.symm))).tracked
  | ok _ =>
    obtain ⟨hhooks, hstand⟩ := h.success hlt
    cases hc with
    | loaded hwire hlive hlen hnodes =>
      have hle : e.graphs.length ≤ e'.live := hlive ▸ Nat.le_succ _
      refine ⟨hhooks, hle, fun g hg hne => ?_, _, hstages,
        (Concluded.loaded hwire hlive hlen hnodes).handover⟩
      -- of the graphs that were made, one stood in and was dropped, and one is live
      rcases Nat.lt_or_eq_of_le hg with hgt | rfl
      · rw [graph_of_le]
        · rfl
        · rw [hlen]
          exact Nat.lt_of_le_of_ne hgt fun h => hne (h.symm.trans hlive.symm)
      · rw [hstand]

/-- **What every replacement has in common**. -/
theorem replaced_of_call (he : Placed e) {fuel : Nat} {c : Command} {answer : c.Answer}
    (hc : c.Replaces e) (h : call fuel c e = .returned answer e') : Replaced e e' := by
  obtain ⟨-, ⟨context, r, hl⟩ | hl⟩ := loaded_or_cleared hc h
  · exact hl.replaced he.live_lt
  · exact hl.replaced he.live_lt

/-! ### Programs behind the stages -/

/-- Deeds of which no stage tells. -/
structure Untold (e e' : Engine) : Prop where
  deeds : Deeds e e'
  stages : e'.stages = e.stages

/-- Nothing is told of two such ways together. -/
theorem Untold.trans (h : Untold e m) (h' : Untold m e') : Untold e e' :=
  ⟨h.deeds.trans h'.deeds, h'.stages.trans h.stages⟩

/-- The programs of nodes that run while the live graph is replaced. Those of its own nodes come
first, all of which are unloaded, and then those of the nodes of a new graph. Between them no stage
is recorded. -/
inductive Attended (e e' : Engine) : Prop
  | emptied {v m : Engine} (hv : Untold e v)
      (hold : Tended e.live e.liveGraph.nodes v (unloads e.live e.nodeIds) m) (hend : Untold m e')
  | built {v m v' m' : Engine} {g : GraphId} {new : List Stage} (hv : Untold e v)
      (hold : Tended e.live e.liveGraph.nodes v (unloads e.live e.nodeIds) m) (hmid : Untold m v')
      (hnew : Tended g (v'.graph g).nodes v' new m') (hend : Untold m' e')

/-- The log tells of no stage. -/
theorem untold_logAll (e : Engine) (lines : List LogLine) : Untold e (e.logAll lines) :=
  ⟨(moves_logAll e lines).deeds, stages_logAll e lines⟩

/-- A release tells of no stage. -/
theorem untold_release {g : GraphId} (h : e.hooks = some g) : Untold e (e.release g) :=
  ⟨.single (.release e g h), rfl⟩

/-- A retirement tells of no stage; that comes with the programs. -/
theorem untold_retire {empty : Graph} (hfree : e.hooks = none) (hempty : empty.Fresh)
    (hnodes : empty.nodes = []) : Untold e (e.retire empty) :=
  ⟨.single (.retire e empty hfree hempty hnodes), rfl⟩

/-- The nodes that are unloaded are those of the live graph. -/
theorem Unloaded.tended {empty : Graph} (hm : Unloaded empty e m)
    (hlt : e.live < e.graphs.length) :
    Tended e.live e.liveGraph.nodes (e.retire empty) (unloads e.live e.nodeIds) m := by
  have ht := hm
  rw [Unloaded, graph_retire empty hlt] at ht
  exact ht

/-- The old graph's nodes are attended to, and then the new one's, if it is built at all. -/
theorem Attended.of_built {generation : Nat} {u v w : Engine} {r : Except WorkflowError Unit}
    (hu : Untold e u) (hold : Tended e.live e.liveGraph.nodes u (unloads e.live e.nodeIds) m)
    (hv : Untold m v) (hfree : v.hooks = none) (hb : Built c generation v r w) (hw : Untold w e') :
    Attended e e' := by
  have hraise : ∀ nodes, Untold v
      (v.raise { generation := generation, context := c, nodes := nodes }) := fun nodes =>
    ⟨.single (.raise v _ hfree ⟨rfl, rfl, rfl⟩), rfl⟩
  -- the nodes that are initialised are those of the new graph
  have hnew : ∀ {nodes new m'}, Tended v.graphs.length nodes
      (v.raise { generation := generation, context := c, nodes := nodes }) new m' →
      Tended v.graphs.length
        ((v.raise { generation := generation, context := c, nodes := nodes }).graph
        v.graphs.length).nodes
        (v.raise { generation := generation, context := c, nodes := nodes }) new m' := by
    intro nodes new m' ht
    have hgraph : (v.raise { generation := generation, context := c, nodes := nodes }).graph
        v.graphs.length = _ := graph_addGraph_self v _
    rw [hgraph]
    exact ht
  cases hb with
  | refused _ => exact .emptied hu hold (hv.trans hw)
  | failed _ ht _ =>
    have hend := (untold_release (hooks_of_raise (ht.moves rfl))).trans hw
    exact .built hu hold (hv.trans (hraise _)) (hnew ht) hend
  | @live nodes _ m' _ ht _ =>
    have hend : Untold m' (m'.promote v.graphs.length) :=
      ⟨.single (.promote m' _ (hooks_of_raise (ht.moves rfl))), rfl⟩
    exact .built hu hold (hv.trans (hraise _)) (hnew ht) (hend.trans hw)

/-- The programs that a load runs, of the old nodes and of the new ones. -/
theorem Loaded.attended {r : Except WorkflowError Unit} (hfree : e.hooks = none)
    (hlt : e.live < e.graphs.length) (h : Loaded c e r e') : Attended e e' := by
  have hstart : Untold e ((announce c e).retire {}) :=
    (untold_logAll e [_]).trans (untold_retire (e := announce c e) hfree ⟨rfl, rfl, rfl⟩ rfl)
  -- between the old nodes and the new ones the graph is dropped and reported on
  have hvacated : ∀ {m : Engine} (lines : List LogLine), Unloaded {} (announce c e) m →
      Untold m (vacated c e m lines) := fun {m} lines hm =>
    (untold_release (hooks_of_retire (e := announce c e) hm.moves)).trans
      ⟨deeds_vacated c e m lines, stages_logAll (m.release e.live) lines⟩
  cases h with
  | @unstored m lines err hm _ => exact .emptied hstart (hm.tended hlt) (hvacated lines hm)
  | @failed m e' lines err hm _ hb =>
    exact .of_built hstart (hm.tended hlt) (hvacated lines hm) (hooks_vacated c e m lines) hb
      ⟨.refl, rfl⟩
  | @done m w lines lines' hm _ hb =>
    exact .of_built hstart (hm.tended hlt) (hvacated lines hm) (hooks_vacated c e m lines) hb
      (untold_logAll w lines')

/-- The programs that a clearing runs. -/
theorem Cleared.attended (hfree : e.hooks = none) (hlt : e.live < e.graphs.length)
    (h : Cleared e e') : Attended e e' := by
  cases h with
  | @mk m lines hm =>
    have hend : Untold m ((m.release e.live).logAll lines) :=
      (untold_release (hooks_of_retire hm.moves)).trans (untold_logAll _ lines)
    exact .emptied (untold_retire hfree ⟨rfl, rfl, rfl⟩ rfl) (hm.tended hlt) hend

/-- **What a replacement records of nodes is the programs of theirs that it runs.** -/
theorem attended_of_call (he : Placed e) {fuel : Nat} {c : Command} {answer : c.Answer}
    (hc : c.Replaces e) (h : call fuel c e = .returned answer e') : Attended e e' := by
  obtain ⟨hfree, ⟨context, r, hl⟩ | hl⟩ := loaded_or_cleared hc h
  · exact hl.attended hfree he.live_lt
  · exact hl.attended hfree he.live_lt

end Flowgraph.Engine
