import Lockstep.Proofs.Component.Initial
import Lockstep.Proofs.State.Outline
import Lockstep.Proofs.Tuning.Parameters
import Lockstep.Proofs.Workflow.Round

/-!
# Defaults are neutral

The defaults of a tuning problem are tensors that repeat a default once for each instance, and its
first state is a stack of copies of one state, placed. Where the one state holds the defaults of the
parameters, the stack has the repeated tensors as leaves (`State.leaf_of_stack_replicate`). So
writing any of the defaults into it changes nothing (`TuningProblem.defaults_are_neutral`).
-/

namespace Lockstep

namespace Tensor

/-- A tensor whose rows are all the same repeats that row. -/
theorem eq_repeated {t d : Tensor} {n : Nat} (ht : t.shape = n :: d.shape)
    (hrows : ∀ j < n, State.row j t = d) : t = d.repeated n := by
  refine eq_of_rows ht (shape_repeated d n) ?_
  rw [repeated, rows_ofRows, List.eq_replicate_iff]
  refine ⟨length_rows ht, fun r hr => ?_⟩
  obtain ⟨j, hj⟩ := List.mem_iff_getElem?.1 hr
  have hlt : j < n := length_rows ht ▸ (List.getElem?_eq_some_iff.1 hj).1
  rw [State.getElem?_rows_row ht hlt, hrows j hlt] at hj
  exact (Option.some.inj hj).symm

end Tensor

namespace State

/-- A state holds the defaults of parameters in their leaves. -/
def HoldsDefaults (s : State) (parameters : List (String × Attribute)) : Prop :=
  ∀ e ∈ parameters, ∀ d, e.2.default = some d → s.leaf e.1 = .ok d

/-- Writing into a leaf what it holds changes nothing. -/
theorem withLeaf_eq_self {s : State} (hs : s.Ordered) {qualified : String} {t : Tensor}
    (h : s.leaf qualified = .ok t) : s.withLeaf qualified t = .ok s := by
  obtain ⟨l, hl, hget⟩ := leaf_eq_ok_iff.1 h
  obtain ⟨nodes, dims, placement⟩ := s
  refine withLeaf_eq_ok_iff.2 ⟨t, h, l, hl, ?_⟩
  have hlocal : l.setTensor (Path.split qualified).2 t = l :=
    Table.insert_eq_self (hs.resolve hl).1 hget
  rw [hlocal, withNode, Table.insert_eq_self (ordered_iff.1 hs).1 (resolve_eq_ok_iff.1 hl)]

theorem leaf_of_nodes_eq {s s' : State} (h : s'.nodes = s.nodes) (qualified : String) :
    s'.leaf qualified = s.leaf qualified := by
  simp only [leaf, resolve, h]

/-- A stack of copies of a state has its leaves, repeated. -/
theorem leaf_of_stack_replicate {first s : State} {n : Nat} (hfirst : first.Ordered)
    (h : stack (List.replicate n first) = .ok s) {qualified : String} {d : Tensor}
    (hd : first.leaf qualified = .ok d) : s.leaf qualified = .ok (d.repeated n) := by
  have hordered : ∀ x ∈ List.replicate n first, x.Ordered :=
    fun x hx => List.eq_of_mem_replicate hx ▸ hfirst
  have hunstack := unstack_stack hordered h
  have hparts := (unstack_eq_ok_iff_parts.1 hunstack).1
  rw [List.length_replicate] at hparts
  -- every part of the stack is a copy, so all rows of its leaf are the same
  have hpart : ∀ j < n, (s.part j).leaf qualified = .ok d := by
    intro j hj
    have hcopy : (List.replicate n first)[j]? = some first := by
      rw [List.getElem?_replicate, if_pos hj]
    rw [← ((getElem?_of_unstack hunstack).1 hcopy).2]
    exact hd
  have hpos : 0 < n := by
    cases n with
    | zero => cases h
    | succ n => exact Nat.succ_pos n
  obtain ⟨t, ht⟩ := exists_leaf_of_part (hpart 0 hpos)
  have hrow : ∀ j < n, row j t = d := fun j hj =>
    Except.ok.inj ((leaf_part ht j).symm.trans (hpart j hj))
  obtain ⟨inner, hinner⟩ := shape_of_leaf ht hparts
  obtain rfl : d.shape = inner := by rw [← hrow 0 hpos, shape_row hinner hpos]
  rw [ht, Tensor.eq_repeated hinner hrow]

end State

/-- The first state of a tree holds the defaults where no component returns a parameter itself. -/
theorem Tree.holdsDefaults_initialState {root : Component} {t : Tree} (h : build root = .ok t)
    {key : Random.Key} {s : State} (hs : t.initialState root key = .ok s)
    (hown : ∀ node c own, root.Places node c → c.drawn node key = .ok own →
      ∀ a ∈ c.schema.parameters, a.name ∉ Table.keys own) : s.HoldsDefaults t.parameters := by
  intro e he d hd
  obtain ⟨n, hn, he⟩ := List.mem_flatMap.1 he
  obtain ⟨a, ha, rfl⟩ := List.mem_map.1 he
  obtain ⟨c, hplaces, hschema⟩ := exists_places_of_mem h hn
  have hfit := namesFit_of_build h n hn
  have hname : Path.isName a.name = true :=
    hfit.1 _ (List.mem_map_of_mem (List.mem_filter.1 ha).1)
  rw [hschema] at ha hfit
  obtain ⟨own, hdrawn, -, hresolve⟩ := resolve_of_initialState h hs hplaces
  refine State.leaf_eq_ok_iff.2 ?_
  rw [NodeContext.qualify, Path.split_qualify _ hname]
  refine ⟨_, hresolve, ?_⟩
  rw [Table.get?_union_of_not_mem (hown _ c own hplaces hdrawn a ha),
    get?_parameterDefaults hfit ha]
  exact congrArg (Option.map Value.tensor) hd

namespace TuningProblem

theorem overwrite_eq_self {s : State} (hs : s.Ordered) :
    ∀ {batch : ParameterBatch}, (∀ e ∈ batch, s.leaf e.1 = .ok e.2) → overwrite s batch = .ok s
  | [], _ => rfl
  | e :: rest, h => by
    obtain ⟨hleaf, hrest⟩ := List.forall_mem_cons.1 h
    exact overwrite_cons_eq_ok_iff.2
      ⟨s, State.withLeaf_eq_self hs hleaf, overwrite_eq_self hs hrest⟩

variable {w : Workflow} {first : State} {c : TuningConfig} {p : TuningProblem}

/-- The leaves of the parameters in the first state of all instances are the defaults. -/
theorem leaf_pristine (hnew : TuningProblem.new w first c = .ok p) (hfirst : first.Ordered)
    (hdefaults : first.HoldsDefaults w.parameters) :
    p.pristine.Ordered ∧ ∀ e ∈ p.defaults, p.pristine.leaf e.1 = .ok e.2 := by
  obtain ⟨-, _, defaults, stacked, pristine, hlist, hstacked, hpristine, rfl⟩ := eq_of_new hnew
  have hordered : ∀ x ∈ List.replicate c.instances first, x.Ordered :=
    fun x hx => List.eq_of_mem_replicate hx ▸ hfirst
  refine ⟨Workflow.ordered_of_place (State.Ordered.stack hstacked hordered) hpristine,
    fun e he => ?_⟩
  obtain ⟨d, hd, rfl⟩ := List.mem_map.1 he
  obtain ⟨a, ha, hdefault⟩ := (mem_defaults_iff hlist).1 (Table.mem_of_mem_ofList hd)
  rw [State.leaf_of_nodes_eq (Workflow.nodes_place hpristine)]
  exact State.leaf_of_stack_replicate hfirst hstacked (hdefaults (d.1, a) ha d.2 hdefault)

/-- Parameters that are there already make no difference to an evaluation. -/
theorem evaluateBatch_eq_of_overwrite {batch : ParameterBatch} (hcheck : p.check batch = .ok ())
    (h : overwrite p.start batch = .ok p.start) : p.evaluateBatch batch = p.evaluateBatch [] := by
  have hrun : p.runFrom p.start batch = p.runFrom p.start [] := by
    rw [runFrom, runFrom, hcheck, h]
    rfl
  rw [evaluateBatch, evaluateBatch, hrun]

/-- The defaults of the parameters at some paths. -/
def defaultsAt (p : TuningProblem) (paths : List String) : ParameterBatch :=
  p.defaults.filter fun e => e.1 ∈ paths

theorem mem_keys_defaultsAt (hnew : TuningProblem.new w first c = .ok p) {paths : List String}
    {path : String} : path ∈ Table.keys (p.defaultsAt paths) ↔
      path ∈ w.parameters.map Prod.fst ∧ path ∈ paths := by
  rw [← (wraps_of_new hnew).mem_keys_defaults_iff]
  constructor
  · intro h
    obtain ⟨e, he, rfl⟩ := List.mem_map.1 h
    obtain ⟨hmem, hpath⟩ := List.mem_filter.1 he
    exact ⟨Table.mem_keys_of_mem hmem, of_decide_eq_true hpath⟩
  · rintro ⟨h, hpath⟩
    obtain ⟨e, he, rfl⟩ := List.mem_map.1 h
    exact Table.mem_keys_of_mem (List.mem_filter.2 ⟨he, decide_eq_true hpath⟩)

/-- **Defaults are neutral.** When the state that a problem wraps holds the defaults of the
parameters, then the defaults of any of them, once for each instance, leave the first state of the
instances as it is when they are written into it. So an evaluation that starts from there does the
same as the evaluation of the empty batch, in its answer, its notes and the problem afterwards. -/
theorem defaults_are_neutral (hnew : TuningProblem.new w first c = .ok p) (hfirst : first.Ordered)
    (hdefaults : first.HoldsDefaults w.parameters) (paths : List String) :
    (∀ path, path ∈ Table.keys (p.defaultsAt paths) ↔
      path ∈ w.parameters.map Prod.fst ∧ path ∈ paths) ∧
    overwrite p.pristine (p.defaultsAt paths) = .ok p.pristine ∧
    ∀ instances, c.restart = true ∨ instances = p.pristine →
      ({ p with instances } : TuningProblem).evaluateBatch (p.defaultsAt paths) =
        ({ p with instances } : TuningProblem).evaluateBatch [] := by
  obtain ⟨hordered, hleaf⟩ := leaf_pristine hnew hfirst hdefaults
  have hsubset : ∀ e ∈ p.defaultsAt paths, e ∈ p.defaults := fun e he => (List.mem_filter.1 he).1
  have hcheck := (wraps_of_new hnew).check_of_shapes fun e he => ⟨e.2, hsubset e he, rfl⟩
  have hsame : overwrite p.pristine (p.defaultsAt paths) = .ok p.pristine :=
    overwrite_eq_self hordered fun e he => hleaf e (hsubset e he)
  refine ⟨fun path => mem_keys_defaultsAt hnew, hsame, fun instances hinstances => ?_⟩
  have hstart : ({ p with instances } : TuningProblem).start = p.pristine := by
    rw [start, (new_eq_ok hnew).1]
    split
    · rfl
    · next hrestart => exact hinstances.resolve_left hrestart
  exact evaluateBatch_eq_of_overwrite hcheck (hstart.symm ▸ hsame)

/-- The rates of two echoing instances may be given or not in their first evaluation. -/
theorem defaults_are_neutral_carriedEchoes :
    carriedEchoes.defaultsAt ["algorithm.rate"] = [("algorithm.rate", .vector [1, 1])] ∧
      carriedEchoes.evaluateBatch (carriedEchoes.defaultsAt ["algorithm.rate"]) =
        carriedEchoes.evaluateBatch [] := by
  have hnew : TuningProblem.new echoWorkflow echoState
    { iterations := 2, instances := 2, restart := false } = .ok carriedEchoes := Outcome.eq_ok_get _
  have hdefaults : echoState.HoldsDefaults echoWorkflow.parameters := by
    have hlist : AreDefaults echoWorkflow.parameters [("algorithm.rate", .scalar 1)] :=
      areDefaults_iff.2 (by decide +kernel)
    intro e he d hd
    have hmem := (mem_defaults_iff hlist (d := (e.1, d))).2 ⟨e.2, he, hd⟩
    obtain ⟨hpath, rfl⟩ := Prod.mk.inj (List.mem_singleton.1 hmem)
    rw [hpath]
    decide +kernel
  obtain ⟨-, -, hevaluate⟩ :=
    defaults_are_neutral hnew ordered_echoState hdefaults ["algorithm.rate"]
  exact ⟨by decide +kernel, hevaluate _ (.inr (new_eq_ok hnew).2)⟩

end TuningProblem

end Lockstep
