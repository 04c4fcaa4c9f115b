import Lockstep.Monitor.Evaluation
import Lockstep.Monitor.Fitness
import Lockstep.Proofs.State.LaneOrder
import Lockstep.Proofs.Workflow.Monitors

/-!
# Metrics of a batch

The metric of a batch has the numbers of its lanes one after another, in the shape of the batch axes
and of one lane's metric (`metric_eq_ok_iff`). That is the stack of its instances' metrics
(`metric_eq_ok_iff_unstack`), and so, axis by axis, it has at each multi-index the metric of the
lane there (`metric_commutes_with_unstack`). The stack must be an array, which it is whenever the
metric is read from an attribute of the monitor (`isArrayShape_of_readsMetric`).
-/

namespace Lockstep

/-- The metric of a monitor is one of its attributes. -/
def Monitor.ReadsMetric (m : Monitor) : Prop :=
  ∃ name, ∀ l, m.metric l = do return some (← l.tensor name)

theorem Monitor.readsMetric_evaluation (c : EvaluationConfig) (listens : Bool) :
    (Monitor.evaluation c listens).ReadsMetric := ⟨"best_fitness", fun _ => rfl⟩

theorem Monitor.readsMetric_fitness (front : Option Front) : (Monitor.fitness front).ReadsMetric :=
  ⟨"best", fun _ => rfl⟩

namespace Workflow

/-- The metrics of lanes, joined along the given axes. Along any axes they must form an array. -/
def Joins (dims : List Nat) (values : List Tensor) (t : Tensor) : Prop :=
  ∃ shape, (∀ v ∈ values, v.shape = shape) ∧ values ≠ [] ∧ t.shape = dims ++ shape ∧
    (dims ≠ [] → Tensor.IsArrayShape t.shape) ∧ t.data = values.flatMap Tensor.data

theorem stack_reshape_eq_ok_iff {dims : List Nat} {values : List Tensor} {t : Tensor}
    (hdims : dims ≠ []) (hlength : values.length = volume dims) :
    (do
      let stacked ← Tensor.stack values
      stacked.reshape (dims ++ stacked.shape.tail)) = .ok t ↔ Joins dims values t := by
  rw [Outcome.bind_eq_ok_iff]
  cases values with
  | nil =>
    constructor
    · rintro ⟨u, hu, -⟩
      cases hu
    · rintro ⟨shape, -, hne, -⟩
      exact absurd rfl hne
  | cons v vs =>
    -- one axis for all lanes makes an array of them exactly when the given axes do
    have harray : Tensor.IsArrayShape ((vs.length + 1) :: v.shape) ↔
        Tensor.IsArrayShape (dims ++ v.shape) := by
      rw [← List.length_cons, hlength]
      exact Tensor.isArrayShape_volume_cons_iff (hlength ▸ Nat.succ_pos _)
    constructor
    · rintro ⟨u, hu, h⟩
      obtain ⟨hshape, hfits, rfl⟩ := Tensor.stackNamed_eq_ok_iff.1 hu
      rw [Tensor.reshape] at h
      split at h
      · obtain rfl := Except.ok.inj h
        exact ⟨v.shape, hshape, List.cons_ne_nil _ _, rfl, fun _ => harray.1 hfits, rfl⟩
      · cases h
    · rintro ⟨shape, hshape, -, ht, hfits, hdata⟩
      obtain rfl : v.shape = shape := hshape v List.mem_cons_self
      refine ⟨Tensor.ofRows v.shape (v :: vs) hshape,
        Tensor.stackNamed_eq_ok_iff.2 ⟨hshape, harray.2 (ht ▸ hfits hdims), rfl⟩, ?_⟩
      -- there are as many values as the axes have room for
      have hfits : (Tensor.ofRows v.shape (v :: vs) hshape).data.length =
          volume (dims ++ v.shape) := by
        rw [volume_append, ← hlength]
        exact Tensor.length_flatMap_data hshape
      rw [Tensor.reshape]
      refine (dif_pos hfits).trans (congrArg Except.ok ?_)
      exact Tensor.eq_iff_shape_data.2 ⟨ht.symm, hdata.symm⟩

/-- A metric is that of the lanes, whether there are batch axes or not. -/
theorem metric_eq_ok_iff {w : Workflow} {s : State} {name : String} {t : Tensor} :
    w.metric s name = .ok t ↔
      ∃ slot, w.monitors.find? (fun slot => slot.name = name) = some slot ∧
        ∃ ls, s.flatten = .ok ls ∧ ∃ values, ls.mapM (laneMetric slot) = .ok values ∧
          Joins s.batchDims values t := by
  rw [metric]
  cases hfind : w.monitors.find? (fun slot => slot.name = name) with
  | none => simp
  | some slot =>
    simp only [Option.some.injEq, exists_eq_left']
    by_cases hbatched : s.isBatched = true
    · rw [if_pos hbatched, Outcome.bind_eq_ok_iff]
      refine exists_congr fun ls => and_congr_right fun hls => ?_
      rw [Outcome.bind_eq_ok_iff]
      refine exists_congr fun values => and_congr_right fun hvalues => ?_
      refine stack_reshape_eq_ok_iff (by simpa [State.isBatched] using hbatched) ?_
      rw [Outcome.length_of_mapM_eq_ok hvalues, State.length_of_flatten rfl hls]
    -- an unbatched state is its only lane
    · have hdims : s.batchDims = [] := by simpa [State.isBatched] using hbatched
      rw [if_neg hbatched, State.flatten_unbatched hdims, hdims]
      constructor
      · intro ht
        refine ⟨[s], rfl, [t], by simp [ht], t.shape, by simp, by simp, rfl, by simp, by simp⟩
      · rintro ⟨ls, hls, values, hvalues, shape, hshape, -, ht, -, hdata⟩
        obtain rfl := Except.ok.inj hls
        cases Outcome.mapM_eq_ok_iff.1 hvalues with
        | @cons _ v _ _ hv hnil =>
          cases hnil
          have htv : t = v := by
            refine Tensor.eq_iff_shape_data.2 ⟨?_, by simpa using hdata⟩
            rw [ht, hshape v List.mem_cons_self]
            rfl
          rw [htv]
          exact hv

/-- Joined values of a batch are the stack of what its instances join, all of them equally many
values. -/
theorem joins_flatten_iff {dims : List Nat} {vss : List (List Tensor)} {t : Tensor}
    (hlength : ∀ vs ∈ vss, vs.length = volume dims) :
    Joins (vss.length :: dims) vss.flatten t ↔
      ∃ ts, List.Forall₂ (Joins dims) vss ts ∧ Tensor.stack ts = .ok t := by
  have hjoined : vss.flatten.flatMap Tensor.data =
    (vss.map (List.flatMap Tensor.data)).flatten := by
    rw [List.flatMap_def, List.map_flatten, List.flatten_flatten, List.map_map]
    rfl
  constructor
  · rintro ⟨shape, hshape, hne, htshape, harray, htdata⟩
    have harray := harray (List.cons_ne_nil _ _)
    have hvshape : ∀ vs ∈ vss, ∀ v ∈ vs, v.shape = shape :=
      fun vs hvs v hv => hshape v (List.mem_flatten.2 ⟨vs, hvs, hv⟩)
    -- all instances have equally many values, and there is a value
    have hvne : ∀ vs ∈ vss, vs ≠ [] := by
      rintro vs hvs rfl
      have hzero : volume dims = 0 := (hlength [] hvs).symm
      refine hne (List.eq_nil_of_length_eq_zero ?_)
      rw [length_flatten_of_length hlength, hzero, Nat.mul_zero]
    have hdata : ∀ data ∈ vss.map (List.flatMap Tensor.data),
        data.length = volume (dims ++ shape) := by
      intro data hdata
      obtain ⟨vs, hvs, rfl⟩ := List.mem_map.1 hdata
      rw [Tensor.length_flatMap_data (hvshape vs hvs), hlength vs hvs, volume_append]
    refine ⟨t.rows, ?_, ?_⟩
    · rw [List.forall₂_iff_get]
      refine ⟨(Tensor.length_rows htshape).symm, fun j hj hj' => ?_⟩
      obtain ⟨r, hr, hrshape, hrdata⟩ := Tensor.getElem?_rows htshape hj
      obtain rfl : t.rows.get ⟨j, hj'⟩ = r := (List.getElem?_eq_some_iff.1 hr).2
      have hmem : vss.get ⟨j, hj⟩ ∈ vss := List.get_mem _ _
      refine ⟨shape, hvshape _ hmem, hvne _ hmem, hrshape,
        fun _ => hrshape ▸ (htshape ▸ harray).tail, ?_⟩
      -- row `j` is the part of the numbers that instance `j` gave
      rw [hrdata, htdata, hjoined]
      refine take_drop_flatten_of_length hdata ?_
      rw [List.getElem?_map, List.getElem?_eq_getElem hj]
      rfl
    · -- there is a value, so there is an instance
      refine Tensor.stack_eq_ok_iff.2 ⟨fun hnil => hne ?_, harray, ⟨dims ++ shape, ?_⟩, rfl⟩
      · have hcount := Tensor.length_rows htshape
        rw [hnil, List.length_nil] at hcount
        rw [List.eq_nil_of_length_eq_zero hcount.symm, List.flatten_nil]
      · rw [Tensor.length_rows htshape]
        exact htshape
  · rintro ⟨ts, hts, hstack⟩
    obtain ⟨htsne, harray, ⟨inner, htshape⟩, hrows⟩ := Tensor.stack_eq_ok_iff.1 hstack
    have hinner : ∀ u ∈ ts, u.shape = inner := hrows ▸ Tensor.shape_mem_rows htshape
    obtain ⟨u, hu⟩ := List.exists_mem_of_ne_nil ts htsne
    obtain ⟨vs, hvs, shape, -, hvsne, hushape, -, -⟩ := Outcome.exists_left_of_mem hts hu
    -- the instances' metrics have one shape, and behind the axes so have their values
    have hvshape : ∀ ws ∈ vss, ∀ v ∈ ws, v.shape = shape := by
      intro ws hws v hv
      obtain ⟨u', hu', shape', hshape', -, hushape', -, -⟩ :=
        Outcome.exists_left_of_mem hts.flip hws
      rw [hinner u' hu', ← hinner u hu, hushape] at hushape'
      rw [hshape' v hv, List.append_cancel_left hushape']
    refine ⟨shape, fun v hv => ?_, fun hnil => ?_, ?_, fun _ => harray, ?_⟩
    · obtain ⟨ws, hws, hv⟩ := List.mem_flatten.1 hv
      exact hvshape ws hws v hv
    · exact hvsne (List.flatten_eq_nil_iff.1 hnil vs hvs)
    · rw [htshape, hts.length_eq, ← hinner u hu, hushape, List.cons_append]
    · have hdata : ts.map Tensor.data = vss.map (List.flatMap Tensor.data) := by
        clear hstack htsne harray hrows hinner hu hvs hvshape hlength hjoined htshape
        induction hts with
        | nil => rfl
        | cons hfirst _ ih =>
          obtain ⟨-, -, -, -, -, hfirst⟩ := hfirst
          rw [List.map_cons, List.map_cons, hfirst, ih]
      rw [← Tensor.flatMap_data_rows htshape, hrows, hjoined, List.flatMap_def, hdata]

/-- The metric of a batch is the stack of its instances' metrics. -/
theorem metric_eq_ok_iff_unstack {w : Workflow} {s : State} {name : String} {t : Tensor}
    {xs : List State} (hxs : s.unstack = .ok xs) :
    w.metric s name = .ok t ↔
      ∃ ts, List.Forall₂ (fun x u => w.metric x name = .ok u) xs ts ∧ Tensor.stack ts = .ok t := by
  have hdims := State.batchDims_of_unstack hxs
  have hxdims : ∀ x ∈ xs, x.batchDims = s.batchDims.tail :=
    fun x hx => State.batchDims_of_mem_unstack hxs hx
  generalize s.batchDims.tail = dims at hdims hxdims
  -- once the monitor is found, the instances' metrics are joined from the values of their lanes
  have hmetrics : ∀ {slot ts}, w.monitors.find? (fun slot => slot.name = name) = some slot →
      (List.Forall₂ (fun x u => w.metric x name = .ok u) xs ts ↔
        ∃ lss, List.Forall₂ (fun x ls => x.flatten = .ok ls) xs lss ∧
          ∃ vss, List.Forall₂ (fun ls vs => ls.mapM (laneMetric slot) = .ok vs) lss vss ∧
            List.Forall₂ (Joins dims) vss ts) := by
    intro slot ts hslot
    simp only [← Outcome.forall₂_comp_iff]
    refine Outcome.forall₂_congr_of_mem fun x hx u => ?_
    rw [metric_eq_ok_iff, hslot, hxdims x hx]
    simp only [Option.some.injEq, exists_eq_left']
  -- and as all instances have equally many lanes, the batch joins what they join
  have hjoins : ∀ {slot lss vss}, List.Forall₂ (fun x ls => x.flatten = .ok ls) xs lss →
      List.Forall₂ (fun ls vs => ls.mapM (laneMetric slot) = .ok vs) lss vss →
      (Joins s.batchDims vss.flatten t ↔
        ∃ ts, List.Forall₂ (Joins dims) vss ts ∧ Tensor.stack ts = .ok t) := by
    intro slot lss vss hlss hvss
    rw [hdims, hlss.length_eq.trans hvss.length_eq]
    refine joins_flatten_iff fun vs hvs => ?_
    obtain ⟨ls, hls, hmap⟩ := Outcome.exists_left_of_mem hvss hvs
    rw [Outcome.length_of_mapM_eq_ok hmap, State.length_of_flatten_of_mem hxdims hlss ls hls]
  constructor
  · intro h
    obtain ⟨slot, hslot, ls, hls, values, hvalues, hjoined⟩ := metric_eq_ok_iff.1 h
    obtain ⟨lss, hlss, rfl⟩ := (State.flatten_eq_ok_iff hxs).1 hls
    obtain ⟨vss, hvss, rfl⟩ := Outcome.mapM_flatten_eq_ok_iff.1 hvalues
    obtain ⟨ts, hts, hstack⟩ := (hjoins hlss hvss).1 hjoined
    exact ⟨ts, (hmetrics hslot).2 ⟨lss, hlss, vss, hvss, hts⟩, hstack⟩
  · rintro ⟨ts, hts, hstack⟩
    -- the monitor is found, since some instance has a metric
    obtain ⟨u, hu⟩ := List.exists_mem_of_ne_nil ts (Tensor.stack_eq_ok_iff.1 hstack).1
    obtain ⟨x, -, hx⟩ := Outcome.exists_left_of_mem hts hu
    obtain ⟨slot, hslot, -⟩ := metric_eq_ok_iff.1 hx
    obtain ⟨lss, hlss, vss, hvss, hts⟩ := (hmetrics hslot).1 hts
    exact metric_eq_ok_iff.2
      ⟨slot, hslot, lss.flatten, (State.flatten_eq_ok_iff hxs).2 ⟨lss, hlss, rfl⟩,
      vss.flatten, Outcome.mapM_flatten_eq_ok_iff.2 ⟨vss, hvss, rfl⟩,
      (hjoins hlss hvss).2 ⟨ts, hts, hstack⟩⟩

/-- Each row of a batch's metric is the metric of one of its instances. -/
theorem metric_row {w : Workflow} {s : State} {name : String} {t : Tensor}
    (ht : w.metric s name = .ok t) {xs : List State} (hxs : s.unstack = .ok xs) {j : Nat}
    {x : State}
    (hx : xs[j]? = some x) : ∃ r, t.rows[j]? = some r ∧ w.metric x name = .ok r := by
  obtain ⟨ts, hts, hstack⟩ := (metric_eq_ok_iff_unstack hxs).1 ht
  obtain ⟨-, -, -, rfl⟩ := Tensor.stack_eq_ok_iff.1 hstack
  exact Outcome.exists_of_forall₂ hts hx

/-- The metric of a batch has at each multi-index the metric of the lane there. -/
theorem metric_entry {w : Workflow} {name : String} {shape dims : List Nat} :
    ∀ {s : State} {ls : List State} {t : Tensor}, s.batchDims = dims → s.flatten = .ok ls →
      w.metric s name = .ok t → t.shape = dims ++ shape →
        ∀ {index : List Nat}, List.Forall₂ (· < ·) index dims →
          ∃ l u, ls[position dims index]? = some l ∧ w.metric l name = .ok u ∧ u.shape = shape ∧
            t.entry index = some u := by
  induction dims with
  | nil =>
    intro s ls t hdims hls ht hshape index hindex
    cases hindex
    rw [State.flatten_unbatched hdims, Except.ok.injEq] at hls
    subst hls
    exact ⟨s, t, rfl, ht, hshape, rfl⟩
  | cons count dims ih =>
    intro s ls t hdims hls ht hshape index hindex
    cases hindex with
    | @cons i _ index _ hi hindex =>
      -- the first index chooses an instance, the others choose among its lanes
      obtain ⟨xs, part, hxs, -, hx, hpdims, hflat, hlanes⟩ := State.lanes_of_part hdims hls hi
      obtain ⟨r, hr, hmetric⟩ := metric_row ht hxs hx
      rw [List.cons_append] at hshape
      have hrshape := Tensor.shape_mem_rows hshape r (List.mem_of_getElem? hr)
      obtain ⟨l, u, hl, hu, hushape, hentry⟩ := ih hpdims hflat hmetric hrshape hindex
      refine ⟨l, u, ?_, hu, hushape, ?_⟩
      · rw [position, hlanes _ (position_lt hindex)]
        exact hl
      · rw [Tensor.entry, hr]
        exact hentry

/-- Metrics that the instances of a batch of arrays read from an attribute form an array. -/
theorem isArrayShape_of_readsMetric {w : Workflow} {name : String} {s : State} {n : Nat}
    {ds shape : List Nat} {ls xs : List State} {ts : List Tensor} (hdims : s.batchDims = n :: ds)
    (hn : n ≠ 0) (harrays : s.HoldsArrays)
    (hreads : ∀ slot ∈ w.monitors, slot.name = name → slot.monitor.ReadsMetric)
    (hls : s.flatten = .ok ls) (hxs : s.unstack = .ok xs)
    (hts : List.Forall₂ (fun x u => w.metric x name = .ok u) xs ts)
    (hshape : ∀ u ∈ ts, u.shape = shape) :
    Tensor.IsArrayShape (n :: shape) := by
  obtain ⟨rfl, hxdims⟩ : xs.length = n ∧ ∀ x ∈ xs, x.batchDims = ds := by
    have hcons := State.batchDims_of_unstack hxs
    rw [hdims, List.cons.injEq] at hcons
    exact ⟨hcons.1.symm, fun x hx => by rw [State.batchDims_of_mem_unstack hxs hx, hdims]; rfl⟩
  obtain ⟨x, hx⟩ := List.exists_mem_of_length_pos (Nat.pos_of_ne_zero hn)
  obtain ⟨u, hu, hmetric⟩ := Outcome.exists_left_of_mem hts.flip hx
  -- some lane of an instance gave one of the values that the instance joined
  obtain ⟨slot, hslot, part, hpart, values, hvalues, shape', hvshape, hne, hushape, -⟩ :=
    metric_eq_ok_iff.1 hmetric
  obtain ⟨v, hv⟩ := List.exists_mem_of_ne_nil values hne
  obtain ⟨l, hl, hlane⟩ := Outcome.exists_left_of_mem (Outcome.mapM_eq_ok_iff.1 hvalues) hv
  obtain ⟨r, hr, hread⟩ := Outcome.bind_eq_ok_iff.1 hlane
  have hname : slot.name = name := by simpa using List.find?_some hslot
  obtain ⟨field, hfield⟩ := hreads slot (List.mem_of_find?_eq_some hslot) hname
  rw [hfield] at hread
  obtain ⟨y, hy, hread⟩ := Outcome.bind_eq_ok_iff.1 hread
  obtain ⟨t, ht, hdone⟩ := Outcome.bind_eq_ok_iff.1 hy
  obtain rfl := Except.ok.inj hdone
  obtain rfl : t = v := Except.ok.inj hread
  -- it is a leaf of the lane, so it could be an array with the batch axes in front
  obtain ⟨lss, hlss, rfl⟩ := (State.flatten_eq_ok_iff hxs).1 hls
  obtain ⟨part', hpart', hflat⟩ := Outcome.exists_left_of_mem hlss.flip hx
  obtain rfl : part' = part := Except.ok.inj (hflat.symm.trans hpart)
  have hfits := harrays.of_mem_flatten hdims hls (List.mem_flatten.2 ⟨part', hpart', hl⟩)
  have harray := (State.everywhere_iff.1 hfits).1 _
    (Table.mem_of_get?_eq_some (State.resolve_eq_ok_iff.1 hr)) _
    (Table.mem_of_get?_eq_some (LocalState.get?_of_tensor ht))
  rw [← hshape u hu, hushape, hxdims x hx, ← hvshape t hv]
  exact harray

/-- **Reading a metric commutes with taking a batch apart.** A batch of at least one instance has a
metric exactly when all instances have metrics of one shape, and then it is the stack of these. So
its metric has the batch axes and behind them those of a lane's metric, which it has at the
multi-index of the lane. An empty axis behind the first one is no exception: no instance has a
metric then. The stack must have a shape that an array can have, and it has one whenever the leaves
of the batch are arrays and the monitor reads its metric from one of them. -/
theorem metric_commutes_with_unstack (w : Workflow) (name : String) (s : State) (n : Nat)
    (ds : List Nat) (ls : List State) (hdims : s.batchDims = n :: ds) (hn : n ≠ 0)
    (hls : s.flatten = .ok ls) :
    ∃ xs, s.unstack = .ok xs ∧ xs.length = n ∧
      ((∃ t, w.metric s name = .ok t) ↔
        ∃ ts shape, List.Forall₂ (fun x u => w.metric x name = .ok u) xs ts ∧
          (∀ u ∈ ts, u.shape = shape) ∧ Tensor.IsArrayShape (n :: shape)) ∧
      (s.HoldsArrays → (∀ slot ∈ w.monitors, slot.name = name → slot.monitor.ReadsMetric) →
        ((∃ t, w.metric s name = .ok t) ↔
          ∃ ts shape, List.Forall₂ (fun x u => w.metric x name = .ok u) xs ts ∧
            ∀ u ∈ ts, u.shape = shape)) ∧
      ∀ t, w.metric s name = .ok t →
        (∀ ts, List.Forall₂ (fun x u => w.metric x name = .ok u) xs ts → Tensor.stack ts = .ok t) ∧
        ∃ shape, t.shape = s.batchDims ++ shape ∧
          ∀ index, List.Forall₂ (· < ·) index s.batchDims →
            ∃ l u, ls[position s.batchDims index]? = some l ∧ w.metric l name = .ok u ∧
              u.shape = shape ∧ t.entry index = some u := by
  obtain ⟨xs, -, hxs, hlength, -⟩ := State.parts_of_flatten hdims hls
  have hiff : (∃ t, w.metric s name = .ok t) ↔
      ∃ ts shape, List.Forall₂ (fun x u => w.metric x name = .ok u) xs ts ∧
        (∀ u ∈ ts, u.shape = shape) ∧ Tensor.IsArrayShape (n :: shape) := by
    constructor
    · rintro ⟨t, ht⟩
      obtain ⟨ts, hts, hstack⟩ := (metric_eq_ok_iff_unstack hxs).1 ht
      obtain ⟨-, shape, hshape, harray⟩ := Tensor.exists_stack_iff.1 ⟨t, hstack⟩
      exact ⟨ts, shape, hts, hshape, hlength ▸ hts.length_eq ▸ harray⟩
    · rintro ⟨ts, shape, hts, hshape, harray⟩
      have hcount : ts.length = n := hts.length_eq.symm.trans hlength
      -- without instances there would be nothing to stack
      have hne : ts ≠ [] := List.ne_nil_of_length_pos (hcount ▸ Nat.pos_of_ne_zero hn)
      obtain ⟨t, hstack⟩ := Tensor.exists_stack_iff.2 ⟨hne, shape, hshape, hcount ▸ harray⟩
      exact ⟨t, (metric_eq_ok_iff_unstack hxs).2 ⟨ts, hts, hstack⟩⟩
  refine ⟨xs, hxs, hlength, hiff, fun harrays hreads => hiff.trans ⟨?_, ?_⟩,
    fun t ht => ⟨fun ts hts => ?_, ?_⟩⟩
  · rintro ⟨ts, shape, hts, hshape, -⟩
    exact ⟨ts, shape, hts, hshape⟩
  · rintro ⟨ts, shape, hts, hshape⟩
    exact ⟨ts, shape, hts, hshape,
      isArrayShape_of_readsMetric hdims hn harrays hreads hls hxs hts hshape⟩
  · obtain ⟨us, hus, hstack⟩ := (metric_eq_ok_iff_unstack hxs).1 ht
    obtain rfl : ts = us := List.right_unique_forall₂'
      (fun _ _ _ hu hu' => Except.ok.inj (hu.symm.trans hu')) hts hus
    exact hstack
  · obtain ⟨-, -, -, -, values, -, shape, -, -, hshape, -⟩ := metric_eq_ok_iff.1 ht
    exact ⟨shape, hshape, fun index hindex => metric_entry rfl hls ht hshape hindex⟩

/-- Two rows of two lanes, in each of which the echo was shown one number. -/
def echoGrid : State where
  nodes := [("echo", [("seen", .tensor ⟨[2, 2, 1], [4, 3, 2, 1], rfl⟩)])]
  batchDims := [2, 2]

/-- The metric of four lanes is stacked from the metrics of two rows. -/
theorem metric_commutes_with_unstack_echoGrid :
    ∃ w xs t ls, build echoAlgorithm echoEvaluation [(some "echo", echoMonitor)] none {} = .ok w ∧
      echoGrid.unstack = .ok xs ∧ echoGrid.flatten = .ok ls ∧ w.metric echoGrid "echo" = .ok t ∧
      (∃ ts, List.Forall₂ (fun x u => w.metric x "echo" = .ok u) xs ts ∧ Tensor.stack ts = .ok t) ∧
      ∃ l u, ls[2]? = some l ∧ w.metric l "echo" = .ok u ∧ t.entry [1, 0] = some u := by
  obtain ⟨t, ht⟩ := Outcome.exists_eq_ok (o := do
    let w ← build echoAlgorithm echoEvaluation [(some "echo", echoMonitor)] none {}
    w.metric echoGrid "echo") (by decide +kernel)
  obtain ⟨w, hw, ht⟩ := Outcome.bind_eq_ok_iff.1 ht
  obtain ⟨ls, hls⟩ := Outcome.exists_eq_ok (o := echoGrid.flatten) (by decide +kernel)
  obtain ⟨xs, hxs, -, hiff, -, hmetric⟩ :=
    metric_commutes_with_unstack w "echo" echoGrid 2 [2] ls rfl (by decide) hls
  obtain ⟨hstack, shape, -, hentry⟩ := hmetric t ht
  obtain ⟨ts, -, hts, -⟩ := hiff.1 ⟨t, ht⟩
  obtain ⟨l, u, hl, hu, -, hat⟩ := hentry [1, 0] (.cons (by decide) (.cons (by decide) .nil))
  exact ⟨w, xs, t, ls, hw, hxs, hls, ht, ⟨ts, hts, hstack ts hts⟩, l, u, hl, hu, hat⟩

/-- The same metric for every local state: it has no numbers, and is as long as an array can be
alone. -/
def vastMonitor : Monitor :=
  { echoMonitor with metric := fun _ => return some (.constant [2 ^ 62, 0] 0) }

/-- Two lanes in which the echo was shown one number. -/
def echoRow : State where
  nodes := [("echo", [("seen", .tensor ⟨[2, 1], [4, 3], rfl⟩)])]
  batchDims := [2]

def vastWorkflow : Workflow :=
  (build echoAlgorithm echoEvaluation [(some "echo", vastMonitor)] none {}).toOption.get
    (by decide +kernel)

/-- Both lanes have a metric, and the metrics have one shape. The batch has none, because two such
metrics together could not be an array. -/
theorem vast_metric_not_stacked :
    ∃ x y, echoRow.flatten = .ok [x, y] ∧ echoRow.unstack = .ok [x, y] ∧
      vastWorkflow.metric x "echo" = .ok (.constant [2 ^ 62, 0] 0) ∧
      vastWorkflow.metric y "echo" = .ok (.constant [2 ^ 62, 0] 0) ∧
      vastWorkflow.metric echoRow "echo" = .error (.shape .overflow) :=
  ⟨{ nodes := [("echo", [("seen", .tensor ⟨[1], [4], rfl⟩)])] },
    { nodes := [("echo", [("seen", .tensor ⟨[1], [3], rfl⟩)])] }, rfl, rfl, rfl, rfl, rfl⟩

end Workflow

end Lockstep
