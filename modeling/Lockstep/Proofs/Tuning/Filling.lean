import Lockstep.Proofs.Tuning.Batches
import Lockstep.Proofs.Tuning.Drawing
import Lockstep.Proofs.Tuning.Parameters

/-!
# The batches of a tuner are well formed

A search only suggests settings that have exactly the paths of its space (`Search.Explores`), and a
new tuner makes sure that these are parameters which are single numbers. So its settings can always
be filled into the defaults, and what comes out passes the check of the problem, row by row with the
values of the settings and the defaults elsewhere (`Tuner.batches_are_well_formed`).
-/

namespace Lockstep

namespace Table

variable {α β : Type}

theorem matching_of_keys_eq {t : Table α} :
    ∀ {u : Table β}, keys t = keys u → Matching (fun _ _ => True) t u := by
  induction t with
  | nil =>
    intro u h
    rw [List.map_eq_nil_iff.1 h.symm]
    exact .nil
  | cons e t ih =>
    intro u h
    cases u with
    | nil => cases h
    | cons e' u =>
      obtain ⟨hkey, hkeys⟩ := List.cons.inj h
      exact .cons ⟨hkey, trivial⟩ (ih hkeys)

theorem keys_insert_congr {t : Table α} {u : Table β} (h : keys t = keys u) (key : String) (a : α)
    (b : β) : keys (t.insert key a) = keys (u.insert key b) :=
  ((matching_of_keys_eq h).insert key trivial).keys

end Table

/-! ## The settings of a search -/

/-- The setting has a value for exactly the paths of the space. -/
def SearchSpace.Covers (space : SearchSpace) (setting : Setting) : Prop :=
  Table.keys setting = Table.keys (Table.ofList space)

namespace SearchSpace

variable {space : SearchSpace} {setting : Setting}

theorem Covers.sorted (h : space.Covers setting) : Table.Sorted setting :=
  (Table.sorted_ofList space).of_keys h

theorem Covers.mem_keys_iff (h : space.Covers setting) {path : String} :
    path ∈ Table.keys setting ↔ path ∈ space.paths := by
  rw [h, Table.mem_keys_ofList]
  rfl

theorem Admits.covers (h : space.Admits setting) : space.Covers setting := h.keys

theorem keys_of_mem_extend {steps : Nat} {settings : List Setting} {ranges : Table ParameterRange}
    (hsettings : ∀ s ∈ settings, Table.keys s = Table.keys ranges) {e : String × ParameterRange}
    (h : setting ∈ extend steps settings e) :
    Table.keys setting = Table.keys (ranges.insert e.1 e.2) := by
  obtain ⟨s, hs, h⟩ := List.mem_flatMap.1 h
  obtain ⟨v, -, rfl⟩ := List.mem_map.1 h
  exact Table.keys_insert_congr (hsettings s hs) e.1 v e.2

/-- Every point of a grid has a value for each of the paths. -/
theorem covers_of_mem_grid {steps : Nat} (h : setting ∈ space.grid steps) :
    space.Covers setting := by
  -- along the space, the settings made so far have the paths seen so far
  have hfold : ∀ (space : SearchSpace) (settings : List Setting) (ranges : Table ParameterRange),
      (∀ s ∈ settings, Table.keys s = Table.keys ranges) →
      ∀ s ∈ space.foldl (extend (max steps 2)) settings,
        Table.keys s = Table.keys (Table.union ranges space) := by
    intro space
    induction space with
    | nil => exact fun settings ranges hsettings => hsettings
    | cons e space ih =>
      intro settings ranges hsettings
      exact ih _ (ranges.insert e.1 e.2) fun s hs => keys_of_mem_extend hsettings hs
  exact hfold space [[]] [] (List.forall_mem_singleton.2 rfl) setting h

end SearchSpace

namespace Search

/-- All settings that the search has yet to give are for a space. -/
def Explores (space : SearchSpace) : Search → Prop
  | .grid g => ∀ setting ∈ g.settings, space.Covers setting
  | .random r => r.space = space

variable {space : SearchSpace} {now later : Search} {count : Nat} {settings : List Setting}

theorem explores_new (kind : StrategyKind) (space : SearchSpace) (steps : Nat) (seed : UInt64) :
    Explores space (.new kind space steps seed) := by
  cases kind with
  | grid => exact fun setting => SearchSpace.covers_of_mem_grid
  | random => rfl

/-- A search goes on in its space, and gives settings of it. -/
theorem Explores.suggest (h : now.Explores space)
    (hask : now.suggest count = .ok (settings, later)) :
    later.Explores space ∧ ∀ setting ∈ settings, space.Covers setting := by
  cases now with
  | grid g =>
    obtain ⟨rfl, rfl⟩ := suggest_grid_eq_ok hask
    exact ⟨h, fun setting hmem => h setting (List.mem_of_mem_drop (List.mem_of_mem_take hmem))⟩
  | random r =>
    obtain ⟨r', hr, rfl⟩ := suggest_random_eq_ok hask
    obtain rfl : r.space = space := h
    obtain ⟨hspace, hall⟩ := RandomSearch.admits_of_suggest hr
    exact ⟨hspace, fun setting hmem => (hall setting hmem).covers⟩

end Search

/-- A parameter in a completed setting: its value in the setting, or else its default. -/
theorem Setting.get?_completed {path : String} :
    ∀ {setting : Setting} {defaults : ParameterBatch} {d : Tensor}, (Table.keys setting).Nodup →
      Table.get? path defaults = some d → Table.get? path (setting.completed defaults) =
        some ((Table.get? path setting).elim d fun v => .constant d.shape v.toFloat)
  | [], defaults, d, _, hd => hd
  | (name, v) :: rest, defaults, d, hnodup, hd => by
    obtain ⟨hnew, hrest⟩ := List.nodup_cons.1 hnodup
    rw [completed, List.foldl_cons, ← completed, Table.get?]
    by_cases hname : name = path
    · subst hname
      have hnone : Table.get? name rest = none := Table.get?_eq_none_iff.2 hnew
      rw [if_pos rfl, hd]
      have hinsert := get?_completed hrest (Table.get?_insert_self defaults name
        (.constant d.shape v.toFloat))
      rwa [hnone] at hinsert
    · rw [if_neg hname]
      refine get?_completed hrest ?_
      split
      · rwa [Table.get?_insert_of_ne _ _ (Ne.symm hname)]
      · exact hd

namespace Tuner

open TuningProblem (rowsAt mem_defaults_iff nodup_paths_defaults)

/-! ## Filling in settings -/

/-- The batch has the parameters of the defaults, in their shapes. -/
def Shaped (batch defaults : ParameterBatch) : Prop :=
  Table.Matching (fun t d : Tensor => t.shape = d.shape) batch defaults

section

variable {instances : Nat} {defaults : ParameterBatch}

theorem exists_fillSlot (hdefaults : defaults.Sorted) {slot : Nat} (hslot : slot < instances) :
    ∀ {setting : Setting} {batch : ParameterBatch}, Shaped batch defaults →
      (∀ path ∈ Table.keys setting, path ∈ defaults.keys) →
      ∃ batch', fillSlot instances slot setting batch = .ok batch' ∧ Shaped batch' defaults
  | [], batch, hbatch, _ => ⟨batch, rfl, hbatch⟩
  | (path, value) :: rest, batch, hbatch, hpaths => by
    obtain ⟨hpath, hrest⟩ := List.forall_mem_cons.1 hpaths
    obtain ⟨d, hd⟩ := Option.isSome_iff_exists.1 (Table.get?_isSome_iff.2 hpath)
    obtain ⟨t, ht, hshape⟩ := hbatch.get? hd
    rw [fillSlot, ht]
    dsimp only
    rw [if_pos hslot]
    -- a value keeps its shape when one of its rows is written
    exact exists_fillSlot hdefaults hslot
      (hbatch.insert_of_get? hdefaults hd (a := t.fillRow slot value.toFloat) hshape) hrest

/-- As many settings as there are instances, with paths of parameters, can be filled in. -/
theorem exists_fillSlots (hdefaults : defaults.Sorted) :
    ∀ {slot : Nat} {settings : List Setting} {batch : ParameterBatch}, Shaped batch defaults →
      slot + settings.length ≤ instances →
      (∀ setting ∈ settings, ∀ path ∈ Table.keys setting, path ∈ defaults.keys) →
      ∃ batch', fillSlots instances slot settings batch = .ok batch' ∧ Shaped batch' defaults
  | _, [], batch, hbatch, _, _ => ⟨batch, rfl, hbatch⟩
  | slot, setting :: rest, batch, hbatch, hlength, hpaths => by
    rw [List.length_cons] at hlength
    obtain ⟨hfirst, hrest⟩ := List.forall_mem_cons.1 hpaths
    obtain ⟨between, hone, hbetween⟩ :=
      exists_fillSlot hdefaults (show slot < instances by omega) hbatch hfirst
    obtain ⟨batch', hall, hbatch'⟩ :
        ∃ batch', fillSlots instances (slot + 1) rest between = .ok batch' ∧
          Shaped batch' defaults :=
      exists_fillSlots hdefaults hbetween (by omega) hrest
    exact ⟨batch', Outcome.bind_eq_ok_iff.2 ⟨between, hone, hall⟩, hbatch'⟩

end

/-- Settings for known paths, not more than there are instances, make a batch. -/
theorem exists_batchOf {p : TuningProblem} {settings : List Setting} (hsorted : p.defaults.Sorted)
    (hlength : settings.length ≤ p.config.instances)
    (hpaths : ∀ setting ∈ settings, ∀ path ∈ Table.keys setting, path ∈ Table.keys p.defaults) :
    ∃ batch, batchOf p settings = .ok batch ∧ Shaped batch p.defaults :=
  exists_fillSlots hsorted (List.forall₂_same.2 fun _ _ => ⟨rfl, rfl⟩)
    (by rwa [Nat.zero_add]) hpaths

/-! ## Searching through runs -/

/-- The tuner has a configured strategy that explores the space. -/
structure Searches (t : Tuner Search) (space : SearchSpace) : Prop where
  strategy : t.strategy = Search.strategy
  explores : t.memory.Explores space

section

variable {t u : Tuner Search} {space : SearchSpace} {settings : List Setting} {memory : Search}
  {o : Outcome Unit}

/-- What a search is asked for is no more than there are instances, and of its space. -/
theorem Searches.ask (h : t.Searches space) (hask : t.ask = .ok (settings, memory)) :
    memory.Explores space ∧ settings.length ≤ t.problem.config.instances ∧
      ∀ setting ∈ settings, space.Covers setting := by
  rw [Tuner.ask, h.strategy] at hask
  obtain ⟨hmemory, hall⟩ := h.explores.suggest hask
  have hlength := Search.bounded_strategy _ _ _ _ hask
  exact ⟨hmemory, hlength.trans (min_le_right _ _), hall⟩

theorem Searches.evaluate (h : t.Searches space) (hask : t.ask = .ok (settings, memory)) :
    (Tuner.evaluate { t with memory } settings).1.Searches space where
  strategy := (t.sameSetup_evaluate memory settings).strategy.trans h.strategy
  explores := by
    rw [memory_evaluate (t := { t with memory }) h.strategy]
    exact (h.ask hask).1

theorem Batch.searches (h : t.Batch u) (ht : t.Searches space) : u.Searches space := by
  cases h with
  | intro settings memory hremaining hask hsettings hok => exact ht.evaluate hask

theorem Ends.searches (h : t.Ends u o) (ht : t.Searches space) : u.Searches space := by
  cases h with
  | enough hremaining => exact ⟨ht.strategy, ht.explores⟩
  | exhausted memory hremaining hask => exact ⟨ht.strategy, (ht.ask hask).1⟩
  | cutAsking a hremaining hask => exact ht
  | cut settings memory a hremaining hask hsettings hcut => exact ht.evaluate hask
  | failed settings memory e hremaining hask hsettings hfailed habort =>
    have hlast := ht.evaluate hask
    exact ⟨hlast.strategy, hlast.explores⟩

theorem Searches.batches (ht : t.Searches space) (h : Relation.ReflTransGen Batch t u) :
    u.Searches space := by
  induction h with
  | refl => exact ht
  | tail hrun hbatch ih => exact hbatch.searches ih

theorem Searches.running (ht : t.Searches space) : t.running.Searches space :=
  ⟨ht.strategy, ht.explores⟩

theorem Searches.after (ht : t.Searches space) (runs : Nat) : (t.after runs).Searches space := by
  induction runs with
  | zero => exact ht
  | succ runs ih =>
    rw [after_succ]
    obtain ⟨u, hbatches, hends⟩ := (t.after runs).exists_ends_start
    exact hends.searches (ih.running.batches hbatches)

/-- A new tuner searches its space, whose paths are parameters that are single numbers. -/
theorem searches_new {p : TuningProblem} {c : TunerConfig} (h : Tuner.new p c = .ok t) :
    t.Searches c.space ∧ ∀ path ∈ c.space.paths, Table.get? path p.shapes = some [] := by
  obtain ⟨-, hs, -, -⟩ := new_eq_ok h
  obtain ⟨hmemory, -⟩ := memory_new h
  obtain ⟨⟨⟩, -, h⟩ := Outcome.bind_eq_ok_iff.1 h
  obtain ⟨⟨⟩, hpaths, h⟩ := Outcome.bind_eq_ok_iff.1 h
  refine ⟨⟨hs, hmemory ▸ Search.explores_new ..⟩, fun path hpath => ?_⟩
  have hcheck : checkPath p path = .ok () := Outcome.forM_eq_ok_iff.1 hpaths path hpath
  rw [checkPath] at hcheck
  split at hcheck
  · cases hcheck
  · next hshape => exact hshape
  · cases hcheck

end

/-! ## The batches of all runs -/

/-- Settings that a tuner evaluates as a batch in one of its runs, with the problem as it is then.
The run may go on after the batch, end with it or fail in it. -/
def Tries (first : Tuner Search) (p : TuningProblem) (settings : List Setting) : Prop :=
  ∃ runs u memory, Relation.ReflTransGen Batch (first.after runs).running u ∧ u.remaining ≠ 0 ∧
    u.ask = .ok (settings, memory) ∧ settings ≠ [] ∧ u.problem = p

section

variable {w : Workflow} {c : TuningConfig} {p q : TuningProblem} {d : TunerConfig}
  {first : Tuner Search} {settings : List Setting} {batch : ParameterBatch}
  {path : String} {a : Attribute} {default t : Tensor}

/-- What a tuner evaluates is for its space and not more than there are instances. Its problem is
the one that it was made with, up to the state of the instances. -/
theorem Tries.spec (hnew : Tuner.new p d = .ok first) (h : first.Tries q settings) :
    q = { p with instances := q.instances } ∧ settings.length ≤ p.config.instances ∧
      ∀ setting ∈ settings, d.space.Covers setting := by
  obtain ⟨runs, u, memory, hbatches, -, hask, -, rfl⟩ := h
  have hsetup := ((first.sameSetup_after runs).trans (sameSetup_running _)).trans
    (sameSetup_of_batches hbatches)
  obtain ⟨-, hlength, hcovers⟩ :=
    (((searches_new hnew).1.after runs).running.batches hbatches).ask hask
  rw [hsetup.instances] at hlength
  obtain ⟨rfl, -⟩ := new_eq_ok hnew
  exact ⟨hsetup.problem, hlength, hcovers⟩

/-- What a tuner evaluates makes a batch. -/
theorem Tries.exists_batch (hw : w.Assembled) (hp : p.Wraps w c) (hnew : Tuner.new p d = .ok first)
    (h : first.Tries q settings) :
    ∃ batch, batchOf p settings = .ok batch ∧ Shaped batch p.defaults := by
  obtain ⟨-, hlength, hcovers⟩ := h.spec hnew
  refine exists_batchOf hp.sorted_defaults hlength fun setting hsetting path hpath => ?_
  have hsearched := (hcovers setting hsetting).mem_keys_iff.1 hpath
  obtain ⟨a, ha, -⟩ := (hp.get?_shapes hw).1 ((searches_new hnew).2 path hsearched)
  exact hp.mem_keys_defaults_iff.2 (List.mem_map_of_mem ha)

/-- A searched parameter is a single number. -/
theorem shape_of_searched (hw : w.Assembled) (hp : p.Wraps w c) (hnew : Tuner.new p d = .ok first)
    (ha : (path, a) ∈ w.parameters) (hdefault : a.default = some default)
    (hpath : path ∈ d.space.paths) : default.shape = [] := by
  have hdeclares : w.Declares path default.shape :=
    ⟨a, ha, by rw [Attribute.shape, hdefault]; rfl⟩
  have hshape := (hp.get?_shapes hw).2 hdeclares
  exact Option.some.inj (hshape.symm.trans ((searches_new hnew).2 path hpath))

/-- A row of a parameter in a batch: the value in the setting of the row, or else the default. -/
theorem getElem?_rows_batchOf (hw : w.Assembled) (hp : p.Wraps w c)
    (hsettings : ∀ setting ∈ settings, Table.Sorted setting)
    (hbatch : batchOf p settings = .ok batch) (ha : (path, a) ∈ w.parameters)
    (hdefault : a.default = some default) (ht : Table.get? path batch = some t)
    (hshape : t.shape = c.instances :: default.shape) {i : Nat} (hi : i < c.instances) :
    t.rows[i]? = some ((Table.get? path (settings[i]?.getD [])).elim default fun v =>
      .constant default.shape v.toFloat) := by
  obtain ⟨rfl, defaults, hlist, -, hdefaults⟩ := hp.spec
  have hmem : (path, default) ∈ defaults := (mem_defaults_iff hlist).2 ⟨a, ha, hdefault⟩
  have hget := Table.get?_ofList_of_mem (nodup_paths_defaults hw hlist) hmem
  have hnodup : (Table.keys (settings[i]?.getD [])).Nodup := by
    cases hsetting : settings[i]? with
    | none => exact List.nodup_nil
    | some setting => exact (hsettings setting (List.mem_of_getElem? hsetting)).nodup
  have hrow := congrArg (Table.get? path)
    (rowsAt_batchOf (Table.sorted_ofList defaults) hdefaults hbatch hi)
  rw [rowsAt, Table.get?_mapValues, ht, Option.map_some,
    Setting.get?_completed hnodup hget] at hrow
  rw [State.getElem?_rows_row hshape hi, hrow]

/-- **The batches of a tuner are well formed.** In every batch of every run, successful or not,
there are at most as many settings as instances, each with exactly the paths of the search space.
They can be filled into the defaults, and the problem takes what comes out: it has all parameters, a
searched one with the value of each setting in the setting's row, and the defaults in all other
rows. -/
theorem batches_are_well_formed (hw : w.Assembled) (hp : p.Wraps w c)
    (hnew : Tuner.new p d = .ok first) (h : first.Tries q settings) :
    settings.length ≤ c.instances ∧
    (∀ setting ∈ settings, ∀ path, path ∈ Table.keys setting ↔ path ∈ d.space.paths) ∧
    ∃ batch, batchOf q settings = .ok batch ∧ q.check batch = .ok () ∧
      (∀ path, path ∈ Table.keys batch ↔ path ∈ w.parameters.map Prod.fst) ∧
      ∀ path a default, (path, a) ∈ w.parameters → a.default = some default →
        ∃ t, Table.get? path batch = some t ∧ t.shape = c.instances :: default.shape ∧
          (∀ (i : Nat) (setting : Setting) (v : ParameterValue), settings[i]? = some setting →
            Table.get? path setting = some v → t.rows[i]? = some (.scalar v.toFloat)) ∧
          ∀ i < c.instances, settings.length ≤ i ∨ path ∉ d.space.paths →
            t.rows[i]? = some default := by
  obtain ⟨hq, hlength, hcovers⟩ := h.spec hnew
  rw [hp.spec.1] at hlength
  obtain ⟨batch, hbatch, hshaped⟩ := h.exists_batch hw hp hnew
  have hcheck := hp.check_of_shapes fun e he => hshaped.of_mem he
  rw [hq]
  refine ⟨hlength, fun setting hsetting path => (hcovers setting hsetting).mem_keys_iff, batch,
    hbatch, hcheck, fun path => ?_, fun path a default ha hdefault => ?_⟩
  · rw [hshaped.keys, hp.mem_keys_defaults_iff]
  obtain ⟨t, ht, hshape⟩ := hshaped.get? (hp.get?_defaults hw ha hdefault)
  rw [Tensor.shape_repeated] at hshape
  -- a row of the batch has the value of its setting if there is one, and the default otherwise
  have hrows {i : Nat} (hi : i < c.instances) := getElem?_rows_batchOf hw hp
    (fun setting hsetting => (hcovers setting hsetting).sorted) hbatch ha hdefault ht hshape hi
  refine ⟨t, ht, hshape, fun i setting v hsetting hv => ?_, fun i hi hother => ?_⟩
  · have hi : i < c.instances := (List.getElem?_eq_some_iff.1 hsetting).1.trans_le hlength
    have hpath := (hcovers setting (List.mem_of_getElem? hsetting)).mem_keys_iff.1
      (Table.mem_keys_of_mem (Table.mem_of_get?_eq_some hv))
    rw [hrows hi, hsetting, Option.getD_some, hv, shape_of_searched hw hp hnew ha hdefault hpath]
    rfl
  · -- there is no setting for the row, or it has no value for the parameter
    have hnone : Table.get? path (settings[i]?.getD []) = none := by
      cases hsetting : settings[i]? with
      | none => rfl
      | some setting =>
        have hlt := (List.getElem?_eq_some_iff.1 hsetting).1
        have hpath := hother.resolve_left (Nat.not_le_of_lt hlt)
        have hcover := hcovers setting (List.mem_of_getElem? hsetting)
        exact Table.get?_eq_none_iff.2 fun hmem => hpath (hcover.mem_keys_iff.1 hmem)
    rw [hrows hi, hnone]
    rfl

end

/-- Grid search with a single trial, for two instances. -/
def singleConfig : TunerConfig := { walkConfig with maxTrials := 1 }

def singleWalker : Tuner Search :=
  (Tuner.new twoSlots singleConfig).toOption.get (by decide +kernel)

/-- The instance without a setting has the default. -/
theorem batches_are_well_formed_singleWalker :
    ∃ settings batch t, singleWalker.Tries twoSlots settings ∧ settings.length = 1 ∧
      batchOf twoSlots settings = .ok batch ∧ twoSlots.check batch = .ok () ∧
      Table.get? "algorithm.rate" batch = some t ∧ t.rows[1]? = some (.scalar 1) := by
  have hp : TuningProblem.new TuningProblem.echoWorkflow TuningProblem.echoState (slotsConfig 2) =
    .ok twoSlots := Outcome.eq_ok_get _
  have hnew : Tuner.new twoSlots singleConfig = .ok singleWalker := Outcome.eq_ok_get _
  have hlist : TuningProblem.AreDefaults TuningProblem.echoWorkflow.parameters
      [("algorithm.rate", .scalar 1)] := TuningProblem.areDefaults_iff.2 (by decide +kernel)
  obtain ⟨a, ha, hdefault⟩ := (mem_defaults_iff hlist).1 List.mem_cons_self
  have hone : (Prod.fst <$> singleWalker.running.ask).map List.length = .ok 1 := by decide +kernel
  rcases hask : singleWalker.running.ask with e | ⟨settings, memory⟩
  · rw [hask] at hone
    cases hone
  rw [hask] at hone
  have hlength : settings.length = 1 := Except.ok.inj hone
  have htries : singleWalker.Tries twoSlots settings := ⟨0, singleWalker.running, memory, .refl,
    by decide +kernel, hask, List.ne_nil_of_length_pos (by omega), (new_eq_ok hnew).1⟩
  obtain ⟨-, -, batch, hbatch, hcheck, -, hrows⟩ :=
    batches_are_well_formed Workflow.assembled_echoWorkflow (TuningProblem.wraps_of_new hp) hnew
      htries
  obtain ⟨t, ht, -, -, hother⟩ := hrows _ a _ ha hdefault
  exact ⟨settings, batch, t, htries, hlength, hbatch, hcheck, ht,
    hother 1 (by decide) (.inl hlength.le)⟩

end Tuner

end Lockstep
