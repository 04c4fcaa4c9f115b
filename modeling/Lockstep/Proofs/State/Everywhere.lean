import Lockstep.Proofs.State.Stack

/-!
# What holds of a state at every depth

`State.Everywhere P` says that `P` holds of a state and of all states inside it. What stacking and
taking apart keep at one level they keep at every depth (`Everywhere.stackOnto`,
`Everywhere.unstack`).
-/

namespace Lockstep

mutual

/-- The predicate holds at every depth of a value. -/
def Value.Everywhere (P : State → Prop) : Value → Prop
  | .tensor _ => True
  | .state s => s.Everywhere P

/-- The predicate holds of a state and of all states inside it. -/
def State.Everywhere (P : State → Prop) : State → Prop
  | ⟨nodes, dims, placement⟩ => P ⟨nodes, dims, placement⟩ ∧ nodesEverywhere P nodes

/-- The predicate holds of all states inside nodes. -/
def nodesEverywhere (P : State → Prop) : List (String × List (String × Value)) → Prop
  | [] => True
  | (_, l) :: rest => localEverywhere P l ∧ nodesEverywhere P rest

/-- The predicate holds of all states inside a local state. -/
def localEverywhere (P : State → Prop) : List (String × Value) → Prop
  | [] => True
  | (_, v) :: rest => v.Everywhere P ∧ localEverywhere P rest

end

/-- Stacking states of which the first predicate holds gives one of which the second holds. -/
def StackGives (P Q : State → Prop) : Prop :=
  ∀ {s : State} {others : List State} {r : State},
    State.stackOnto s others = .ok r → P s → (∀ o ∈ others, P o) → Q r

/-- Taking apart a state of which the first predicate holds gives parts of which the second
holds. -/
def UnstackGives (P Q : State → Prop) : Prop :=
  ∀ {s : State} {xs : List State} {x : State}, s.unstack = .ok xs → P s → x ∈ xs → Q x

/-- Taking apart a state of which the predicate holds gives parts of which it holds. -/
abbrev UnstackKeeps (P : State → Prop) : Prop := UnstackGives P P

section

variable {P Q R : State → Prop}

theorem localEverywhere_iff :
    ∀ {l : List (String × Value)}, localEverywhere P l ↔ ∀ e ∈ l, e.2.Everywhere P
  | [] => by simp [localEverywhere]
  | (name, v) :: rest => by
    rw [localEverywhere, List.forall_mem_cons, localEverywhere_iff]

theorem nodesEverywhere_iff :
    ∀ {nodes : List (String × List (String × Value))},
      nodesEverywhere P nodes ↔ ∀ e ∈ nodes, localEverywhere P e.2
  | [] => by simp [nodesEverywhere]
  | (path, l) :: rest => by
    rw [nodesEverywhere, List.forall_mem_cons, nodesEverywhere_iff]

/-- A property holds everywhere if it holds of the state itself and everywhere in its local states.
-/
theorem State.everywhere_iff {s : State} :
    s.Everywhere P ↔ P s ∧ ∀ e ∈ s.nodes, localEverywhere P e.2 := by
  obtain ⟨nodes, dims, placement⟩ := s
  rw [State.Everywhere, nodesEverywhere_iff]

/-- The local state at a path, or none at all, has the predicate everywhere. -/
theorem localEverywhere_getD {nodes : List (String × List (String × Value))}
    (h : nodesEverywhere P nodes) (path : String) :
    localEverywhere P ((Table.get? path nodes).getD []) := by
  cases hget : Table.get? path nodes with
  | none => trivial
  | some l => exact nodesEverywhere_iff.1 h (path, l) (Table.mem_of_get?_eq_some hget)

/-- A value of which the predicate holds everywhere, put into a local state. -/
theorem localEverywhere_insert {l : List (String × Value)} (h : localEverywhere P l) {name : String}
    {v : Value} (hv : v.Everywhere P) : localEverywhere P (Table.insert name v l) := by
  refine localEverywhere_iff.2 fun e he => ?_
  rcases Table.mem_of_mem_insert he with rfl | he
  · exact hv
  · exact localEverywhere_iff.1 h e he

/-- A local state of which the predicate holds everywhere, put into nodes. -/
theorem nodesEverywhere_insert {nodes : List (String × List (String × Value))}
    (h : nodesEverywhere P nodes) {path : String} {l : List (String × Value)}
    (hl : localEverywhere P l) : nodesEverywhere P (Table.insert path l nodes) := by
  refine nodesEverywhere_iff.2 fun e he => ?_
  rcases Table.mem_of_mem_insert he with rfl | he
  · exact hl
  · exact nodesEverywhere_iff.1 h e he

mutual

/-- What two properties imply together holds wherever both hold. -/
theorem Value.Everywhere.imp₂ (h : ∀ s, P s → Q s → R s) : ∀ {v : Value}, v.Everywhere P →
    v.Everywhere Q → v.Everywhere R
  | .tensor _, _, _ => trivial
  | .state _, hp, hq => State.Everywhere.imp₂ h hp hq

/-- What follows from two predicates at one level follows from them at every depth. -/
theorem State.Everywhere.imp₂ (h : ∀ s, P s → Q s → R s) : ∀ {s : State}, s.Everywhere P →
    s.Everywhere Q → s.Everywhere R
  | ⟨_, _, _⟩, ⟨hp, hps⟩, ⟨hq, hqs⟩ => ⟨h _ hp hq, nodesEverywhere.imp₂ h hps hqs⟩

/-- The same at the nodes of a state. -/
theorem nodesEverywhere.imp₂ (h : ∀ s, P s → Q s → R s) :
    ∀ {nodes : List (String × List (String × Value))}, nodesEverywhere P nodes →
      nodesEverywhere Q nodes → nodesEverywhere R nodes
  | [], _, _ => trivial
  | (_, _) :: _, ⟨hp, hps⟩, ⟨hq, hqs⟩ =>
    ⟨localEverywhere.imp₂ h hp hq, nodesEverywhere.imp₂ h hps hqs⟩

/-- The same in a local state. -/
theorem localEverywhere.imp₂ (h : ∀ s, P s → Q s → R s) : ∀ {l : List (String × Value)},
    localEverywhere P l → localEverywhere Q l → localEverywhere R l
  | [], _, _ => trivial
  | (_, _) :: _, ⟨hp, hps⟩, ⟨hq, hqs⟩ =>
    ⟨Value.Everywhere.imp₂ h hp hq, localEverywhere.imp₂ h hps hqs⟩

end

theorem State.Everywhere.imp {s : State} (hs : s.Everywhere P) (h : ∀ s, P s → Q s) :
    s.Everywhere Q :=
  hs.imp₂ (fun s hp _ => h s hp) hs

theorem State.Everywhere.and {s : State} (hp : s.Everywhere P) (hq : s.Everywhere Q) :
    s.Everywhere fun s => P s ∧ Q s :=
  hp.imp₂ (fun _ hp hq => ⟨hp, hq⟩) hq

/-! ## Stacking -/

mutual

/-- What stacking does to a property of states it does at every depth. -/
theorem Value.Everywhere.stackValue (hP : StackGives P Q) :
    ∀ {v : Value} {qualified : String} {vs : List Value} {r : Value},
      State.stackValue qualified v vs = .ok r → v.Everywhere P → (∀ u ∈ vs, u.Everywhere P) →
        r.Everywhere Q
  | .tensor t, qualified, vs, r, h, _, _ => by
    obtain ⟨ts, -, hshape, -, rfl⟩ := State.stackValue_tensor_eq_ok_iff.1 h
    trivial
  | .state s, qualified, vs, r, h, hs, hvs => by
    obtain ⟨ss, rfl, x, hx, rfl⟩ := State.stackValue_state_eq_ok_iff.1 h
    exact State.Everywhere.stackOnto hP hx hs fun o ho => hvs (.state o) (List.mem_map_of_mem ho)

/-- It does so to stacked states. -/
theorem State.Everywhere.stackOnto (hP : StackGives P Q) :
    ∀ {s : State} {others : List State} {r : State},
      State.stackOnto s others = .ok r → s.Everywhere P → (∀ o ∈ others, o.Everywhere P) →
        r.Everywhere Q
  | ⟨nodes, dims, placement⟩, others, r, h, ⟨hp, hnodes⟩, hothers => by
    -- at this level it is the assumption, below it the induction
    have hqr : Q r := hP h hp fun o ho => (State.everywhere_iff.1 (hothers o ho)).1
    obtain ⟨-, nodes', hstack, moved, -, rfl⟩ := State.stackOnto_eq_ok_iff.1 h
    refine ⟨hqr, nodesEverywhere.stackNodes hP hstack hnodes fun o ho => ?_⟩
    exact nodesEverywhere_iff.2 (State.everywhere_iff.1 (hothers o ho)).2

/-- It does so at stacked nodes. -/
theorem nodesEverywhere.stackNodes (hP : StackGives P Q) :
    ∀ {nodes : List (String × List (String × Value))} {others : List State}
      {r : List (String × List (String × Value))},
      State.stackNodes nodes others = .ok r → nodesEverywhere P nodes →
        (∀ o ∈ others, nodesEverywhere P o.nodes) → nodesEverywhere Q r
  | [], others, r, h, _, _ => by
    rw [State.stackNodes] at h
    rw [← Except.ok.inj h]
    trivial
  | (path, l) :: rest, others, r, h, ⟨hl, hrest⟩, hothers => by
    obtain ⟨stacked, hstacked, -, more, hmore, rfl⟩ := State.stackNodes_cons_eq_ok_iff.1 h
    refine ⟨localEverywhere.stackLocal hP hstacked hl fun o ho => ?_,
      nodesEverywhere.stackNodes hP hmore hrest hothers⟩
    obtain ⟨s, hs, rfl⟩ := List.mem_map.1 ho
    exact localEverywhere_getD (hothers s hs) path

/-- It does so in stacked local states. -/
theorem localEverywhere.stackLocal (hP : StackGives P Q) :
    ∀ {l : List (String × Value)} {path : String} {others : List LocalState}
      {r : List (String × Value)},
      State.stackLocal path l others = .ok r → localEverywhere P l →
        (∀ o ∈ others, localEverywhere P o) → localEverywhere Q r
  | [], path, others, r, h, _, _ => by
    rw [State.stackLocal] at h
    rw [← Except.ok.inj h]
    trivial
  | (name, v) :: rest, path, others, r, h, ⟨hv, hrest⟩, hothers => by
    obtain ⟨vs, hvs, w, hw, more, hmore, rfl⟩ := State.stackLocal_cons_eq_ok_iff.1 h
    refine ⟨Value.Everywhere.stackValue hP hw hv fun u hu => ?_,
      localEverywhere.stackLocal hP hmore hrest hothers⟩
    -- a value of the column is the attribute of one of the other local states
    obtain ⟨o, ho, hget⟩ := Outcome.exists_left_of_mem hvs hu
    exact localEverywhere_iff.1 (hothers o ho) (name, u) (Table.mem_of_get?_eq_some hget)

end

/-! ## Taking apart -/

mutual

/-- What taking apart does to a property of states it does at every depth. -/
theorem Value.Everywhere.unstackValue (hP : UnstackGives P Q) :
    ∀ {v : Value} {parts : List Value} {part : Value},
      State.unstackValue v = .ok parts → v.Everywhere P → part ∈ parts → part.Everywhere Q
  | .tensor t, parts, part, h, _, hpart => by
    obtain ⟨-, rfl⟩ := State.unstackValue_tensor_eq_ok_iff.1 h
    obtain ⟨u, -, rfl⟩ := List.mem_map.1 hpart
    trivial
  | .state s, parts, part, h, hs, hpart => by
    obtain ⟨ss, hss, rfl⟩ := State.unstackValue_state_eq_ok_iff.1 h
    obtain ⟨x, hx, rfl⟩ := List.mem_map.1 hpart
    exact State.Everywhere.unstack hP hss hs hx

/-- What taking apart gives at one level it gives at every depth. -/
theorem State.Everywhere.unstack (hP : UnstackGives P Q) :
    ∀ {s : State} {xs : List State} {x : State},
      s.unstack = .ok xs → s.Everywhere P → x ∈ xs → x.Everywhere Q
  | ⟨nodes, dims, placement⟩, xs, x, h, ⟨hp, hnodes⟩, hx => by
    -- at this level it is the assumption, below it the induction
    have hpx : Q x := hP h hp hx
    obtain ⟨count, dims', hdims, lanes, hlanes, rfl⟩ := State.unstack_eq_ok_iff.1 h
    obtain ⟨lane, hlane, rfl⟩ := List.mem_map.1 hx
    exact ⟨hpx, nodesEverywhere.unstackNodes hP hlanes hnodes hlane⟩

/-- It does so at the nodes of every lane. -/
theorem nodesEverywhere.unstackNodes (hP : UnstackGives P Q) :
    ∀ {nodes : List (String × List (String × Value))} {count : Nat}
      {lanes : List (List (String × List (String × Value)))}
      {lane : List (String × List (String × Value))},
      State.unstackNodes count nodes = .ok lanes → nodesEverywhere P nodes → lane ∈ lanes →
        nodesEverywhere Q lane
  | [], count, lanes, lane, h, _, hlane => by
    rw [State.unstackNodes] at h
    rw [← Except.ok.inj h] at hlane
    rw [List.eq_of_mem_replicate hlane]
    trivial
  | (path, l) :: rest, count, lanes, lane, h, ⟨hl, hrest⟩, hlane => by
    obtain ⟨ls, hls, more, hmore, rfl⟩ := State.unstackNodes_cons_eq_ok_iff.1 h
    obtain ⟨l', hl', nodes', hnodes', rfl⟩ := Outcome.exists_of_mem_zipWith hlane
    exact ⟨localEverywhere.unstackLocal hP hls hl hl',
      nodesEverywhere.unstackNodes hP hmore hrest hnodes'⟩

/-- It does so in the local states of every lane. -/
theorem localEverywhere.unstackLocal (hP : UnstackGives P Q) :
    ∀ {l : List (String × Value)} {count : Nat} {path : String}
      {lanes : List (List (String × Value))} {lane : List (String × Value)},
      State.unstackLocal count path l = .ok lanes → localEverywhere P l → lane ∈ lanes →
        localEverywhere Q lane
  | [], count, path, lanes, lane, h, _, hlane => by
    rw [State.unstackLocal] at h
    rw [← Except.ok.inj h] at hlane
    rw [List.eq_of_mem_replicate hlane]
    trivial
  | (name, v) :: rest, count, path, lanes, lane, h, ⟨hv, hrest⟩, hlane => by
    obtain ⟨parts, hparts, -, more, hmore, rfl⟩ := State.unstackLocal_cons_eq_ok_iff.1 h
    obtain ⟨part, hpart, l', hl', rfl⟩ := Outcome.exists_of_mem_zipWith hlane
    exact ⟨Value.Everywhere.unstackValue hP hparts hv hpart,
      localEverywhere.unstackLocal hP hmore hrest hl'⟩

end

end

end Lockstep
