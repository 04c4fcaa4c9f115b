import Lockstep.Control
import Lockstep.Proofs.Outcome

/-!
# A loop over lanes and the loops of its lanes

A loop over lanes ends with the values that the loops of the lanes end with, after as many rounds as
the longest of them (`batchedWhileLoop_lanes`). In every round the body runs on all lanes, also on
those that are done, so it has to succeed on their last values, which are then thrown away.

How many iterations a loop makes is read off the rounds that it needs (`EndsAfter`). One round takes
one iteration off each lane that is not done (`Ending.round`).
-/

namespace Lockstep

variable {α : Type} {cond : α → Outcome Bool} {body : α → Outcome α}

/-- The loop from `x` makes `count` iterations and ends with `y`: one more round of the condition
than that is enough, and no fewer are. -/
def EndsAfter (cond : α → Outcome Bool) (body : α → Outcome α) (count : Nat) (x y : α) : Prop :=
  ∀ rounds, whileLoop cond body rounds x = .ok (if count < rounds then some y else none)

/-- The value of a lane after some rounds: the body as often, unless the condition fails before. -/
def laneAfter (cond : α → Outcome Bool) (body : α → Outcome α) : (rounds : Nat) → α → Outcome α
  | 0, x => .ok x
  | rounds + 1, x => do
    if ← cond x then laneAfter cond body rounds (← body x) else return x

/-- The body with a log of the values that it is called on. -/
def logged (body : α → Outcome α) (x : α) : StateT (List α) Outcome α := do
  modify (· ++ [x])
  body x

/-! ## The loop of one lane -/

theorem whileLoop_of_false {x : α} (h : cond x = .ok false) (rounds : Nat) :
    whileLoop cond body (rounds + 1) x = .ok (some x) := by
  rw [whileLoop, h]
  rfl

theorem whileLoop_of_true {x x' : α} (h : cond x = .ok true) (hx : body x = .ok x')
    (rounds : Nat) : whileLoop cond body (rounds + 1) x = whileLoop cond body rounds x' := by
  rw [whileLoop, h, Outcome.ok_bind, if_pos rfl, hx, Outcome.ok_bind]

theorem laneAfter_of_false {x : α} (h : cond x = .ok false) (rounds : Nat) :
    laneAfter cond body rounds x = .ok x := by
  cases rounds with
  | zero => rfl
  | succ rounds => rw [laneAfter, h]; rfl

theorem laneAfter_of_true {x x' : α} (h : cond x = .ok true) (hx : body x = .ok x')
    (rounds : Nat) : laneAfter cond body (rounds + 1) x = laneAfter cond body rounds x' := by
  rw [laneAfter, h, Outcome.ok_bind, if_pos rfl, hx, Outcome.ok_bind]

namespace EndsAfter

theorem zero {x : α} (h : cond x = .ok false) : EndsAfter cond body 0 x x
  | 0 => rfl
  | rounds + 1 => by rw [whileLoop_of_false h, if_pos (Nat.succ_pos rounds)]

theorem succ {count : Nat} {x x' y : α} (h : cond x = .ok true) (hx : body x = .ok x')
    (hy : EndsAfter cond body count x' y) : EndsAfter cond body (count + 1) x y
  | 0 => rfl
  | rounds + 1 => by rw [whileLoop_of_true h hx, hy rounds]; simp only [Nat.add_lt_add_iff_right]

/-- A loop that ends does so after some number of iterations. -/
theorem of_whileLoop {rounds : Nat} :
    ∀ {x y : α}, whileLoop cond body rounds x = .ok (some y) →
      ∃ count, EndsAfter cond body count x y := by
  induction rounds with
  | zero => intro x y h; cases h
  | succ rounds ih =>
    intro x y h
    rw [whileLoop] at h
    obtain ⟨holds, hholds, h⟩ := Outcome.bind_eq_ok_iff.1 h
    cases holds with
    | false =>
      obtain rfl : x = y := Option.some.inj (Except.ok.inj h)
      exact ⟨0, zero hholds⟩
    | true =>
      obtain ⟨x', hx, h⟩ := Outcome.bind_eq_ok_iff.1 h
      obtain ⟨count, hcount⟩ := ih h
      exact ⟨count + 1, succ hholds hx hcount⟩

/-- The loop ends in the round after its last iteration. -/
theorem whileLoop_eq {count : Nat} {x y : α} (h : EndsAfter cond body count x y) :
    whileLoop cond body (count + 1) x = .ok (some y) := by
  rw [h (count + 1), if_pos (Nat.lt_succ_self count)]

/-- The end of a loop shows in its first condition. -/
theorem cases {count : Nat} {x y : α} (h : EndsAfter cond body count x y) :
    (count = 0 ∧ cond x = .ok false ∧ x = y) ∨
      ∃ n x', count = n + 1 ∧ cond x = .ok true ∧ body x = .ok x' ∧
        EndsAfter cond body n x' y := by
  -- the first condition tells the cases apart, and one round tells whether the loop ends at once
  have hend := h.whileLoop_eq
  rw [whileLoop] at hend
  obtain ⟨holds, hholds, hend⟩ := Outcome.bind_eq_ok_iff.1 hend
  cases holds with
  | false =>
    obtain rfl : x = y := Option.some.inj (Except.ok.inj hend)
    refine .inl ⟨?_, hholds, rfl⟩
    have hone := h 1
    rw [whileLoop_of_false hholds] at hone
    by_contra hne
    rw [if_neg (by omega)] at hone
    cases hone
  | true =>
    obtain ⟨x', hx, -⟩ := Outcome.bind_eq_ok_iff.1 hend
    cases count with
    | zero =>
      have hone := h 1
      rw [whileLoop_of_true hholds hx] at hone
      cases hone
    | succ n =>
      refine .inr ⟨n, x', rfl, hholds, hx, fun rounds => ?_⟩
      rw [← whileLoop_of_true hholds hx, h (rounds + 1)]
      simp only [Nat.add_lt_add_iff_right]

end EndsAfter

/-- What a round of a loop over lanes does to a lane whose loop ends. The body has to succeed on the
lane also when it is done. -/
theorem EndsAfter.round {count : Nat} {x y z : α} (h : EndsAfter cond body count x y)
    (hz : body y = .ok z) :
    ∃ x', cond x = .ok (decide (0 < count)) ∧ body x = .ok x' ∧
      EndsAfter cond body (count - 1) (if decide (0 < count) then x' else x) y ∧
      ∀ rounds, laneAfter cond body rounds (if decide (0 < count) then x' else x) =
        laneAfter cond body (rounds + 1) x := by
  rcases h.cases with ⟨rfl, hfalse, rfl⟩ | ⟨n, x', rfl, htrue, hx, hrest⟩
  · refine ⟨z, hfalse, hz, h, fun rounds => ?_⟩
    rw [laneAfter_of_false hfalse]
    exact laneAfter_of_false hfalse rounds
  · have hpos : decide (0 < n + 1) = true := decide_eq_true n.succ_pos
    rw [hpos]
    exact ⟨x', htrue, hx, hrest, fun rounds => (laneAfter_of_true htrue hx rounds).symm⟩

/-! ## The loops of all lanes -/

/-- The loops of the lanes end, each after some iterations and with some value, on which the body
succeeds. -/
def Ending (cond : α → Outcome Bool) (body : α → Outcome α) (lanes : List α)
    (ends : List (Nat × α)) : Prop :=
  List.Forall₂ (fun x e => EndsAfter cond body e.1 x e.2 ∧ ∃ z, body e.2 = .ok z) lanes ends

/-- The greatest count of iterations. -/
def longest (ends : List (Nat × α)) : Nat := (ends.map Prod.fst).foldr max 0

/-- The ends that are ahead after one round. -/
def afterRound (ends : List (Nat × α)) : List (Nat × α) := ends.map fun e => (e.1 - 1, e.2)

theorem longest_cons (e : Nat × α) (ends : List (Nat × α)) :
    longest (e :: ends) = max e.1 (longest ends) := rfl

theorem longest_afterRound : ∀ ends : List (Nat × α), longest (afterRound ends) = longest ends - 1
  | [] => rfl
  | e :: ends => by
    have ih := longest_afterRound ends
    rw [afterRound, List.map_cons, longest_cons, longest_cons]
    rw [afterRound] at ih
    omega

theorem map_snd_afterRound (ends : List (Nat × α)) :
    (afterRound ends).map Prod.snd = ends.map Prod.snd := by
  rw [afterRound, List.map_map]
  rfl

/-- Some lane is not done as long as the longest loop is not. -/
theorem any_pending : ∀ ends : List (Nat × α),
    (ends.map fun e => decide (0 < e.1)).any id = decide (0 < longest ends)
  | [] => rfl
  | e :: ends => by
    rw [List.map_cons, List.any_cons, any_pending ends, longest_cons, id_eq, ← Bool.decide_or]
    exact decide_eq_decide.2 (by omega)

namespace Ending

/-- One round takes one iteration off each lane that is not done. -/
theorem round {lanes : List α} {ends : List (Nat × α)} (h : Ending cond body lanes ends) :
    ∃ advanced, lanes.mapM cond = .ok (ends.map fun e => decide (0 < e.1)) ∧
      lanes.mapM body = .ok advanced ∧
      Ending cond body (Mask.choose (ends.map fun e => decide (0 < e.1)) advanced lanes)
        (afterRound ends) ∧
      ∀ (rounds : Nat) (xs : List α),
        List.Forall₂ (fun x y => laneAfter cond body rounds x = .ok y)
          (Mask.choose (ends.map fun e => decide (0 < e.1)) advanced lanes) xs →
        List.Forall₂ (fun x y => laneAfter cond body (rounds + 1) x = .ok y) lanes xs := by
  unfold Ending at h
  induction h with
  | nil => exact ⟨[], rfl, rfl, .nil, fun rounds xs hxs => by cases hxs; exact .nil⟩
  | @cons x e lanes ends hx _ ih =>
    obtain ⟨hend, z, hz⟩ := hx
    obtain ⟨x', hcond, hbody, hnext, hafter⟩ := hend.round hz
    obtain ⟨advanced, hconds, hbodies, hnexts, hafters⟩ := ih
    refine ⟨x' :: advanced, ?_, ?_, .cons ⟨hnext, z, hz⟩ hnexts, fun rounds xs hxs => ?_⟩
    · exact Outcome.mapM_eq_ok_iff.2 (.cons hcond (Outcome.mapM_eq_ok_iff.1 hconds))
    · exact Outcome.mapM_eq_ok_iff.2 (.cons hbody (Outcome.mapM_eq_ok_iff.1 hbodies))
    · cases hxs with
      | cons hfirst hrest => exact .cons ((hafter rounds).symm.trans hfirst) (hafters _ _ hrest)

/-- Lanes that are all done have their last values. -/
theorem eq_of_longest {lanes : List α} {ends : List (Nat × α)} (h : Ending cond body lanes ends)
    (h0 : longest ends = 0) : lanes = ends.map Prod.snd := by
  unfold Ending at h
  induction h with
  | nil => rfl
  | @cons x e lanes ends hx _ ih =>
    rw [longest_cons] at h0
    rcases hx.1.cases with ⟨-, -, hxe⟩ | ⟨n, x', hn, -⟩
    · rw [List.map_cons, ← hxe, ← ih (by omega)]
    · omega

/-- The loop over the lanes ends after as many rounds as the longest of their loops. -/
theorem batchedWhileLoop_eq {lanes : List α} {ends : List (Nat × α)}
    (h : Ending cond body lanes ends) (rounds : Nat) :
    batchedWhileLoop cond body rounds lanes =
      .ok (if longest ends < rounds then some (ends.map Prod.snd) else none) := by
  induction rounds generalizing lanes ends with
  | zero => rfl
  | succ rounds ih =>
    obtain ⟨advanced, hconds, hbodies, hnexts, -⟩ := h.round
    rw [batchedWhileLoop, hconds, Outcome.ok_bind, any_pending]
    by_cases hpos : 0 < longest ends
    · have hlt : longest ends - 1 < rounds ↔ longest ends < rounds + 1 := by omega
      rw [if_pos (decide_eq_true hpos), hbodies, Outcome.ok_bind, ih hnexts, longest_afterRound,
        map_snd_afterRound]
      simp only [hlt]
    · have h0 : longest ends = 0 := by omega
      rw [if_neg (by simpa using h0), if_pos (by omega), ← h.eq_of_longest h0]
      rfl

end Ending

/-! ## The calls of the body -/

/-- A traversal that logs its calls does so in order. -/
theorem run_mapM_logged :
    ∀ {lanes advanced : List α}, lanes.mapM body = .ok advanced → ∀ log : List α,
      (lanes.mapM (logged body)).run log = .ok (advanced, log ++ lanes)
  | [], _, h, log => by
    obtain rfl := Except.ok.inj h
    rw [List.append_nil]
    rfl
  | x :: lanes, _, h, log => by
    cases Outcome.mapM_eq_ok_iff.1 h with
    | @cons _ x' _ advanced hx hrest =>
      have ih := run_mapM_logged (Outcome.mapM_eq_ok_iff.2 hrest) (log ++ [x])
      have hcall : (logged body x).run log = .ok (x', log ++ [x]) := by
        show (body x >>= fun y => .ok (y, log ++ [x])) = _
        rw [hx]
        rfl
      rw [List.mapM_cons, StateT.run_bind, hcall, Outcome.ok_bind, StateT.run_bind, ih,
        Outcome.ok_bind, List.append_assoc]
      rfl

/-- A traversal that calls nothing logs nothing. -/
theorem run_mapM_lift {β : Type} {f : α → Outcome β} :
    ∀ {xs : List α} {ys : List β}, xs.mapM f = .ok ys → ∀ log : List α,
      (xs.mapM fun x => (StateT.lift (f x) : StateT (List α) Outcome β)).run log = .ok (ys, log)
  | [], _, h, log => by
    obtain rfl := Except.ok.inj h
    rfl
  | x :: xs, _, h, log => by
    cases Outcome.mapM_eq_ok_iff.1 h with
    | @cons _ y _ ys hy hrest =>
      have ih := run_mapM_lift (Outcome.mapM_eq_ok_iff.2 hrest) log
      have hcall : (StateT.lift (f x) : StateT (List α) Outcome β).run log = .ok (y, log) := by
        show (f x >>= fun y => .ok (y, log)) = _
        rw [hy]
        rfl
      rw [List.mapM_cons, StateT.run_bind, hcall, Outcome.ok_bind, StateT.run_bind, ih]
      rfl

/-- The body is called once per lane in every round, on what the lane is by then. -/
theorem Ending.calls {lanes : List α} {ends : List (Nat × α)} (h : Ending cond body lanes ends) :
    ∃ calls : List (List α), calls.length = longest ends ∧
      (∀ (round : Nat) (xs : List α), calls[round]? = some xs →
        List.Forall₂ (fun x y => laneAfter cond body round x = .ok y) lanes xs) ∧
      ∀ rounds, longest ends < rounds → ∀ log : List α,
        (batchedWhileLoop (fun x => StateT.lift (cond x)) (logged body) rounds lanes).run log =
          .ok (some (ends.map Prod.snd), log ++ calls.flatten) := by
  induction hn : longest ends generalizing lanes ends with
  | zero =>
    refine ⟨[], rfl, fun round xs hxs => (by cases hxs), fun rounds hlt log => ?_⟩
    obtain ⟨advanced, hconds, -⟩ := h.round
    obtain ⟨rounds, rfl⟩ := Nat.exists_eq_succ_of_ne_zero (Nat.ne_zero_of_lt hlt)
    rw [batchedWhileLoop, StateT.run_bind, run_mapM_lift hconds, Outcome.ok_bind, any_pending, hn,
      if_neg (by simp), ← h.eq_of_longest hn, List.flatten_nil, List.append_nil]
    rfl
  | succ n ih =>
    obtain ⟨advanced, hconds, hbodies, hnexts, hafters⟩ := h.round
    have hlongest : longest (afterRound ends) = n := by rw [longest_afterRound, hn]; rfl
    obtain ⟨calls, hlength, hcalls, hruns⟩ := ih hnexts hlongest
    -- the first round calls the body on the lanes themselves, the others on the lanes after it
    refine ⟨lanes :: calls, congrArg Nat.succ hlength, fun round xs hxs => ?_,
      fun rounds hlt log => ?_⟩
    · cases round with
      | zero =>
        obtain rfl := Option.some.inj hxs
        exact List.forall₂_same.2 fun x _ => rfl
      | succ round => exact hafters round xs (hcalls round xs hxs)
    · obtain ⟨rounds, rfl⟩ := Nat.exists_eq_succ_of_ne_zero (Nat.ne_zero_of_lt hlt)
      have hpending : decide (0 < longest ends) = true := decide_eq_true (by omega)
      rw [batchedWhileLoop, StateT.run_bind, run_mapM_lift hconds, Outcome.ok_bind, any_pending,
        if_pos hpending, StateT.run_bind, run_mapM_logged hbodies, Outcome.ok_bind,
        hruns rounds (by omega), map_snd_afterRound, List.append_assoc]
      rfl

/-! ## From the loop over the lanes to the loops of the lanes -/

/-- The loops of the lanes end as the loop over the lanes does. -/
theorem endsAfter_of_batchedWhileLoop {rounds : Nat} :
    ∀ {lanes out : List α}, batchedWhileLoop cond body rounds lanes = .ok (some out) →
      List.Forall₂ (fun x y => ∃ count, EndsAfter cond body count x y) lanes out := by
  induction rounds with
  | zero => intro lanes out h; cases h
  | succ rounds ih =>
    intro lanes out h
    rw [batchedWhileLoop] at h
    obtain ⟨mask, hmask, h⟩ := Outcome.bind_eq_ok_iff.1 h
    have hconds := Outcome.mapM_eq_ok_iff.1 hmask
    by_cases hany : mask.any id = true
    · rw [if_pos hany] at h
      obtain ⟨advanced, hadvanced, h⟩ := Outcome.bind_eq_ok_iff.1 h
      have hbodies := Outcome.mapM_eq_ok_iff.1 hadvanced
      have hrest := ih h
      have hlength : (Mask.choose mask advanced lanes).length = lanes.length :=
        (Mask.length_choose (hbodies.length_eq.symm.trans hconds.length_eq)
          hconds.length_eq).trans hconds.length_eq.symm
      refine Outcome.forall₂_of_forall (hlength.symm.trans hrest.length_eq) fun i x y hx hy => ?_
      obtain ⟨m, hm, hcond⟩ := Outcome.exists_of_forall₂ hconds hx
      obtain ⟨x', hx', hbody⟩ := Outcome.exists_of_forall₂ hbodies hx
      obtain ⟨v, hv, count, hcount⟩ := Outcome.exists_of_forall₂ hrest.flip hy
      rw [Mask.getElem?_choose hm hx' hx] at hv
      obtain rfl := Option.some.inj hv
      -- a lane that goes on makes one iteration, and one that is done has kept its value
      cases m with
      | true => exact ⟨count + 1, .succ hcond hbody hcount⟩
      | false => exact ⟨count, hcount⟩
    · -- no lane goes on
      rw [if_neg hany] at h
      obtain rfl : lanes = out := Option.some.inj (Except.ok.inj h)
      refine List.forall₂_same.2 fun x hx => ⟨0, .zero ?_⟩
      obtain ⟨i, hi⟩ := List.mem_iff_getElem?.1 hx
      obtain ⟨m, hm, hcond⟩ := Outcome.exists_of_forall₂ hconds hi
      have hfalse : m = false := by
        have hall := List.any_eq_false.1 (Bool.eq_false_iff.2 hany) m (List.mem_of_getElem? hm)
        simpa using hall
      exact hfalse ▸ hcond

/-- When the loop over the lanes ends, so do the loops of the lanes, with the same values. When they
end and the body succeeds on their last values, the loop over the lanes ends with these values after
as many rounds as the longest of them needs, and in every round it calls the body once on each
lane. -/
theorem batchedWhileLoop_lanes (cond : α → Outcome Bool) (body : α → Outcome α) (lanes : List α) :
    (∀ (rounds : Nat) (out : List α), batchedWhileLoop cond body rounds lanes = .ok (some out) →
      List.Forall₂ (fun x y => ∃ count, EndsAfter cond body count x y) lanes out) ∧
    ((∀ x ∈ lanes, ∃ rounds y z, whileLoop cond body rounds x = .ok (some y) ∧ body y = .ok z) →
      ∃ ends : List (Nat × α),
        List.Forall₂ (fun x e => EndsAfter cond body e.1 x e.2) lanes ends ∧
        (∀ rounds, batchedWhileLoop cond body rounds lanes =
          .ok (if longest ends < rounds then some (ends.map Prod.snd) else none)) ∧
        ∃ calls : List (List α), calls.length = longest ends ∧
          (∀ (round : Nat) (xs : List α), calls[round]? = some xs →
            List.Forall₂ (fun x y => laneAfter cond body round x = .ok y) lanes xs) ∧
          ∀ rounds, longest ends < rounds →
            (batchedWhileLoop (fun x => StateT.lift (cond x)) (logged body) rounds lanes).run [] =
              .ok (some (ends.map Prod.snd), calls.flatten)) := by
  refine ⟨fun rounds out h => endsAfter_of_batchedWhileLoop h, fun h => ?_⟩
  obtain ⟨ends, hends⟩ : ∃ ends, Ending cond body lanes ends := by
    refine Outcome.exists_forall₂ fun x hx => ?_
    obtain ⟨rounds, y, z, hy, hz⟩ := h x hx
    obtain ⟨count, hcount⟩ := EndsAfter.of_whileLoop hy
    exact ⟨(count, y), hcount, z, hz⟩
  obtain ⟨calls, hlength, hcalls, hruns⟩ := hends.calls
  exact ⟨ends, hends.imp fun x e he => he.1, hends.batchedWhileLoop_eq, calls, hlength, hcalls,
    fun rounds hlt => hruns rounds hlt []⟩

/-- Three lanes of different lengths, of which the last one is done from the start. -/
theorem batchedWhileLoop_lanes_climb :
    let below : Nat → Outcome Bool := fun x => .ok (x < 6)
    let climb : Nat → Outcome Nat := fun x => .ok (x + 4)
    List.Forall₂ (fun x y => ∃ count, EndsAfter below climb count x y) [0, 5, 9] [8, 9, 9] ∧
      ∃ ends, List.Forall₂ (fun x e => EndsAfter below climb e.1 x e.2) [0, 5, 9] ends ∧
        (∀ rounds, batchedWhileLoop below climb rounds [0, 5, 9] =
          .ok (if longest ends < rounds then some (ends.map Prod.snd) else none)) ∧
        ∃ calls : List (List Nat), calls.length = longest ends ∧
          ∀ rounds, longest ends < rounds →
            (batchedWhileLoop (fun x => StateT.lift (below x)) (logged climb) rounds
              [0, 5, 9]).run [] = .ok (some (ends.map Prod.snd), calls.flatten) := by
  intro below climb
  obtain ⟨hfrom, hto⟩ := batchedWhileLoop_lanes below climb [0, 5, 9]
  refine ⟨hfrom 3 [8, 9, 9] rfl, ?_⟩
  obtain ⟨ends, hends, hbatched, calls, hlength, -, hruns⟩ := hto fun x hx => by
    obtain rfl | rfl | rfl : x = 0 ∨ x = 5 ∨ x = 9 := by simpa using hx
    · exact ⟨3, 8, 12, rfl, rfl⟩
    · exact ⟨2, 9, 13, rfl, rfl⟩
    · exact ⟨1, 9, 13, rfl, rfl⟩
  exact ⟨ends, hends, hbatched, calls, hlength, hruns⟩

/-- The body fails on the last value of a lane that is done, and with it the loop over the lanes,
although the loop of every lane ends. -/
example :
    let below : Nat → Outcome Bool := fun x => .ok (x < 6)
    let climb : Nat → Outcome Nat := fun x =>
      if x < 9 then .ok (x + 4) else .error (.structural .emptyStack)
    [0, 9].mapM (whileLoop below climb 3) = .ok [some 8, some 9] ∧
      batchedWhileLoop below climb 3 [0, 9] = .error (.structural .emptyStack) := ⟨rfl, rfl⟩

end Lockstep
