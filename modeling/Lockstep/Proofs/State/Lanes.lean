import Lockstep.Proofs.State.Everywhere
import Lockstep.Proofs.State.Parts
import Lockstep.State.Stack

/-!
# Lanes of a batch

The lanes of a batch are those of its parts, one part after another (`flatten_eq_ok_iff`), and lanes
that are put together to a batch are cut into one piece for each part (`unflatten_cons_eq_ok_iff`).
Related states have related lanes, and related lanes are put together to related states
(`forall₂_of_flatten`, `rel_of_unflatten`).
-/

namespace Lockstep

/-! ## Pieces of a list -/

variable {α β : Type}

theorem forall₂_pieces {R : α → β → Prop} {length : Nat} :
    ∀ {count : Nat} {xs : List α} {ys : List β}, List.Forall₂ R xs ys →
      List.Forall₂ (List.Forall₂ R) (pieces length count xs) (pieces length count ys)
  | 0, _, _, _ => .nil
  | _ + 1, _, _, h =>
    .cons (List.forall₂_take length h) (forall₂_pieces (List.forall₂_drop length h))

theorem pieces_map (f : α → β) {length : Nat} :
    ∀ {count : Nat} {xs : List α},
      pieces length count (xs.map f) = (pieces length count xs).map (List.map f)
  | 0, _ => rfl
  | count + 1, xs => by
    rw [pieces, ← List.map_take, ← List.map_drop, pieces_map f, pieces, List.map_cons]

/-- A member of joined lists of one length, by the number of its list and its number there. -/
theorem getElem?_flatten_of_length {length : Nat} :
    ∀ {xss : List (List α)}, (∀ xs ∈ xss, xs.length = length) → ∀ {i : Nat}, i < length →
      ∀ j : Nat, xss.flatten[j * length + i]? = xss[j]?.bind fun xs => xs[i]?
  | [], _, i, _, j => by simp
  | xs :: xss, h, i, hi, j => by
    obtain ⟨hxs, hxss⟩ := List.forall_mem_cons.1 h
    rw [List.flatten_cons]
    cases j with
    | zero =>
      rw [Nat.zero_mul, Nat.zero_add, List.getElem?_append_left (hxs.symm ▸ hi)]
      rfl
    | succ j =>
      have hle : xs.length ≤ (j + 1) * length + i := by
        rw [hxs, Nat.succ_mul]
        omega
      have hsub : (j + 1) * length + i - xs.length = j * length + i := by
        rw [hxs, Nat.succ_mul]
        omega
      rw [List.getElem?_append_right hle, hsub, getElem?_flatten_of_length hxss hi]
      rfl

theorem length_flatten_of_length {length : Nat} {xss : List (List α)}
    (h : ∀ xs ∈ xss, xs.length = length) : xss.flatten.length = xss.length * length := by
  induction xss with
  | nil => simp
  | cons xs xss ih =>
    obtain ⟨hxs, hxss⟩ := List.forall_mem_cons.1 h
    rw [List.flatten_cons, List.length_append, hxs, ih hxss, List.length_cons, Nat.succ_mul,
      Nat.add_comm]

/-- The members of one of several joined lists of one length. -/
theorem take_drop_flatten_of_length {length : Nat} :
    ∀ {xss : List (List α)}, (∀ xs ∈ xss, xs.length = length) → ∀ {j : Nat} {xs : List α},
      xss[j]? = some xs → (xss.flatten.drop (j * length)).take length = xs
  | [], _, j, xs, hj => by simp at hj
  | first :: rest, h, j, xs, hj => by
    obtain ⟨hfirst, hrest⟩ := List.forall_mem_cons.1 h
    rw [List.flatten_cons]
    cases j with
    | zero =>
      obtain rfl : first = xs := Option.some.inj hj
      rw [Nat.zero_mul, List.drop_zero, List.take_left' hfirst]
    | succ j =>
      have hsum : (j + 1) * length = first.length + j * length := by
        rw [hfirst, Nat.succ_mul, Nat.add_comm]
      rw [hsum, ← List.drop_drop, List.drop_left]
      exact take_drop_flatten_of_length hrest hj

/-- What a computation with numbers gives for joined lists of one length, it gives list by list, the
numbers of a list starting where those of the one before end. -/
theorem mapM_of_flatten {f : Nat → α → Outcome β} {length : Nat} {xss : List (List α)} {ys : List β}
    (hlength : ∀ xs ∈ xss, xs.length = length) (hcount : ys.length = xss.length * length)
    (h : ∀ (i : Nat) (x : α) (y : β), xss.flatten[i]? = some x → ys[i]? = some y → f i x = .ok y)
    {j : Nat} {xs : List α} {p : List β} (hxs : xss[j]? = some xs)
    (hp : (pieces length xss.length ys)[j]? = some p) :
    (xs.mapIdx fun i x => f (j * xs.length + i) x).mapM id = .ok p := by
  have hpieces := length_of_mem_pieces hcount
  have hxslength := hlength xs (List.mem_of_getElem? hxs)
  have hplength := hpieces p (List.mem_of_getElem? hp)
  rw [Outcome.mapM_eq_ok_iff]
  refine Outcome.forall₂_of_forall (by rw [List.length_mapIdx, hxslength, hplength]) ?_
  intro i o y ho hy
  rw [List.getElem?_mapIdx] at ho
  obtain ⟨x, hx, rfl⟩ := Option.map_eq_some_iff.1 ho
  have hi : i < length := hxslength ▸ (List.getElem?_eq_some_iff.1 hx).1
  -- number `i` of list `j` is number `j * length + i` of the joined lists
  rw [hxslength]
  refine h _ x y ?_ ?_
  · rw [getElem?_flatten_of_length hlength hi, hxs]
    exact hx
  · rw [← flatten_pieces hcount, getElem?_flatten_of_length hpieces hi, hp]
    exact hy

namespace State

/-! ## Splitting into lanes -/

theorem unstackTimes_nil (n : Nat) : unstackTimes n [] = .ok [] := by
  induction n with
  | zero => rfl
  | succ n ih => exact ih

theorem unstackTimes_append_eq_ok_iff {n : Nat} {xs ys ls : List State} :
    unstackTimes n (xs ++ ys) = .ok ls ↔
      ∃ a b, unstackTimes n xs = .ok a ∧ unstackTimes n ys = .ok b ∧ ls = a ++ b := by
  induction n generalizing xs ys ls with
  | zero =>
    constructor
    · intro h
      exact ⟨xs, ys, rfl, rfl, (Except.ok.inj h).symm⟩
    · rintro ⟨a, b, ha, hb, rfl⟩
      rw [← Except.ok.inj ha, ← Except.ok.inj hb]
      rfl
  | succ n ih =>
    simp only [unstackTimes, List.mapM_append, Outcome.bind_eq_ok_iff]
    constructor
    · rintro ⟨zs, ⟨as, has, bs, hbs, hzs⟩, h⟩
      obtain rfl : as ++ bs = zs := Except.ok.inj hzs
      rw [List.flatten_append] at h
      obtain ⟨a, b, ha, hb, rfl⟩ := ih.1 h
      exact ⟨a, b, ⟨as, has, ha⟩, ⟨bs, hbs, hb⟩, rfl⟩
    · rintro ⟨a, b, ⟨as, has, ha⟩, ⟨bs, hbs, hb⟩, rfl⟩
      refine ⟨as ++ bs, ⟨as, has, bs, hbs, rfl⟩, ?_⟩
      rw [List.flatten_append]
      exact ih.2 ⟨a, b, ha, hb, rfl⟩

/-- Splitting several states is splitting each of them. -/
theorem unstackTimes_eq_ok_iff {n : Nat} {xs ls : List State} :
    unstackTimes n xs = .ok ls ↔
      ∃ lss, List.Forall₂ (fun x l => unstackTimes n [x] = .ok l) xs lss ∧ ls = lss.flatten := by
  induction xs generalizing ls with
  | nil =>
    rw [unstackTimes_nil, Except.ok.injEq]
    constructor
    · rintro rfl
      exact ⟨[], .nil, rfl⟩
    · rintro ⟨lss, hlss, rfl⟩
      cases hlss
      rfl
  | cons x xs ih =>
    rw [show x :: xs = [x] ++ xs from rfl, unstackTimes_append_eq_ok_iff]
    constructor
    · rintro ⟨a, b, ha, hb, rfl⟩
      obtain ⟨lss, hlss, rfl⟩ := ih.1 hb
      exact ⟨a :: lss, .cons ha hlss, rfl⟩
    · rintro ⟨lss, hlss, rfl⟩
      cases hlss with
      | @cons _ a _ lss ha hrest =>
        exact ⟨a, lss.flatten, ha, ih.2 ⟨lss, hrest, rfl⟩, rfl⟩

theorem flatten_unbatched {s : State} (h : s.batchDims = []) : s.flatten = .ok [s] := by
  rw [flatten, h]
  rfl

theorem flatten_cons_eq_ok_iff {s : State} {count : Nat} {dims : List Nat}
    (hdims : s.batchDims = count :: dims) {ls : List State} :
    s.flatten = .ok ls ↔ ∃ xs, s.unstack = .ok xs ∧ unstackTimes dims.length xs = .ok ls := by
  rw [flatten, hdims, List.length_cons, unstackTimes, List.mapM_cons]
  simp only [List.mapM_nil, Outcome.bind_eq_ok_iff, Outcome.pure_eq_ok, Except.ok.injEq]
  constructor
  · rintro ⟨xss, ⟨xs, hxs, ys, rfl, rfl⟩, h⟩
    rw [List.flatten_cons, List.flatten_nil, List.append_nil] at h
    exact ⟨xs, hxs, h⟩
  · rintro ⟨xs, hxs, h⟩
    refine ⟨[xs], ⟨xs, hxs, [], rfl, rfl⟩, ?_⟩
    rw [List.flatten_cons, List.flatten_nil, List.append_nil]
    exact h

/-- The lanes of a batch are those of its parts, one part after another. -/
theorem flatten_eq_ok_iff {s : State} {xs : List State} (h : s.unstack = .ok xs)
    {ls : List State} :
    s.flatten = .ok ls ↔
      ∃ lss, List.Forall₂ (fun x l => x.flatten = .ok l) xs lss ∧ ls = lss.flatten := by
  have hparts : ∀ x ∈ xs, ∀ l, unstackTimes s.batchDims.tail.length [x] = .ok l ↔
      x.flatten = .ok l := by
    intro x hx l
    rw [flatten, batchDims_of_mem_unstack h hx]
  have hlanes : s.flatten = .ok ls ↔ unstackTimes s.batchDims.tail.length xs = .ok ls := by
    rw [flatten_cons_eq_ok_iff (batchDims_of_unstack h)]
    simp [h]
  rw [hlanes, unstackTimes_eq_ok_iff]
  constructor
  · rintro ⟨lss, hlss, rfl⟩
    exact ⟨lss, (Outcome.forall₂_congr_of_mem hparts).1 hlss, rfl⟩
  · rintro ⟨lss, hlss, rfl⟩
    exact ⟨lss, (Outcome.forall₂_congr_of_mem hparts).2 hlss, rfl⟩

theorem exists_unstack_of_flatten {s : State} {ls : List State} (h : s.flatten = .ok ls)
    (hdims : s.batchDims ≠ []) : ∃ xs, s.unstack = .ok xs := by
  obtain ⟨count, dims, hcons⟩ := List.exists_cons_of_ne_nil hdims
  obtain ⟨xs, hxs, -⟩ := (flatten_cons_eq_ok_iff hcons).1 h
  exact ⟨xs, hxs⟩

/-- A batch that has lanes is taken apart into as many parts as its first axis says, which keep the
other axes and have the lanes of the batch one after another. -/
theorem parts_of_flatten {s : State} {count : Nat} {dims : List Nat} {ls : List State}
    (hdims : s.batchDims = count :: dims) (h : s.flatten = .ok ls) :
    ∃ xs lss, s.unstack = .ok xs ∧ xs.length = count ∧ (∀ x ∈ xs, x.batchDims = dims) ∧
      List.Forall₂ (fun x l => x.flatten = .ok l) xs lss ∧ ls = lss.flatten := by
  obtain ⟨xs, hxs⟩ := exists_unstack_of_flatten h (hdims ▸ List.cons_ne_nil _ _)
  obtain ⟨lss, hlss, hls⟩ := (flatten_eq_ok_iff hxs).1 h
  have hbatch := batchDims_of_unstack hxs
  rw [hdims] at hbatch
  refine ⟨xs, lss, hxs, (List.cons.inj hbatch).1.symm, fun x hx => ?_, hlss, hls⟩
  rw [batchDims_of_mem_unstack hxs hx, hdims, List.tail_cons]

/-- A batch has as many lanes as its axes hold. -/
theorem length_of_flatten {dims : List Nat} :
    ∀ {s : State} {ls : List State}, s.batchDims = dims → s.flatten = .ok ls →
      ls.length = volume dims := by
  induction dims with
  | nil =>
    intro s ls hdims h
    rw [flatten_unbatched hdims, Except.ok.injEq] at h
    rw [← h]
    rfl
  | cons count dims ih =>
    intro s ls hdims h
    obtain ⟨xs, lss, -, hcount, hxdims, hlss, rfl⟩ := parts_of_flatten hdims h
    have hlength : ∀ l ∈ lss, l.length = volume dims := by
      intro l hl
      obtain ⟨x, hx, hflat⟩ := Outcome.exists_left_of_mem hlss hl
      exact ih (hxdims x hx) hflat
    rw [length_flatten_of_length hlength, ← hlss.length_eq, hcount, volume_cons]

/-- States with the same batch axes have equally many lanes. -/
theorem length_of_flatten_of_mem {dims : List Nat} {xs : List State} {lss : List (List State)}
    (hdims : ∀ x ∈ xs, x.batchDims = dims)
    (hlss : List.Forall₂ (fun x l => x.flatten = .ok l) xs lss) :
    ∀ l ∈ lss, l.length = volume dims := by
  intro l hl
  obtain ⟨x, hx, hflat⟩ := Outcome.exists_left_of_mem hlss hl
  exact length_of_flatten (hdims x hx) hflat

/-- A lane of a batch is a lane of one of its parts. -/
theorem exists_part_of_mem_flatten {s l : State} {count : Nat} {dims : List Nat} {ls : List State}
    (hdims : s.batchDims = count :: dims) (h : s.flatten = .ok ls) (hl : l ∈ ls) :
    s.HasParts count ∧ ∃ j < count, (s.part j).batchDims = dims ∧
      ∃ part, (s.part j).flatten = .ok part ∧ l ∈ part := by
  obtain ⟨xs, lss, hxs, rfl, hxdims, hlss, rfl⟩ := parts_of_flatten hdims h
  obtain ⟨part, hpart, hl⟩ := List.mem_flatten.1 hl
  obtain ⟨x, hx, hflat⟩ := Outcome.exists_left_of_mem hlss hpart
  obtain ⟨j, hj⟩ := List.mem_iff_getElem?.1 hx
  obtain ⟨hlt, rfl⟩ := (getElem?_of_unstack hxs).1 hj
  exact ⟨(unstack_eq_ok_iff_parts.1 hxs).1, j, hlt, hxdims _ hx, part, hflat, hl⟩

/-- Lanes have no batch axes. -/
theorem batchDims_of_flatten {dims : List Nat} :
    ∀ {s : State} {ls : List State}, s.batchDims = dims → s.flatten = .ok ls →
      ∀ l ∈ ls, l.batchDims = [] := by
  induction dims with
  | nil =>
    intro s ls hdims h l hl
    rw [flatten_unbatched hdims, Except.ok.injEq] at h
    rw [← h] at hl
    rw [List.mem_singleton.1 hl, hdims]
  | cons count dims ih =>
    intro s ls hdims h l hl
    obtain ⟨-, j, -, hpdims, part, hflat, hl⟩ := exists_part_of_mem_flatten hdims h hl
    exact ih hpdims hflat l hl

/-- A batch along one axis that can be split into its lanes. -/
def HasLanes (count : Nat) (s : State) : Prop :=
  s.batchDims = [count] ∧ ∃ ls, s.flatten = .ok ls ∧ ls.length = count

/-- States without batch axes that are stacked can be split again. -/
theorem hasLanes_of_stack {xs : List State} {r : State} (hxs : ∀ x ∈ xs, x.batchDims = [])
    (h : stack xs = .ok r) : r.HasLanes xs.length := by
  have hdims : r.batchDims = [xs.length] := by
    obtain ⟨x, others, rfl, -⟩ := stack_eq_ok h
    rw [batchDims_of_stack h List.mem_cons_self, hxs x List.mem_cons_self]
  obtain ⟨ys, hys, hlength⟩ := exists_unstack_of_stack h
  exact ⟨hdims, ys, (flatten_cons_eq_ok_iff hdims).2 ⟨ys, hys, rfl⟩, hlength⟩

/-- Related states have related lanes, when their parts are related. -/
theorem forall₂_of_unstackTimes {R : State → State → Prop}
    (hR : ∀ s s' xs xs', R s s' → s.unstack = .ok xs → s'.unstack = .ok xs' →
      List.Forall₂ R xs xs') {n : Nat} :
    ∀ {xs xs' ls ls' : List State}, List.Forall₂ R xs xs' → unstackTimes n xs = .ok ls →
      unstackTimes n xs' = .ok ls' → List.Forall₂ R ls ls' := by
  induction n with
  | zero =>
    intro xs xs' ls ls' h hls hls'
    rw [← Except.ok.inj hls, ← Except.ok.inj hls']
    exact h
  | succ n ih =>
    intro xs xs' ls ls' h hls hls'
    obtain ⟨zss, hzss, hls⟩ := Outcome.bind_eq_ok_iff.1 hls
    obtain ⟨zss', hzss', hls'⟩ := Outcome.bind_eq_ok_iff.1 hls'
    exact ih (List.rel_flatten (Outcome.forall₂_of_mapM hR h hzss hzss')) hls hls'

theorem forall₂_of_flatten {R : State → State → Prop}
    (hR : ∀ s s' xs xs', R s s' → s.unstack = .ok xs → s'.unstack = .ok xs' →
      List.Forall₂ R xs xs') {s s' : State} {ls ls' : List State} (h : R s s')
    (hdims : s'.batchDims = s.batchDims) (hls : s.flatten = .ok ls) (hls' : s'.flatten = .ok ls') :
    List.Forall₂ R ls ls' := by
  rw [flatten, hdims] at hls'
  exact forall₂_of_unstackTimes hR (.cons h .nil) hls hls'

/-- What all parts have that a state has, all lanes have. -/
theorem forall_of_flatten {P : State → Prop} (hP : UnstackKeeps P) {s : State} {ls : List State}
    (h : P s) (hls : s.flatten = .ok ls) : ∀ l ∈ ls, P l := by
  have hsame : List.Forall₂ (fun x y => P x ∧ x = y) ls ls := by
    refine forall₂_of_flatten ?_ ⟨h, rfl⟩ rfl hls hls
    rintro x _ xs xs' ⟨hx, rfl⟩ hxs hxs'
    rw [hxs] at hxs'
    obtain rfl := Except.ok.inj hxs'
    exact List.forall₂_same.2 fun y hy => ⟨hP hxs hx hy, rfl⟩
  exact fun l hl => (List.forall₂_same.1 hsame l hl).1

/-! ## Putting lanes together -/

/-- Lanes fill the axes when there are as many as a word says that the axes hold. -/
theorem checkLanes_eq_ok_iff {dims : List Nat} {lanes : List State} :
    checkLanes dims lanes = .ok () ↔
      lanes ≠ [] ∧ lanes.length = volume dims ∧ volume dims < UInt64.size := by
  rw [checkLanes, Outcome.bind_eq_ok_iff]
  constructor
  · rintro ⟨w, hw, h⟩
    have hcount := toNat_of_wordVolume hw
    split at h
    · cases h
    · next hne =>
      split at h
      · cases h
      · next hlength =>
        rw [not_not] at hlength
        exact ⟨hne, hlength.trans hcount, hcount ▸ w.toNat_lt⟩
  · rintro ⟨hne, hlength, hlt⟩
    obtain ⟨w, hw, hcount⟩ := exists_wordVolume (hlength ▸ List.length_pos_iff.2 hne) hlt
    refine ⟨w, hw, ?_⟩
    rw [if_neg hne, if_neg (not_not.2 (hlength.trans hcount.symm))]

theorem unflatten_nil_eq_ok_iff {lanes : List State} {r : State} :
    unflatten [] lanes = .ok r ↔ lanes = [r] := by
  rw [unflatten, Outcome.bind_eq_ok_iff]
  constructor
  · rintro ⟨⟨⟩, hcheck, h⟩
    obtain ⟨-, hlength, -⟩ := checkLanes_eq_ok_iff.1 hcheck
    obtain ⟨lane, rfl⟩ := List.length_eq_one_iff.1 hlength
    rw [← Except.ok.inj h]
    rfl
  · rintro rfl
    exact ⟨(), checkLanes_eq_ok_iff.2 ⟨List.cons_ne_nil r [], rfl, by decide⟩, rfl⟩

/-- As many lanes as the axes hold are cut into one piece for each part. -/
theorem unflatten_cons_eq_ok_iff {count : Nat} {inner : List Nat} {lanes : List State} {r : State} :
    unflatten (count :: inner) lanes = .ok r ↔
      lanes ≠ [] ∧ lanes.length = count * volume inner ∧ count * volume inner < UInt64.size ∧
        ∃ xs, (pieces (volume inner) count lanes).mapM (unflatten inner) = .ok xs ∧
          stack xs = .ok r := by
  -- the lanes are cut by a count in a word, which is exact since all lanes together fit into one
  have hcut : lanes ≠ [] → lanes.length = count * volume inner →
      count * volume inner < UInt64.size → ∃ w, wordVolume inner = .ok w ∧
        allPieces w.toNat lanes = pieces (volume inner) count lanes := by
    intro hne hlength hlt
    have hpos : 0 < count * volume inner := hlength ▸ List.length_pos_iff.2 hne
    have hinner : 0 < volume inner := Nat.pos_of_mul_pos_left hpos
    have hle : volume inner ≤ count * volume inner :=
      Nat.le_mul_of_pos_left _ (Nat.pos_of_mul_pos_right hpos)
    obtain ⟨w, hw, hcount⟩ := exists_wordVolume hinner (lt_of_le_of_lt hle hlt)
    exact ⟨w, hw, by rw [hcount, allPieces_eq hinner hlength]⟩
  rw [unflatten, Outcome.bind_eq_ok_iff]
  constructor
  · rintro ⟨⟨⟩, hcheck, h⟩
    obtain ⟨hne, hlength, hlt⟩ := checkLanes_eq_ok_iff.1 hcheck
    obtain ⟨w, hw, hpieces⟩ := hcut hne hlength hlt
    rw [hw, Outcome.ok_bind, Outcome.bind_eq_ok_iff] at h
    obtain ⟨xs, hxs, hr⟩ := h
    exact ⟨hne, hlength, hlt, xs, hpieces ▸ hxs, hr⟩
  · rintro ⟨hne, hlength, hlt, xs, hxs, hr⟩
    obtain ⟨w, hw, hpieces⟩ := hcut hne hlength hlt
    refine ⟨(), checkLanes_eq_ok_iff.2 ⟨hne, hlength, hlt⟩, ?_⟩
    rw [hw, Outcome.ok_bind, Outcome.bind_eq_ok_iff]
    exact ⟨xs, hpieces.symm ▸ hxs, hr⟩

/-- Lanes are put together only along axes that they fill, and whose count of lanes is a word. -/
theorem length_of_unflatten {dims : List Nat} {lanes : List State} {r : State}
    (h : unflatten dims lanes = .ok r) :
    lanes.length = volume dims ∧ volume dims < UInt64.size := by
  cases dims with
  | nil =>
    obtain rfl := unflatten_nil_eq_ok_iff.1 h
    exact ⟨rfl, by decide⟩
  | cons count inner =>
    obtain ⟨-, hlength, hlt, -⟩ := unflatten_cons_eq_ok_iff.1 h
    exact ⟨hlength, hlt⟩

/-- Lanes that fill the axes are put together piece by piece. -/
theorem unflatten_eq_of_length {count : Nat} {inner : List Nat} {lanes : List State} {r : State}
    (hlength : lanes.length = count * volume inner) (hpos : 0 < count * volume inner)
    (hlt : count * volume inner < UInt64.size) :
    unflatten (count :: inner) lanes = .ok r ↔
      ∃ xs, (pieces (volume inner) count lanes).mapM (unflatten inner) = .ok xs ∧
        stack xs = .ok r := by
  have hne : lanes ≠ [] := List.length_pos_iff.1 (hlength ▸ hpos)
  rw [unflatten_cons_eq_ok_iff]
  exact ⟨fun h => h.2.2.2, fun h => ⟨hne, hlength, hlt, h⟩⟩

/-- Pieces of length 1 hold one lane each. -/
theorem unflatten_pieces_one {count : Nat} :
    ∀ {lanes : List State}, lanes.length = count →
      (pieces 1 count lanes).mapM (unflatten []) = .ok lanes := by
  induction count with
  | zero =>
    intro lanes hlength
    rw [List.eq_nil_of_length_eq_zero hlength]
    rfl
  | succ count ih =>
    intro lanes hlength
    obtain ⟨lane, rest, rfl⟩ := List.exists_cons_of_length_eq_add_one hlength
    exact Outcome.mapM_eq_ok_iff.2 (.cons (unflatten_nil_eq_ok_iff.2 rfl)
      (Outcome.mapM_eq_ok_iff.1 (ih (Nat.succ.inj hlength))))

/-- Along one axis, putting lanes together is stacking them. -/
theorem stack_of_unflatten {count : Nat} {lanes : List State} {r : State}
    (h : unflatten [count] lanes = .ok r) : stack lanes = .ok r := by
  obtain ⟨-, hlength, -, xs, hxs, hr⟩ := unflatten_cons_eq_ok_iff.1 h
  rw [volume_nil, Nat.mul_one] at hlength
  rw [volume_nil, unflatten_pieces_one hlength] at hxs
  obtain rfl := Except.ok.inj hxs
  exact hr

/-- Related lanes are put together to related states. -/
theorem rel_of_unflatten {R : State → State → Prop}
    (hR : ∀ xs xs' r r', List.Forall₂ R xs xs' → stack xs = .ok r → stack xs' = .ok r' → R r r')
    {dims : List Nat} :
    ∀ {lanes lanes' : List State} {r r' : State}, List.Forall₂ R lanes lanes' →
      unflatten dims lanes = .ok r → unflatten dims lanes' = .ok r' → R r r' := by
  induction dims with
  | nil =>
    intro lanes lanes' r r' h hr hr'
    obtain rfl := unflatten_nil_eq_ok_iff.1 hr
    obtain rfl := unflatten_nil_eq_ok_iff.1 hr'
    cases h with
    | cons h _ => exact h
  | cons count inner ih =>
    intro lanes lanes' r r' h hr hr'
    obtain ⟨-, -, -, xs, hxs, hr⟩ := unflatten_cons_eq_ok_iff.1 hr
    obtain ⟨-, -, -, xs', hxs', hr'⟩ := unflatten_cons_eq_ok_iff.1 hr'
    -- both lists are cut at the same places
    have hpieces : List.Forall₂ (List.Forall₂ R) (pieces (volume inner) count lanes)
        (pieces (volume inner) count lanes') := forall₂_pieces h
    have hpiece : ∀ p p' x x', List.Forall₂ R p p' → unflatten inner p = .ok x →
        unflatten inner p' = .ok x' → R x x' := fun _ _ _ _ hp hx hx' => ih hp hx hx'
    exact hR xs xs' r r' (Outcome.forall₂_of_mapM hpiece hpieces hxs hxs') hr hr'

/-- What a stack has when all its parts have it, lanes that are put together have. -/
theorem of_unflatten {P : State → Prop} (hP : ∀ xs r, (∀ x ∈ xs, P x) → stack xs = .ok r → P r)
    {dims : List Nat} {lanes : List State} {r : State} (h : ∀ l ∈ lanes, P l)
    (hr : unflatten dims lanes = .ok r) : P r := by
  have hrel : ∀ xs : List State, List.Forall₂ (fun x _ => P x) xs xs ↔ ∀ x ∈ xs, P x :=
    fun xs => List.forall₂_same
  refine rel_of_unflatten (fun xs xs' r r' hxs hr _ => hP xs r (fun x hx => ?_) hr)
    ((hrel lanes).2 h)
    hr hr
  obtain ⟨-, -, hx⟩ := Outcome.exists_left_of_mem hxs.flip hx
  exact hx

end State

end Lockstep
