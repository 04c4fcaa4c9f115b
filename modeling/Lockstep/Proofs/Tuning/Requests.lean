import Lockstep.Tuning.Strategy

/-!
# Requests to a search

What the answer to a request says: a walk over a grid hands out the settings behind its cursor
(`Search.suggest_grid_eq_ok`), and a stream draws one setting after another
(`RandomSearch.suggest_succ_eq_ok`). So a stream gives as many settings as it is asked for, and two
requests give what one request for all their settings gives (`RandomSearch.suggest_add`).
-/

namespace Lockstep

section

variable {ε α β : Type} {o : Except ε α} {f : α → Except ε β}

theorem exists_of_bind_eq_ok {y : β} (h : o >>= f = .ok y) : ∃ x, o = .ok x ∧ f x = .ok y := by
  cases o with
  | error e => cases h
  | ok x => exact ⟨x, rfl, h⟩

/-- What is only rewritten afterwards succeeds when it does. -/
theorem exists_bind_eq_ok_iff (hf : ∀ x, ∃ y, f x = .ok y) :
    (∃ y, (o >>= f) = .ok y) ↔ ∃ x, o = .ok x := by
  constructor
  · rintro ⟨y, h⟩
    obtain ⟨x, hx, -⟩ := exists_of_bind_eq_ok h
    exact ⟨x, hx⟩
  · rintro ⟨x, rfl⟩
    exact hf x

end

namespace RandomSearch

theorem suggest_succ_eq_ok {count : Nat} {r r' : RandomSearch} {settings : List Setting}
    (h : r.suggest (count + 1) = .ok (settings, r')) :
    ∃ setting g rest, drawInto [] r.generator r.space = .ok (setting, g) ∧
      suggest count { r with generator := g } = .ok (rest, r') ∧ settings = setting :: rest := by
  obtain ⟨⟨setting, g⟩, hdraw, h⟩ := exists_of_bind_eq_ok h
  obtain ⟨⟨rest, last⟩, hrest, h⟩ := exists_of_bind_eq_ok h
  obtain ⟨rfl, rfl⟩ := Prod.mk.inj (Except.ok.inj h)
  exact ⟨setting, g, rest, hdraw, hrest, rfl⟩

theorem length_suggest : ∀ {count : Nat} {r r' : RandomSearch} {settings : List Setting},
    r.suggest count = .ok (settings, r') → settings.length = count
  | 0, r, r', settings, h => by
    obtain ⟨rfl, -⟩ := Prod.mk.inj (Except.ok.inj h)
    rfl
  | count + 1, r, r', settings, h => by
    obtain ⟨setting, g, rest, -, hrest, rfl⟩ := suggest_succ_eq_ok h
    rw [List.length_cons, length_suggest hrest]

/-- Two requests give what one request of all their settings gives. -/
theorem suggest_add : ∀ {m n : Nat} {first between last : RandomSearch} {xs ys : List Setting},
    first.suggest m = .ok (xs, between) → between.suggest n = .ok (ys, last) →
      first.suggest (m + n) = .ok (xs ++ ys, last)
  | 0, n, first, between, last, xs, ys, hm, hn => by
    obtain ⟨rfl, rfl⟩ := Prod.mk.inj (Except.ok.inj hm)
    rwa [Nat.zero_add]
  | m + 1, n, first, between, last, xs, ys, hm, hn => by
    obtain ⟨setting, g, rest, hdraw, hrest, rfl⟩ := suggest_succ_eq_ok hm
    rw [Nat.succ_add, suggest, hdraw]
    change (suggest (m + n) { first with generator := g } >>= _) = _
    rw [suggest_add hrest hn]
    rfl

end RandomSearch

namespace Search

variable {later : Search} {count : Nat} {settings : List Setting}

theorem suggest_grid_eq_ok {g : GridSearch} (h : suggest count (.grid g) = .ok (settings, later)) :
    settings = (g.settings.drop g.cursor).take count ∧
      later = .grid { g with cursor := min (g.cursor + count) g.settings.length } := by
  obtain ⟨⟨settings', g'⟩, hg, h⟩ := exists_of_bind_eq_ok h
  obtain ⟨rfl, rfl⟩ := Prod.mk.inj (Except.ok.inj h)
  obtain ⟨-, rfl, rfl⟩ := GridSearch.suggest_eq_ok_iff.1 hg
  exact ⟨rfl, rfl⟩

theorem suggest_random_eq_ok {r : RandomSearch}
    (h : suggest count (.random r) = .ok (settings, later)) :
    ∃ r', r.suggest count = .ok (settings, r') ∧ later = .random r' := by
  obtain ⟨⟨settings', r'⟩, hr, h⟩ := exists_of_bind_eq_ok h
  obtain ⟨rfl, rfl⟩ := Prod.mk.inj (Except.ok.inj h)
  exact ⟨r', hr, rfl⟩

end Search

end Lockstep
