/-!
# Work that may fail

The linear problem is written, and set-points are optimised, by work that changes a state and may
fail. A statement about what has been reached is about work that succeeds: each of its steps has
succeeded, and the state has gone from step to step.

* `Succeeds`: work succeeds with an answer and leads from one state to another.
* `succeeds_bind_iff`: work in two steps succeeds when both steps do.
* `Succeeds.forM_induction`, `Succeeds.foldlM_induction`: what every step keeps, a repetition keeps.
* `Succeeds.forM_each`: what a repetition establishes for each element of a list.
* `Succeeds.forM_turn`: in a repetition every element has its turn.
* `exists_succeeds_forM`: a repetition succeeds if every step does and prepares the next one.
* `foldlM_induction`: what every step keeps, a fold without a state keeps.
-/

namespace GridRelief

variable {ε S α β : Type} {s t : S} {a : α} {b : β}

/-- Work succeeds with an answer and leads from one state to another. -/
def Succeeds (work : ExceptT ε (StateM S) α) (s : S) (a : α) (t : S) : Prop :=
  work.run s = (.ok a, t)

/-! ### Steps -/

/-- Whether work succeeds can be read off what it runs to. -/
theorem succeeds_iff {work : ExceptT ε (StateM S) α} {answer : Except ε α} {r : S}
    (h : work.run s = (answer, r)) : Succeeds work s a t ↔ answer = .ok a ∧ r = t := by
  unfold Succeeds
  constructor
  · intro hrun
    exact Prod.mk.inj (h.symm.trans hrun)
  · rintro ⟨rfl, rfl⟩
    exact h

/-- Whether work ends with a fault can be read off what it runs to. -/
theorem run_eq_error_iff {work : ExceptT ε (StateM S) α} {answer : Except ε α} {r : S} {fault : ε}
    (h : work.run s = (answer, r)) :
    work.run s = (.error fault, t) ↔ answer = .error fault ∧ r = t := by
  constructor
  · intro hrun
    exact Prod.mk.inj (h.symm.trans hrun)
  · rintro ⟨rfl, rfl⟩
    exact h

/-- An answer that passes a test is not a fault. -/
theorem exists_ok_of_any {answer : Except ε α} {test : α → Bool}
    (h : answer.toOption.any test = true) : ∃ a, answer = .ok a ∧ test a = true := by
  cases answer with
  | ok a => exact ⟨a, rfl, h⟩
  | error fault => cases h

/-- An answer found in two steps comes from an answer of the first step. -/
theorem bind_eq_ok_iff {first : Except ε α} {second : α → Except ε β} :
    (first >>= second) = .ok b ↔ ∃ a, first = .ok a ∧ second a = .ok b := by
  cases first <;> simp [bind, Except.bind]

/-- What comes with no fault comes with the answer that there is. -/
theorem eq_ok_of_isOk {changed : S × Except ε Unit} (h : changed.2.isOk = true) :
    changed = (changed.1, .ok ()) := by
  obtain ⟨state, answer⟩ := changed
  cases answer with
  | ok _ => rfl
  | error fault => cases h

/-- Work whose answer passes a test succeeds. -/
theorem exists_succeeds_of_any {work : ExceptT ε (StateM S) α} {test : α → Bool}
    (h : (work.run s).1.toOption.any test = true) :
    ∃ a t, Succeeds work s a t ∧ test a = true := by
  obtain ⟨a, hanswer, htest⟩ := exists_ok_of_any h
  exact ⟨a, (work.run s).2, Prod.ext hanswer rfl, htest⟩

@[simp] theorem succeeds_pure_iff {answer : α} :
    Succeeds (pure answer : ExceptT ε (StateM S) α) s a t ↔ answer = a ∧ s = t := by
  refine (succeeds_iff rfl).trans ?_
  rw [Except.ok.injEq]

/-- The second step is run from where the first one led, unless that has failed. -/
theorem run_bind (first : ExceptT ε (StateM S) α) (second : α → ExceptT ε (StateM S) β) (s : S) :
    ((first >>= second).run s : Id (Except ε β × S)) =
      match first.run s with
      | (.ok a, r) => (second a).run r
      | (.error fault, r) => (.error fault, r) := by
  simp only [ExceptT.run, bind, ExceptT.bind, ExceptT.mk, StateT.bind]
  rcases h : (first s : Id (Except ε α × S)) with ⟨answer, r⟩
  cases answer <;> rfl

/-- Work in two steps succeeds when both steps do, the second one from where the first one led. -/
theorem succeeds_bind_iff {first : ExceptT ε (StateM S) α} {second : α → ExceptT ε (StateM S) β} :
    Succeeds (first >>= second) s b t ↔
      ∃ a r, Succeeds first s a r ∧ Succeeds (second a) r b t := by
  unfold Succeeds
  rw [run_bind]
  rcases h : first.run s with ⟨answer, r⟩
  cases answer with
  | error fault =>
    constructor
    · intro hsecond
      cases (Prod.mk.inj hsecond).1
    · rintro ⟨a', r', hfirst, -⟩
      cases (Prod.mk.inj hfirst).1
  | ok a =>
    constructor
    · intro hsecond
      exact ⟨a, r, rfl, hsecond⟩
    · rintro ⟨a', r', hfirst, hsecond⟩
      obtain ⟨hanswer, rfl⟩ := Prod.mk.inj hfirst
      obtain rfl := Except.ok.inj hanswer
      exact hsecond

@[simp] theorem succeeds_ofExcept_iff {answer : Except ε α} :
    Succeeds (ofExcept answer : ExceptT ε (StateM S) α) s a t ↔ answer = .ok a ∧ s = t := by
  cases answer <;> exact succeeds_iff rfl

@[simp] theorem succeeds_get_iff {answer : S} :
    Succeeds (get : ExceptT ε (StateM S) S) s answer t ↔ s = answer ∧ s = t := by
  refine (succeeds_iff rfl).trans ?_
  rw [Except.ok.injEq]

@[simp] theorem succeeds_modify_iff {change : S → S} {answer : PUnit} :
    Succeeds (modify change : ExceptT ε (StateM S) PUnit) s answer t ↔ change s = t := by
  refine (succeeds_iff rfl).trans ?_
  simp

/-! ### Repetitions -/

variable {xs : List α} {work : α → ExceptT ε (StateM S) PUnit} {answer : PUnit}

theorem succeeds_forM_cons_iff {x : α} :
    Succeeds ((x :: xs).forM work) s answer t ↔
      ∃ r, Succeeds (work x) s ⟨⟩ r ∧ Succeeds (xs.forM work) r answer t := by
  rw [List.forM, succeeds_bind_iff]
  constructor
  · rintro ⟨⟨⟩, r, hfirst, hrest⟩
    exact ⟨r, hfirst, hrest⟩
  · rintro ⟨r, hfirst, hrest⟩
    exact ⟨⟨⟩, r, hfirst, hrest⟩

theorem succeeds_forM_singleton_iff {x : α} :
    Succeeds ([x].forM work) s answer t ↔ Succeeds (work x) s ⟨⟩ t := by
  rw [succeeds_forM_cons_iff]
  constructor
  · rintro ⟨r, hx, hnil⟩
    obtain ⟨-, rfl⟩ := succeeds_pure_iff.mp hnil
    exact hx
  · exact fun hx => ⟨t, hx, succeeds_pure_iff.mpr ⟨rfl, rfl⟩⟩

theorem succeeds_forM_pair_iff {x y : α} :
    Succeeds ([x, y].forM work) s answer t ↔
      ∃ r, Succeeds (work x) s ⟨⟩ r ∧ Succeeds (work y) r ⟨⟩ t := by
  rw [succeeds_forM_cons_iff]
  exact exists_congr fun r => and_congr_right' succeeds_forM_singleton_iff

theorem succeeds_forM_append_iff {ys : List α} :
    Succeeds ((xs ++ ys).forM work) s answer t ↔
      ∃ r, Succeeds (xs.forM work) s ⟨⟩ r ∧ Succeeds (ys.forM work) r answer t := by
  have happend : (xs ++ ys).forM work = (do xs.forM work; ys.forM work) := List.forM_append
  rw [happend, succeeds_bind_iff]
  constructor
  · rintro ⟨⟨⟩, r, hfirst, hrest⟩
    exact ⟨r, hfirst, hrest⟩
  · rintro ⟨r, hfirst, hrest⟩
    exact ⟨⟨⟩, r, hfirst, hrest⟩

/-- What the work on every element keeps, the work on a list keeps. -/
theorem Succeeds.forM_induction {P : S → Prop} (h : Succeeds (xs.forM work) s answer t)
    (hstep : ∀ x ∈ xs, ∀ r u, P r → Succeeds (work x) r ⟨⟩ u → P u) (hs : P s) : P t := by
  induction xs generalizing s with
  | nil =>
    obtain ⟨-, rfl⟩ := succeeds_pure_iff.mp h
    exact hs
  | cons x xs ih =>
    obtain ⟨r, hfirst, hrest⟩ := succeeds_forM_cons_iff.mp h
    refine ih hrest ?_ (hstep x List.mem_cons_self s r hs hfirst)
    intro y hy
    exact hstep y (List.mem_cons_of_mem _ hy)

/-- What the work on an element establishes and that on the others keeps, the work on a list
establishes for all. -/
theorem Succeeds.forM_each {P : S → Prop} {Q : α → S → Prop}
    (h : Succeeds (xs.forM work) s answer t)
    (hstep : ∀ x ∈ xs, ∀ r u, P r → Succeeds (work x) r ⟨⟩ u →
      P u ∧ Q x u ∧ ∀ y, Q y r → Q y u)
    (hs : P s) : P t ∧ (∀ x ∈ xs, Q x t) ∧ ∀ y, Q y s → Q y t := by
  induction xs generalizing s with
  | nil =>
    obtain ⟨-, rfl⟩ := succeeds_pure_iff.mp h
    exact ⟨hs, by simp, fun _ hy => hy⟩
  | cons x xs ih =>
    obtain ⟨r, hfirst, hrest⟩ := succeeds_forM_cons_iff.mp h
    obtain ⟨hr, hx, hkeeps⟩ := hstep x List.mem_cons_self s r hs hfirst
    obtain ⟨ht, hall, hlater⟩ :=
      ih hrest (fun y hy => hstep y (List.mem_cons_of_mem _ hy)) hr
    refine ⟨ht, fun y hy => ?_, fun y hy => hlater y (hkeeps y hy)⟩
    rcases List.mem_cons.mp hy with rfl | hy
    · exact hlater y hx
    · exact hall y hy

/-- By induction on the list: every element has its turn, between the turns of elements with other
ids. -/
theorem Succeeds.forM_turn {id : α → String} {P Q : S → Prop} {x : α}
    (h : Succeeds (xs.forM work) s answer t) (hids : (xs.map id).Nodup) (hx : x ∈ xs)
    (hbefore : ∀ y ∈ xs, id y ≠ id x → ∀ r u, P r → Succeeds (work y) r ⟨⟩ u → P u)
    (hturn : ∀ r u, P r → Succeeds (work x) r ⟨⟩ u → Q u)
    (hafter : ∀ y ∈ xs, id y ≠ id x → ∀ r u, Q r → Succeeds (work y) r ⟨⟩ u → Q u) (hs : P s) :
    Q t := by
  induction xs generalizing s with
  | nil => cases hx
  | cons y xs ih =>
    obtain ⟨hfresh, hrest⟩ := List.nodup_cons.mp hids
    obtain ⟨r, hfirst, hlater⟩ := succeeds_forM_cons_iff.mp h
    rcases List.mem_cons.mp hx with rfl | hx
    · refine hlater.forM_induction (fun z hz => ?_) (hturn s r hs hfirst)
      refine hafter z (List.mem_cons_of_mem _ hz) fun heq => hfresh ?_
      exact List.mem_map.mpr ⟨z, hz, heq⟩
    · have hne : id y ≠ id x := fun heq => hfresh (List.mem_map.mpr ⟨x, hx, heq.symm⟩)
      exact ih hlater hrest hx (fun z hz => hbefore z (List.mem_cons_of_mem _ hz))
        (fun z hz => hafter z (List.mem_cons_of_mem _ hz))
        (hbefore y List.mem_cons_self hne s r hs hfirst)

/-- By induction on the list: work on a list succeeds if the work on its first element always does,
and leads to where the work on the others may start. -/
theorem exists_succeeds_forM {P : List α → S → Prop}
    (hstep : ∀ x rest r, P (x :: rest) r → ∃ u, Succeeds (work x) r ⟨⟩ u ∧ P rest u)
    (hs : P xs s) : ∃ t, Succeeds (xs.forM work) s ⟨⟩ t := by
  induction xs generalizing s with
  | nil => exact ⟨s, succeeds_pure_iff.mpr ⟨rfl, rfl⟩⟩
  | cons x xs ih =>
    obtain ⟨r, hfirst, hr⟩ := hstep x xs s hs
    obtain ⟨t, hrest⟩ := ih hr
    exact ⟨t, succeeds_forM_cons_iff.mpr ⟨r, hfirst, hrest⟩⟩

/-- What the work on an element establishes, if there is one, holds afterwards if it held without
one. -/
theorem Succeeds.forM_option {option : Option α} {P : S → Prop}
    (h : Succeeds (option.forM work) s answer t)
    (hsome : ∀ x, option = some x → Succeeds (work x) s ⟨⟩ t → P t) (hs : P s) : P t := by
  cases option with
  | none =>
    obtain ⟨-, rfl⟩ := succeeds_pure_iff.mp h
    exact hs
  | some x => exact hsome x rfl h

/-- What the work on every element keeps, a fold over a list keeps. -/
theorem Succeeds.foldlM_induction {work : β → α → ExceptT ε (StateM S) β} {start : β}
    {P : S → Prop} (h : Succeeds (xs.foldlM work start) s b t)
    (hstep : ∀ x ∈ xs, ∀ c d r u, P r → Succeeds (work c x) r d u → P u) (hs : P s) : P t := by
  induction xs generalizing s start with
  | nil =>
    obtain ⟨-, rfl⟩ := succeeds_pure_iff.mp h
    exact hs
  | cons x xs ih =>
    rw [List.foldlM_cons, succeeds_bind_iff] at h
    obtain ⟨c, r, hfirst, hrest⟩ := h
    refine ih hrest ?_ (hstep x List.mem_cons_self start c s r hs hfirst)
    intro y hy
    exact hstep y (List.mem_cons_of_mem _ hy)

/-- What every step keeps, a fold that may fail keeps. -/
theorem foldlM_induction {work : β → α → Except ε β} {start : β} {P : β → Prop}
    (h : xs.foldlM work start = .ok b)
    (hstep : ∀ x ∈ xs, ∀ c d, P c → work c x = .ok d → P d) (hs : P start) : P b := by
  induction xs generalizing start with
  | nil =>
    obtain rfl := Except.ok.inj h
    exact hs
  | cons x xs ih =>
    rw [List.foldlM_cons] at h
    cases hfirst : work start x with
    | error fault =>
      rw [hfirst] at h
      cases h
    | ok c =>
      rw [hfirst] at h
      refine ih h ?_ (hstep x List.mem_cons_self start c hs hfirst)
      intro y hy
      exact hstep y (List.mem_cons_of_mem _ hy)

end GridRelief
