import Mathlib.Combinatorics.SimpleGraph.Paths
import Mathlib.Logic.Function.Iterate
import GridRelief.Country

/-!
# Distances along borders

The borders make the countries a graph, and being near is being joined by a short path in it. The
search is right because it goes through the countries by their distance: while it is at those `k`
borders away, it has met all that are at most as far, and of those one border further it has met
the ones next to a country that has had its turn. So it meets a country at its distance and not
later, and stopping at a distance leaves out nothing that is nearer.

* `BorderGraph.graph`: the countries as a graph.
* `BorderGraph.Within`: a country can be reached across at most so many borders.
* `BorderGraph.Stage`: what holds while a search is at the countries of one distance.
* `BorderGraph.Stage.turn`, `BorderGraph.Stage.further`: it is kept by a turn and from one distance
  to the next.
* `BorderGraph.areNeighbors_iff_path`: what being near means.
-/

namespace GridRelief

namespace BorderGraph

variable {g : BorderGraph} {a b c d goal : Country} {k m n : ℕ} {now next : List Country}
  {s : BorderSearch}

/-! ### Countries as a graph -/

/-- Countries are adjacent when there is a border between them. It does not matter which one a
border names first and how often it is listed, and a border of a country with itself leads
nowhere. -/
def graph (g : BorderGraph) : SimpleGraph Country := .fromRel fun c d => (c, d) ∈ g.borders

theorem graph_adj : g.graph.Adj c d ↔ c ≠ d ∧ d ∈ g.neighbors c := by
  rw [graph, SimpleGraph.fromRel_adj, mem_neighbors]

theorem contains_of_adj (h : g.graph.Adj c d) : g.contains c = true :=
  contains_iff.mpr ⟨d, mem_neighbors.mp (graph_adj.mp h).2⟩

/-- A border that is added is there in both directions, and the others are still there. -/
theorem mem_neighbors_addBorder : d ∈ (g.addBorder a b).neighbors c ↔
    d ∈ g.neighbors c ∨ (a, b) = (c, d) ∨ (a, b) = (d, c) := by
  unfold addBorder
  split
  · next hthere =>
    have hab : (a, b) ∈ g.borders ∨ (b, a) ∈ g.borders :=
      mem_neighbors.mp (List.contains_iff_mem.mp hthere)
    constructor
    · exact .inl
    · rintro (hd | hsame | hsame)
      · exact hd
      · obtain ⟨rfl, rfl⟩ := Prod.mk.inj hsame
        exact mem_neighbors.mpr hab
      · obtain ⟨rfl, rfl⟩ := Prod.mk.inj hsame
        exact mem_neighbors.mpr hab.symm
  · simp only [mem_neighbors, List.mem_append, List.mem_singleton, @eq_comm _ _ (a, b),
      or_or_or_comm]

theorem mem_neighbors_foldl_addBorder {borders : List (Country × Country)} :
    d ∈ (borders.foldl (fun g border => g.addBorder border.1 border.2) g).neighbors c ↔
      d ∈ g.neighbors c ∨ (c, d) ∈ borders ∨ (d, c) ∈ borders := by
  induction borders generalizing g with
  | nil => simp
  | cons border borders ih =>
    rw [List.foldl_cons, ih, mem_neighbors_addBorder, List.mem_cons, List.mem_cons, or_assoc,
      or_or_or_comm, @eq_comm _ (c, d), @eq_comm _ (d, c)]

/-- It makes no difference that a border is added only once. -/
theorem graph_ofBorders (borders : List (Country × Country)) :
    (ofBorders borders).graph = .fromRel fun c d => (c, d) ∈ borders := by
  ext c d
  rw [graph_adj, SimpleGraph.fromRel_adj, ofBorders, mem_neighbors_foldl_addBorder]
  simp [neighbors, empty]

/-- One country can be reached from another across at most so many borders. -/
def Within (g : BorderGraph) (n : ℕ) (a b : Country) : Prop :=
  ∃ way : g.graph.Walk a b, way.length ≤ n

namespace Within

theorem mono (h : g.Within m a b) (hmn : m ≤ n) : g.Within n a b := by
  obtain ⟨way, hway⟩ := h
  exact ⟨way, hway.trans hmn⟩

theorem symm (h : g.Within n a b) : g.Within n b a := by
  obtain ⟨way, hway⟩ := h
  exact ⟨way.reverse, way.length_reverse.trans_le hway⟩

end Within

theorem within_zero_iff : g.Within 0 a b ↔ a = b := by
  constructor
  · rintro ⟨way, hway⟩
    exact SimpleGraph.Walk.eq_of_length_eq_zero (Nat.le_zero.mp hway)
  · rintro rfl
    exact ⟨.nil, le_rfl⟩

/-- The last border of a way is crossed from a country that is one border nearer. -/
theorem within_succ_iff :
    g.Within (n + 1) a b ↔ g.Within n a b ∨ ∃ c, g.Within n a c ∧ g.graph.Adj c b := by
  constructor
  · rintro ⟨way, hway⟩
    cases way with
    | nil => exact .inl ⟨.nil, Nat.zero_le n⟩
    | cons hfirst rest =>
      obtain ⟨c, before, hlast, heq⟩ := SimpleGraph.Walk.exists_cons_eq_concat hfirst rest
      rw [heq, SimpleGraph.Walk.length_concat] at hway
      exact .inr ⟨c, ⟨before, Nat.le_of_succ_le_succ hway⟩, hlast⟩
  · rintro (hnear | ⟨c, ⟨before, hbefore⟩, hlast⟩)
    · exact hnear.mono n.le_succ
    · refine ⟨before.concat hlast, ?_⟩
      rw [SimpleGraph.Walk.length_concat]
      exact Nat.succ_le_succ hbefore

/-- A way need not come to a country twice. -/
theorem within_iff_path :
    g.Within n a b ↔ ∃ way : g.graph.Walk a b, way.IsPath ∧ way.length ≤ n := by
  constructor
  · rintro ⟨way, hway⟩
    exact ⟨way.bypass, way.bypass_isPath, way.length_bypass_le_length.trans hway⟩
  · rintro ⟨way, -, hway⟩
    exact ⟨way, hway⟩

/-- A country that can be reached from another one has a border. -/
theorem Within.contains_right (h : g.Within n a b) (hab : a ≠ b) : g.contains b = true := by
  induction n with
  | zero => exact absurd (within_zero_iff.mp h) hab
  | succ n ih =>
    rcases within_succ_iff.mp h with hnear | ⟨c, -, hlast⟩
    · exact ih hnear
    · exact contains_of_adj hlast.symm

/-! ### Meeting countries -/

theorem mem_met_meet {distance : ℕ} : d ∈ (s.meet distance c).met ↔ d ∈ s.met ∨ d = c := by
  unfold BorderSearch.meet
  split
  · next hmet =>
    rw [List.contains_iff_mem] at hmet
    constructor
    · exact .inl
    · rintro (hd | rfl)
      · exact hd
      · exact hmet
  · rw [List.mem_cons, or_comm]

/-- Those of some countries that are met for the first time wait behind the others. -/
theorem exists_waiting_meetAll (s : BorderSearch) (distance : ℕ) (cs : List Country) :
    ∃ fresh, (s.meetAll distance cs).waiting = s.waiting ++ fresh.map (·, distance) ∧
      fresh ⊆ cs ∧ ∀ d, d ∈ (s.meetAll distance cs).met ↔ d ∈ s.met ∨ d ∈ fresh := by
  unfold BorderSearch.meetAll
  induction cs generalizing s with
  | nil => exact ⟨[], by simp⟩
  | cons c cs ih =>
    obtain ⟨fresh, hwaiting, hfresh, hmet⟩ := ih (s.meet distance c)
    rw [List.foldl_cons]
    by_cases hc : c ∈ s.met
    · have hsame : s.meet distance c = s := by
        unfold BorderSearch.meet
        rw [if_pos (List.contains_iff_mem.mpr hc)]
      rw [hsame] at hwaiting hmet ⊢
      exact ⟨fresh, hwaiting, fun d hd => List.mem_cons_of_mem _ (hfresh hd), hmet⟩
    · refine ⟨c :: fresh, ?_, List.cons_subset_cons c hfresh, fun d => ?_⟩
      · rw [hwaiting, BorderSearch.meet, if_neg (by simpa using hc)]
        simp
      · rw [hmet, mem_met_meet, List.mem_cons, or_assoc]

theorem mem_met_meetAll {distance : ℕ} {cs : List Country} :
    d ∈ (s.meetAll distance cs).met ↔ d ∈ s.met ∨ d ∈ cs := by
  unfold BorderSearch.meetAll
  induction cs generalizing s with
  | nil => simp
  | cons c cs ih => rw [List.foldl_cons, ih, mem_met_meet, List.mem_cons, or_assoc]

/-! ### Stages of a search -/

/-- A search out of `a` that may cross `n` borders is at the countries `k` borders away. Of those,
`now` still wait, and `next` have been met one border further. -/
structure Stage (g : BorderGraph) (a goal : Country) (n k : ℕ) (now next : List Country)
    (s : BorderSearch) : Prop where
  waiting : s.waiting = now.map (·, k) ++ next.map (·, k + 1)
  met : ∀ c, c ∈ s.met ↔ g.Within k a c ∨ c ∈ next
  within_now : ∀ c ∈ now, g.Within k a c
  within_next : ∀ c ∈ next, g.Within (k + 1) a c
  le : k ≤ n
  next_eq_nil : k = n → next = []
  /-- Across the borders of a country that has had its turn all is met. -/
  followed : k < n → ∀ c, g.Within k a c → c ∉ now → ∀ d, g.graph.Adj c d → d ∈ s.met
  goal_waits : g.Within k a goal → goal ∈ now

namespace Stage

theorem outOf (g : BorderGraph) (a goal : Country) (n : ℕ) :
    g.Stage a goal n 0 [a] [] (.outOf a) := by
  constructor
  case waiting => rfl
  case met => simp [BorderSearch.outOf, within_zero_iff, eq_comm]
  case within_now => simp [within_zero_iff]
  case within_next => simp
  case le => exact n.zero_le
  case next_eq_nil => exact fun _ => rfl
  case followed =>
    intro _ c hc hnow
    rw [within_zero_iff.mp hc] at hnow
    exact absurd List.mem_cons_self hnow
  case goal_waits =>
    intro hgoal
    rw [within_zero_iff.mp hgoal]
    exact List.mem_cons_self

/-- When all countries of a distance have had their turn, the search is at the next distance. -/
theorem further (h : g.Stage a goal n k [] next s) (hnext : next ≠ []) :
    g.Stage a goal n (k + 1) next [] s := by
  have hlt : k < n := lt_of_le_of_ne h.le fun heq => hnext (h.next_eq_nil heq)
  have hmet : ∀ c, c ∈ s.met ↔ g.Within (k + 1) a c := by
    intro c
    constructor
    · intro hc
      rcases (h.met c).mp hc with hnear | hc
      · exact hnear.mono k.le_succ
      · exact h.within_next c hc
    · intro hc
      rcases within_succ_iff.mp hc with hnear | ⟨d, hd, hdc⟩
      · exact (h.met c).mpr (.inl hnear)
      · exact h.followed hlt d hd List.not_mem_nil c hdc
  constructor
  case waiting => simpa using h.waiting
  case met => simpa using hmet
  case within_now => exact h.within_next
  case within_next => simp
  case le => exact hlt
  case next_eq_nil => exact fun _ => rfl
  case followed =>
    intro _ c hc hcnext
    have hnear := ((h.met c).mp ((hmet c).mpr hc)).resolve_right hcnext
    exact h.followed hlt c hnear List.not_mem_nil
  case goal_waits =>
    intro hgoal
    rcases (h.met goal).mp ((hmet goal).mpr hgoal) with hnear | hmem
    · exact absurd (h.goal_waits hnear) List.not_mem_nil
    · exact hmem

/-- The country whose turn it is was met at the distance where the search is. -/
theorem exists_of_waiting {distance : ℕ} {rest : List (Country × ℕ)}
    (h : g.Stage a goal n k now next s) (hwaiting : s.waiting = (c, distance) :: rest) :
    ∃ now next, g.Stage a goal n distance (c :: now) next s := by
  have heq := h.waiting.symm.trans hwaiting
  cases now with
  | cons first now =>
    obtain ⟨hfirst, -⟩ := List.cons.inj heq
    obtain ⟨rfl, rfl⟩ := Prod.mk.inj hfirst
    exact ⟨now, next, h⟩
  | nil =>
    cases next with
    | nil => cases heq
    | cons first next =>
      obtain ⟨hfirst, -⟩ := List.cons.inj heq
      obtain ⟨rfl, rfl⟩ := Prod.mk.inj hfirst
      exact ⟨next, [], h.further (List.cons_ne_nil _ _)⟩

/-- A turn is taken by another country than the goal. -/
theorem turn (h : g.Stage a goal n k (c :: now) next s) (hc : c ≠ goal) :
    ∃ next, g.Stage a goal n k now next (g.advance n s) := by
  have hgoal : g.Within k a goal → goal ∈ now := fun hnear =>
    (List.mem_cons.mp (h.goal_waits hnear)).resolve_left (Ne.symm hc)
  have hnow : ∀ d ∈ now, g.Within k a d := fun d hd => h.within_now d (List.mem_cons_of_mem _ hd)
  unfold advance
  rw [h.waiting, List.map_cons, List.cons_append]
  dsimp only
  split
  · next hk =>
    rw [beq_iff_eq] at hk
    exact ⟨next, rfl, h.met, hnow, h.within_next, h.le, h.next_eq_nil,
      fun hlt => absurd hk hlt.ne, hgoal⟩
  · next hk =>
    rw [beq_iff_eq] at hk
    obtain ⟨fresh, hwaiting, hfresh, hmet⟩ := exists_waiting_meetAll
      { s with waiting := now.map (·, k) ++ next.map (·, k + 1) } (k + 1) (g.neighbors c)
    refine ⟨next ++ fresh, ?_, fun d => ?_, hnow, fun d hd => ?_, h.le, fun heq => absurd heq hk,
      fun hlt d hd hdnow e hde => ?_, hgoal⟩
    · rw [hwaiting, List.map_append, List.append_assoc]
    · rw [hmet, h.met, List.mem_append, or_assoc]
    · rcases List.mem_append.mp hd with hd | hd
      · exact h.within_next d hd
      · -- it is across a border of the country whose turn it is, or that country itself
        have hcnear := h.within_now c List.mem_cons_self
        by_cases hcd : c = d
        · exact (hcd ▸ hcnear).mono k.le_succ
        · exact within_succ_iff.mpr (.inr ⟨c, hcnear, graph_adj.mpr ⟨hcd, hfresh hd⟩⟩)
    · rw [mem_met_meetAll]
      by_cases hdc : d = c
      · exact .inr (hdc ▸ (graph_adj.mp hde).2)
      · exact .inl (h.followed hlt d hd (by simp [hdc, hdnow]) e hde)

/-- When no country waits, the search has been as far as it may, or it has met all that can be
reached. -/
theorem not_within (h : g.Stage a goal n k [] [] s) : ¬g.Within n a goal := by
  have hgoal : ¬g.Within k a goal := fun hnear => List.not_mem_nil (h.goal_waits hnear)
  rcases h.le.eq_or_lt with rfl | hlt
  · exact hgoal
  · have hall : ∀ m c, g.Within m a c → g.Within k a c := by
      intro m
      induction m with
      | zero => exact fun c hc => hc.mono k.zero_le
      | succ m ih =>
        intro c hc
        rcases within_succ_iff.mp hc with hnear | ⟨d, hd, hdc⟩
        · exact ih c hnear
        · have hmet := h.followed hlt d (ih d hd) List.not_mem_nil c hdc
          exact ((h.met c).mp hmet).resolve_right List.not_mem_nil
    exact fun hnear => hgoal (hall n goal hnear)

/-- A search finds what is within the borders that it may cross. -/
theorem search_iff (h : g.Stage a goal n k now next s) :
    g.search goal n s = true ↔ g.Within n a goal := by
  fun_induction search g goal n s generalizing k now next with
  | case1 s hwaiting =>
    obtain ⟨rfl, rfl⟩ : now = [] ∧ next = [] := by simpa [h.waiting] using hwaiting
    simp [h.not_within]
  | case2 s country distance rest hwaiting ih =>
    obtain ⟨now, next, hstage⟩ := h.exists_of_waiting hwaiting
    by_cases hgoal : country = goal
    · subst hgoal
      simpa using (hstage.within_now country List.mem_cons_self).mono hstage.le
    · obtain ⟨next, hturn⟩ := hstage.turn hgoal
      simpa [hgoal] using ih hturn

end Stage

/-! ### The end of a search -/

/-- The turns come to an end: no country waits when as many have been taken as were left. -/
theorem waiting_iterate_advance (h : g.turnsLeft s ≤ m) :
    ((g.advance n)^[m] s).waiting = [] := by
  induction m generalizing s with
  | zero =>
    unfold turnsLeft at h
    exact List.length_eq_zero_iff.mp (Nat.eq_zero_of_add_eq_zero_left (Nat.le_zero.mp h))
  | succ m ih =>
    by_cases hwaiting : s.waiting = []
    · have hsame : g.advance n s = s := by
        unfold advance
        rw [hwaiting]
      rw [Function.iterate_fixed hsame, hwaiting]
    · rw [Function.iterate_succ_apply]
      exact ih (Nat.lt_succ_iff.mp ((turnsLeft_advance_lt hwaiting).trans_le h))

/-- A search out of a country takes a turn for that country and one for each other at most. -/
theorem turnsLeft_outOf_le : g.turnsLeft (.outOf a) ≤ g.countries.length + 1 :=
  Nat.add_le_add_right (List.length_filter_le _ _) 1

/-! ### Countries near each other -/

theorem areNeighbors_iff_within : g.areNeighbors a b n = true ↔ g.Within n a b := by
  unfold areNeighbors
  rw [Bool.or_eq_true, beq_iff_eq, Bool.and_eq_true, Bool.and_eq_true,
    (Stage.outOf g a b n).search_iff]
  constructor
  · rintro (rfl | ⟨-, hwithin⟩)
    · exact (within_zero_iff.mpr rfl).mono n.zero_le
    · exact hwithin
  · intro h
    by_cases hab : a = b
    · exact .inl hab
    · exact .inr ⟨⟨h.symm.contains_right (Ne.symm hab), h.contains_right hab⟩, h⟩

/-- Countries are near each other when they are the same, or when a path of at most so many borders
joins them in the graph of the listed borders. So it does not matter which one is named first, and
countries stay near when more borders are allowed. A search for a country ends: no other one waits
when as many turns have been taken as there are countries, and one for a country without borders. -/
theorem areNeighbors_iff_path (borders : List (Country × Country)) (a b : Country) (n : ℕ) :
    let g := ofBorders borders
    let graph : SimpleGraph Country := .fromRel fun c d => (c, d) ∈ borders
    (g.areNeighbors a b n = true ↔ a = b ∨ ∃ way : graph.Walk a b, way.IsPath ∧ way.length ≤ n) ∧
    g.areNeighbors b a n = g.areNeighbors a b n ∧
    (∀ m, n ≤ m → g.areNeighbors a b n = true → g.areNeighbors a b m = true) ∧
    ((g.advance n)^[g.countries.length + 1] (.outOf a)).waiting = [] := by
  intro g graph
  have hgraph : graph = g.graph := (graph_ofBorders borders).symm
  refine ⟨?_, ?_, fun m hnm h => ?_, waiting_iterate_advance turnsLeft_outOf_le⟩
  · rw [hgraph, areNeighbors_iff_within, ← within_iff_path]
    refine ⟨.inr, ?_⟩
    rintro (rfl | h)
    · exact (within_zero_iff.mpr rfl).mono n.zero_le
    · exact h
  · rw [Bool.eq_iff_iff, areNeighbors_iff_within, areNeighbors_iff_within]
    exact ⟨Within.symm, Within.symm⟩
  · rw [areNeighbors_iff_within] at h ⊢
    exact h.mono hnm

end BorderGraph

end GridRelief
