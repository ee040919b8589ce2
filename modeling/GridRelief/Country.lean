/-!
# Countries and borders

Two countries are near each other when few borders lie between them. The search follows borders
outwards from one country, breadth first: countries take their turns in the order in which they
have been met, and none is met twice.

## Main definitions

* `BorderGraph`: the borders between countries, in both directions.
* `BorderGraph.ofBorders`: the graph of a list of borders, where a border may be listed repeatedly.
* `BorderSearch`: how far a search along borders has come.
* `BorderGraph.advance`, `BorderGraph.search`: one turn of a search, and all of them.
* `BorderGraph.areNeighbors`: whether at most so many borders lie between two countries.
-/

namespace GridRelief

/-- A country or bidding zone, named by its code. -/
structure Country where
  code : String
  deriving DecidableEq, Repr, Ord

/-- The borders between countries; a border may be crossed in both directions. -/
structure BorderGraph where
  borders : List (Country × Country)
  deriving Repr

namespace BorderGraph

variable {g : BorderGraph} {c d : Country}

/-- The graph without borders. -/
def empty : BorderGraph := ⟨[]⟩

/-- Whether a country has a border. -/
def contains (g : BorderGraph) (c : Country) : Bool :=
  g.borders.any fun border => border.1 == c || border.2 == c

/-- The countries that have a border, each once. -/
def countries (g : BorderGraph) : List Country :=
  (g.borders.flatMap fun border => [border.1, border.2]).eraseDups

/-- The countries across the borders of a country. -/
def neighbors (g : BorderGraph) (c : Country) : List Country :=
  g.borders.filterMap fun border =>
    if border.1 == c then some border.2
    else if border.2 == c then some border.1
    else none

/-- Add a border, unless it is there in one of its directions. -/
def addBorder (g : BorderGraph) (c d : Country) : BorderGraph :=
  if (g.neighbors c).contains d then g else ⟨g.borders ++ [(c, d)]⟩

/-- The graph of a list of borders. -/
def ofBorders (borders : List (Country × Country)) : BorderGraph :=
  borders.foldl (fun g border => g.addBorder border.1 border.2) empty

theorem contains_iff : g.contains c = true ↔ ∃ d, (c, d) ∈ g.borders ∨ (d, c) ∈ g.borders := by
  simp only [contains, List.any_eq_true, Bool.or_eq_true, beq_iff_eq]
  constructor
  · rintro ⟨⟨x, y⟩, hborder, rfl | rfl⟩
    · exact ⟨y, .inl hborder⟩
    · exact ⟨x, .inr hborder⟩
  · rintro ⟨d, hborder | hborder⟩
    · exact ⟨_, hborder, .inl rfl⟩
    · exact ⟨_, hborder, .inr rfl⟩

theorem mem_countries : c ∈ g.countries ↔ g.contains c = true := by
  simp only [countries, contains, List.mem_eraseDups, List.mem_flatMap, List.mem_cons,
    List.not_mem_nil, or_false, List.any_eq_true, Bool.or_eq_true, beq_iff_eq, @eq_comm _ c]

/-- A country is across a border whichever of the two is named first. -/
theorem mem_neighbors : d ∈ g.neighbors c ↔ (c, d) ∈ g.borders ∨ (d, c) ∈ g.borders := by
  unfold neighbors
  rw [List.mem_filterMap]
  constructor
  · rintro ⟨⟨x, y⟩, hborder, hacross⟩
    dsimp only at hacross
    split at hacross
    · next hx =>
      obtain rfl := Option.some.inj hacross
      rw [beq_iff_eq] at hx
      exact .inl (hx ▸ hborder)
    · split at hacross
      · next hy =>
        obtain rfl := Option.some.inj hacross
        rw [beq_iff_eq] at hy
        exact .inr (hy ▸ hborder)
      · cases hacross
  · rintro (hborder | hborder)
    · exact ⟨_, hborder, by simp⟩
    · refine ⟨_, hborder, ?_⟩
      by_cases hself : d = c
      · simp [hself]
      · simp [hself]

theorem mem_countries_of_mem_neighbors (h : d ∈ g.neighbors c) : d ∈ g.countries :=
  mem_countries.mpr (contains_iff.mpr ⟨c, (mem_neighbors.mp h).symm⟩)

end BorderGraph

/-! ### Searches along borders -/

/-- A search along borders: the countries met so far, and those of them that wait for their turn,
with the number of borders that were crossed to them. -/
structure BorderSearch where
  met : List Country
  waiting : List (Country × Nat)

namespace BorderSearch

/-- A search that sets out from a country. -/
def outOf (c : Country) : BorderSearch := ⟨[c], [(c, 0)]⟩

/-- Meet a country so many borders away, unless it has been met before. -/
def meet (s : BorderSearch) (distance : Nat) (c : Country) : BorderSearch :=
  if s.met.contains c then s
  else { met := c :: s.met, waiting := s.waiting ++ [(c, distance)] }

/-- Meet countries so many borders away, one after the other. -/
def meetAll (s : BorderSearch) (distance : Nat) (cs : List Country) : BorderSearch :=
  cs.foldl (fun s c => s.meet distance c) s

end BorderSearch

namespace BorderGraph

variable {g : BorderGraph} {s : BorderSearch} {maxBorders : Nat}

/-- The first of the waiting countries takes its turn: the countries across its borders are met,
if another border may be crossed. -/
def advance (g : BorderGraph) (maxBorders : Nat) (s : BorderSearch) : BorderSearch :=
  match s.waiting with
  | [] => s
  | (country, distance) :: waiting =>
    if distance == maxBorders then { s with waiting }
    else { s with waiting }.meetAll (distance + 1) (g.neighbors country)

/-- How many turns a search has left at most: each country waits once. -/
def turnsLeft (g : BorderGraph) (s : BorderSearch) : Nat :=
  (g.countries.filter fun c => !s.met.contains c).length + s.waiting.length

/-- A country that is met is one less to be met, and one more to wait. -/
theorem turnsLeft_meet_le {c : Country} (hc : c ∈ g.countries) (distance : Nat) :
    g.turnsLeft (s.meet distance c) ≤ g.turnsLeft s := by
  unfold BorderSearch.meet
  split
  · exact Nat.le_refl _
  · next hmet =>
    have hsplit : (g.countries.filter fun x => !(c :: s.met).contains x) =
        (g.countries.filter fun x => !s.met.contains x).filter (· != c) := by
      rw [List.filter_filter]
      refine List.filter_congr fun x _ => ?_
      simp only [List.contains_cons, Bool.not_or, bne]
    have hfewer := List.length_filter_lt_length_iff_exists.mpr
      (⟨c, List.mem_filter.mpr ⟨hc, by simpa using hmet⟩, by simp⟩ :
        ∃ x ∈ g.countries.filter fun x => !s.met.contains x, ¬(x != c) = true)
    unfold turnsLeft
    rw [hsplit, List.length_append, List.length_singleton]
    omega

theorem turnsLeft_meetAll_le {cs : List Country} (hcs : ∀ c ∈ cs, c ∈ g.countries)
    (distance : Nat) : g.turnsLeft (s.meetAll distance cs) ≤ g.turnsLeft s := by
  unfold BorderSearch.meetAll
  induction cs generalizing s with
  | nil => exact Nat.le_refl _
  | cons c cs ih =>
    exact Nat.le_trans (ih fun d hd => hcs d (List.mem_cons_of_mem _ hd))
      (turnsLeft_meet_le (hcs c List.mem_cons_self) distance)

/-- A turn that is taken is not left. -/
theorem turnsLeft_advance_lt (h : s.waiting ≠ []) :
    g.turnsLeft (g.advance maxBorders s) < g.turnsLeft s := by
  unfold advance
  split
  · next hwaiting => exact absurd hwaiting h
  · next country distance waiting hwaiting =>
    have htaken : g.turnsLeft { s with waiting } < g.turnsLeft s := by
      unfold turnsLeft
      rw [hwaiting, List.length_cons]
      exact Nat.lt_succ_self _
    split
    · exact htaken
    · exact Nat.lt_of_le_of_lt
        (turnsLeft_meetAll_le (fun d hd => mem_countries_of_mem_neighbors hd) _) htaken

/-- Whether a search comes to a country in one of its turns. -/
def search (g : BorderGraph) (goal : Country) (maxBorders : Nat) (s : BorderSearch) : Bool :=
  match _ : s.waiting with
  | [] => false
  | (country, _) :: _ => country == goal || g.search goal maxBorders (g.advance maxBorders s)
termination_by g.turnsLeft s
decreasing_by
  next hwaiting => exact turnsLeft_advance_lt (by simp [hwaiting])

/-- Whether at most so many borders lie between two countries; a country is near itself, and one
without borders is near no other. -/
def areNeighbors (g : BorderGraph) (a b : Country) (maxBorders : Nat) : Bool :=
  a == b || (g.contains a && g.contains b && g.search b maxBorders (.outOf a))

end BorderGraph

end GridRelief
