import Mathlib.Data.List.Induction
import Mathlib.Data.List.Nodup
import Mathlib.Data.List.Perm.Subperm
import GridRelief.Table

/-!
# Tables and sets of names

A table lists each name once. So a table of a list of entries has all of them, if their names are
different, and a set of names is no larger than a list that has its names.

* `Table.getElem?_mapValues`: the values of a table with changed values.
* `Table.getElem?_insert_of_ne`, `Table.getElem?_insert_congr`: what stays when a name is written.
* `NameSet.mem_ofNames`: the names of a set of a list.
* `NameSet.size_le_length`, `NameSet.size_le_of_subset`: bounds on the size of a set.
-/

namespace GridRelief

/-! ### Tables -/

namespace Table

variable {V W : Type} {key : String} {value : V}

/-- A table has the value of a name if all entries under it have that value. -/
theorem getElem?_ofPairs_of_agree {entries : List (String × V)} (h : (key, value) ∈ entries)
    (hagree : ∀ entry ∈ entries, entry.1 = key → entry.2 = value) :
    (ofPairs entries)[key]? = some value := by
  induction entries using List.reverseRecOn with
  | nil => cases h
  | append_singleton entries last ih =>
    have hlast : ofPairs (entries ++ [last]) = (ofPairs entries).insert last.1 last.2 := by
      unfold ofPairs
      rw [List.foldl_append]
      rfl
    rw [hlast, Std.ExtTreeMap.getElem?_insert]
    simp only [Std.LawfulEqOrd.compare_eq_iff_eq]
    by_cases hkey : last.1 = key
    · rw [if_pos hkey, hagree last (List.mem_append_right _ List.mem_cons_self) hkey]
    · rw [if_neg hkey]
      refine ih ((List.mem_append.mp h).resolve_right fun hmem => hkey ?_)
        fun entry hentry => hagree entry (List.mem_append_left _ hentry)
      rw [← List.mem_singleton.mp hmem]

/-- A table of entries under different names has all of them. -/
theorem getElem?_ofPairs {entries : List (String × V)} (hnodup : (entries.map Prod.fst).Nodup)
    (h : (key, value) ∈ entries) : (ofPairs entries)[key]? = some value := by
  refine getElem?_ofPairs_of_agree h fun entry hentry hkey => ?_
  rw [List.inj_on_of_nodup_map hnodup hentry h hkey]

/-- A table with changed values has the changed value of each name. -/
theorem getElem?_mapValues {f : String → V → W} {table : Table V} (h : table[key]? = some value) :
    (table.mapValues f)[key]? = some (f key value) := by
  refine getElem?_ofPairs ?_ (List.mem_map.mpr
    ⟨(key, value), Std.ExtTreeMap.mem_toList_iff_getElem?_eq_some.mpr h, rfl⟩)
  have hkeys : (table.toList.map Prod.fst).Nodup := by
    rw [Std.ExtTreeMap.map_fst_toList_eq_keys]
    exact Std.ExtTreeMap.nodup_keys
  rwa [List.map_map]

/-- A value is replaced where the table has one. -/
theorem replace?_eq_some_iff {table changed : Table V} :
    table.replace? key value = some changed ↔
      table.contains key = true ∧ changed = table.insert key value := by
  unfold replace?
  by_cases hcontains : table.contains key
  · simp [hcontains, eq_comm]
  · simp [hcontains]

/-- Writing under one name keeps what is under the others. -/
theorem getElem?_insert_of_ne {table : Table V} {other : String} (h : key ≠ other) :
    (table.insert key value)[other]? = table[other]? := by
  rw [Std.ExtTreeMap.getElem?_insert, if_neg]
  exact fun heq => h (Std.LawfulEqOrd.compare_eq_iff_eq.mp heq)

/-- Two tables in which the same is written have the same under a name, if they have had the same
under it or it is the one that is written. -/
theorem getElem?_insert_congr {first second : Table V} {other : String}
    (h : key ≠ other → first[other]? = second[other]?) :
    (first.insert key value)[other]? = (second.insert key value)[other]? := by
  by_cases heq : key = other
  · subst heq
    rw [Std.ExtTreeMap.getElem?_insert_self, Std.ExtTreeMap.getElem?_insert_self]
  · rw [getElem?_insert_of_ne heq, getElem?_insert_of_ne heq, h heq]

/-- Writing what a table has changes nothing. -/
theorem insert_eq_self {table : Table V} (h : table[key]? = some value) :
    table.insert key value = table := by
  refine Std.ExtTreeMap.ext_getElem? fun other => ?_
  rw [Std.ExtTreeMap.getElem?_insert]
  split
  · next heq => rw [← Std.LawfulEqOrd.compare_eq_iff_eq.mp heq, h]
  · rfl

end Table

/-! ### Sets of names -/

namespace NameSet

/-- The names of a list. -/
@[simp] theorem mem_ofNames {names : List String} {name : String} :
    name ∈ ofNames names ↔ name ∈ names := by
  unfold ofNames
  suffices h : ∀ start : NameSet,
      name ∈ names.foldl (fun set name => set.insert name) start ↔ name ∈ start ∨ name ∈ names by
    simpa using h ∅
  induction names with
  | nil => intro start; simp
  | cons first names ih =>
    intro start
    rw [List.foldl_cons, ih, Std.ExtTreeSet.mem_insert, Std.LawfulEqOrd.compare_eq_iff_eq]
    constructor
    · rintro ((rfl | hstart) | hnames)
      · exact .inr List.mem_cons_self
      · exact .inl hstart
      · exact .inr (List.mem_cons_of_mem _ hnames)
    · rintro (hstart | hnames)
      · exact .inl (.inr hstart)
      · rcases List.mem_cons.mp hnames with rfl | hrest
        · exact .inl (.inl rfl)
        · exact .inr hrest

/-- A set lists no name twice. -/
theorem nodup_toList (set : NameSet) : set.toList.Nodup := by
  refine (Std.ExtTreeSet.distinct_toList (t := set)).imp ?_
  rintro a b hne rfl
  exact hne Std.ReflOrd.compare_self

/-- A set of names is no larger than a list that has its names. -/
theorem size_le_length {set : NameSet} {names : List String} (h : ∀ name ∈ set, name ∈ names) :
    set.size ≤ names.length := by
  rw [← Std.ExtTreeSet.length_toList]
  refine (List.Nodup.subperm (nodup_toList set) ?_).length_le
  intro name hname
  exact h name (Std.ExtTreeSet.mem_toList.mp hname)

/-- A set of names is no larger than one that has its names. -/
theorem size_le_of_subset {small large : NameSet} (h : ∀ name ∈ small, name ∈ large) :
    small.size ≤ large.size := by
  rw [← Std.ExtTreeSet.length_toList (t := large)]
  refine size_le_length fun name hname => ?_
  exact Std.ExtTreeSet.mem_toList.mpr (h name hname)

end NameSet

end GridRelief
