import Mathlib.Algebra.Order.Ring.Int
import Mathlib.Data.List.Nodup
import GridRelief.Json.Record
import GridRelief.Proofs.Tables

/-!
# Reading what has been written

A record that is written with all its fields, in their order and each once, gives them back to its
decoder. Lists and tables read back if their entries do.

* `Json.record?_obj`: the fields of a record.
* `Json.list?_map`, `Json.table?_map`: lists and tables entry by entry.
* `Json.entries?_eq_none`: a map whose keys are not read from texts is refused.
-/

namespace GridRelief

/-! ### Tables -/

namespace Table

variable {V : Type} {key : String}

theorem getElem?_ofPairs_eq_none {entries : List (String × V)} (h : key ∉ entries.map Prod.fst) :
    (ofPairs entries)[key]? = none := by
  induction entries using List.reverseRecOn with
  | nil => simp [ofPairs]
  | append_singleton entries last ih =>
    rw [List.map_append, List.mem_append, not_or] at h
    have hlast : last.1 ≠ key := fun heq => h.2 (by simp [heq])
    unfold ofPairs at ih ⊢
    rw [List.foldl_append, List.foldl_cons, List.foldl_nil, Std.ExtTreeMap.getElem?_insert,
      if_neg (by simpa using hlast)]
    exact ih h.1

/-- A table is the table of its entries. -/
@[simp] theorem ofPairs_toList (table : Table V) : ofPairs table.toList = table := by
  have hkeys : table.toList.map Prod.fst = table.keys := Std.ExtTreeMap.map_fst_toList_eq_keys
  refine Std.ExtTreeMap.ext_getElem? fun key => ?_
  cases hentry : table[key]? with
  | none =>
    refine getElem?_ofPairs_eq_none ?_
    rw [hkeys, Std.ExtTreeMap.mem_keys, Std.ExtTreeMap.mem_iff_isSome_getElem?, hentry]
    simp
  | some value =>
    refine getElem?_ofPairs ?_ (Std.ExtTreeMap.mem_toList_iff_getElem?_eq_some.mpr hentry)
    rw [hkeys]
    exact Std.ExtTreeMap.nodup_keys

end Table

/-! ### Fields -/

namespace Field

variable {K α : Type} {value : Decoder K α} {j : Json K} {default : α}

@[simp] theorem required?_present : required? value (.present j) = value j := rfl

@[simp] theorem optional?_present : optional? value (.present j) = Json.nullable? value j := rfl

@[simp] theorem orDefault?_present : orDefault? default value (.present j) = value j := rfl

end Field

namespace Json

variable {K κ α : Type}

/-- The field of a name that is written once. -/
theorem field?_eq_present {fields : List (String × Json K)} {field : String × Json K}
    (hnodup : (fields.map Prod.fst).Nodup) (h : field ∈ fields) :
    field? fields field.1 = some (.present field.2) := by
  have hfilter : fields.filter (·.1 == field.1) = [field] := by
    induction fields with
    | nil => cases h
    | cons first rest ih =>
      obtain ⟨hfirst, hrest⟩ := List.nodup_cons.mp hnodup
      rcases List.mem_cons.mp h with rfl | hmem
      · have hnone : rest.filter (·.1 == field.1) = [] :=
          List.filter_eq_nil_iff.mpr fun other hother hsame =>
            hfirst (List.mem_map.mpr ⟨other, hother, by simpa using hsame⟩)
        rw [List.filter_cons_of_pos (by simp), hnone]
      · have hne : first.1 ≠ field.1 := fun heq => hfirst (heq ▸ List.mem_map_of_mem hmem)
        rw [List.filter_cons_of_neg (by simpa using hne), ih hrest hmem]
  simp [field?, hfilter]

/-- Every item of a list is read. -/
theorem mapM_eq_some {α β : Type} {read : α → Option β} {value : α → β} {items : List α}
    (h : ∀ item ∈ items, read item = some (value item)) :
    items.mapM read = some (items.map value) := by
  induction items with
  | nil => rfl
  | cons item items ih =>
    rw [List.mapM_cons, h item List.mem_cons_self,
      ih fun other hother => h other (List.mem_cons_of_mem _ hother)]
    rfl

/-- A record written with its own names gives its fields back. -/
theorem record?_obj {names : List String} {fields : List (String × Json K)}
    (hnames : fields.map Prod.fst = names) (hnodup : names.Nodup) :
    record? names (.obj fields) = some (fields.map fun field => .present field.2) := by
  subst hnames
  change (fields.map Prod.fst).mapM (field? fields) = _
  rw [List.mapM_map]
  exact mapM_eq_some fun field hfield => field?_eq_present hnodup hfield

/-! ### Plain values, lists and tables -/

@[simp] theorem text?_str {text : String} : text? (K := K) (.str text) = some text := rfl

@[simp] theorem bool?_bool {value : Bool} : bool? (K := K) (.bool value) = some value := rfl

@[simp] theorem nullable?_ofText? {text : Option String} :
    nullable? text? (ofText? (K := K) text) = some text := by
  cases text <;> rfl

theorem nat32?_int {n : Nat} (h : n < 2 ^ 32) : nat32? (K := K) (.int n) = some n := by
  have hbounds : (0 : Int) ≤ n ∧ (n : Int) ≤ 4294967295 := by omega
  simp [nat32?, intWithin?, hbounds]

theorem int32?_int {n : Int} (h : -2 ^ 31 ≤ n ∧ n < 2 ^ 31) :
    int32? (K := K) (.int n) = some n := by
  have hbounds : -2147483648 ≤ n ∧ n ≤ 2147483647 := by omega
  simp [int32?, intWithin?, hbounds]

/-- No integer is read from a text. -/
theorem int32?_str (text : String) : int32? (K := K) (.str text) = none := rfl

/-- A list reads back if its items do. -/
theorem list?_map {write : α → Json K} {read : Decoder K α} {items : List α}
    (h : ∀ item ∈ items, read (write item) = some item) :
    list? read (.arr (items.map write)) = some items := by
  have hitems : items.mapM (read ∘ write) = some (items.map id) := mapM_eq_some h
  change (items.map write).mapM read = _
  rw [List.mapM_map, hitems, List.map_id]

/-- A table reads back if its values do. -/
theorem table?_map {write : α → Json K} {read : Decoder K α} {table : Table α}
    (h : ∀ (id : String) (value : α), table[id]? = some value →
      read (write value) = some value) :
    table? read (.obj (table.toList.map fun entry => (entry.1, write entry.2))) = some table := by
  have hentries : entries? text? read
      (.obj (table.toList.map fun entry => (entry.1, write entry.2))) = some table.toList := by
    rw [entries?, List.mapM_map]
    refine (mapM_eq_some ?_).trans (congrArg some (List.map_id table.toList))
    rintro ⟨key, value⟩ hentry
    simp [h key value (Std.ExtTreeMap.mem_toList_iff_getElem?_eq_some.mp hentry)]
  unfold table?
  rw [hentries]
  simp

/-- If no key is read from a text, only the map without entries is read. -/
theorem entries?_eq_none {key : Decoder K κ} {value : Decoder K α} {fields : List (String × Json K)}
    (hkey : ∀ text, key (.str text) = none) (hfields : fields ≠ []) :
    entries? key value (.obj fields) = none := by
  obtain ⟨field, rest, rfl⟩ := List.exists_cons_of_ne_nil hfields
  rw [entries?, List.mapM_cons, hkey]
  rfl

variable [Scalar K]

theorem number?_ofNumber {x : K} (h : Scalar.isFinite x = true) :
    number? (ofNumber x) = some x := by
  simp [ofNumber, number?, h]

theorem nullable?_ofNumber? {x : Option K} (h : ∀ value ∈ x, Scalar.isFinite value = true) :
    nullable? number? (ofNumber? x) = some x := by
  cases x with
  | none => rfl
  | some value => simp [ofNumber?, ofNumber, nullable?, number?, h value rfl]

end Json

end GridRelief
