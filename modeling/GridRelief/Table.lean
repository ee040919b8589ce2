import Std.Data.ExtTreeMap
import Std.Data.ExtTreeSet

/-!
# Tables by identifier

Most data of the model are finite maps from identifiers. A table is such a map; two tables with
the same entries are equal, and its entries are listed in the order of their identifiers, code
point by code point.

## Main definitions

* `Table V`: a finite map from identifiers to `V`.
* `NameSet`: a finite set of identifiers, `TapTable V`: a finite map from taps.
* `Table.ofPairs`: the table of a list of entries, a later entry replacing an earlier one.
-/

namespace GridRelief

/-- A finite map from identifiers. -/
abbrev Table (V : Type) : Type := Std.ExtTreeMap String V

/-- A finite set of identifiers. -/
abbrev NameSet : Type := Std.ExtTreeSet String

/-- A finite map from taps. Taps are integers of thirty-two bits, and a difference of two taps that
is calculated has to be one as well. -/
abbrev TapTable (V : Type) : Type := Std.ExtTreeMap Int V

namespace Table

variable {V W : Type}

/-- The table of a list of entries, a later entry replacing an earlier one. -/
def ofPairs (entries : List (String × V)) : Table V :=
  entries.foldl (fun table entry => table.insert entry.1 entry.2) ∅

/-- The table with every value changed by a function of identifier and value. -/
def mapValues (f : String → V → W) (table : Table V) : Table W :=
  ofPairs (table.toList.map fun entry => (entry.1, f entry.1 entry.2))

/-- Change the value of an identifier that is in the table; `none` if it is not. -/
def replace? (table : Table V) (key : String) (value : V) : Option (Table V) :=
  if table.contains key then some (table.insert key value) else none

/-- Whether two tables list the same identifiers with values that a test finds alike. -/
def alike (same : V → V → Bool) (left right : Table V) : Bool :=
  let xs := left.toList
  let ys := right.toList
  xs.length == ys.length &&
    (xs.zip ys).all fun pair => pair.1.1 == pair.2.1 && same pair.1.2 pair.2.2

instance [BEq V] : BEq (Table V) := ⟨alike (· == ·)⟩

end Table

namespace NameSet

/-- The set of a list of identifiers. -/
def ofNames (names : List String) : NameSet :=
  names.foldl (fun set name => set.insert name) ∅

instance : BEq NameSet := ⟨fun left right => left.toList == right.toList⟩

end NameSet

namespace TapTable

/-- The table of a list of taps, a later entry replacing an earlier one. -/
def ofPairs {V : Type} (entries : List (Int × V)) : TapTable V :=
  entries.foldl (fun table entry => table.insert entry.1 entry.2) ∅

instance {V : Type} [BEq V] : BEq (TapTable V) :=
  ⟨fun left right => left.toList == right.toList⟩

end TapTable

end GridRelief
