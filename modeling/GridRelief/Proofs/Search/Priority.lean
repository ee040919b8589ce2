import GridRelief.Search.Combination

/-!
# The order of priority

Priority compares combinations by where they come from, by size and by name, one after the other.
So it is a total preorder: it turns around when its arguments do, and it is transitive also
through ties.

* `Combination.priority_lt_trans`: what comes before a combination that comes before a third one
  comes before the third one.
-/

namespace GridRelief.Combination

open Std

variable {K : Type}

/-- Priority is a chain of comparisons of parts, of which the first three put larger values
first. -/
instance : TransCmp (priority (K := K)) :=
  inferInstanceAs (TransCmp
    (compareLex (fun a b => compareOn isDetected b a)
      (compareLex (fun a b => compareOn isPredefined b a)
        (compareLex (fun a b => compareOn size b a)
          (compareLex (compareOn checksum) (compareOn id))))))

/-- No combination comes before itself. -/
@[simp] theorem priority_self (a : Combination K) : a.priority a = .eq :=
  ReflCmp.compare_self

/-- Priority turns around with its arguments. -/
theorem priority_eq_gt_iff {a b : Combination K} : a.priority b = .gt ↔ b.priority a = .lt :=
  OrientedCmp.gt_iff_lt

/-- What comes before a combination that comes before a third one comes before the third one. -/
theorem priority_lt_trans {a b c : Combination K} (hab : a.priority b = .lt)
    (hbc : b.priority c = .lt) : a.priority c = .lt :=
  TransCmp.lt_trans hab hbc

end GridRelief.Combination
