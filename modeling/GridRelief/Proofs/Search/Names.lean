import Mathlib.Data.List.Pairwise
import GridRelief.Proofs.Exact
import GridRelief.Proofs.Search.Candidates
import GridRelief.Proofs.Search.Priority
import GridRelief.Proofs.Search.Prospect

/-!
# Names tell combinations apart

Priority ends with the name of a combination, the names of its actions with a separator between
them. Different sets of actions may have one name, if the separator occurs within the name of an
action or across its end. Names in which it does not are read off the joined name one after the
other, as no earlier place of it has the separator. Then only combinations of the same actions
tie, and the order of priority leaves nothing open.

* `intercalate_separator_inj`: separable names are told by the joined name.
* `Combination.priority_eq_eq_iff`: which combinations tie, whatever their names.
* `Combination.ids_eq_of_priority_eq_eq`: combinations of separable names that tie are the same.
* `Candidate.byPriority_eq_of_perm`: candidates that do not tie are put in one order only.
-/

namespace GridRelief

/-! ### Names that are joined -/

/-- The separator occurs neither in a name nor across its end when more follows. -/
def IsSeparable (name : String) : Prop := ¬ " + ".toList <:+: name.toList ++ [' ']

instance : DecidablePred IsSeparable := fun _ => inferInstanceAs (Decidable (¬ _))

/-- Where a text starts with the separator, no separable text goes on to a separator later. -/
theorem eq_nil_of_separator_append {u t x y : List Char}
    (hseparable : ¬ " + ".toList <:+: u ++ t ++ [' '])
    (h : " + ".toList ++ x = t ++ (" + ".toList ++ y)) : t = [] := by
  match t, h with
  | [], _ => rfl
  | [_], h => simp at h
  | [_, _], h =>
    -- the blank after the text completes the separator
    obtain ⟨rfl, rfl, -⟩ := by simpa using h
    exact absurd ⟨u, [], by simp⟩ hseparable
  | _ :: _ :: _ :: t, h =>
    obtain ⟨rfl, rfl, rfl, -⟩ := by simpa using h
    exact absurd ⟨u, t ++ [' '], by simp⟩ hseparable

/-- What stands before the first separator is told by the whole. -/
theorem append_separator_inj {name other rest rest' : String} (hname : IsSeparable name)
    (hother : IsSeparable other) (h : name ++ " + " ++ rest = other ++ " + " ++ rest') :
    name = other ∧ rest = rest' := by
  rw [String.append_assoc, String.append_assoc, ← String.toList_inj] at h
  simp only [String.toList_append] at h
  simp only [← String.toList_inj]
  unfold IsSeparable at hname hother
  rcases List.append_eq_append_iff.mp h with ⟨t, ht, htail⟩ | ⟨t, ht, htail⟩
  · obtain rfl := eq_nil_of_separator_append (ht ▸ hother) htail
    exact ⟨by simp [ht], List.append_cancel_left htail⟩
  · obtain rfl := eq_nil_of_separator_append (ht ▸ hname) htail
    exact ⟨by simp [ht], (List.append_cancel_left htail).symm⟩

/-- Separable names are told by the joined name, if it is known how many there are. -/
theorem intercalate_separator_inj {names others : List String}
    (hnames : ∀ name ∈ names, IsSeparable name) (hothers : ∀ name ∈ others, IsSeparable name)
    (hlength : names.length = others.length)
    (h : " + ".intercalate names = " + ".intercalate others) : names = others := by
  induction names generalizing others with
  | nil => exact (List.eq_nil_of_length_eq_zero hlength.symm).symm
  | cons name names ih =>
    obtain ⟨other, others, rfl⟩ := List.exists_cons_of_length_eq_add_one hlength.symm
    match names, others, hlength with
    | [], [], _ => simpa using h
    | _ :: _, _ :: _, hlength =>
      rw [String.intercalate_cons_cons, String.intercalate_cons_cons] at h
      obtain ⟨rfl, hrest⟩ := append_separator_inj (hnames _ List.mem_cons_self)
        (hothers _ List.mem_cons_self) h
      rw [ih (fun _ hmem => hnames _ (List.mem_cons_of_mem _ hmem))
        (fun _ hmem => hothers _ (List.mem_cons_of_mem _ hmem)) (by simpa using hlength) hrest]

variable {K : Type}

/-! ### Combinations that tie -/

namespace Combination

variable {a b : Combination K}

/-- All actions of a combination have separable names. -/
def HasSeparableNames (c : Combination K) : Prop := ∀ name ∈ c.ids, IsSeparable name

instance : DecidablePred (HasSeparableNames (K := K)) :=
  fun c => inferInstanceAs (Decidable (∀ name ∈ c.ids, IsSeparable name))

/-- Combinations tie that come from the same place, are of one size and have one name. -/
theorem priority_eq_eq_iff :
    a.priority b = .eq ↔ a.origin = b.origin ∧ a.size = b.size ∧ a.id = b.id := by
  unfold priority
  simp only [Ordering.then_eq_eq, Std.LawfulEqOrd.compare_eq_iff_eq]
  constructor
  · rintro ⟨hdetected, hpredefined, hsize, -, hid⟩
    refine ⟨?_, hsize.symm, hid⟩
    -- the two flags tell the three origins apart
    cases ha : a.origin <;> cases hb : b.origin <;>
      simp_all [isDetected, isPredefined]
  · rintro ⟨horigin, hsize, hid⟩
    simp [isDetected, isPredefined, checksum, horigin, hsize, hid]

/-- Combinations of the same actions that come from the same place tie. -/
theorem priority_eq_eq_of_ids_eq (horigin : a.origin = b.origin) (hids : a.ids = b.ids) :
    a.priority b = .eq :=
  priority_eq_eq_iff.mpr ⟨horigin, by rw [← length_ids, ← length_ids, hids],
    congrArg (" + ".intercalate) hids⟩

/-- Combinations of separable names that tie have the same actions. -/
theorem ids_eq_of_priority_eq_eq (ha : a.HasSeparableNames) (hb : b.HasSeparableNames)
    (h : a.priority b = .eq) : a.ids = b.ids := by
  obtain ⟨-, hsize, hid⟩ := priority_eq_eq_iff.mp h
  exact intercalate_separator_inj ha hb (by rw [length_ids, length_ids, hsize]) hid

end Combination

/-! ### Candidates in order -/

namespace Candidate

/-- A candidate is inserted where the order of priority has it. -/
theorem pairwise_insertByPriority (c : Candidate K) {candidates : List (Candidate K)}
    (h : candidates.Pairwise fun c d => (c.combination.priority d.combination).isLE = true) :
    (insertByPriority c candidates).Pairwise
      fun c d => (c.combination.priority d.combination).isLE = true := by
  induction candidates with
  | nil => exact List.pairwise_singleton _ _
  | cons d rest ih =>
    obtain ⟨hd, hrest⟩ := List.pairwise_cons.mp h
    unfold insertByPriority
    split
    · next hle =>
      refine List.pairwise_cons.mpr ⟨fun e he => ?_, h⟩
      rcases List.mem_cons.mp he with rfl | he
      · exact hle
      · exact Std.TransCmp.isLE_trans hle (hd e he)
    · next hgt =>
      refine List.pairwise_cons.mpr ⟨fun e he => ?_, ih hrest⟩
      rcases List.mem_cons.mp ((insertByPriority_perm c rest).mem_iff.mp he) with rfl | he
      · have hgt := Ordering.isLE_eq_false.mp (Bool.eq_false_of_not_eq_true hgt)
        simp [Combination.priority_eq_gt_iff.mp hgt]
      · exact hd e he

/-- No candidate comes after one that has to come after it. -/
theorem pairwise_byPriority (candidates : List (Candidate K)) :
    (byPriority candidates).Pairwise
      fun c d => (c.combination.priority d.combination).isLE = true := by
  unfold byPriority
  induction candidates with
  | nil => exact List.Pairwise.nil
  | cons c candidates ih => exact pairwise_insertByPriority c ih

/-- Candidates that do not tie are put in the same order however they come. -/
theorem byPriority_eq_of_perm {candidates others : List (Candidate K)}
    (h : candidates.Perm others)
    (hdistinct : candidates.Pairwise fun c d => c.combination.priority d.combination ≠ .eq) :
    byPriority candidates = byPriority others := by
  have : Std.Symm fun c d : Candidate K => c.combination.priority d.combination ≠ .eq :=
    ⟨fun _ _ hcd heq => hcd (Std.OrientedCmp.eq_symm heq)⟩
  refine List.Perm.eq_of_pairwise (fun c d hc hd hcd hdc => ?_) (pairwise_byPriority candidates)
    (pairwise_byPriority others)
    ((byPriority_perm candidates).trans (h.trans (byPriority_perm others).symm))
  by_contra hne
  exact hdistinct.forall (mem_byPriority.mp hc) (h.mem_iff.mpr (mem_byPriority.mp hd)) hne
    (Std.OrientedCmp.isLE_antisymm hcd hdc)

end Candidate

/-! ### What is left open -/

/-- A combination that is not ahead comes after the one that has reached the stop criterion, or has
its actions. -/
theorem Best.exists_stop_of_isAhead_eq_false {best : Best K} {c : Combination K}
    (hc : c.HasSeparableNames) (hstop : ∀ stop ∈ best.stop, stop.HasSeparableNames)
    (h : best.isAhead c = false) :
    ∃ stop, best.stop = some stop ∧ (stop.priority c = .lt ∨ stop.ids = c.ids) := by
  cases hbest : best.stop with
  | none => simp [isAhead, hbest] at h
  | some stop =>
    refine ⟨stop, rfl, ?_⟩
    cases hpriority : stop.priority c with
    | lt => exact .inl rfl
    | eq => exact .inr (Combination.ids_eq_of_priority_eq_eq (hstop stop hbest) hc hpriority)
    | gt => simp [isAhead, hbest, Combination.priority_eq_gt_iff.mp hpriority] at h

/-- Priority turns around with its arguments and is transitive, and combinations tie that come from
the same place, are of one size and have one name. With separable names these have the same
actions. So the order of candidates does not depend on how they come, and a task is dropped only
for a combination that comes before its own or has the same actions. -/
theorem Combination.priority_separates :
    (∀ a b : Combination K, a.priority b = (b.priority a).swap) ∧
    (∀ a b c : Combination K, a.priority b = .lt → b.priority c = .lt → a.priority c = .lt) ∧
    (∀ a b : Combination K,
      a.priority b = .eq ↔ a.origin = b.origin ∧ a.size = b.size ∧ a.id = b.id) ∧
    (∀ a b : Combination K, a.HasSeparableNames → b.HasSeparableNames →
      (a.priority b = .eq ↔ a.origin = b.origin ∧ a.ids = b.ids)) ∧
    (∀ candidates others : List (Candidate K), candidates.Perm others →
      (∀ c ∈ candidates, c.combination.HasSeparableNames) →
      candidates.Pairwise (fun c d => c.combination.ids ≠ d.combination.ids) →
        Candidate.byPriority candidates = Candidate.byPriority others) ∧
    ∀ {N σ : Type} [Scalar K] [Network N K] (s : Search N K) (services : Services N K σ)
      (task : Task K) (best : Best K) (state : σ),
      task.candidate.combination.HasSeparableNames →
      (∀ stop ∈ best.stop, stop.HasSeparableNames) →
      (s.step services task best .opened state).1.2 = .done →
        ∃ stop, best.stop = some stop ∧ (stop.priority task.candidate.combination = .lt ∨
          stop.ids = task.candidate.combination.ids) := by
  refine ⟨fun a b => Std.OrientedCmp.eq_swap, fun a b c => priority_lt_trans,
    fun a b => priority_eq_eq_iff, fun a b ha hb => ⟨fun h => ?_, fun h => ?_⟩,
    fun candidates others hperm hnames hdistinct => ?_,
    fun s services task best state hnames hstop h =>
      Best.exists_stop_of_isAhead_eq_false hnames hstop ?_⟩
  · exact ⟨(priority_eq_eq_iff.mp h).1, ids_eq_of_priority_eq_eq ha hb h⟩
  · exact priority_eq_eq_of_ids_eq h.1 h.2
  · refine Candidate.byPriority_eq_of_perm hperm (hdistinct.imp_of_mem fun hc hd hne hties => ?_)
    exact hne (ids_eq_of_priority_eq_eq (hnames _ hc) (hnames _ hd) hties)
  · rw [Search.phase_step_opened] at h
    split at h
    · cases h
    · next hbehind => exact Bool.eq_false_of_not_eq_true hbehind

namespace Separator

/-- The action of a name. -/
def action (name : String) : NetworkAction ℚ := { id := name, parts := [.topology name false] }

/-- The combination of actions of some names. -/
def combination (names : List String) : Combination ℚ := .ofList (names.map action) .plain

/-- Two combinations whose names come close to the separator do not tie, and two candidates for
them are put in the same order whichever comes first. -/
theorem not_tied_near_separator :
    let first := combination ["a", "+ b"]
    let second := combination ["a+b", "+"]
    first.HasSeparableNames ∧ second.HasSeparableNames ∧ first.priority second ≠ .eq ∧
      Candidate.byPriority [⟨first, false⟩, ⟨second, false⟩] =
        Candidate.byPriority [⟨second, false⟩, ⟨first, false⟩] := by
  intro first second
  have hfirst : first.HasSeparableNames := by decide +kernel
  have hsecond : second.HasSeparableNames := by decide +kernel
  have hdifferent : first.ids ≠ second.ids := by decide +kernel
  obtain ⟨-, -, -, hties, hsorts, -⟩ := Combination.priority_separates (K := ℚ)
  refine ⟨hfirst, hsecond, fun h => hdifferent ((hties first second hfirst hsecond).mp h).2,
    hsorts _ _ (List.Perm.swap ..) ?_ (by simpa using hdifferent)⟩
  simp only [List.forall_mem_cons]
  exact ⟨hfirst, hsecond, by simp⟩

/-- Where the separator is part of names, combinations of different actions tie. -/
theorem tied_across_separator :
    ¬ ∀ a b : Combination ℚ, a.priority b = .eq → a.ids = b.ids := by
  intro h
  exact absurd (h (combination ["a + b", "c"]) (combination ["a", "b + c"]) (by decide +kernel))
    (by decide +kernel)

end Separator

end GridRelief
