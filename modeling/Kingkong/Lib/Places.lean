import Mathlib.Data.List.Count
import Mathlib.Data.List.Perm.Basic
import Mathlib.Tactic.Cases

/-!
Items kept in places. A system that only moves items between places neither loses nor duplicates
one: an item that was once in exactly one place stays in exactly one place.
-/

namespace Kingkong.Lib

variable {π α ι : Type}

/-- The items `moved` go from the place `source` to the place `target`. Every other place is
unchanged. -/
structure Moves (before after : π → List α) (source target : π) (moved : List α) : Prop where
  distinct : source ≠ target
  away : (before source).Perm (moved ++ after source)
  into : (after target).Perm (before target ++ moved)
  other : ∀ p, p ≠ source → p ≠ target → after p = before p

namespace Moves

variable {before after : π → List α} {source target : π} {moved : List α}

theorem map (moves : Moves before after source target moved) (f : α → ι) :
    Moves (fun p => (before p).map f) (fun p => (after p).map f) source target (moved.map f) where
  distinct := moves.distinct
  away := by simpa using moves.away.map f
  into := by simpa using moves.into.map f
  other p first second := congrArg (List.map f) (moves.other p first second)

theorem mem (moves : Moves before after source target moved) {x : α} :
    (∃ p, x ∈ after p) ↔ ∃ p, x ∈ before p := by
  have away : x ∈ before source ↔ x ∈ moved ∨ x ∈ after source := by
    simpa using moves.away.mem_iff (a := x)
  have into : x ∈ after target ↔ x ∈ before target ∨ x ∈ moved := by
    simpa using moves.into.mem_iff (a := x)
  constructor
  · rintro ⟨p, member⟩
    by_cases first : p = source
    · exact ⟨source, away.mpr (Or.inr (first ▸ member))⟩
    by_cases second : p = target
    · rcases into.mp (second ▸ member) with old | fresh
      · exact ⟨target, old⟩
      · exact ⟨source, away.mpr (Or.inl fresh)⟩
    · exact ⟨p, moves.other p first second ▸ member⟩
  · rintro ⟨p, member⟩
    by_cases first : p = source
    · rcases away.mp (first ▸ member) with gone | kept
      · exact ⟨target, into.mpr (Or.inr gone)⟩
      · exact ⟨source, kept⟩
    by_cases second : p = target
    · exact ⟨target, into.mpr (Or.inl (second ▸ member))⟩
    · exact ⟨p, (moves.other p first second).symm ▸ member⟩

end Moves

variable [DecidableEq ι] {before after : π → List ι} {source target : π} {moved : List ι} {x : ι}

def Settled (held : π → List ι) (x : ι) : Prop :=
  ∃ p, (held p).count x = 1 ∧ ∀ q, q ≠ p → (held q).count x = 0

def Absent (held : π → List ι) (x : ι) : Prop := ∀ p, (held p).count x = 0

theorem moves_count (moves : Moves before after source target moved) :
    (before source).count x = moved.count x + (after source).count x ∧
      (after target).count x = (before target).count x + moved.count x := by
  exact ⟨by rw [moves.away.count_eq, List.count_append], by rw [moves.into.count_eq, List.count_append]⟩

theorem absent_moves (moves : Moves before after source target moved) (absent : Absent before x) :
    Absent after x := by
  intro p
  obtain ⟨away, into⟩ := moves_count (x := x) moves
  have none := absent source
  by_cases first : p = source
  · subst first; omega
  by_cases second : p = target
  · subst second
    have clear := absent p
    omega
  · rw [moves.other p first second]; exact absent p

theorem settled_moves (moves : Moves before after source target moved)
    (settled : Settled before x) :
    Settled after x := by
  obtain ⟨p, here, elsewhere⟩ := settled
  obtain ⟨away, into⟩ := moves_count (x := x) moves
  have distinct := moves.distinct
  by_cases gone : moved.count x = 0
  · -- The item was not among the moved ones, so it stays where it was.
    have same : ∀ q, (after q).count x = (before q).count x := by
      intro q
      by_cases first : q = source
      · subst first; omega
      by_cases second : q = target
      · subst second; omega
      · rw [moves.other q first second]
    exact ⟨p, (same p).trans here, fun q other => (same q).trans (elsewhere q other)⟩
  · have origin : p = source := by
      by_contra other
      have := elsewhere source (Ne.symm other)
      omega
    subst origin
    have vacant := elsewhere target (Ne.symm distinct)
    refine ⟨target, by omega, ?_⟩
    intro q other
    by_cases first : q = p
    · subst first; omega
    · rw [moves.other q first other]; exact elsewhere q first

theorem settled_arrival {p : π} (absent : Absent before x)
    (arrives : (after p).Perm (x :: before p)) (other : ∀ q, q ≠ p → after q = before q) :
    Settled after x := by
  refine ⟨p, ?_, fun q apart => by rw [other q apart]; exact absent q⟩
  rw [arrives.count_eq, List.count_cons_self, absent p]

theorem count_beside {p : π} {y : ι} (arrives : (after p).Perm (y :: before p))
    (other : ∀ q, q ≠ p → after q = before q) (apart : x ≠ y) (q : π) :
    (after q).count x = (before q).count x := by
  by_cases here : q = p
  · subst here
    rw [arrives.count_eq, List.count_cons_of_ne (Ne.symm apart)]
  · rw [other q here]

theorem settled_unique {p q : π} (settled : Settled before x) (first : x ∈ before p)
    (second : x ∈ before q) :
    p = q := by
  obtain ⟨r, _, elsewhere⟩ := settled
  have located : ∀ place, x ∈ before place → place = r := by
    intro place member
    by_contra other
    exact absurd (elsewhere place other) (Nat.ne_of_gt (List.count_pos_iff.mpr member))
  exact (located p first).trans (located q second).symm

theorem absent_not_mem {p : π} (absent : Absent before x) : x ∉ before p :=
  List.count_eq_zero.mp (absent p)

end Kingkong.Lib
