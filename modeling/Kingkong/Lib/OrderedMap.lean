import Mathlib.Order.Lattice
import Mathlib.Data.List.Basic

/-!
A tree map, as the list of its entries in the order of their keys. A walk over the map is a walk
over the list.
-/

namespace Kingkong.Lib

structure OrderedMap (κ ν : Type) [LinearOrder κ] where
  entries : List (κ × ν)
  sorted : entries.Pairwise fun a b => a.1 < b.1

namespace OrderedMap

variable {κ ν : Type} [LinearOrder κ] {m : OrderedMap κ ν} {k j : κ} {v w : ν}

@[ext] theorem ext {m n : OrderedMap κ ν} (same : m.entries = n.entries) : m = n := by
  cases m
  cases n
  cases same
  rfl

def empty : OrderedMap κ ν := ⟨[], List.Pairwise.nil⟩

def find? (m : OrderedMap κ ν) (k : κ) : Option ν :=
  (m.entries.find? fun entry => decide (entry.1 = k)).map Prod.snd

/-- Walks to the position of `k`, and replaces the value that is there. -/
def place (k : κ) (v : ν) : List (κ × ν) → List (κ × ν)
  | [] => [(k, v)]
  | entry :: rest =>
    if k < entry.1 then (k, v) :: entry :: rest else if k = entry.1 then (k, v) :: rest else entry :: place k v rest

theorem mem_place {entry : κ × ν} {entries : List (κ × ν)} (member : entry ∈ place k v entries) :
    entry = (k, v) ∨ entry ∈ entries := by
  induction entries with
  | nil => simpa [place] using member
  | cons first rest ih =>
    unfold place at member
    split at member
    · exact List.mem_cons.mp member
    · split at member
      · exact (List.mem_cons.mp member).imp id (List.mem_cons_of_mem _)
      · rcases List.mem_cons.mp member with rfl | later
        · exact .inr List.mem_cons_self
        · exact (ih later).imp id (List.mem_cons_of_mem _)

theorem place_sorted {entries : List (κ × ν)} (sorted : entries.Pairwise fun a b => a.1 < b.1) :
    (place k v entries).Pairwise fun a b => a.1 < b.1 := by
  induction entries with
  | nil => simp [place]
  | cons first rest ih =>
    obtain ⟨before, after⟩ := List.pairwise_cons.mp sorted
    unfold place
    split
    · rename_i earlier
      refine List.pairwise_cons.mpr ⟨?_, sorted⟩
      intro entry member
      rcases List.mem_cons.mp member with rfl | later
      · exact earlier
      · exact lt_trans earlier (before entry later)
    · rename_i notEarlier
      split
      · rename_i same
        refine List.pairwise_cons.mpr ⟨fun entry member => ?_, after⟩
        rw [same]
        exact before entry member
      · rename_i other
        refine List.pairwise_cons.mpr ⟨?_, ih after⟩
        intro entry member
        rcases mem_place member with rfl | old
        · exact lt_of_le_of_ne (not_lt.mp notEarlier) fun same => other same.symm
        · exact before entry old

theorem find_place (entries : List (κ × ν)) (j : κ) :
    (place k v entries).find? (fun entry => decide (entry.1 = j)) =
      if j = k then some (k, v) else entries.find? fun entry => decide (entry.1 = j) := by
  induction entries with
  | nil =>
    by_cases here : j = k
    · simp [place, here]
    · simp [place, here, Ne.symm here]
  | cons first rest ih =>
    unfold place
    split
    · by_cases here : j = k
      · simp [here]
      · rw [List.find?_cons_of_neg (by simpa using Ne.symm here), if_neg here]
    · split
      · rename_i same
        by_cases here : j = k
        · simp [here]
        · rw [List.find?_cons_of_neg (by simpa using Ne.symm here), if_neg here,
            List.find?_cons_of_neg (by simpa [← same] using Ne.symm here)]
      · rename_i other
        by_cases there : first.1 = j
        · have apart : j ≠ k := fun here => other (here.symm.trans there.symm)
          rw [List.find?_cons_of_pos (by simpa using there), if_neg apart,
            List.find?_cons_of_pos (by simpa using there)]
        · rw [List.find?_cons_of_neg (by simpa using there), ih,
            List.find?_cons_of_neg (by simpa using there)]

/-- A key above all the others comes last. -/
theorem place_last {entries : List (κ × ν)} (above : ∀ entry ∈ entries, entry.1 < k) :
    place k v entries = entries ++ [(k, v)] := by
  induction entries with
  | nil => rfl
  | cons first rest ih =>
    have later := above first List.mem_cons_self
    have others := ih fun entry member => above entry (List.mem_cons_of_mem _ member)
    rw [place, if_neg (not_lt_of_gt later), if_neg (ne_of_gt later), others, List.cons_append]

/-- `m[k] = v`. -/
def insert (m : OrderedMap κ ν) (k : κ) (v : ν) : OrderedMap κ ν :=
  ⟨place k v m.entries, place_sorted m.sorted⟩

theorem find_insert : (m.insert k v).find? j = if j = k then some v else m.find? j := by
  unfold find? insert
  rw [find_place]
  split <;> rfl

theorem find_of_mem (member : (k, v) ∈ m.entries) : m.find? k = some v := by
  obtain ⟨entries, sorted⟩ := m
  change (k, v) ∈ entries at member
  unfold find?
  induction entries with
  | nil => cases member
  | cons first rest ih =>
    obtain ⟨before, after⟩ := List.pairwise_cons.mp sorted
    rcases List.mem_cons.mp member with rfl | later
    · rw [List.find?_cons_of_pos (by simp)]
      rfl
    · have apart : first.1 ≠ k := ne_of_lt (before (k, v) later)
      rw [List.find?_cons_of_neg (by simpa using apart)]
      exact ih after later

theorem mem_of_find (found : m.find? k = some v) : (k, v) ∈ m.entries := by
  obtain ⟨entry, present, rfl⟩ := Option.map_eq_some_iff.mp found
  have same := List.find?_some present
  rw [decide_eq_true_eq] at same
  subst same
  exact List.mem_of_find?_eq_some present

theorem insert_last (above : ∀ entry ∈ m.entries, entry.1 < k) :
    (m.insert k v).entries = m.entries ++ [(k, v)] :=
  place_last above

end OrderedMap

end Kingkong.Lib
