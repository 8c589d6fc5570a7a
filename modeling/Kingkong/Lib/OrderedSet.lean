import Mathlib.Order.Defs.Unbundled
import Mathlib.Data.List.Basic

/-!
A tree set with comparator `lt`, as the list of its elements in order. An element that is equivalent
to a stored one is not inserted, so two elements are never kept apart by anything but the
comparator.
-/

namespace Kingkong.Lib

structure OrderedSet (α : Type) (lt : α → α → Prop) where
  elems : List α
  sorted : elems.Pairwise lt

namespace OrderedSet

variable {α : Type} {lt : α → α → Prop}

@[ext] theorem ext {s t : OrderedSet α lt} (same : s.elems = t.elems) : s = t := by
  cases s
  cases t
  cases same
  rfl

def empty : OrderedSet α lt := ⟨[], List.Pairwise.nil⟩

def first? (s : OrderedSet α lt) : Option α := s.elems.head?

section Insert

variable [DecidableRel lt]

/-- Walks to the position of `x` and leaves the list alone when an equivalent element is there. -/
def place (lt : α → α → Prop) [DecidableRel lt] (x : α) : List α → List α
  | [] => [x]
  | y :: ys => if lt y x then y :: place lt x ys else if lt x y then x :: y :: ys else y :: ys

theorem mem_place {x z : α} {ys : List α} (member : z ∈ place lt x ys) : z = x ∨ z ∈ ys := by
  induction ys with
  | nil => simpa [place] using member
  | cons y ys ih =>
    unfold place at member
    split at member
    · rcases List.mem_cons.mp member with head | tail
      · exact Or.inr (head ▸ List.mem_cons_self)
      · exact (ih tail).imp id (List.mem_cons_of_mem _)
    · split at member
      · exact List.mem_cons.mp member
      · exact Or.inr member

theorem place_sorted [IsTrans α lt] {x : α} {ys : List α} (sorted : ys.Pairwise lt) :
    (place lt x ys).Pairwise lt := by
  induction ys with
  | nil => simp [place]
  | cons y ys ih =>
    obtain ⟨before, rest⟩ := List.pairwise_cons.mp sorted
    unfold place
    split
    · rename_i after
      refine List.pairwise_cons.mpr ⟨?_, ih rest⟩
      intro z member
      rcases mem_place member with rfl | old
      · exact after
      · exact before z old
    · split
      · rename_i earlier
        refine List.pairwise_cons.mpr ⟨?_, sorted⟩
        intro z member
        rcases List.mem_cons.mp member with rfl | old
        · exact earlier
        · exact IsTrans.trans x y z earlier (before z old)
      · exact sorted

theorem place_perm {x : α} {ys : List α} (apart : ∀ y ∈ ys, lt y x ∨ lt x y) :
    (place lt x ys).Perm (x :: ys) := by
  induction ys with
  | nil => simp [place]
  | cons y ys ih =>
    unfold place
    split
    · exact ((ih fun z member => apart z (List.mem_cons_of_mem _ member)).cons y).trans (List.Perm.swap x y ys)
    · rename_i notAfter
      rw [if_pos ((apart y List.mem_cons_self).resolve_left notAfter)]

/-- An element that comes after a whole leading part is placed behind it. -/
theorem place_append {x : α} {front back : List α} (before : ∀ y ∈ front, lt y x) :
    place lt x (front ++ back) = front ++ place lt x back := by
  induction front with
  | nil => rfl
  | cons y front ih =>
    rw [List.cons_append, place, if_pos (before y List.mem_cons_self),
      ih fun z member => before z (List.mem_cons_of_mem _ member), List.cons_append]

variable [IsTrans α lt]

def insert (s : OrderedSet α lt) (x : α) : OrderedSet α lt :=
  ⟨place lt x s.elems, place_sorted s.sorted⟩

theorem insert_perm {s : OrderedSet α lt} {x : α} (apart : ∀ y ∈ s.elems, lt y x ∨ lt x y) :
    (s.insert x).elems.Perm (x :: s.elems) := place_perm apart

theorem first_insert {s : OrderedSet α lt} {x : α} :
    (s.insert x).first? = match s.first? with
      | none => some x
      | some y => if lt y x then some y else if lt x y then some x else some y := by
  obtain ⟨elems, sorted⟩ := s
  cases elems with
  | nil => rfl
  | cons y ys =>
    simp only [first?, insert, place, List.head?_cons]
    split
    · rfl
    · split <;> rfl

end Insert

theorem first_le {s : OrderedSet α lt} {x z : α} (first : s.first? = some x)
    (member : z ∈ s.elems) :
    z = x ∨ lt x z := by
  obtain ⟨elems, sorted⟩ := s
  cases elems with
  | nil => simp at member
  | cons y ys =>
    obtain rfl : y = x := by simpa [first?] using first
    rcases List.mem_cons.mp member with same | later
    · exact Or.inl same
    · exact Or.inr ((List.pairwise_cons.mp sorted).1 z later)

theorem first_mem {s : OrderedSet α lt} {x : α} (first : s.first? = some x) : x ∈ s.elems :=
  List.mem_of_head? first

/-- Erases the first element that passes `p`, as a walk from `begin()` finds it. -/
def eraseFirst (s : OrderedSet α lt) (p : α → Bool) : OrderedSet α lt :=
  ⟨s.elems.eraseP p, s.sorted.sublist List.eraseP_sublist⟩

def front (s : OrderedSet α lt) (p : α → Bool) : List α := s.elems.takeWhile p

def dropFront (s : OrderedSet α lt) (p : α → Bool) : OrderedSet α lt :=
  ⟨s.elems.dropWhile p, s.sorted.sublist (List.dropWhile_sublist p)⟩

def dropFirst (s : OrderedSet α lt) : OrderedSet α lt :=
  ⟨s.elems.tail, s.sorted.sublist (List.tail_sublist _)⟩

theorem front_append_dropFront {s : OrderedSet α lt} {p : α → Bool} :
    s.front p ++ (s.dropFront p).elems = s.elems := List.takeWhile_append_dropWhile

/-- A walk from `begin()` does not stop before an element that passes when everything below such an
element passes. -/
theorem mem_front {s : OrderedSet α lt} {p : α → Bool}
    (below : ∀ y z, lt y z → p z = true → p y = true) {x : α} (member : x ∈ s.elems)
    (passes : p x = true) : x ∈ s.front p := by
  obtain ⟨elems, sorted⟩ := s
  change x ∈ elems at member
  show x ∈ elems.takeWhile p
  induction elems with
  | nil => cases member
  | cons y ys ih =>
    obtain ⟨first, rest⟩ := List.pairwise_cons.mp sorted
    rcases List.mem_cons.mp member with rfl | later
    · rw [List.takeWhile_cons_of_pos passes]
      exact List.mem_cons_self
    · rw [List.takeWhile_cons_of_pos (below y x (first x later) passes)]
      exact List.mem_cons_of_mem _ (ih rest later)

theorem dropFirst_elems {s : OrderedSet α lt} {x : α} (first : s.first? = some x) :
    s.elems = x :: s.dropFirst.elems := (List.cons_head?_tail first).symm

theorem eraseFirst_perm {s : OrderedSet α lt} {p : α → Bool} {x : α}
    (found : s.elems.find? p = some x) :
    s.elems.Perm (x :: (s.eraseFirst p).elems) := by
  obtain ⟨passes, before, after, split, none⟩ := List.find?_eq_some_iff_append.mp found
  have erased : (s.eraseFirst p).elems = before ++ after := by
    show s.elems.eraseP p = before ++ after
    rw [split, List.eraseP_append_right _ (by intro y member; simpa using none y member),
      List.eraseP_cons_of_pos passes]
  rw [erased, split]
  exact List.perm_middle

/-! ### Elements renamed -/

section Map

variable {β : Type} {lt' : β → β → Prop} {f : α → β}

def map (f : α → β) (same : ∀ x y, lt' (f x) (f y) ↔ lt x y) (s : OrderedSet α lt) :
    OrderedSet β lt' :=
  ⟨s.elems.map f, List.pairwise_map.mpr (s.sorted.imp fun before => (same _ _).mpr before)⟩

theorem place_map [DecidableRel lt] [DecidableRel lt'] (same : ∀ x y, lt' (f x) (f y) ↔ lt x y)
    (x : α) (ys : List α) :
    place lt' (f x) (ys.map f) = (place lt x ys).map f := by
  induction ys with
  | nil => rfl
  | cons y ys ih =>
    simp only [List.map_cons, place, same, ih]
    split
    · rfl
    · split <;> rfl

theorem front_map (same : ∀ x y, lt' (f x) (f y) ↔ lt x y) (s : OrderedSet α lt) (p : β → Bool) :
    (s.map f same).front p = (s.front (p ∘ f)).map f := List.takeWhile_map

theorem dropFront_map (same : ∀ x y, lt' (f x) (f y) ↔ lt x y) (s : OrderedSet α lt)
    (p : β → Bool) :
    (s.map f same).dropFront p = (s.dropFront (p ∘ f)).map f same :=
  ext List.dropWhile_map

theorem eraseFirst_map (same : ∀ x y, lt' (f x) (f y) ↔ lt x y) (s : OrderedSet α lt)
    (p : β → Bool) :
    (s.map f same).eraseFirst p = (s.eraseFirst (p ∘ f)).map f same :=
  ext List.eraseP_map

theorem dropFirst_map (same : ∀ x y, lt' (f x) (f y) ↔ lt x y) (s : OrderedSet α lt) :
    (s.map f same).dropFirst = s.dropFirst.map f same := ext List.map_tail.symm

theorem first_map (same : ∀ x y, lt' (f x) (f y) ↔ lt x y) (s : OrderedSet α lt) :
    (s.map f same).first? = s.first?.map f := List.head?_map

end Map

end OrderedSet

end Kingkong.Lib
