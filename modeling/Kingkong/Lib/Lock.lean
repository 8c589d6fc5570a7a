import Mathlib.Data.List.Basic

/-!
Calls that take non-recursive locks. A call starts with the locks that its thread holds, and it ends
with a result, or stuck at a lock that its own thread holds. A scoped lock is released when its body
returns, so the locks held are those of the enclosing scopes.
-/

namespace Kingkong.Lib

def Locked (μ σ α : Type) : Type := List μ → σ → Except μ α × σ

namespace Locked

variable {μ σ α β : Type}

instance : Monad (Locked μ σ) where
  pure a := fun _ s => (.ok a, s)
  bind x f := fun held s =>
    match x held s with
    | (.ok a, t) => f a held t
    | (.error m, t) => (.error m, t)

def read : Locked μ σ σ := fun _ s => (.ok s, s)

def modify (f : σ → σ) : Locked μ σ Unit := fun _ s => (.ok (), f s)

/-- `lock_guard` for the time of `body`. -/
def withLock [DecidableEq μ] (m : μ) (body : Locked μ σ α) : Locked μ σ α := fun held s =>
  if m ∈ held then (.error m, s) else body (m :: held) s

variable {held : List μ} {s : σ}

@[simp] theorem pure_apply (a : α) : (pure a : Locked μ σ α) held s = (.ok a, s) := rfl

theorem bind_apply (x : Locked μ σ α) (f : α → Locked μ σ β) :
    (x >>= f) held s =
      match x held s with
      | (.ok a, t) => f a held t
      | (.error m, t) => (.error m, t) := rfl

@[simp] theorem read_bind (f : σ → Locked μ σ β) : (read >>= f) held s = f s held s := rfl

@[simp] theorem ite_apply {c : Prop} [Decidable c] (x y : Locked μ σ α) :
    (if c then x else y : Locked μ σ α) held s = if c then x held s else y held s := by
  split <;> rfl

theorem bind_stuck {x : Locked μ σ α} {m : μ} {t : σ} (stuck : x held s = (.error m, t))
    (f : α → Locked μ σ β) :
    (x >>= f) held s = (.error m, t) := by
  rw [bind_apply, stuck]

theorem bind_returns {x : Locked μ σ α} {a : α} {t : σ} (returns : x held s = (.ok a, t))
    (f : α → Locked μ σ β) :
    (x >>= f) held s = f a held t := by
  rw [bind_apply, returns]

variable [DecidableEq μ]

theorem withLock_held {m : μ} (member : m ∈ held) (body : Locked μ σ α) :
    withLock m body held s = (.error m, s) :=
  if_pos member

theorem withLock_free {m : μ} (free : m ∉ held) (body : Locked μ σ α) :
    withLock m body held s = body (m :: held) s := if_neg free

end Locked

end Kingkong.Lib
