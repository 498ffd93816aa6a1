import Mathlib.Data.List.Forall2

/-!
# Computations that may fail

A `bind` in `Except` succeeds when both of its parts do.  A `mapM` succeeds exactly when every
call does, and then returns their results in order.
-/

universe u

theorem Except.bind_eq_ok_iff {ε : Type*} {α β : Type u} {x : Except ε α}
    {f : α → Except ε β} {y : β} :
    x >>= f = .ok y ↔ ∃ a, x = .ok a ∧ f a = .ok y := by
  cases x with
  | error e => simp [bind, Except.bind]
  | ok a => simp [bind, Except.bind]

namespace List

variable {ε α : Type*} {β : Type u}

theorem Forall₂.exists_left_of_mem {α β : Type*} {R : α → β → Prop} {xs : List α} {ys : List β}
    (all : Forall₂ R xs ys) {y : β} (mem : y ∈ ys) : ∃ x ∈ xs, R x y := by
  induction all with
  | nil => simp at mem
  | cons first _ ih =>
      rcases mem_cons.mp mem with rfl | later
      · exact ⟨_, mem_cons_self, first⟩
      · obtain ⟨x, x_mem, related⟩ := ih later
        exact ⟨x, .tail _ x_mem, related⟩

theorem Forall₂.map_eq_map {α β γ : Type*} {R : α → β → Prop} {g : β → γ} {h : α → γ}
    {xs : List α} {ys : List β} (all : Forall₂ R xs ys) (same : ∀ x y, R x y → g y = h x) :
    ys.map g = xs.map h := by
  induction all with
  | nil => rfl
  | cons first _ ih => rw [map_cons, map_cons, ih, same _ _ first]

theorem Forall₂.mem_iff_of_eq_ok {α β : Type*} {f : α → Except ε β} {xs : List α} {ys : List β}
    (all : Forall₂ (fun x y => f x = .ok y) xs ys) {y : β} : y ∈ ys ↔ ∃ x ∈ xs, f x = .ok y := by
  refine ⟨all.exists_left_of_mem, fun ⟨x, x_mem, given⟩ => ?_⟩
  obtain ⟨y', y'_mem, given'⟩ := all.flip.exists_left_of_mem x_mem
  rwa [Except.ok.inj (given.symm.trans given')]

theorem mapM_except_eq_ok_iff {f : α → Except ε β} {xs : List α} {ys : List β} :
    xs.mapM f = .ok ys ↔ Forall₂ (fun x y => f x = .ok y) xs ys := by
  induction xs generalizing ys with
  | nil =>
      rw [List.mapM_nil, forall₂_nil_left_iff]
      exact ⟨fun equality => (Except.ok.inj equality).symm, fun equality => by rw [equality]; rfl⟩
  | cons x xs ih =>
      rw [List.mapM_cons, forall₂_cons_left_iff]
      simp only [Except.bind_eq_ok_iff, ih]
      constructor
      · rintro ⟨y, first, ys', rest, equality⟩
        exact ⟨y, ys', first, rest, (Except.ok.inj equality).symm⟩
      · rintro ⟨y, ys', first, rest, rfl⟩
        exact ⟨y, first, ys', rest, rfl⟩

end List
