import Mathlib.Data.List.Forall2

/-!
# Computations that may fault

What is known of a computation from its result: where it came to one, so did all its parts, and a
fault is that of one of them.
-/

namespace MediaTransport

variable {ε α β : Type}

theorem Except.map_eq_error_iff {f : α → β} {x : Except ε α} {e : ε} :
    x.map f = .error e ↔ x = .error e := by
  cases x with
  | error d => simp [Except.map]
  | ok a => simp [Except.map]

theorem Except.map_eq_ok_iff {f : α → β} {x : Except ε α} {b : β} :
    x.map f = .ok b ↔ ∃ a, x = .ok a ∧ f a = b := by
  cases x with
  | error d => simp [Except.map]
  | ok a => simp [Except.map]

theorem Except.bind_eq_ok_iff {f : α → Except ε β} {x : Except ε α} {b : β} :
    x >>= f = .ok b ↔ ∃ a, x = .ok a ∧ f a = .ok b := by
  cases x with
  | error d => simp [bind, Except.bind]
  | ok a => simp [bind, Except.bind]

theorem Except.bind_eq_error_iff {f : α → Except ε β} {x : Except ε α} {e : ε} :
    x >>= f = .error e ↔ x = .error e ∨ ∃ a, x = .ok a ∧ f a = .error e := by
  cases x with
  | error d => simp [bind, Except.bind]
  | ok a => simp [bind, Except.bind]

/-- A run through a list has a result for each element. -/
theorem mapM_eq_ok_iff {f : α → Except ε β} {xs : List α} {ys : List β} :
    xs.mapM f = .ok ys ↔ List.Forall₂ (fun x y => f x = .ok y) xs ys := by
  induction xs generalizing ys with
  | nil =>
    rw [List.mapM_nil, List.forall₂_nil_left_iff]
    show Except.ok [] = Except.ok ys ↔ ys = []
    rw [Except.ok.injEq, eq_comm]
  | cons x xs ih =>
    simp only [List.mapM_cons, Except.bind_eq_ok_iff, ih, List.forall₂_cons_left_iff]
    constructor
    · rintro ⟨y, hy, ys, hys, ⟨⟩⟩
      exact ⟨y, ys, hy, hys, rfl⟩
    · rintro ⟨y, ys, hy, hys, rfl⟩
      exact ⟨y, hy, ys, hys, rfl⟩

/-- What a run through a list results in comes of elements of it. -/
theorem exists_of_mem_of_mapM {f : α → Except ε β} {xs : List α} {ys : List β} {y : β}
    (h : xs.mapM f = .ok ys) (hy : y ∈ ys) : ∃ x ∈ xs, f x = .ok y := by
  rw [mapM_eq_ok_iff] at h
  induction h with
  | nil => cases hy
  | cons hhead _ ih =>
    rcases List.mem_cons.1 hy with rfl | hy
    · exact ⟨_, List.mem_cons_self, hhead⟩
    · obtain ⟨x, hx, hxy⟩ := ih hy
      exact ⟨x, List.mem_cons_of_mem _ hx, hxy⟩

/-- Where there is one fault only, a run through a list has it if an element has. -/
theorem mapM_eq_error_iff {f : α → Except ε β} {d e : ε} {P : α → Prop}
    (hf : ∀ x e, f x = .error e ↔ e = d ∧ P x) {xs : List α} :
    xs.mapM f = .error e ↔ e = d ∧ ∃ x ∈ xs, P x := by
  induction xs with
  | nil => exact iff_of_false nofun fun ⟨_, x, hx, _⟩ => List.not_mem_nil hx
  | cons x xs ih =>
    have htail : ∀ y, (xs.mapM f >>= fun ys => pure (y :: ys)) = .error e ↔
        e = d ∧ ∃ x ∈ xs, P x := by
      intro y
      rw [Except.bind_eq_error_iff, ih, or_iff_left]
      rintro ⟨ys, -, ⟨⟩⟩
    rw [List.mapM_cons, Except.bind_eq_error_iff, hf, List.exists_mem_cons_iff, and_or_left]
    simp only [htail]
    cases hx : f x with
    | error c =>
      obtain ⟨rfl, hP⟩ := (hf x c).1 hx
      simp only [hP, reduceCtorEq, false_and, exists_false, or_false, and_true]
      exact (or_iff_left_of_imp And.left).symm
    | ok y => simp

end MediaTransport
