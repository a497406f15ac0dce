import Mathlib.Data.List.Forall2

/-! What computations that may fail have done when they did not. -/

namespace EditHook

theorem bind_eq_ok {x : Except ε α} {f : α → Except ε β} {b : β} (h : x >>= f = .ok b) :
    ∃ a, x = .ok a ∧ f a = .ok b := by
  cases x with
  | error e => cases h
  | ok a => exact ⟨a, rfl, h⟩

theorem bind_eq_ok_iff {x : Except ε α} {f : α → Except ε β} {b : β} :
    x >>= f = .ok b ↔ ∃ a, x = .ok a ∧ f a = .ok b := by
  constructor
  · exact bind_eq_ok
  · rintro ⟨a, rfl, h⟩
    exact h

@[simp]
theorem toOption_ok (a : α) : (Except.ok a : Except ε α).toOption = some a := rfl

@[simp]
theorem toOption_pure (a : α) : (pure a : Except ε α).toOption = some a := rfl

theorem toOption_bind (x : Except ε α) (f : α → Except ε β) :
    (x >>= f).toOption = x.toOption.bind fun a => (f a).toOption := by
  cases x <;> rfl

theorem toOption_map (x : Except ε α) (f : α → β) : (x.map f).toOption = x.toOption.map f := by
  cases x <;> rfl

theorem toOption_eq_some_iff {x : Except ε α} {a : α} : x.toOption = some a ↔ x = .ok a := by
  cases x <;> simp [Except.toOption]

def error? : Except ε α → Option ε
  | .error e => some e
  | .ok _ => none

@[simp]
theorem error?_ok (a : α) : error? (Except.ok a : Except ε α) = none := rfl

@[simp]
theorem error?_error (e : ε) : error? (Except.error e : Except ε α) = some e := rfl

theorem error?_eq_some_iff {x : Except ε α} {e : ε} : error? x = some e ↔ x = .error e := by
  cases x <;> simp

/-- The fault of the first step comes first. The second one is only taken where the first succeeds. -/
theorem error?_bind {x : Except ε α} {f : α → Except ε β} {o o' : Option ε} (hx : error? x = o)
    (hf : ∀ a, x = .ok a → error? (f a) = o') : error? (x >>= f) = o.or o' := by
  cases x with
  | error e =>
    rw [← hx]
    rfl
  | ok a =>
    rw [← hx, ← hf a rfl]
    rfl

theorem error?_bind_ok {x : Except ε α} {f : α → Except ε β} {o : Option ε} (hx : error? x = o)
    (hf : ∀ a, x = .ok a → error? (f a) = none) : error? (x >>= f) = o := by
  rw [error?_bind hx hf, Option.or_none]

theorem error?_mapM (f : α → Except ε β) (xs : List α) :
    error? (xs.mapM f) = xs.findSome? fun x => error? (f x) := by
  induction xs with
  | nil => rfl
  | cons x xs ih =>
    have hrest (y : β) : error? (xs.mapM f >>= fun ys => pure (y :: ys)) =
        xs.findSome? fun x => error? (f x) :=
      error?_bind_ok ih fun ys _ => error?_ok (y :: ys)
    rw [List.mapM_cons, error?_bind rfl fun y _ => hrest y, List.findSome?_cons]
    cases error? (f x) <;> rfl

theorem mapM_eq_ok_iff {f : α → Except ε β} {xs : List α} {ys : List β} :
    xs.mapM f = .ok ys ↔ List.Forall₂ (fun x y => f x = .ok y) xs ys := by
  induction xs generalizing ys with
  | nil =>
    rw [List.forall₂_nil_left_iff]
    constructor
    · intro h
      cases h
      rfl
    · rintro rfl
      rfl
  | cons x xs ih =>
    simp only [List.mapM_cons, bind_eq_ok_iff, ih, List.forall₂_cons_left_iff]
    constructor
    · rintro ⟨y, hy, ys, hys, h⟩
      cases h
      exact ⟨y, ys, hy, hys, rfl⟩
    · rintro ⟨y, ys, hy, hys, rfl⟩
      exact ⟨y, hy, ys, hys, rfl⟩

theorem exists_forall₂_iff {R : α → β → Prop} {xs : List α} :
    (∃ ys, List.Forall₂ R xs ys) ↔ ∀ x ∈ xs, ∃ y, R x y := by
  induction xs with
  | nil => exact ⟨fun _ _ hx => absurd hx List.not_mem_nil, fun _ => ⟨[], .nil⟩⟩
  | cons x xs ih =>
    rw [List.forall_mem_cons, ← ih]
    constructor
    · rintro ⟨_, h⟩
      cases h with
      | cons hx h => exact ⟨⟨_, hx⟩, _, h⟩
    · rintro ⟨⟨y, hy⟩, ys, h⟩
      exact ⟨y :: ys, .cons hy h⟩

theorem exists_of_mem_right {R : α → β → Prop} {xs : List α} {ys : List β}
    (h : List.Forall₂ R xs ys) {y : β} (hy : y ∈ ys) : ∃ x ∈ xs, R x y := by
  induction h with
  | nil => simp at hy
  | @cons x _ xs _ hx _ ih =>
    rcases List.mem_cons.mp hy with rfl | hy
    · exact ⟨x, List.mem_cons_self, hx⟩
    · obtain ⟨x', hm, hr⟩ := ih hy
      exact ⟨x', List.mem_cons_of_mem x hm, hr⟩

end EditHook
