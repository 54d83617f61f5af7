import Mathlib.Order.Defs.Unbundled

set_option autoImplicit false

/-! # Computations that change a state and may fail

What a sequence of steps does, said by what each of them does: where it gives a result
(`bind_eq_ok_iff`), how the state in which it ends, with a result or without, compares to the one in
which it starts (`Keeps`), and with which failure it ends, if with any (`EndsWith`). -/

namespace FluidCss

variable {ε σ α β γ : Type}

theorem bind_of_ok {x : EStateM ε σ α} {k : α → EStateM ε σ β} {s t : σ} {a : α}
    (h : x s = .ok a t) : (x >>= k) s = k a t := by
  change EStateM.bind x k s = k a t
  rw [EStateM.bind, h]

theorem bind_bind_of_ok {x : EStateM ε σ α} {y : α → EStateM ε σ β} {k : β → EStateM ε σ γ}
    {s t : σ} {b : β} (h : (x >>= y) s = .ok b t) : (x >>= fun a => y a >>= k) s = k b t := by
  rw [← bind_assoc, bind_of_ok h]

theorem bind_of_error {x : EStateM ε σ α} {k : α → EStateM ε σ β} {s t : σ} {e : ε}
    (h : x s = .error e t) : (x >>= k) s = .error e t := by
  change EStateM.bind x k s = .error e t
  rw [EStateM.bind, h]

theorem get_bind {k : σ → EStateM ε σ β} (s : σ) : (get >>= k) s = k s s := rfl

theorem bind_eq_ok_iff {x : EStateM ε σ α} {k : α → EStateM ε σ β} {s u : σ} {b : β} :
    (x >>= k) s = .ok b u ↔ ∃ a t, x s = .ok a t ∧ k a t = .ok b u := by
  constructor
  · intro h
    cases hx : x s with
    | ok a t => exact ⟨a, t, rfl, by rw [← h, bind_of_ok hx]⟩
    | error e t => rw [bind_of_error hx] at h; cases h
  · rintro ⟨a, t, hx, hk⟩
    rw [bind_of_ok hx, hk]

theorem pure_eq_ok_iff {a b : α} {s t : σ} :
    (pure a : EStateM ε σ α) s = .ok b t ↔ a = b ∧ s = t := by
  change EStateM.Result.ok a s = .ok b t ↔ a = b ∧ s = t
  simp

/-- A step that is taken under a condition only, and what follows it in both cases. -/
theorem ite_bind_eq_ok_iff {c : Prop} [Decidable c] {x : EStateM ε σ α} {k : EStateM ε σ β}
    {s u : σ} {b : β} :
    (if c then (x >>= fun _ => k) else k) s = .ok b u ↔
      ∃ t, (if c then ∃ a, x s = .ok a t else t = s) ∧ k t = .ok b u := by
  by_cases hc : c
  · simp only [if_pos hc]
    rw [bind_eq_ok_iff, exists_comm]
    simp only [exists_and_right]
  · simp only [if_neg hc]
    constructor
    · intro h
      exact ⟨s, rfl, h⟩
    · rintro ⟨t, rfl, h⟩
      exact h

/-- Whether there is a result, and it is as wanted. -/
def givesResult (p : α → Bool) : EStateM.Result ε σ α → Bool
  | .ok a _ => p a
  | .error _ _ => false

theorem exists_ok_of_givesResult {p : α → Bool} {r : EStateM.Result ε σ α}
    (h : givesResult p r = true) : ∃ a t, r = .ok a t ∧ p a = true := by
  cases r with
  | ok a t => exact ⟨a, t, rfl, h⟩
  | error e t => exact absurd h (by simp [givesResult])

theorem exists_error_of_not_givesResult {r : EStateM.Result ε σ α}
    (h : givesResult (fun _ => true) r = false) : ∃ e t, r = .error e t := by
  cases r with
  | ok a t => exact absurd h (by simp [givesResult])
  | error e t => exact ⟨e, t, rfl⟩

/-- Whether there is a result with a property is seen from the result. -/
instance decidableExistsOk {x : Except ε α} {P : α → Prop} [DecidablePred P] :
    Decidable (∃ a, x = .ok a ∧ P a) :=
  match x with
  | .ok a => decidable_of_iff (P a) (by simp)
  | .error _ => isFalse (by simp)

/-- Whether there is a failure is seen from the result. -/
instance decidableExistsError {x : Except ε α} : Decidable (∃ e, x = .error e) :=
  match x with
  | .ok _ => isFalse (by simp)
  | .error e => isTrue ⟨e, rfl⟩

/-- Whether there is a failure with a property is seen from it. -/
instance decidableExistsErrorAnd {x : Except ε α} {P : ε → Prop} [DecidablePred P] :
    Decidable (∃ e, x = .error e ∧ P e) :=
  match x with
  | .ok _ => isFalse (by simp)
  | .error e => decidable_of_iff (P e) (by simp)

/-- The state in which a computation ends. -/
def finalState : EStateM.Result ε σ α → σ
  | .ok _ s => s
  | .error _ s => s

/-- Whether the state in which a computation ends always stands in a relation to the one in which it
starts. -/
def Keeps (R : σ → σ → Prop) (x : EStateM ε σ α) : Prop :=
  ∀ s, R s (finalState (x s))

namespace Keeps

variable {R : σ → σ → Prop}

theorem pure [Std.Refl R] (a : α) : Keeps R (pure a : EStateM ε σ α) := fun s => refl_of R s

theorem bind [IsTrans σ R] {x : EStateM ε σ α} {k : α → EStateM ε σ β} (hx : Keeps R x)
    (hk : ∀ a, Keeps R (k a)) : Keeps R (x >>= k) := by
  intro s
  have hxs := hx s
  cases h : x s with
  | ok a t =>
    rw [h] at hxs
    rw [bind_of_ok h]
    exact trans_of R hxs (hk a t)
  | error e t =>
    rw [h] at hxs
    rw [bind_of_error h]
    exact hxs

theorem get [Std.Refl R] : Keeps R (get : EStateM ε σ σ) := fun s => refl_of R s

theorem mapM [Std.Refl R] [IsTrans σ R] {f : α → EStateM ε σ β} (h : ∀ a, Keeps R (f a))
    (as : List α) : Keeps R (as.mapM f) := by
  induction as with
  | nil => exact pure []
  | cons a as ih =>
    rw [List.mapM_cons]
    exact bind (h a) fun b => bind ih fun bs => pure (b :: bs)

/-- A run that fails ends in a state that stands in the relation to the one it started in. -/
theorem of_error {x : EStateM ε σ α} (h : Keeps R x) {s t : σ} {e : ε} (hx : x s = .error e t) :
    R s t := by
  have hs := h s
  rwa [hx] at hs

end Keeps

/-- The failure with which a computation ends, if it fails. -/
def failure? : EStateM.Result ε σ α → Option ε
  | .ok _ _ => none
  | .error e _ => some e

theorem exists_ok_of_failure?_eq_none {r : EStateM.Result ε σ α} (h : failure? r = none) :
    ∃ a t, r = .ok a t := by
  cases r with
  | ok a t => exact ⟨a, t, rfl⟩
  | error e t => exact absurd h (by simp [failure?])

/-- Whether a computation ends in the same way in all states that have a property: with the failure
`o`, or without one. The state in which it ends has the property, too. -/
def EndsWith (P : σ → Prop) (o : Option ε) (x : EStateM ε σ α) : Prop :=
  ∀ s, P s → P (finalState (x s)) ∧ failure? (x s) = o

namespace EndsWith

variable {P : σ → Prop} {o o' : Option ε}

theorem pure (a : α) : EndsWith P none (pure a : EStateM ε σ α) := fun _ hs => ⟨hs, rfl⟩

theorem throw (e : ε) : EndsWith P (some e) (throw e : EStateM ε σ α) := fun _ hs => ⟨hs, rfl⟩

/-- The first failure counts. -/
theorem bind {x : EStateM ε σ α} {k : α → EStateM ε σ β} (hx : EndsWith P o x)
    (hk : ∀ a, EndsWith P o' (k a)) : EndsWith P (o.or o') (x >>= k) := by
  intro s hs
  obtain ⟨hP, ho⟩ := hx s hs
  cases h : x s with
  | ok a t =>
    rw [h] at hP ho
    obtain rfl : none = o := ho
    rw [bind_of_ok h, Option.none_or]
    exact hk a t hP
  | error e t =>
    rw [h] at hP ho
    obtain rfl : some e = o := ho
    rw [bind_of_error h, Option.some_or]
    exact ⟨hP, rfl⟩

/-- A step that does not fail leaves it to the others how to end. -/
theorem none_bind {x : EStateM ε σ α} {k : α → EStateM ε σ β} (hx : EndsWith P none x)
    (hk : ∀ a, EndsWith P o (k a)) : EndsWith P o (x >>= k) := by
  rw [← Option.none_or (o := o)]
  exact hx.bind hk

/-- What follows a failure does not count. -/
theorem throw_bind (e : ε) (k : α → EStateM ε σ β) :
    EndsWith P (some e) (MonadExcept.throw e >>= k) := fun _ hs => ⟨hs, rfl⟩

/-- A step after which nothing fails decides how all ends. -/
theorem bind_none {x : EStateM ε σ α} {k : α → EStateM ε σ β} (hx : EndsWith P o x)
    (hk : ∀ a, EndsWith P none (k a)) : EndsWith P o (x >>= k) := by
  rw [← Option.or_none (o := o)]
  exact hx.bind hk

/-- What follows a look at the state has to end in the same way in all states with the property. -/
theorem get_bind {k : σ → EStateM ε σ β} (hk : ∀ s, P s → EndsWith P o (k s)) :
    EndsWith P o (get >>= k) := fun s hs => hk s hs s hs

/-- A step that is taken under a condition only, and does not fail. -/
theorem ite_bind {c : Prop} [Decidable c] {x : EStateM ε σ α} {k : EStateM ε σ β}
    (hx : EndsWith P none x) (hk : EndsWith P o k) :
    EndsWith P o (if c then (x >>= fun _ => k) else k) := by
  split
  · exact hx.none_bind fun _ => hk
  · exact hk

theorem mapM {f : α → EStateM ε σ β} {g : α → Option ε} (as : List α)
    (h : ∀ a ∈ as, EndsWith P (g a) (f a)) : EndsWith P (as.findSome? g) (as.mapM f) := by
  induction as with
  | nil => exact pure []
  | cons a as ih =>
    have hrest := ih fun b hb => h b (List.mem_cons_of_mem a hb)
    have hcons : (a :: as).findSome? g = (g a).or ((as.findSome? g).or none) := by
      rw [Option.or_none, List.findSome?_cons]
      cases g a <;> rfl
    rw [List.mapM_cons, hcons]
    exact (h a (List.mem_cons_self ..)).bind fun b => hrest.bind fun bs => pure (b :: bs)

end EndsWith

end FluidCss
