import Mathlib.Tactic

/-!
# Computations that may fault

`Exec ε σ α` is a sequential program over a state `σ` that either returns a value of type `α` or
stops with a fault `ε`. The rules of `Returns` are those of a total-correctness logic: a program
that `Returns` does not fault.
-/

/-- A program over the state `σ` that returns an `α` or stops with a fault `ε`. -/
def Exec (ε σ α : Type) : Type := σ → Except ε (α × σ)

namespace Exec

variable {ε σ α β : Type}

instance : Monad (Exec ε σ) where
  pure a := fun s => .ok (a, s)
  bind m f := fun s =>
    match m s with
    | .ok (a, s') => f a s'
    | .error e => .error e

/-- Read a component of the state. -/
def read (f : σ → α) : Exec ε σ α := fun s => .ok (f s, s)

/-- Update the state. -/
def update (f : σ → σ) : Exec ε σ Unit := fun s => .ok ((), f s)

/-- Stop with a fault. -/
def fault (e : ε) : Exec ε σ α := fun _ => .error e

@[simp] lemma pure_apply (a : α) (s : σ) : (pure a : Exec ε σ α) s = .ok (a, s) := rfl

@[simp] lemma read_apply (f : σ → α) (s : σ) : (read f : Exec ε σ α) s = .ok (f s, s) := rfl

@[simp] lemma update_apply (f : σ → σ) (s : σ) :
    (update f : Exec ε σ Unit) s = .ok ((), f s) := rfl

lemma bind_apply (m : Exec ε σ α) (f : α → Exec ε σ β) (s : σ) :
    (m >>= f) s = match m s with
      | .ok (a, s') => f a s'
      | .error e => .error e := rfl

/-- Running past a step that has returned. -/
lemma bind_ok {m : Exec ε σ α} {f : α → Exec ε σ β} {s s' : σ} {a : α}
    (h : m s = .ok (a, s')) : (m >>= f) s = f a s' := by
  rw [bind_apply, h]

@[simp] lemma pure_bind_apply (a : α) (f : α → Exec ε σ β) (s : σ) :
    ((pure a : Exec ε σ α) >>= f) s = f a s := rfl

@[simp] lemma read_bind_apply (g : σ → α) (f : α → Exec ε σ β) (s : σ) :
    ((read g : Exec ε σ α) >>= f) s = f (g s) s := rfl

@[simp] lemma update_bind_apply (g : σ → σ) (f : Unit → Exec ε σ β) (s : σ) :
    ((update g : Exec ε σ Unit) >>= f) s = f () (g s) := rfl

lemma pure_bind_eq (a : α) (f : α → Exec ε σ β) : (pure a : Exec ε σ α) >>= f = f a := rfl

lemma bind_assoc_eq {γ : Type} (m : Exec ε σ α) (f : α → Exec ε σ β) (g : β → Exec ε σ γ) :
    m >>= f >>= g = m >>= fun a => f a >>= g := by
  funext s
  simp only [bind_apply]
  cases m s with
  | error e => rfl
  | ok p => rfl

/-- Inversion of a sequential composition that returned. -/
lemma of_bind_ok {m : Exec ε σ α} {f : α → Exec ε σ β} {s s'' : σ} {b : β}
    (h : (m >>= f) s = .ok (b, s'')) : ∃ a s', m s = .ok (a, s') ∧ f a s' = .ok (b, s'') := by
  cases hm : m s with
  | error e =>
    rw [bind_apply, hm] at h
    cases h
  | ok p =>
    obtain ⟨a, s'⟩ := p
    rw [bind_ok hm] at h
    exact ⟨a, s', rfl, h⟩

/-- Inversion of a result that is known in part. -/
lemma exists_of_map_ok {γ : Type} {x : Except ε α} {f : α → γ} {c : γ}
    (h : x.map f = .ok c) : ∃ a, x = .ok a ∧ f a = c := by
  cases x with
  | error e => cases h
  | ok a => exact ⟨a, rfl, Except.ok.inj h⟩

/-- From `s`, the program returns, and the value and the final state satisfy `Q`. -/
def Returns (m : Exec ε σ α) (s : σ) (Q : α → σ → Prop) : Prop :=
  ∃ a s', m s = .ok (a, s') ∧ Q a s'

lemma Returns.mono {m : Exec ε σ α} {s : σ} {Q R : α → σ → Prop}
    (h : Returns m s Q) (hQR : ∀ a s', Q a s' → R a s') : Returns m s R := by
  obtain ⟨a, s', hm, hQ⟩ := h
  exact ⟨a, s', hm, hQR a s' hQ⟩

lemma Returns.bind {m : Exec ε σ α} {f : α → Exec ε σ β} {s : σ}
    {Q : α → σ → Prop} {R : β → σ → Prop}
    (h : Returns m s Q) (hf : ∀ a s', Q a s' → Returns (f a) s' R) : Returns (m >>= f) s R := by
  obtain ⟨a, s', hm, hQ⟩ := h
  obtain ⟨b, s'', hfa, hR⟩ := hf a s' hQ
  exact ⟨b, s'', by rw [bind_ok hm, hfa], hR⟩

/-- A first step that is known leaves the rest of the program. -/
lemma Returns.step {m : Exec ε σ α} {f : α → Exec ε σ β} {s s' : σ} {a : α} {R : β → σ → Prop}
    (h : m s = .ok (a, s')) (hf : Returns (f a) s' R) : Returns (m >>= f) s R := by
  obtain ⟨b, s'', hfa, hR⟩ := hf
  exact ⟨b, s'', by rw [bind_ok h, hfa], hR⟩

/-- A program is deterministic: what it returned is what every postcondition speaks about. -/
lemma Returns.post {m : Exec ε σ α} {s s' : σ} {a : α} {Q : α → σ → Prop}
    (h : Returns m s Q) (hm : m s = .ok (a, s')) : Q a s' := by
  obtain ⟨b, t, hb, hQ⟩ := h
  rw [hm] at hb
  cases hb
  exact hQ

end Exec
