import MemoryManager.Fault

namespace MemoryManager

/-- How an action ends. -/
inductive Outcome (ε α : Type) where
  | done (value : α)
  | refused (error : ε)
  | stopped (fault : Fault)

/-- An action on a state `σ` that may be refused with an `ε`. What it did to the state before it ended
stays done, however it ends. -/
def Action (σ ε α : Type) : Type :=
  σ → Outcome ε α × σ

namespace Action

variable {σ τ ε δ α β γ : Type}

def run (x : Action σ ε α) (s : σ) : Outcome ε α × σ :=
  x s

/-- Goes on with the value of an action. -/
def andThen (x : Action σ ε α) (f : α → Action σ ε β) : Action σ ε β := fun s =>
  match x s with
  | (.done a, t) => f a t
  | (.refused e, t) => (.refused e, t)
  | (.stopped f, t) => (.stopped f, t)

instance : Monad (Action σ ε) where
  pure a := fun s => (.done a, s)
  bind := andThen

theorem andThen_pure (x : Action σ ε α) : andThen x (fun a s => (.done a, s)) = x := by
  funext s
  unfold andThen
  rcases x s with ⟨o, t⟩
  cases o <;> rfl

theorem andThen_assoc (x : Action σ ε α) (f : α → Action σ ε β) (g : β → Action σ ε γ) :
    andThen (andThen x f) g = andThen x fun a => andThen (f a) g := by
  funext s
  unfold andThen
  rcases x s with ⟨o, t⟩
  cases o <;> rfl

instance : LawfulMonad (Action σ ε) :=
  LawfulMonad.mk' _ andThen_pure (fun _ _ => rfl) andThen_assoc

def get : Action σ ε σ := fun s =>
  (.done s, s)

def modify (f : σ → σ) : Action σ ε Unit := fun s =>
  (.done (), f s)

def refuse (e : ε) : Action σ ε α := fun s =>
  (.refused e, s)

def stop (f : Fault) : Action σ ε α := fun s =>
  (.stopped f, s)

/-- The value of a computation that may be stopped. -/
def value (x : Except Fault α) : Action σ ε α :=
  match x with
  | .ok a => pure a
  | .error f => stop f

/-- Goes on after a refusal. -/
def onRefusal (x : Action σ ε α) (handle : ε → Action σ δ α) : Action σ δ α := fun s =>
  match x s with
  | (.done a, t) => (.done a, t)
  | (.refused e, t) => handle e t
  | (.stopped f, t) => (.stopped f, t)

/-- A refusal as a value. -/
def attempt (x : Action σ ε α) : Action σ δ (Except ε α) :=
  (Except.ok <$> x).onRefusal fun e => pure (.error e)

/-- Acts on a part of a state. -/
def within (part : σ → τ) (put : σ → τ → σ) (x : Action τ ε α) : Action σ ε α := fun s =>
  let r := x (part s)
  (r.1, put s r.2)

-- The equations of `run` are no definitional ones for `simp`: a state holds a whole memory, and
-- checking such a step by unfolding would compare memories.

@[simp] theorem run_pure (a : α) (s : σ) : (pure a : Action σ ε α).run s = (.done a, s) := (rfl)

theorem run_bind (x : Action σ ε α) (f : α → Action σ ε β) (s : σ) :
    (x >>= f).run s =
      match x.run s with
      | (.done a, t) => (f a).run t
      | (.refused e, t) => (.refused e, t)
      | (.stopped f, t) => (.stopped f, t) := (rfl)

theorem run_bind_done {x : Action σ ε α} {f : α → Action σ ε β} {s t : σ} {a : α}
    (h : x.run s = (.done a, t)) : (x >>= f).run s = (f a).run t := by
  rw [run_bind, h]

theorem run_bind_refused {x : Action σ ε α} {f : α → Action σ ε β} {s t : σ} {e : ε}
    (h : x.run s = (.refused e, t)) : (x >>= f).run s = (.refused e, t) := by
  rw [run_bind, h]

theorem run_bind_stopped {x : Action σ ε α} {f : α → Action σ ε β} {s t : σ} {e : Fault}
    (h : x.run s = (.stopped e, t)) : (x >>= f).run s = (.stopped e, t) := by
  rw [run_bind, h]

/-- An action in two parts ends with a value only if both parts do. -/
theorem run_bind_eq_done {x : Action σ ε α} {f : α → Action σ ε β} {s u : σ} {b : β}
    (h : (x >>= f).run s = (.done b, u)) :
    ∃ a t, x.run s = (.done a, t) ∧ (f a).run t = (.done b, u) := by
  rw [run_bind] at h
  split at h
  · exact ⟨_, _, by assumption, h⟩
  · cases h
  · cases h

/-- An action in two parts is refused where one of its parts is. -/
theorem run_bind_eq_refused {x : Action σ ε α} {f : α → Action σ ε β} {s u : σ} {e : ε}
    (h : (x >>= f).run s = (.refused e, u)) :
    x.run s = (.refused e, u) ∨ ∃ a t, x.run s = (.done a, t) ∧ (f a).run t = (.refused e, u) := by
  rw [run_bind] at h
  split at h
  · exact .inr ⟨_, _, by assumption, h⟩
  · cases h
    exact .inl (by assumption)
  · cases h

theorem run_value_ne_refused {x : Except Fault α} {s t : σ} {e : ε} :
    (value x : Action σ ε α).run s ≠ (.refused e, t) := by
  cases x with
  | ok a => exact fun h => by cases h
  | error f => exact fun h => by cases h

theorem run_value_eq_done {x : Except Fault α} {s t : σ} {a : α}
    (h : (value x : Action σ ε α).run s = (.done a, t)) : x = .ok a ∧ t = s := by
  cases x with
  | ok b => cases h; exact ⟨rfl, rfl⟩
  | error f => cases h

@[simp] theorem run_get (s : σ) : (get : Action σ ε σ).run s = (.done s, s) := (rfl)

@[simp] theorem run_modify (f : σ → σ) (s : σ) :
    (modify f : Action σ ε Unit).run s = (.done (), f s) := (rfl)

@[simp] theorem run_refuse (e : ε) (s : σ) :
    (refuse e : Action σ ε α).run s = (.refused e, s) := (rfl)

@[simp] theorem run_value_ok (a : α) (s : σ) :
    (value (.ok a) : Action σ ε α).run s = (.done a, s) := (rfl)

@[simp] theorem run_value_error (f : Fault) (s : σ) :
    (value (.error f) : Action σ ε α).run s = (.stopped f, s) := (rfl)

theorem run_attempt (x : Action σ ε α) (s : σ) :
    (x.attempt : Action σ δ (Except ε α)).run s =
      match x.run s with
      | (.done a, t) => (.done (.ok a), t)
      | (.refused e, t) => (.done (.error e), t)
      | (.stopped f, t) => (.stopped f, t) := by
  unfold attempt onRefusal run
  simp only [Functor.map, andThen]
  rcases x s with ⟨o, t⟩
  cases o <;> rfl

theorem run_onRefusal (x : Action σ ε α) (handle : ε → Action σ δ α) (s : σ) :
    (x.onRefusal handle).run s =
      match x.run s with
      | (.done a, t) => (.done a, t)
      | (.refused e, t) => (handle e).run t
      | (.stopped f, t) => (.stopped f, t) := (rfl)

theorem run_forM_append {f : α → Action σ ε Unit} {xs : List α} {s t : σ}
    (h : (xs.forM f).run s = (.done (), t)) (ys : List α) :
    ((xs ++ ys).forM f).run s = (ys.forM f).run t := by
  induction xs generalizing s with
  | nil =>
    cases h
    rfl
  | cons x xs ih =>
    obtain ⟨⟨⟩, u, hx, hxs⟩ := run_bind_eq_done h
    exact (run_bind_done hx).trans (ih hxs)

/-- A loop that is refused has gone through for some elements, and is refused for the next one. -/
theorem run_forM_eq_refused {f : α → Action σ ε Unit} {xs : List α} {s u : σ} {e : ε}
    (h : (xs.forM f).run s = (.refused e, u)) :
    ∃ before x after t, xs = before ++ x :: after ∧ (before.forM f).run s = (.done (), t) ∧
      (f x).run t = (.refused e, u) := by
  induction xs generalizing s with
  | nil => cases h
  | cons x xs ih =>
    rcases run_bind_eq_refused h with hx | ⟨⟨⟩, t, hx, hxs⟩
    · exact ⟨[], x, xs, s, rfl, rfl, hx⟩
    · obtain ⟨before, y, after, t', rfl, hbefore, hy⟩ := ih hxs
      exact ⟨x :: before, y, after, t', rfl, (run_bind_done hx).trans hbefore, hy⟩

theorem run_forM_singleton (f : α → Action σ ε Unit) (x : α) (s : σ) :
    ([x].forM f).run s = (f x).run s := by
  change (f x >>= fun _ => pure ()).run s = _
  rw [run_bind]
  rcases (f x).run s with ⟨o, t⟩
  cases o <;> rfl

@[simp] theorem run_within (part : σ → τ) (put : σ → τ → σ) (x : Action τ ε α) (s : σ) :
    (x.within part put).run s = ((x.run (part s)).1, put s (x.run (part s)).2) := (rfl)

end Action

end MemoryManager
