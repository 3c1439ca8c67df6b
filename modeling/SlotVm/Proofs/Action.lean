import SlotVm.Action

/-!
# How an action ends

`Action.Ends a s post fail` says everything about the action `a` from the
state `s` at once: a result and the state with it satisfy `post`, and a
fault and the state that it leaves satisfy `fail`.

There are two groups of lemmas.

* One rule for each way to build an action.  `Ends.bind` is the rule that
  every proof about a longer action goes through, and `Ends.bind_ok` the one
  for a first action that only looks at something.
* What is read off a finished statement.  `Ends.of_ok` and `Ends.of_error`
  are for an action whose end is known.

An action on a part of a state is `Action.onPart`, and `Ends.onPart` carries
a statement about the part to the whole.  `Action.Spares` says that a part is
left alone.

The first section is about results without a state, which the same proofs
have to put together (`bind_of_ok`) or to take apart (`bind_eq_ok`,
`bind_eq_error`).  For actions that are known to end with a result,
`seq_of_ok` and `seq_eq_ok` do the same.
-/

namespace SlotVm

/-! ## Results -/

section Results

variable {α β : Type} {r : Except Fault α} {f : α → Except Fault β}

/-- A first computation whose result is known. -/
theorem bind_of_ok {x : α} (h : r = .ok x) : r >>= f = f x := by
  rw [h]
  rfl

/-- Both parts of a computation with a result have one. -/
theorem bind_eq_ok {y : β} (h : r >>= f = .ok y) :
    ∃ x, r = .ok x ∧ f x = .ok y := by
  cases r with
  | ok x => exact ⟨x, rfl, h⟩
  | error e => cases h

/-- One of the parts of a computation with a fault has it. -/
theorem bind_eq_error {e : Fault} (h : r >>= f = .error e) :
    r = .error e ∨ ∃ x, r = .ok x ∧ f x = .error e := by
  cases r with
  | ok x => exact .inr ⟨x, rfl, h⟩
  | error e' =>
    cases h
    exact .inl rfl

/-- A result that has been looked at as an option. -/
theorem eq_ok_of_toOption {x : α} (h : r.toOption = some x) : r = .ok x := by
  cases r with
  | ok y =>
    cases h
    rfl
  | error e => cases h

/-- Every way in which a computation without state can end: a result
satisfies `post`, a fault satisfies `fail`. -/
def Gives (r : Except Fault α) (post : α → Prop) (fail : Fault → Prop) :
    Prop :=
  match r with
  | .ok x => post x
  | .error e => fail e

theorem Gives.of_ok {post : α → Prop} {fail : Fault → Prop} {x : α}
    (h : Gives r post fail) (hr : r = .ok x) : post x := by
  unfold Gives at h
  rw [hr] at h
  exact h

theorem Gives.of_error {post : α → Prop} {fail : Fault → Prop} {e : Fault}
    (h : Gives r post fail) (hr : r = .error e) : fail e := by
  unfold Gives at h
  rw [hr] at h
  exact h

/-- The statement with the result itself. -/
theorem Gives.with_result {post : α → Prop} {fail : Fault → Prop}
    (h : Gives r post fail) : Gives r (fun x => r = .ok x ∧ post x) fail := by
  cases r with
  | ok x => exact ⟨rfl, h⟩
  | error e => exact h

/-- A weaker statement. -/
theorem Gives.mono {post post' : α → Prop} {fail fail' : Fault → Prop}
    (h : Gives r post fail) (hpost : ∀ x, post x → post' x)
    (hfail : ∀ e, fail e → fail' e) : Gives r post' fail' := by
  cases r with
  | ok x => exact hpost x h
  | error e => exact hfail e h

/-- The rule for one computation after another. -/
protected theorem Gives.bind {mid : α → Prop} {post : β → Prop}
    {fail : Fault → Prop} (h : Gives r mid fail)
    (hf : ∀ x, mid x → Gives (f x) post fail) : Gives (r >>= f) post fail := by
  cases r with
  | ok x => exact hf x h
  | error e => exact h

/-- Two computations that fail exactly if a condition of theirs does not
hold. -/
theorem Gives.bind_and {mid : α → Prop} {post : β → Prop} {P Q : Prop}
    (h : Gives r mid (fun _ => ¬ P))
    (hf : ∀ x, mid x → Gives (f x) post (fun _ => ¬ Q)) :
    Gives (r >>= f) post (fun _ => ¬ (P ∧ Q)) := by
  apply (h.mono (fun _ hx => hx) fun _ hnot hboth => hnot hboth.1).bind
  intro x hx
  exact (hf x hx).mono (fun _ hy => hy) fun _ hnot hboth => hnot hboth.2

/-- A traversal fails at one of its members. -/
theorem mapM_eq_error {xs : List α} {g : α → Except Fault β} {e : Fault}
    (h : xs.mapM g = .error e) : ∃ x ∈ xs, g x = .error e := by
  induction xs with
  | nil => cases h
  | cons x rest ih =>
    rw [List.mapM_cons] at h
    rcases bind_eq_error h with hx | ⟨y, -, h⟩
    · exact ⟨x, List.mem_cons_self, hx⟩
    · rcases bind_eq_error h with hrest | ⟨ys, -, hys⟩
      · obtain ⟨x', hmem, hx'⟩ := ih hrest
        exact ⟨x', List.mem_cons_of_mem _ hmem, hx'⟩
      · cases hys

/-- A traversal without a member that fails. -/
theorem mapM_of_ok {xs : List α} {g : α → Except Fault β}
    (h : ∀ x ∈ xs, ∃ y, g x = .ok y) : ∃ ys, xs.mapM g = .ok ys := by
  induction xs with
  | nil => exact ⟨[], rfl⟩
  | cons x rest ih =>
    obtain ⟨⟨y, hy⟩, hrest⟩ := List.forall_mem_cons.1 h
    obtain ⟨ys, hys⟩ := ih hrest
    rw [List.mapM_cons, bind_of_ok hy, bind_of_ok hys]
    exact ⟨y :: ys, rfl⟩

/-- A traversal has the fault of its first member that fails. -/
theorem mapM_of_error {front back : List α} {x : α} {g : α → Except Fault β}
    {e : Fault} (hfront : ∀ y ∈ front, ∃ z, g y = .ok z)
    (hx : g x = .error e) : (front ++ x :: back).mapM g = .error e := by
  induction front with
  | nil =>
    rw [List.nil_append, List.mapM_cons, hx]
    rfl
  | cons y front ih =>
    obtain ⟨⟨z, hz⟩, hfront⟩ := List.forall_mem_cons.1 hfront
    rw [List.cons_append, List.mapM_cons, bind_of_ok hz, ih hfront]
    rfl

end Results

end SlotVm

namespace SlotVm.Action

variable {σ τ α β : Type}

/-- Every way in which `a` can end from `s`: a result satisfies `post`, a
fault satisfies `fail`. -/
def Ends (a : Action σ α) (s : σ) (post : α → σ → Prop)
    (fail : Fault → σ → Prop) : Prop :=
  match a s with
  | .ok x t => post x t
  | .error e t => fail e t

/-- A result that is known. -/
theorem lift_of_ok {r : Except Fault α} {x : α} {s : σ} (h : r = .ok x) :
    Action.lift r s = .ok x s := by
  rw [h]
  rfl

/-- A fault that is known. -/
theorem lift_of_error {r : Except Fault α} {e : Fault} {s : σ}
    (h : r = .error e) : Action.lift r s = .error e s := by
  rw [h]
  rfl

section Sequences

variable {a : Action σ α} {f : α → Action σ β} {s t u : σ} {x : α} {y : β}

/-- A first action whose end is known. -/
theorem seq_of_ok (ha : a s = .ok x t) : (a >>= f) s = f x t := by
  simp only [Bind.bind, EStateM.bind, ha]

/-- Both parts of a sequence that ends with a result end with one. -/
theorem seq_eq_ok (h : (a >>= f) s = .ok y u) :
    ∃ x t, a s = .ok x t ∧ f x t = .ok y u := by
  cases ha : a s with
  | ok x t =>
    rw [seq_of_ok ha] at h
    exact ⟨x, t, rfl, h⟩
  | error e t =>
    simp only [Bind.bind, EStateM.bind, ha] at h
    cases h

end Sequences

namespace Ends

variable {a : Action σ α} {f : α → Action σ β} {s t : σ} {x : α} {e : Fault}
variable {post post' : α → σ → Prop} {fail fail' : Fault → σ → Prop}

/-! ## Reading a statement -/

/-- The statement about an end with a result. -/
theorem of_ok (h : Ends a s post fail) (ha : a s = .ok x t) : post x t := by
  unfold Ends at h
  rw [ha] at h
  exact h

/-- The statement about an end with a fault. -/
theorem of_error (h : Ends a s post fail) (ha : a s = .error e t) :
    fail e t := by
  unfold Ends at h
  rw [ha] at h
  exact h

/-- An action whose ends are known one by one. -/
theorem intro (hok : ∀ x t, a s = .ok x t → post x t)
    (herror : ∀ e t, a s = .error e t → fail e t) : Ends a s post fail := by
  unfold Ends
  cases ha : a s with
  | ok x t => exact hok x t ha
  | error e t => exact herror e t ha

/-- An action that cannot fail has a result. -/
theorem has_result (h : Ends a s post fun _ _ => False) :
    ∃ x t, a s = .ok x t ∧ post x t := by
  cases ha : a s with
  | ok x t => exact ⟨x, t, rfl, h.of_ok ha⟩
  | error e t => exact absurd (h.of_error ha) id

/-- An action that ends as another one does. -/
theorem of_eq {a' : Action σ α} {s' : σ} (h : a s = a' s')
    (h' : Ends a' s' post fail) : Ends a s post fail := by
  unfold Ends
  rw [h]
  exact h'

/-- The statement with the end itself. -/
theorem with_end (h : Ends a s post fail) :
    Ends a s (fun x t => a s = .ok x t ∧ post x t)
      (fun e t => a s = .error e t ∧ fail e t) :=
  intro (fun _ _ ha => ⟨ha, h.of_ok ha⟩) fun _ _ ha => ⟨ha, h.of_error ha⟩

/-- A weaker statement. -/
theorem mono (h : Ends a s post fail) (hpost : ∀ x t, post x t → post' x t)
    (hfail : ∀ e t, fail e t → fail' e t) : Ends a s post' fail' :=
  intro (fun x t ha => hpost x t (h.of_ok ha))
    (fun e t ha => hfail e t (h.of_error ha))

/-- A weaker statement about the results. -/
theorem imp (h : Ends a s post fail) (hpost : ∀ x t, post x t → post' x t) :
    Ends a s post' fail :=
  h.mono hpost fun _ _ he => he

/-- A weaker statement about the faults. -/
theorem imp_fail (h : Ends a s post fail) (hfail : ∀ e t, fail e t → fail' e t) :
    Ends a s post fail' :=
  h.mono (fun _ _ hx => hx) hfail

/-! ## Building actions -/

/-- The rule for an action that ends at once. -/
protected theorem pure (h : post x s) :
    Ends (Pure.pure x : Action σ α) s post fail := h

/-- The rule for a fault. -/
protected theorem throw (h : fail e s) :
    Ends (throwThe Fault e : Action σ α) s post fail := h

/-- The rule for one action after another. -/
protected theorem bind {mid : α → σ → Prop} {post : β → σ → Prop}
    (ha : Ends a s mid fail)
    (hf : ∀ x t, mid x t → Ends (f x) t post fail) :
    Ends (a >>= f) s post fail := by
  unfold Ends
  simp only [Bind.bind, EStateM.bind]
  cases h : a s with
  | ok x t => exact hf x t (ha.of_ok h)
  | error e t => exact ha.of_error h

/-- The rule for a first action whose end is known. -/
theorem bind_ok {post : β → σ → Prop} (ha : a s = .ok x t)
    (hf : Ends (f x) t post fail) : Ends (a >>= f) s post fail := by
  unfold Ends
  rw [seq_of_ok ha]
  exact hf

/-- The rule for changing the state. -/
protected theorem modify {g : σ → σ} {post : PUnit → σ → Prop}
    (h : post ⟨⟩ (g s)) : Ends (modify g : Action σ PUnit) s post fail := h

/-- The rule for a result that comes with a change of the state. -/
protected theorem modifyGet {g : σ → α × σ} (h : post (g s).1 (g s).2) :
    Ends (modifyGet g : Action σ α) s post fail := h

/-- The rule for a result that does not depend on the state. -/
protected theorem lift {r : Except Fault α}
    (hok : ∀ x, r = .ok x → post x s)
    (herror : ∀ e, r = .error e → fail e s) :
    Ends (Action.lift r) s post fail := by
  cases r with
  | ok x => exact hok x rfl
  | error e => exact herror e rfl

/-- The rule for a result that is read off the state. -/
protected theorem read {r : σ → Except Fault α}
    (hok : ∀ x, r s = .ok x → post x s)
    (herror : ∀ e, r s = .error e → fail e s) :
    Ends (Action.read r) s post fail :=
  Ends.lift hok herror

/-- The rule for an action on a part of the state.  The hole that stands in
for the part while the action runs is gone afterwards. -/
protected theorem onPart {part : σ → τ} {put : τ → σ → σ} {hole : τ}
    {a : Action τ α}
    (h : Ends a (part s) (fun x t => post x (put t (put hole s)))
      (fun e t => fail e (put t (put hole s)))) :
    Ends (Action.onPart part put hole a) s post fail := by
  unfold Ends
  simp only [Action.onPart]
  cases ha : a (part s) with
  | ok x t => exact h.of_ok ha
  | error e t => exact h.of_error ha

end Ends

/-! ## States that are left -/

/-- The action leaves the state `t`, with a result or with a fault. -/
def Leaves (a : Action σ α) (s t : σ) : Prop :=
  (∃ x, a s = .ok x t) ∨ ∃ e, a s = .error e t

/-- What holds however an action ends. -/
theorem Ends.of_leaves {a : Action σ α} {s t : σ} {P : σ → Prop}
    (h : Ends a s (fun _ => P) (fun _ => P)) (ha : Leaves a s t) : P t := by
  rcases ha with ⟨x, hx⟩ | ⟨e, he⟩
  · exact h.of_ok hx
  · exact h.of_error he

/-! ## Parts that are left alone -/

/-- The action leaves a part of the state as it is, however it ends. -/
def Spares (part : σ → τ) (a : Action σ α) : Prop :=
  ∀ s, Ends a s (fun _ t => part t = part s) (fun _ t => part t = part s)

namespace Spares

variable {part : σ → τ} {a : Action σ α} {f : α → Action σ β}

protected theorem pure (x : α) : Spares part (Pure.pure x : Action σ α) :=
  fun _ => Ends.pure rfl

protected theorem throw (e : Fault) :
    Spares part (throwThe Fault e : Action σ α) :=
  fun _ => Ends.throw rfl

protected theorem lift (r : Except Fault α) :
    Spares part (Action.lift r : Action σ α) :=
  fun _ => Ends.lift (fun _ _ => rfl) fun _ _ => rfl

protected theorem read (r : σ → Except Fault α) :
    Spares part (Action.read r) :=
  fun _ => Ends.read (fun _ _ => rfl) fun _ _ => rfl

protected theorem get : Spares part (get : Action σ σ) := fun _ => rfl

protected theorem modify {g : σ → σ} (hg : ∀ s, part (g s) = part s) :
    Spares part (modify g : Action σ PUnit) :=
  fun s => Ends.modify (hg s)

protected theorem bind (ha : Spares part a) (hf : ∀ x, Spares part (f x)) :
    Spares part (a >>= f) := by
  intro s
  refine (ha s).bind ?_
  intro x t ht
  exact (hf x t).mono (fun _ _ hu => hu.trans ht) fun _ _ hu => hu.trans ht

end Spares

end SlotVm.Action
