import SlotVm.Proofs.Action

/-!
# Two actions side by side

`Action.Follows` compares an action `a` from the state `s` with an action
`a'` from the state `s'`.  Where `a` ends with a result, `a'` ends with the
same result; where `a` stops at a fault, `a'` stops at the same fault, unless
the fault is one of the excused ones, after which nothing is said.  The
states that are left are related too.

`Action.Mirrors` says this of all states that are related at the beginning.
It is the form in which two long actions are put together: there is one rule
for each way to build an action, and `Mirrors.bind` is the one that a proof
about a sequence goes through.  A first action whose results differ, because
it looks at a part in which the states differ, goes through
`Follows.bind_ok`.
-/

namespace SlotVm.Action

variable {σ τ α β : Type}

/-- From `s'` the action `a'` ends as `a` does from `s`, excused faults
apart. -/
def Follows (a a' : Action σ α) (s s' : σ) (post : σ → σ → Prop)
    (fail : σ → σ → Prop) (excused : Fault → Prop) : Prop :=
  Ends a s (fun x t => ∃ t', a' s' = .ok x t' ∧ post t t')
    (fun e t => excused e ∨ ∃ t', a' s' = .error e t' ∧ fail t t')

/-- The action `a'` ends as `a` does from all states that are related by
`pre`. -/
def Mirrors (pre post fail : σ → σ → Prop) (excused : Fault → Prop)
    (a a' : Action σ α) : Prop :=
  ∀ s s', pre s s' → Follows a a' s s' post fail excused

variable {a a' : Action σ α} {f f' : α → Action σ β} {s s' t t' : σ}
variable {x : α} {e : Fault} {excused : Fault → Prop}
variable {pre mid post post' fail fail' : σ → σ → Prop}

namespace Follows

/-- A statement about two ends with the same result. -/
theorem of_ok (h : Follows a a' s s' post fail excused)
    (ha : a s = .ok x t) : ∃ t', a' s' = .ok x t' ∧ post t t' :=
  Ends.of_ok h ha

/-- A statement about two ends with the same fault. -/
theorem of_error (h : Follows a a' s s' post fail excused)
    (ha : a s = .error e t) (he : ¬ excused e) :
    ∃ t', a' s' = .error e t' ∧ fail t t' :=
  (Ends.of_error h ha).resolve_left he

/-- Two actions whose ends with a result are known. -/
theorem intro_ok (ha : a s = .ok x t) (ha' : a' s' = .ok x t')
    (h : post t t') : Follows a a' s s' post fail excused := by
  unfold Follows Ends
  rw [ha]
  exact ⟨t', ha', h⟩

/-- Two actions that are known to stop at the same fault. -/
theorem intro_error (ha : a s = .error e t) (ha' : a' s' = .error e t')
    (h : fail t t') : Follows a a' s s' post fail excused := by
  unfold Follows Ends
  rw [ha]
  exact .inr ⟨t', ha', h⟩

/-- An action that is known to stop at an excused fault. -/
theorem intro_excused (ha : a s = .error e t) (he : excused e) :
    Follows a a' s s' post fail excused := by
  unfold Follows Ends
  rw [ha]
  exact .inl he

/-- A weaker statement. -/
theorem mono (h : Follows a a' s s' post fail excused)
    (hpost : ∀ t t', post t t' → post' t t')
    (hfail : ∀ t t', fail t t' → fail' t t') :
    Follows a a' s s' post' fail' excused := by
  apply Ends.mono h
  · intro x t hend
    obtain ⟨t', ha', ht⟩ := hend
    exact ⟨t', ha', hpost t t' ht⟩
  · intro e t hend
    rcases hend with he | ⟨t', ha', ht⟩
    · exact .inl he
    · exact .inr ⟨t', ha', hfail t t' ht⟩

/-- The rule for one action after another. -/
protected theorem bind (h : Follows a a' s s' mid fail excused)
    (hf : ∀ x t t', mid t t' → Follows (f x) (f' x) t t' post fail excused) :
    Follows (a >>= f) (a' >>= f') s s' post fail excused := by
  unfold Follows Ends
  simp only [Bind.bind, EStateM.bind]
  cases ha : a s with
  | ok x t =>
    obtain ⟨t', ha', ht⟩ := h.of_ok ha
    rw [ha']
    exact hf x t t' ht
  | error e t =>
    rcases Ends.of_error h ha with he | ⟨t', ha', ht⟩
    · exact .inl he
    · rw [ha']
      exact .inr ⟨t', rfl, ht⟩

/-- The rule for first actions whose ends are known.  Their results may
differ. -/
theorem bind_ok {x' : α} (ha : a s = .ok x t) (ha' : a' s' = .ok x' t')
    (hf : Follows (f x) (f' x') t t' post fail excused) :
    Follows (a >>= f) (a' >>= f') s s' post fail excused := by
  unfold Follows Ends at hf ⊢
  simp only [Bind.bind, EStateM.bind, ha, ha']
  exact hf

/-- The rule for results that are read off the states. -/
protected theorem read {r r' : σ → Except Fault α}
    (h : Gives (r s) (fun x => r' s' = .ok x)
      (fun e => excused e ∨ r' s' = .error e))
    (hpost : post s s') (hfail : fail s s') :
    Follows (Action.read r) (Action.read r') s s' post fail excused := by
  cases hr : r s with
  | ok x => exact .intro_ok (lift_of_ok hr) (lift_of_ok (h.of_ok hr)) hpost
  | error e =>
    rcases h.of_error hr with he | hr'
    · exact .intro_excused (lift_of_error hr) he
    · exact .intro_error (lift_of_error hr) (lift_of_error hr') hfail

/-- The rule for actions on a part of the states. -/
protected theorem onPart {part : σ → τ} {put : τ → σ → σ} {hole : τ}
    {a a' : Action τ α} {post' fail' : τ → τ → Prop}
    (h : Follows a a' (part s) (part s') post' fail' excused)
    (hpost : ∀ t t', post' t t' →
      post (put t (put hole s)) (put t' (put hole s')))
    (hfail : ∀ t t', fail' t t' →
      fail (put t (put hole s)) (put t' (put hole s'))) :
    Follows (Action.onPart part put hole a) (Action.onPart part put hole a')
      s s' post fail excused := by
  unfold Follows Ends
  simp only [Action.onPart]
  cases ha : a (part s) with
  | ok x t =>
    obtain ⟨t', ha', ht⟩ := h.of_ok ha
    rw [ha']
    exact ⟨_, rfl, hpost t t' ht⟩
  | error e t =>
    rcases Ends.of_error h ha with he | ⟨t', ha', ht⟩
    · exact .inl he
    · rw [ha']
      exact .inr ⟨_, rfl, hfail t t' ht⟩

end Follows

namespace Mirrors

/-- A weaker statement. -/
theorem mono (h : Mirrors pre post fail excused a a')
    (hpost : ∀ t t', post t t' → post' t t')
    (hfail : ∀ t t', fail t t' → fail' t t') :
    Mirrors pre post' fail' excused a a' :=
  fun s s' hs => (h s s' hs).mono hpost hfail

/-- The rule for a result without an action. -/
protected theorem pure (x : α) :
    Mirrors pre pre fail excused (Pure.pure x) (Pure.pure x) :=
  fun _ s' hs => ⟨s', rfl, hs⟩

/-- The rule for a fault. -/
protected theorem throw (e : Fault) (h : ∀ s s', pre s s' → fail s s') :
    Mirrors pre post fail excused (throwThe Fault e : Action σ α)
      (throwThe Fault e) :=
  fun s s' hs => .inr ⟨s', rfl, h s s' hs⟩

/-- The rule for one action after another. -/
protected theorem bind (h : Mirrors pre mid fail excused a a')
    (hf : ∀ x, Mirrors mid post fail excused (f x) (f' x)) :
    Mirrors pre post fail excused (a >>= f) (a' >>= f') :=
  fun s s' hs => (h s s' hs).bind fun x => hf x

/-- The rule for a result that is read off the state. -/
protected theorem read {r r' : σ → Except Fault α}
    (h : ∀ s s', pre s s' → r s = r' s')
    (hfail : ∀ s s', pre s s' → fail s s') :
    Mirrors pre pre fail excused (Action.read r) (Action.read r') := by
  intro s s' hs
  refine Follows.read ?_ hs (hfail s s' hs)
  rw [← h s s' hs]
  cases r s with
  | ok x => exact rfl
  | error e => exact .inr rfl

/-- The rule for a result that does not depend on the state. -/
protected theorem lift (r : Except Fault α)
    (hfail : ∀ s s', pre s s' → fail s s') :
    Mirrors pre pre fail excused (Action.lift r) (Action.lift r) :=
  Mirrors.read (fun _ _ _ => rfl) hfail

/-- The rule for changing the state. -/
protected theorem modify {g g' : σ → σ}
    (h : ∀ s s', pre s s' → post (g s) (g' s')) :
    Mirrors pre post fail excused (modify g : Action σ PUnit) (modify g') :=
  fun s s' hs => ⟨g' s', rfl, h s s' hs⟩

/-- The rule for a result that comes with a change of the state. -/
protected theorem modifyGet {g g' : σ → α × σ}
    (h : ∀ s s', pre s s' → (g' s').1 = (g s).1 ∧ post (g s).2 (g' s').2) :
    Mirrors pre post fail excused (modifyGet g : Action σ α)
      (modifyGet g') := by
  intro s s' hs
  obtain ⟨heq, hpost⟩ := h s s' hs
  have hend : (modifyGet g' : Action σ α) s' = .ok (g s).1 (g' s').2 := by
    rw [← heq]
    rfl
  exact ⟨(g' s').2, hend, hpost⟩

end Mirrors

end SlotVm.Action
