import SlotVm.Native.Bridge
import SlotVm.Proofs.Action
import SlotVm.Proofs.StableSort

/-!
# The chain of native families

The embedding registers families of all kinds in any order, and the bridge
refuses those that its profile does not have.  The chain is the stable sort
of the families that were taken.

There are three groups of lemmas.

* One registration.  `Bridge.insert` keeps the chain in order and puts the
  new family behind all others of its kind (`Arranges.insert`), and
  `Bridge.register` takes exactly the kinds of the profile.
* A sequence of registrations.  `Bridge.offerAll` goes on behind a refusal,
  and `Serves` is what every registration preserves: the chain arranges the
  families that were taken.
* What the order of the chain means for the other operations: which family
  runs a method (`RunsFirst`), and which kinds are still without a family
  (`mem_unserved_iff`).

A bridge starts empty or with the standard families of a profile
(`forConfig_ends`).
-/

namespace SlotVm

open SlotVm.Action

namespace FamilyKind

theorem rank_injective {j k : FamilyKind} (h : j.rank = k.rank) : j = k := by
  cases j <;> cases k <;> simp [rank] at h ⊢

theorem mem_all (kind : FamilyKind) : kind ∈ all := by
  cases kind <;> simp [all]

/-- The kinds are listed in their order. -/
theorem all_ordered : all.Pairwise fun j k => j.rank < k.rank := by
  decide

end FamilyKind

namespace Bridge

variable {δ : Type}

/-- A family with the kind under which it is registered. -/
abbrev Registration (δ : Type) := FamilyKind × Family δ

variable {b : Bridge δ} {accepted chain : List (Registration δ)}
variable {kind : FamilyKind} {family : Family δ}

/-! ## The order of the chain -/

/-- The registrations of one kind. -/
def ofKind (kind : FamilyKind) (entries : List (Registration δ)) :
    List (Registration δ) :=
  entries.filter (·.1 = kind)

@[simp] theorem ofKind_nil : ofKind kind ([] : List (Registration δ)) = [] :=
  rfl

@[simp] theorem ofKind_append (xs ys : List (Registration δ)) :
    ofKind kind (xs ++ ys) = ofKind kind xs ++ ofKind kind ys :=
  List.filter_append xs ys

theorem ofKind_cons (entry : Registration δ) (rest : List (Registration δ)) :
    ofKind kind (entry :: rest) =
      if entry.1 = kind then entry :: ofKind kind rest
      else ofKind kind rest := by
  simp [ofKind, List.filter_cons]

/-- The chain has families of lower rank first. -/
def Ordered (chain : List (Registration δ)) : Prop :=
  chain.Pairwise fun x y => x.1.rank ≤ y.1.rank

/-- The chain has the accepted registrations in the order of their kinds, and
those of one kind as they came. -/
structure Arranges (accepted chain : List (Registration δ)) : Prop where
  ordered : Ordered chain
  stable : ∀ kind, ofKind kind chain = ofKind kind accepted

theorem mem_insert {entry : Registration δ}
    (h : entry ∈ insert kind family chain) :
    entry = (kind, family) ∨ entry ∈ chain := by
  induction chain with
  | nil => exact .inl (List.mem_singleton.1 h)
  | cons first rest ih =>
    unfold insert at h
    split at h
    · exact List.mem_cons.1 h
    · rcases List.mem_cons.1 h with hfirst | hrest
      · rw [hfirst]
        exact .inr List.mem_cons_self
      · rcases ih hrest with hnew | hold
        · exact .inl hnew
        · exact .inr (List.mem_cons_of_mem _ hold)

theorem Ordered.insert (h : Ordered chain) (kind : FamilyKind)
    (family : Family δ) : Ordered (insert kind family chain) := by
  induction chain with
  | nil => exact List.pairwise_singleton _ _
  | cons first rest ih =>
    have hcons := List.pairwise_cons.1 h
    unfold Bridge.insert
    split
    · rename_i hlt
      refine List.pairwise_cons.2 ⟨?_, h⟩
      intro entry hentry
      have hfirst : first.1.rank ≤ entry.1.rank :=
        rank_head_le Prod.fst FamilyKind.rank h hentry
      show kind.rank ≤ entry.1.rank
      omega
    · rename_i hge
      refine List.pairwise_cons.2 ⟨?_, ih hcons.2⟩
      intro entry hentry
      rcases mem_insert hentry with rfl | hold
      · show first.1.rank ≤ kind.rank
        omega
      · exact hcons.1 entry hold

/-- No family of a chain has a kind whose rank lies below the first one. -/
theorem ofKind_eq_nil {first : Registration δ} {rest : List (Registration δ)}
    (h : Ordered (first :: rest)) (hlt : kind.rank < first.1.rank) :
    ofKind kind (first :: rest) = [] := by
  apply List.filter_eq_nil_iff.2
  intro entry hentry
  have hfirst : first.1.rank ≤ entry.1.rank :=
    rank_head_le Prod.fst FamilyKind.rank h hentry
  simp only [decide_eq_true_eq]
  rintro rfl
  omega

/-- A new family comes behind all others of its kind and changes nothing for
the other kinds. -/
theorem ofKind_insert (h : Ordered chain) (k : FamilyKind) :
    ofKind k (insert kind family chain) =
      ofKind k chain ++ ofKind k [(kind, family)] := by
  induction chain with
  | nil => rfl
  | cons first rest ih =>
    unfold insert
    split
    · rename_i hlt
      by_cases hk : kind = k
      · rw [← hk, ofKind_cons, ofKind_eq_nil h hlt]
        simp [ofKind]
      · simp [ofKind, hk]
    · rw [ofKind_cons, ofKind_cons, ih h.of_cons]
      split <;> simp

/-- The chain after one more registration. -/
theorem Arranges.insert (h : Arranges accepted chain) (kind : FamilyKind)
    (family : Family δ) :
    Arranges (accepted ++ [(kind, family)]) (insert kind family chain) := by
  refine ⟨h.ordered.insert kind family, ?_⟩
  intro k
  rw [ofKind_insert h.ordered, h.stable k, ofKind_append]

/-- There is one way to arrange registrations, up to the order of different
kinds. -/
theorem Arranges.unique {accepted' chain' : List (Registration δ)}
    (h : Arranges accepted chain) (h' : Arranges accepted' chain')
    (hsame : ∀ kind, ofKind kind accepted = ofKind kind accepted') :
    chain = chain' := by
  apply eq_of_ordered Prod.fst FamilyKind.rank
    (fun _ _ => FamilyKind.rank_injective) h.ordered h'.ordered
  intro kind
  exact (h.stable kind).trans ((hsame kind).trans (h'.stable kind).symm)

theorem arranges_mergeSort (accepted : List (Registration δ)) :
    Arranges accepted (accepted.mergeSort fun x y => x.1.rank ≤ y.1.rank) := by
  constructor
  · exact pairwise_mergeSort_le (fun x : Registration δ => x.1.rank) accepted
  · intro kind
    apply filter_mergeSort (fun x : Registration δ => x.1.rank) accepted
    intro x y hx hy
    simp only [decide_eq_true_eq] at hx hy
    exact Nat.le_of_eq (congrArg FamilyKind.rank (hx.trans hy.symm))

/-! ## One registration -/

/-- The profile enables the kind.  Without a profile every kind is
enabled. -/
def enables (profile : Option FamilySet) (kind : FamilyKind) : Bool :=
  profile.all fun families => kind.isEnabled families

theorem admits_eq (b : Bridge δ) (kind : FamilyKind) :
    b.admits kind = enables b.enabled kind := by
  unfold admits enables
  cases b.enabled <;> rfl

/-- A family of an admitted kind is taken. -/
theorem register_admitted (h : b.admits kind = true) (family : Family δ)
    (log : Log) :
    ∃ log', b.register kind family log =
      .ok { b with chain := insert kind family b.chain } log' := by
  unfold register
  rw [if_pos h]
  exact ⟨_, rfl⟩

/-- A family of another kind is refused. -/
theorem register_refused (h : b.admits kind = false) (family : Family δ)
    (log : Log) :
    b.register kind family log =
      .error (.invalidConfig (.familyDisabled kind.name)) log := by
  unfold register
  rw [if_neg (by simp [h])]
  rfl

/-! ## The first families -/

/-- The families that the bridge of a profile starts with. -/
def standardFamilies (families : FamilySet) : List (Registration δ) :=
  (.object, Family.root) ::
    if families.stdio then [(.console, Stdio.family)] else []

/-- The bridge of a profile before the embedding adds to it. -/
def ofProfile (families : FamilySet) : Bridge δ :=
  ⟨some families, standardFamilies families⟩

/-- Warning about some kinds leaves the bridge. -/
theorem warnings_end (b : Bridge δ) (kinds : List FamilyKind)
    (text : FamilyKind → String) (log : Log) {fail : Fault → Log → Prop} :
    Ends (do
        for kind in kinds do
          modify fun log => log.record .warn target fun _ => text kind
        return b : Action Log (Bridge δ)) log (fun b' _ => b' = b) fail := by
  induction kinds generalizing log with
  | nil => exact rfl
  | cons kind kinds ih =>
    rw [List.forIn_cons]
    exact ih _

/-- The bridge of a configuration has the standard families of its profile,
and it is refused only if the native classes lie elsewhere. -/
theorem forConfig_ends (config : Config) (log : Log) :
    Ends (forConfig config : Action Log (Bridge δ)) log
      (fun b _ => b = ofProfile config.families)
      (fun _ _ => config.native.classBase ≠ Native.classBase) := by
  unfold forConfig
  by_cases hbase : config.native.classBase ≠ Native.classBase
  · simp only [if_pos hbase]
    exact hbase
  · simp only [if_neg hbase]
    have hobject : (⟨some config.families, []⟩ : Bridge δ).admits .object =
        true := rfl
    obtain ⟨log₁, hroot⟩ := register_admitted hobject Family.root log
    refine Ends.bind_ok hroot ?_
    by_cases hstdio : config.families.stdio = true
    · have hconsole : (⟨some config.families, [(.object, Family.root)]⟩ :
          Bridge δ).admits .console = true := hstdio
      obtain ⟨log₂, hstream⟩ := register_admitted hconsole Stdio.family log₁
      simp only [if_pos hstdio, ofProfile, standardFamilies]
      refine Ends.bind_ok hstream ?_
      exact warnings_end _ _ _ log₂
    · simp only [if_neg hstdio, ofProfile, standardFamilies]
      exact warnings_end _ _ _ log₁

/-- A bridge as it is made, with its profile and the families that it starts
with. -/
inductive Starts : Option FamilySet → List (Registration δ) → Bridge δ → Prop
  | bare : Starts none [] .empty
  | profile {config : Config} {log log' : Log} {b : Bridge δ}
      (h : forConfig config log = .ok b log') :
      Starts (some config.families) (standardFamilies config.families) b

/-! ## A sequence of registrations -/

/-- One registration.  The bridge stays as it is if the family is refused. -/
def offer (x : Bridge δ × Log) (call : Registration δ) : Bridge δ × Log :=
  match x.1.register call.1 call.2 x.2 with
  | .ok b log => (b, log)
  | .error _ log => (x.1, log)

/-- Registrations one after the other. -/
def offerAll (calls : List (Registration δ)) (x : Bridge δ × Log) :
    Bridge δ × Log :=
  calls.foldl offer x

/-- The bridge has this profile, and its chain arranges the registrations
that it has accepted. -/
structure Serves (profile : Option FamilySet)
    (accepted : List (Registration δ)) (b : Bridge δ) : Prop where
  enabled : b.enabled = profile
  arranged : Arranges accepted b.chain

variable {profile : Option FamilySet}

theorem Starts.serves {first : List (Registration δ)}
    (h : Starts profile first b) : Serves profile first b := by
  cases h with
  | bare => exact ⟨rfl, List.Pairwise.nil, fun _ => rfl⟩
  | profile hconfig =>
    rename_i config _ _
    have hb := (forConfig_ends config _).of_ok hconfig
    have hordered : Ordered (ofProfile config.families : Bridge δ).chain := by
      unfold ofProfile standardFamilies Ordered
      split <;> simp [FamilyKind.rank]
    rw [hb]
    exact ⟨rfl, hordered, fun _ => rfl⟩

theorem Serves.admits_eq (h : Serves profile accepted b)
    (kind : FamilyKind) : b.admits kind = enables profile kind := by
  rw [Bridge.admits_eq, h.enabled]

/-- What one registration preserves. -/
theorem Serves.offer (h : Serves profile accepted b) (call : Registration δ)
    (log : Log) :
    Serves profile (accepted ++ [call].filter (enables profile ·.1))
      (offer (b, log) call).1 := by
  have hadmits := h.admits_eq call.1
  cases hcall : enables profile call.1 with
  | true =>
    obtain ⟨log', hregister⟩ :=
      register_admitted (hadmits.trans hcall) call.2 log
    simp only [Bridge.offer, hregister, List.filter_cons, hcall]
    exact ⟨h.enabled, h.arranged.insert call.1 call.2⟩
  | false =>
    have hregister := register_refused (hadmits.trans hcall) call.2 log
    simp [Bridge.offer, hregister, hcall, h]

/-- What a sequence of registrations preserves.  The induction is on the
sequence, with the registrations before it as a variable. -/
theorem Serves.offerAll (h : Serves profile accepted b)
    (calls : List (Registration δ)) (log : Log) :
    Serves profile (accepted ++ calls.filter (enables profile ·.1))
      (offerAll calls (b, log)).1 := by
  induction calls generalizing accepted b log with
  | nil => simpa [Bridge.offerAll] using h
  | cons call calls ih =>
    have hstep := ih (h.offer call log) (Bridge.offer (b, log) call).2
    rw [List.append_assoc, ← List.filter_append] at hstep
    exact hstep

/-! ## Running methods -/

variable {r : MethodRef}

/-- The state with one more message of the bridge in its log. -/
def logged (s : Store δ) (level : Level) (text : String) : Store δ :=
  { s with log := s.log.record level target fun _ => text }

/-- A native call runs one family, the first one of the chain that handles
the class, or fails if there is none.  It is logged before. -/
inductive RunsFirst (b : Bridge δ) (image : Image) (r : MethodRef)
    (s : Store δ) : Prop
  | runs (before after : List (Registration δ)) (entry : Registration δ)
      (level : Level) (text : String)
      (hchain : b.chain = before ++ entry :: after)
      (hbefore : ∀ x ∈ before, x.2.handles r.classId = false)
      (hhandles : entry.2.handles r.classId = true)
      (hinvoke : b.invoke image r s =
        entry.2.invoke image r (logged s level text))
  | unknown (level : Level) (text : String)
      (hnone : ∀ x ∈ b.chain, x.2.handles r.classId = false)
      (hinvoke : b.invoke image r s =
        .error (.unknownNativeClass r.classId) (logged s level text))

theorem invoke_of_some (h : b.familyOf? r.classId = some family)
    (image : Image) (s : Store δ) :
    ∃ text, b.invoke image r s =
      family.invoke image r (logged s .debug text) := by
  unfold invoke
  rw [h]
  exact ⟨_, rfl⟩

theorem invoke_of_none (h : b.familyOf? r.classId = none) (image : Image)
    (s : Store δ) :
    ∃ text, b.invoke image r s =
      .error (.unknownNativeClass r.classId) (logged s .warn text) := by
  unfold invoke
  rw [h]
  exact ⟨_, rfl⟩

theorem runsFirst (b : Bridge δ) (image : Image) (r : MethodRef)
    (s : Store δ) : b.RunsFirst image r s := by
  cases hfind : b.chain.find? (·.2.handles r.classId) with
  | none =>
    have hfamily : b.familyOf? r.classId = none := by
      rw [familyOf?, hfind]
      rfl
    obtain ⟨text, hinvoke⟩ := invoke_of_none hfamily image s
    exact .unknown .warn text (by simpa using hfind) hinvoke
  | some entry =>
    have hfamily : b.familyOf? r.classId = some entry.2 := by
      rw [familyOf?, hfind]
      rfl
    obtain ⟨hhandles, before, after, hchain, hbefore⟩ :=
      List.find?_eq_some_iff_append.1 hfind
    obtain ⟨text, hinvoke⟩ := invoke_of_some hfamily image s
    exact .runs before after entry .debug text hchain
      (by simpa using hbefore) hhandles hinvoke

/-! ## Kinds without a family -/

theorem mem_unserved_iff {families : FamilySet}
    (h : Serves (some families) accepted b) :
    kind ∈ b.unserved ↔
      kind.isEnabled families = true ∧ ofKind kind accepted = [] := by
  have hnone : b.chain.all (·.1 != kind) = true ↔ ofKind kind b.chain = [] := by
    simp [ofKind]
  unfold unserved
  rw [h.enabled, ← h.arranged.stable kind, ← hnone]
  simp [FamilyKind.mem_all]

theorem unserved_ordered (b : Bridge δ) :
    b.unserved.Pairwise fun j k => j.rank < k.rank := by
  unfold unserved
  cases b.enabled with
  | none => exact List.Pairwise.nil
  | some families => exact FamilyKind.all_ordered.filter _

/-! ## All registrations together -/

/-- What a bridge does when it has this profile and has accepted these
registrations. -/
structure Registered (profile : Option FamilySet)
    (accepted : List (Registration δ)) (b : Bridge δ) : Prop where
  /-- The chain is the stable sort of the accepted registrations. -/
  sorted : b.chain = accepted.mergeSort fun x y => x.1.rank ≤ y.1.rank
  arranged : Arranges accepted b.chain
  takes : ∀ (kind : FamilyKind) (family : Family δ) (log : Log),
    enables profile kind = true →
      ∃ b' log', b.register kind family log = .ok b' log'
  refuses : ∀ (kind : FamilyKind) (family : Family δ) (log : Log),
    enables profile kind = false →
      b.register kind family log =
          .error (.invalidConfig (.familyDisabled kind.name)) log ∧
        offer (b, log) (kind, family) = (b, log)
  runs : ∀ (image : Image) (r : MethodRef) (s : Store δ),
    b.RunsFirst image r s
  /-- The kinds of the profile without a family, in the order of the chain. -/
  unserved : ∀ families, profile = some families →
    b.unserved.Pairwise (fun j k => j.rank < k.rank) ∧
      ∀ kind, kind ∈ b.unserved ↔
        kind.isEnabled families = true ∧ ofKind kind accepted = []
  unserved_bare : profile = none → b.unserved = []

theorem Serves.registered (h : Serves profile accepted b) :
    Registered profile accepted b where
  sorted :=
    h.arranged.unique (arranges_mergeSort accepted) fun _ => rfl
  arranged := h.arranged
  takes kind family log henables := by
    obtain ⟨log', hregister⟩ :=
      register_admitted ((h.admits_eq kind).trans henables) family log
    exact ⟨_, log', hregister⟩
  refuses kind family log henables := by
    have hregister :=
      register_refused ((h.admits_eq kind).trans henables) family log
    refine ⟨hregister, ?_⟩
    simp only [Bridge.offer, hregister]
  runs := b.runsFirst
  unserved families hprofile := by
    rw [hprofile] at h
    exact ⟨b.unserved_ordered, fun _ => mem_unserved_iff h⟩
  unserved_bare hprofile := by
    unfold Bridge.unserved
    rw [h.enabled, hprofile]

/-- The profile and the registrations of each kind determine the bridge. -/
theorem Serves.unique {b' : Bridge δ} {accepted' : List (Registration δ)}
    (h : Serves profile accepted b) (h' : Serves profile accepted' b')
    (hsame : ∀ kind, ofKind kind accepted = ofKind kind accepted') :
    b = b' := by
  have henabled : b.enabled = b'.enabled := h.enabled.trans h'.enabled.symm
  have hchain : b.chain = b'.chain := h.arranged.unique h'.arranged hsame
  cases b
  cases b'
  simp_all

/-- The accepted registrations of a kind are all of that kind or none. -/
theorem ofKind_filter (calls : List (Registration δ)) :
    ofKind kind (calls.filter (enables profile ·.1)) =
      if enables profile kind then ofKind kind calls else [] := by
  induction calls with
  | nil => simp
  | cons call calls ih =>
    by_cases hkind : call.1 = kind
    · rw [List.filter_cons, ofKind_cons, hkind]
      split <;> simp_all [ofKind_cons]
    · rw [List.filter_cons, ofKind_cons, if_neg hkind, ← ih]
      split <;> simp [ofKind_cons, hkind]

/-- After any sequence of registrations the chain is the stable sort of the
first families and of those that the profile enables.  The order of
registrations of different kinds has no influence. -/
theorem chain_stably_sorted {first : List (Registration δ)}
    (h : Starts profile first b) (calls : List (Registration δ)) (log : Log) :
    Registered profile (first ++ calls.filter (enables profile ·.1))
        (offerAll calls (b, log)).1 ∧
      ∀ (calls' : List (Registration δ)) (log' : Log),
        (∀ kind, enables profile kind = true →
          ofKind kind calls' = ofKind kind calls) →
        (offerAll calls' (b, log')).1 = (offerAll calls (b, log)).1 := by
  have hserves := h.serves.offerAll calls log
  refine ⟨hserves.registered, ?_⟩
  intro calls' log' hsame
  apply (h.serves.offerAll calls' log').unique hserves
  intro kind
  rw [ofKind_append, ofKind_append, ofKind_filter, ofKind_filter]
  split
  · rename_i henables
    rw [hsame kind henables]
  · rfl

/-- A family of one class that does nothing. -/
def idle (name : String) (classId : UInt16) : Family Unit where
  name
  handles := (· == classId)
  invoke _ _ := pure ()

/-- The bridge of the robot before the embedding adds to it. -/
def robotBridge : Bridge Unit := ofProfile Config.asuro.families

/-- Two drivers of the robot's class, another root class, and a display,
which the robot does not have. -/
def robotCalls : List (Registration Unit) :=
  [(.robot, idle "first" 26), (.display, idle "display" 25),
    (.object, idle "shadow" 16), (.robot, idle "second" 26)]

/-- The same registrations in another order. -/
def robotCalls' : List (Registration Unit) :=
  [(.object, idle "shadow" 16), (.robot, idle "first" 26),
    (.robot, idle "second" 26), (.display, idle "display" 25)]

theorem chain_of_robot :
    (∃ log, forConfig Config.asuro (.empty .off) = .ok robotBridge log) ∧
      Registered (some Config.asuro.families)
        (standardFamilies Config.asuro.families ++
          [(.robot, idle "first" 26), (.object, idle "shadow" 16),
            (.robot, idle "second" 26)])
        (offerAll robotCalls (robotBridge, .empty .off)).1 ∧
      (offerAll robotCalls (robotBridge, .empty .off)).1.familyNames =
        ["object", "shadow", "stdio", "first", "second"] ∧
      (offerAll robotCalls' (robotBridge, .empty .off)).1 =
        (offerAll robotCalls (robotBridge, .empty .off)).1 := by
  have hconfig : ∃ log, forConfig Config.asuro (.empty .off) =
      .ok robotBridge log := ⟨_, rfl⟩
  obtain ⟨log, hlog⟩ := hconfig
  obtain ⟨hregistered, hsame⟩ :=
    chain_stably_sorted (.profile hlog) robotCalls (.empty .off)
  refine ⟨⟨log, hlog⟩, hregistered, rfl, hsame _ _ ?_⟩
  intro kind henables
  cases kind with
  | object | console | peripheral | robot => rfl
  | display => cases henables

/-- Without a profile no kind is reported as missing, although every kind is
enabled. -/
theorem unserved_without_profile :
    Starts none [] (.empty : Bridge Unit) ∧
      ¬ ∀ kind, kind ∈ (offerAll []
          ((.empty : Bridge Unit), .empty .off)).1.unserved ↔
        enables none kind = true ∧
          ofKind kind ([] : List (Registration Unit)) = [] := by
  refine ⟨.bare, ?_⟩
  intro hall
  exact List.not_mem_nil ((hall .object).2 ⟨rfl, rfl⟩)

end Bridge

end SlotVm
