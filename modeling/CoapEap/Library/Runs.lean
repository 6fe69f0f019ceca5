import Mathlib.Logic.Relation
import Mathlib.Tactic.Common

/-!
Runs of a system whose steps are chosen from outside. A step function takes a
state and an event and returns the next state, or `none` when the event cannot
happen there. The events carry everything the system does not decide itself:
the schedule, the input, the outcome of calls into the environment.

The module has no system of its own. It gives reachability under a condition on
the steps, the invariant rule for it, and the passage between a property of
every transition of a schedule and a condition on every transition. Where nothing is
chosen from outside, the runs of one function from one start all lead to the same end.
-/

namespace Library.Runs

variable {State Event : Type}

/-- The state after a schedule, if every event of it could happen. -/
def run (step : State → Event → Option State) : State → List Event → Option State
  | s, [] => some s
  | s, e :: es => (step s e).bind fun t => run step t es

/-- The transitions a schedule takes, up to the first event that cannot happen. -/
def transitions (step : State → Event → Option State) :
    State → List Event → List (State × Event × State)
  | _, [] => []
  | s, e :: es =>
    match step s e with
    | none => []
    | some t => (s, e, t) :: transitions step t es

/-- The step function that refuses every step outside `guard`. -/
def guarded (step : State → Event → Option State) (guard : State → Event → Prop)
    [∀ s e, Decidable (guard s e)] : State → Event → Option State :=
  fun s e => if guard s e then step s e else none

/-- The states reached from `start` by runs whose steps all satisfy `guard`. -/
inductive ReachableUnder (step : State → Event → Option State)
    (guard : State → Event → Prop) (start : State) : State → Prop
  | start : ReachableUnder step guard start start
  | step {s t : State} {e : Event} (before : ReachableUnder step guard start s)
      (met : guard s e) (taken : step s e = some t) :
      ReachableUnder step guard start t

/-- Reachability by any run. -/
abbrev Reachable (step : State → Event → Option State) (start : State) : State → Prop :=
  ReachableUnder step (fun _ _ => True) start

variable {step : State → Event → Option State} {guard : State → Event → Prop}
variable {start s t : State}

@[simp] theorem run_nil : run step s [] = some s := rfl

@[simp] theorem run_cons (e : Event) (es : List Event) :
    run step s (e :: es) = (step s e).bind fun t => run step t es := rfl

/-- A weaker condition on the steps reaches at least as many states. -/
theorem ReachableUnder.weaken {guard' : State → Event → Prop}
    (hweaker : ∀ s e, guard s e → guard' s e) (h : ReachableUnder step guard start s) :
    ReachableUnder step guard' start s := by
  induction h with
  | start => exact .start
  | step _ hmet htaken ih => exact .step ih (hweaker _ _ hmet) htaken

theorem ReachableUnder.reachable (h : ReachableUnder step guard start s) :
    Reachable step start s :=
  h.weaken fun _ _ _ => trivial

/-- The invariant rule. What holds at the start and is preserved by every step
that satisfies the condition holds in every state reached under it. The step
case may use that its first state is reachable, so invariants can be stacked. -/
theorem ReachableUnder.invariant {inv : State → Prop} (hstart : inv start)
    (hstep : ∀ s e t, ReachableUnder step guard start s → inv s → guard s e →
      step s e = some t → inv t)
    (h : ReachableUnder step guard start s) : inv s := by
  induction h with
  | start => exact hstart
  | step hbefore hmet htaken ih => exact hstep _ _ _ hbefore ih hmet htaken

/-- Reachability composes. -/
theorem ReachableUnder.trans (h₁ : ReachableUnder step guard start s)
    (h₂ : ReachableUnder step guard s t) : ReachableUnder step guard start t := by
  induction h₂ with
  | start => exact h₁
  | step _ hmet htaken ih => exact .step ih hmet htaken

/-- A completed schedule of the guarded system reaches its last state under the
condition. This is how a concrete run becomes a reachable state. -/
theorem reachableUnder_of_run [∀ s e, Decidable (guard s e)] {es : List Event}
    (h : run (guarded step guard) s es = some t) : ReachableUnder step guard s t := by
  induction es generalizing s with
  | nil =>
    simp only [run_nil, Option.some.injEq] at h
    exact h ▸ .start
  | cons e es ih =>
    simp only [run_cons, Option.bind_eq_some_iff] at h
    obtain ⟨u, hu, hrest⟩ := h
    unfold guarded at hu
    split at hu
    · rename_i hmet
      exact (ReachableUnder.step .start hmet hu).trans (ih hrest)
    · simp at hu

theorem reachable_of_run {es : List Event} (h : run step s es = some t) :
    Reachable step s t := by
  have hsame : guarded step (fun _ _ => True) = step := by
    funext s e
    simp [guarded]
  exact reachableUnder_of_run (hsame ▸ h)

/-- A check of the last state of a schedule that is evaluated. -/
theorem exists_of_run {es : List Event} {check : State → Bool}
    (h : (run step s es).any check = true) : ∃ t, run step s es = some t ∧ check t = true := by
  cases hrun : run step s es with
  | none => simp [hrun] at h
  | some t => exact ⟨t, rfl, by simpa [hrun] using h⟩

/-- Every transition of a schedule is a step of the system from a reachable state. -/
theorem mem_transitions {es : List Event} {a b : State} {e : Event}
    (h : (a, e, b) ∈ transitions step s es) : Reachable step s a ∧ step a e = some b := by
  induction es generalizing s with
  | nil => simp [transitions] at h
  | cons e' es ih =>
    simp only [transitions] at h
    split at h
    · simp at h
    · rename_i t ht
      rcases List.mem_cons.mp h with heq | hmem
      · obtain ⟨rfl, rfl, rfl⟩ := heq
        exact ⟨.start, ht⟩
      · obtain ⟨hreach, hstep⟩ := ih hmem
        exact ⟨(ReachableUnder.step .start trivial ht).trans hreach, hstep⟩

/-- If on every step from a reachable state a property of the transition is
equivalent to a condition on the state and the event before it, then a schedule
has the property on all its transitions exactly when it meets the condition on
all of them. -/
theorem forall_transitions_iff {holds : State → Event → State → Prop}
    (hiff : ∀ a e b, Reachable step s a → step a e = some b → (holds a e b ↔ guard a e))
    (es : List Event) :
    (∀ tr ∈ transitions step s es, holds tr.1 tr.2.1 tr.2.2) ↔
      ∀ tr ∈ transitions step s es, guard tr.1 tr.2.1 := by
  constructor
  · rintro h ⟨a, e, b⟩ hmem
    obtain ⟨hreach, hstep⟩ := mem_transitions hmem
    exact (hiff a e b hreach hstep).mp (h _ hmem)
  · rintro h ⟨a, e, b⟩ hmem
    obtain ⟨hreach, hstep⟩ := mem_transitions hmem
    exact (hiff a e b hreach hstep).mpr (h _ hmem)

/-- The same where the equivalence needs an invariant of the states, which every
transition with the property keeps. -/
theorem forall_transitions_iff_of_invariant {inv : State → Prop}
    {holds : State → Event → State → Prop}
    (hiff : ∀ a e b, inv a → step a e = some b → (holds a e b ↔ guard a e))
    (hkeeps : ∀ a e b, inv a → step a e = some b → holds a e b → inv b)
    (es : List Event) (hs : inv s) :
    (∀ tr ∈ transitions step s es, holds tr.1 tr.2.1 tr.2.2) ↔
      ∀ tr ∈ transitions step s es, guard tr.1 tr.2.1 := by
  induction es generalizing s with
  | nil => simp [transitions]
  | cons e es ih =>
    simp only [transitions]
    split
    · simp
    · rename_i t ht
      have hone := hiff s e t hs ht
      rw [List.forall_mem_cons, List.forall_mem_cons]
      constructor
      · rintro ⟨hfirst, hrest⟩
        exact ⟨hone.mp hfirst, (ih (hkeeps s e t hs ht hfirst)).mp hrest⟩
      · rintro ⟨hfirst, hrest⟩
        have hholds := hone.mpr hfirst
        exact ⟨hholds, (ih (hkeeps s e t hs ht hholds)).mpr hrest⟩

/-- The system that keeps the steps it took, each with the state before it. -/
def recording (step : State → Event → Option State) :
    State × List (State × Event) → Event → Option (State × List (State × Event)) :=
  fun here e => (step here.1 e).map fun t => (t, here.2 ++ [(here.1, e)])

/-- Without its past a run is a run of the system itself. -/
theorem ReachableUnder.forget {here : State × List (State × Event)}
    (h : ReachableUnder (recording step) (fun here e => guard here.1 e) (start, []) here) :
    ReachableUnder step guard start here.1 := by
  induction h with
  | start => exact .start
  | step _ hmet htaken ih =>
    obtain ⟨t, ht, rfl⟩ := Option.map_eq_some_iff.mp htaken
    exact .step ih hmet ht

/-- Keeping the past stops no run. -/
theorem ReachableUnder.recorded (h : ReachableUnder step guard start s) :
    ∃ past, ReachableUnder (recording step) (fun here e => guard here.1 e) (start, [])
      (s, past) := by
  induction h with
  | start => exact ⟨[], .start⟩
  | step _ hmet htaken ih =>
    rename_i s t e _
    obtain ⟨past, hpast⟩ := ih
    have hrecorded : recording step (s, past) e = some (t, past ++ [(s, e)]) := by
      simp [recording, htaken]
    exact ⟨_, .step hpast hmet hrecorded⟩

section Simulation

variable {Other : Type} {other : Other → Event → Option Other} {related : State → Other → Prop}

/-- Two systems that take related steps from related states, or none of them one, take
related runs. -/
theorem run_rel (hstep : ∀ s o e, related s o → Option.Rel related (step s e) (other o e))
    {o : Other} (h : related s o) (es : List Event) :
    Option.Rel related (run step s es) (run other o es) := by
  induction es generalizing s o with
  | nil => exact .some h
  | cons e es ih =>
    have hfirst := hstep s o e h
    rw [run_cons, run_cons]
    generalize step s e = next at hfirst
    generalize other o e = nextOther at hfirst
    cases hfirst with
    | some hnext => exact ih hnext
    | none => exact .none

/-- What is seen of related states alike is seen of related runs alike. -/
theorem map_eq_of_rel {α : Type} {see : State → α} {look : Other → α}
    (hsee : ∀ s o, related s o → see s = look o) {x : Option State} {y : Option Other}
    (h : Option.Rel related x y) : x.map see = y.map look := by
  cases h with
  | some hrelated => rw [Option.map_some, Option.map_some, hsee _ _ hrelated]
  | none => rfl

end Simulation

section Function

open Relation

variable {α : Type} {next : α → Option α} {x y last : α}

/-- A run of a function stays where it has come to an end. -/
theorem stays (hx : next x = some x) (h : ReflTransGen (fun a b => next a = some b) x y) :
    y = x := by
  induction h with
  | refl => rfl
  | tail _ hstep ih =>
    rw [ih, hx] at hstep
    exact (Option.some.inj hstep).symm

/-- What a run of a function meets is on its way to the end. -/
theorem reaches_end (hlast : next last = some last)
    (hend : ReflTransGen (fun a b => next a = some b) x last)
    (h : ReflTransGen (fun a b => next a = some b) x y) :
    ReflTransGen (fun a b => next a = some b) y last := by
  have hunique : Relator.RightUnique fun a b => next a = some b :=
    fun _ _ _ hb hc => Option.some.inj (hb.symm.trans hc)
  rcases ReflTransGen.total_of_right_unique hunique h hend with hmore | hback
  · exact hmore
  · exact stays hlast hback ▸ .refl

theorem end_unique (hlast : next last = some last) (hy : next y = some y)
    (hend : ReflTransGen (fun a b => next a = some b) x last)
    (h : ReflTransGen (fun a b => next a = some b) x y) : y = last :=
  (stays hy (reaches_end hlast hend h)).symm

theorem goes_on (hlast : next last = some last)
    (hend : ReflTransGen (fun a b => next a = some b) x last)
    (h : ReflTransGen (fun a b => next a = some b) x y) : next y ≠ none := by
  intro hnone
  rcases (reaches_end hlast hend h).cases_head with rfl | ⟨z, hz, -⟩
  · simp [hlast] at hnone
  · simp [hz] at hnone

end Function

end Library.Runs
