/- Labelled transition systems given by a step function.
   digest: Reachability under a contract on the calls, invariant induction, and
   finite runs with their append law and invariant rule. -/

import Mathlib

set_option autoImplicit false
set_option relaxedAutoImplicit false

namespace GravitySdk.Lib.Transition

variable {σ ι ρ : Type}

/-- States reachable from `start` by calls that `allow` allows.  A step
function returns `none` for a call that cannot complete in the given state
(it waits), and otherwise the next state with the call's reply. -/
inductive Reachable (step : σ → ι → Option (σ × ρ)) (allow : σ → ι → Prop)
    (start : σ → Prop) : σ → Prop
  | start {s : σ} : start s → Reachable step allow start s
  | step {s s' : σ} {i : ι} {r : ρ} : Reachable step allow start s → allow s i →
      step s i = some (s', r) → Reachable step allow start s'

section Reachable

variable {step : σ → ι → Option (σ × ρ)} {allow : σ → ι → Prop} {start : σ → Prop}

theorem Reachable.invariant (inv : σ → Prop) (init : ∀ s, start s → inv s)
    (preserve : ∀ s s' i r, inv s → allow s i → step s i = some (s', r) → inv s')
    {s : σ} (reach : Reachable step allow start s) : inv s := by
  induction reach with
  | start h => exact init _ h
  | step _ hallow hstep ih => exact preserve _ _ _ _ ih hallow hstep

theorem Reachable.mono {allow' : σ → ι → Prop} (weaker : ∀ s i, allow s i → allow' s i)
    {s : σ} (reach : Reachable step allow start s) : Reachable step allow' start s := by
  induction reach with
  | start h => exact .start h
  | step _ hallow hstep ih => exact .step ih (weaker _ _ hallow) hstep

end Reachable

/-- Runs whose every call `allow` allows, from `s` to `s'`. -/
inductive Exec (step : σ → ι → Option (σ × ρ)) (allow : σ → ι → Prop) : σ → List ι → σ → Prop
  | nil (s : σ) : Exec step allow s [] s
  | cons {s s' s'' : σ} {i : ι} {is : List ι} {r : ρ} : allow s i → step s i = some (s', r) →
      Exec step allow s' is s'' → Exec step allow s (i :: is) s''

section Exec

variable {step : σ → ι → Option (σ × ρ)} {allow : σ → ι → Prop}

theorem Exec.invariant (inv : σ → Prop)
    (preserve : ∀ s s' i r, inv s → allow s i → step s i = some (s', r) → inv s')
    {s s' : σ} {is : List ι} (h : Exec step allow s is s') (hs : inv s) : inv s' := by
  induction h with
  | nil => exact hs
  | cons hallow hstep _ ih => exact ih (preserve _ _ _ _ hs hallow hstep)

theorem Exec.chain (R : σ → σ → Prop) (refl : ∀ s, R s s)
    (trans : ∀ a b c, R a b → R b c → R a c) (inv : σ → Prop)
    (climb : ∀ s s' i r, inv s → allow s i → step s i = some (s', r) → R s s' ∧ inv s')
    {s s' : σ} {is : List ι} (h : Exec step allow s is s') (hs : inv s) : R s s' := by
  induction h with
  | nil s => exact refl s
  | cons hallow hstep _ ih =>
      obtain ⟨up, hs'⟩ := climb _ _ _ _ hs hallow hstep
      exact trans _ _ _ up (ih hs')

end Exec

/-- Runs that record every call with its reply, grown at the end. -/
inductive Trace (step : σ → ι → Option (σ × ρ)) (allow : σ → ι → Prop) : σ → List (ι × ρ) → σ → Prop
  | nil (s : σ) : Trace step allow s [] s
  | snoc {s s' s'' : σ} {evs : List (ι × ρ)} {i : ι} {r : ρ} : Trace step allow s evs s' →
      allow s' i → step s' i = some (s'', r) → Trace step allow s (evs ++ [(i, r)]) s''

section Trace

variable {step : σ → ι → Option (σ × ρ)} {allow : σ → ι → Prop}

theorem Trace.invariant (inv : σ → List (ι × ρ) → Prop) {s : σ} (init : inv s [])
    (preserve : ∀ t evs i r t', inv t evs → allow t i → step t i = some (t', r) →
      inv t' (evs ++ [(i, r)]))
    {evs : List (ι × ρ)} {s' : σ} (h : Trace step allow s evs s') : inv s' evs := by
  induction h with
  | nil => exact init
  | snoc _ hallow hstep ih => exact preserve _ _ _ _ _ ih hallow hstep

theorem Trace.chain (R : σ → σ → Prop) (refl : ∀ s, R s s)
    (trans : ∀ a b c, R a b → R b c → R a c) (inv : σ → Prop)
    (climb : ∀ s s' i r, inv s → allow s i → step s i = some (s', r) → R s s' ∧ inv s')
    {s s' : σ} {evs : List (ι × ρ)} (h : Trace step allow s evs s') (hs : inv s) : R s s' := by
  have both : R s s' ∧ inv s' := by
    induction h with
    | nil => exact ⟨refl _, hs⟩
    | snoc _ hallow hstep ih =>
        obtain ⟨up, mid⟩ := ih
        obtain ⟨up', hs''⟩ := climb _ _ _ _ mid hallow hstep
        exact ⟨trans _ _ _ up up', hs''⟩
  exact both.1

theorem Trace.mono {allow' : σ → ι → Prop} (weaker : ∀ s i, allow s i → allow' s i) {s s' : σ}
    {evs : List (ι × ρ)} (h : Trace step allow s evs s') : Trace step allow' s evs s' := by
  induction h with
  | nil => exact .nil _
  | snoc _ hallow hstep ih => exact .snoc ih (weaker _ _ hallow) hstep

theorem Trace.append {s s' s'' : σ} {evs evs' : List (ι × ρ)} (h : Trace step allow s evs s')
    (h' : Trace step allow s' evs' s'') : Trace step allow s (evs ++ evs') s'' := by
  induction h' with
  | nil => simpa using h
  | snoc _ hallow hstep ih =>
      rw [← List.append_assoc]
      exact .snoc ih hallow hstep

theorem Trace.allowed {s s' : σ} {evs : List (ι × ρ)} (h : Trace step allow s evs s') :
    ∀ e ∈ evs, ∃ t, allow t e.1 := by
  induction h with
  | nil => simp
  | snoc _ hallow _ ih =>
      intro e he
      rcases List.mem_append.mp he with old | last
      · exact ih e old
      · rw [List.mem_singleton.mp last]
        exact ⟨_, hallow⟩

end Trace

/-- Execute calls in order, collecting the replies; `none` when a call waits. -/
def run (step : σ → ι → Option (σ × ρ)) : σ → List ι → Option (σ × List ρ)
  | s, [] => some (s, [])
  | s, i :: is =>
      match step s i with
      | none => none
      | some (s', r) => (run step s' is).map (fun p => (p.1, r :: p.2))

section Run

variable {step : σ → ι → Option (σ × ρ)}

@[simp] theorem run_nil (s : σ) : run step s [] = some (s, []) := rfl

theorem run_cons_eq_some {s s'' : σ} {i : ι} {is : List ι} {rs : List ρ}
    (h : run step s (i :: is) = some (s'', rs)) :
    ∃ s' r rs', step s i = some (s', r) ∧ run step s' is = some (s'', rs') ∧ rs = r :: rs' := by
  simp only [run] at h
  cases hs : step s i with
  | none => simp [hs] at h
  | some p =>
      obtain ⟨s', r⟩ := p
      simp only [hs] at h
      cases hr : run step s' is with
      | none => simp [hr] at h
      | some q =>
          obtain ⟨s2, rs'⟩ := q
          simp only [hr, Option.map_some, Option.some.injEq, Prod.mk.injEq] at h
          obtain ⟨rfl, rfl⟩ := h
          exact ⟨s', r, rs', rfl, hr, rfl⟩

theorem run_invariant (inv : σ → Prop) (allow : σ → ι → Prop)
    (preserve : ∀ s s' i r, inv s → allow s i → step s i = some (s', r) → inv s')
    {is : List ι} {s s' : σ} {rs : List ρ} (hinv : inv s)
    (hallow : ∀ t, ∀ i ∈ is, allow t i) (h : run step s is = some (s', rs)) : inv s' := by
  induction is generalizing s rs with
  | nil =>
      simp only [run_nil, Option.some.injEq, Prod.mk.injEq] at h
      exact h.1 ▸ hinv
  | cons i is ih =>
      obtain ⟨s1, r, rs', hstep, hrun, rfl⟩ := run_cons_eq_some h
      exact ih (preserve _ _ _ _ hinv (hallow s i (by simp)) hstep)
        (fun t j hj => hallow t j (List.mem_cons_of_mem i hj)) hrun

theorem Trace.cons {allow : σ → ι → Prop} {s s' s'' : σ} {i : ι} {r : ρ} {evs : List (ι × ρ)}
    (allowed : allow s i) (stepped : step s i = some (s', r)) (h : Trace step allow s' evs s'') :
    Trace step allow s ((i, r) :: evs) s'' := by
  induction h with
  | nil => exact .snoc (.nil s) allowed stepped
  | snoc _ hallow hstep ih => exact .snoc ih hallow hstep

/-- An execution that completes is a trace of its calls paired with their replies. -/
theorem Trace.of_run {s s' : σ} {is : List ι} {rs : List ρ} (h : run step s is = some (s', rs)) :
    Trace step (fun _ _ => True) s (is.zip rs) s' := by
  induction is generalizing s rs with
  | nil =>
      simp only [run_nil, Option.some.injEq, Prod.mk.injEq] at h
      obtain ⟨rfl, rfl⟩ := h
      exact .nil s
  | cons i is ih =>
      obtain ⟨s1, r, rs', hstep, hrun, rfl⟩ := run_cons_eq_some h
      exact Trace.cons trivial hstep (ih hrun)

/-- Forward simulation of runs: when every step of a specification from a
state related to the machine's, with fuel `n + 1`, is matched by a step of
the machine with the same reply into states related with fuel `n`, every run
of the specification within the fuel is a run of the machine with the same
replies. -/
theorem run_simulates {σ' : Type} {spec : σ' → ι → Option (σ' × ρ)} (R : Nat → σ → σ' → Prop)
    (sim : ∀ n s a i a' r, R (n + 1) s a → spec a i = some (a', r) → ∃ s', step s i = some (s', r) ∧ R n s' a')
    {n : Nat} {s : σ} {a a' : σ'} {is : List ι} {rs : List ρ} (related : R (n + is.length) s a)
    (h : run spec a is = some (a', rs)) : ∃ s', run step s is = some (s', rs) ∧ R n s' a' := by
  induction is generalizing s a rs with
  | nil =>
      simp only [run_nil, Option.some.injEq, Prod.mk.injEq] at h
      obtain ⟨rfl, rfl⟩ := h
      exact ⟨s, rfl, related⟩
  | cons i is ih =>
      obtain ⟨a₁, r, rs', specStep, specRun, rfl⟩ := run_cons_eq_some h
      rw [List.length_cons, ← Nat.add_assoc] at related
      obtain ⟨s₁, stepped, related₁⟩ := sim _ s a i a₁ r related specStep
      obtain ⟨s', ran, related'⟩ := ih related₁ specRun
      exact ⟨s', by simp [run, stepped, ran], related'⟩

theorem Reachable.run {allow : σ → ι → Prop} {start : σ → Prop} {is : List ι} {s s' : σ}
    {rs : List ρ} (reach : Reachable step allow start s) (hallow : ∀ t, ∀ i ∈ is, allow t i)
    (h : run step s is = some (s', rs)) : Reachable step allow start s' :=
  run_invariant (Reachable step allow start) allow
    (fun _ _ _ _ hr ha hs => Reachable.step hr ha hs) reach hallow h

/-- Execute calls in order while `ok` accepts each call in the state it is
made in; `none` when a call waits or is refused. -/
def runChecked (step : σ → ι → Option (σ × ρ)) (ok : σ → ι → Bool) : σ → List ι → Option (σ × List ρ)
  | s, [] => some (s, [])
  | s, i :: is =>
      if ok s i then
        match step s i with
        | none => none
        | some (s', r) => (runChecked step ok s' is).map (fun p => (p.1, r :: p.2))
      else none

theorem runChecked_cons_eq_some {ok : σ → ι → Bool} {s s'' : σ} {i : ι} {is : List ι} {rs : List ρ}
    (h : runChecked step ok s (i :: is) = some (s'', rs)) :
    ok s i = true ∧ ∃ s' r rs', step s i = some (s', r) ∧ runChecked step ok s' is = some (s'', rs') ∧
      rs = r :: rs' := by
  simp only [runChecked] at h
  by_cases accepted : ok s i = true
  · rw [if_pos accepted] at h
    refine ⟨accepted, ?_⟩
    cases hs : step s i with
    | none => simp [hs] at h
    | some p =>
        obtain ⟨s', r⟩ := p
        simp only [hs] at h
        obtain ⟨⟨s2, rs'⟩, rest, same⟩ := Option.map_eq_some_iff.mp h
        simp only [Prod.mk.injEq] at same
        obtain ⟨rfl, rfl⟩ := same
        exact ⟨s', r, rs', rfl, rest, rfl⟩
  · simp [accepted] at h

theorem Trace.of_runChecked {allow : σ → ι → Prop} {ok : σ → ι → Bool} {s s' : σ} {is : List ι}
    {rs : List ρ} (sound : ∀ t, ∀ i ∈ is, ok t i = true → allow t i)
    (h : runChecked step ok s is = some (s', rs)) : Trace step allow s (is.zip rs) s' := by
  induction is generalizing s rs with
  | nil =>
      simp only [runChecked, Option.some.injEq, Prod.mk.injEq] at h
      obtain ⟨rfl, rfl⟩ := h
      exact .nil s
  | cons i is ih =>
      obtain ⟨accepted, s1, r, rs', hstep, hrun, rfl⟩ := runChecked_cons_eq_some h
      have rest : ∀ t, ∀ j ∈ is, ok t j = true → allow t j := fun t j hj => sound t j (List.mem_cons_of_mem i hj)
      exact Trace.cons (sound s i List.mem_cons_self accepted) hstep (ih rest hrun)

theorem Reachable.of_runChecked {allow : σ → ι → Prop} {start : σ → Prop} {ok : σ → ι → Bool}
    {s s' : σ} {is : List ι} {rs : List ρ} (reach : Reachable step allow start s)
    (sound : ∀ t, ∀ i ∈ is, ok t i = true → allow t i) (h : runChecked step ok s is = some (s', rs)) :
    Reachable step allow start s' := by
  induction is generalizing s rs with
  | nil =>
      simp only [runChecked, Option.some.injEq, Prod.mk.injEq] at h
      exact h.1 ▸ reach
  | cons i is ih =>
      obtain ⟨accepted, s1, r, rs', hstep, hrun, rfl⟩ := runChecked_cons_eq_some h
      have rest : ∀ t, ∀ j ∈ is, ok t j = true → allow t j := fun t j hj => sound t j (List.mem_cons_of_mem i hj)
      exact ih (reach.step (sound s i List.mem_cons_self accepted) hstep) rest hrun

end Run

end GravitySdk.Lib.Transition
