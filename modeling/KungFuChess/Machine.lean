/-
Step machines: a step function that may fail and that emits a list of outputs,
the run of such a function over a list of inputs, and the states it reaches.

Nothing here is about a particular program. A development instantiates `Step`
with its own transition function, defines what its runs do by evaluating `run`,
and proves what holds of them by `Reach.invariant`: one lemma about one step,
then one application of the rule.

The reachability predicate carries two things besides the state. The *trace* is
everything the run has emitted so far, so an invariant can speak about history
("each of these was reported exactly once") and not only about the present. The
*condition* `C` restricts the steps a run may take, so that "in every run whose
steps all meet `C`" is a statement about `Reach step C` and the unrestricted
runs are `Reach step anyStep`.
-/
import Mathlib.Logic.Basic
import Mathlib.Tactic.TypeStar

set_option autoImplicit false

namespace Machine

universe u v w

variable {σ ω : Type v} {α : Type*} {ε : Type u}

/-- A computation followed by another succeeds exactly when both do. The one
inversion lemma every proof about a fallible step goes through. -/
theorem bind_ok_iff {γ δ : Type v} (x : Except ε γ) (f : γ → Except ε δ) (d : δ) :
    (x >>= f) = .ok d ↔ ∃ c, x = .ok c ∧ f c = .ok d := by
  rcases x with e | c
  · constructor
    · intro h
      cases h
    · rintro ⟨_, h, _⟩
      cases h
  · exact ⟨fun h => ⟨c, rfl, h⟩, by rintro ⟨_, ⟨⟩, h⟩; exact h⟩

/-- A computation that succeeds, followed by one that succeeds on its result. -/
theorem bind_total {γ δ : Type v} {x : Except ε γ} {f : γ → Except ε δ} (hx : ∃ c, x = .ok c)
    (hf : ∀ c, x = .ok c → ∃ d, f c = .ok d) : ∃ d, (x >>= f) = .ok d := by
  obtain ⟨c, hc⟩ := hx
  obtain ⟨d, hd⟩ := hf c hc
  exact ⟨d, (bind_ok_iff x f d).mpr ⟨c, hc, hd⟩⟩

theorem exists_ok {γ : Type*} {x : Except ε γ} (h : x.isOk = true) : ∃ c, x = .ok c := by
  cases x with
  | error e => cases h
  | ok c => exact ⟨c, rfl⟩

/-- The same, with a test on the result. -/
theorem exists_ok_such {γ : Type*} {x : Except ε γ} {p : γ → Bool}
    (h : x.toOption.any p = true) : ∃ c, x = .ok c ∧ p c = true := by
  cases x with
  | error e => cases h
  | ok c => exact ⟨c, rfl, h⟩

/-- **The loop rule.** A loop over a list, whose body may fail, does not fail when
an invariant of the elements still to come and the value so far makes every
iteration succeed and hand the invariant on. -/
theorem foldlM_total {β γ : Type v} {f : β → γ → Except ε β} (P : List γ → β → Prop)
    (hstep : ∀ c cs b, P (c :: cs) b → ∃ b', f b c = .ok b' ∧ P cs b') :
    ∀ (cs : List γ) (b : β), P cs b → ∃ b', cs.foldlM f b = .ok b' ∧ P [] b'
  | [], b, h => ⟨b, rfl, h⟩
  | c :: cs, b, h => by
      obtain ⟨b₁, hf, h₁⟩ := hstep c cs b h
      obtain ⟨b', hrun, h'⟩ := foldlM_total P hstep cs b₁ h₁
      refine ⟨b', ?_, h'⟩
      rw [List.foldlM_cons, hf]
      exact hrun

/-- One step: the next state and what the step emitted, or a failure. -/
abbrev Step (σ : Type v) (α : Type*) (ω : Type v) (ε : Type u) := σ → α → Except ε (σ × List ω)

/-- The run over a list of inputs, outputs concatenated in order. -/
def run (step : Step σ α ω ε) : σ → List α → Except ε (σ × List ω)
  | s, [] => .ok (s, [])
  | s, a :: as => do
      let (s₁, os₁) ← step s a
      let (s₂, os₂) ← run step s₁ as
      return (s₂, os₁ ++ os₂)

/-- **The inversion of a run**: its first step, and the run from there. -/
theorem run_cons_ok_iff {step : Step σ α ω ε} {s s' : σ} {os : List ω} {a : α} {as : List α} :
    run step s (a :: as) = .ok (s', os) ↔ ∃ s₁ os₁ os₂, step s a = .ok (s₁, os₁) ∧
      run step s₁ as = .ok (s', os₂) ∧ os = os₁ ++ os₂ := by
  constructor
  · intro h
    obtain ⟨⟨s₁, os₁⟩, hstep, hrest⟩ := (bind_ok_iff _ _ _).mp h
    obtain ⟨⟨s₂, os₂⟩, hrun, hret⟩ := (bind_ok_iff _ _ _).mp hrest
    obtain ⟨rfl, rfl⟩ := Prod.mk.inj (Except.ok.inj hret)
    exact ⟨s₁, os₁, os₂, hstep, hrun, rfl⟩
  · rintro ⟨s₁, os₁, os₂, hstep, hrun, rfl⟩
    exact (bind_ok_iff _ _ _).mpr ⟨_, hstep, (bind_ok_iff _ _ _).mpr ⟨_, hrun, rfl⟩⟩

/-- Two runs, one after the other, are a run. -/
theorem run_append {step : Step σ α ω ε} {s₁ s₂ : σ} {os₁ os₂ : List ω} {as bs : List α} :
    ∀ {s : σ}, run step s as = .ok (s₁, os₁) → run step s₁ bs = .ok (s₂, os₂) →
      run step s (as ++ bs) = .ok (s₂, os₁ ++ os₂) := by
  induction as generalizing os₁ with
  | nil =>
      intro s h₁ h₂
      obtain ⟨rfl, rfl⟩ : s = s₁ ∧ [] = os₁ := by simpa [run] using h₁
      exact h₂
  | cons a as ih =>
      intro s h₁ h₂
      obtain ⟨t, os, os', hstep, hrun, rfl⟩ := run_cons_ok_iff.mp h₁
      rw [List.append_assoc]
      exact run_cons_ok_iff.mpr ⟨t, os, _, hstep, ih hrun h₂, rfl⟩

/-- A run of one step. -/
theorem run_singleton {step : Step σ α ω ε} {s s' : σ} {os : List ω} {a : α}
    (h : step s a = .ok (s', os)) : run step s [a] = .ok (s', os) := by
  rw [run, h]
  refine (bind_ok_iff _ _ _).mpr ⟨_, rfl, ?_⟩
  simp [run, pure, Except.pure, bind, Except.bind]

/-- The condition every step meets. -/
def anyStep (_ : σ) (_ : List ω) (_ : α) : Prop := True

/-- `Reach step C s₀ s tr`: some run from `s₀` whose every step met `C` (asked of
the state before the step, the trace so far and the input) ends in `s`, having
emitted `tr`. -/
inductive Reach (step : Step σ α ω ε) (C : σ → List ω → α → Prop) (s₀ : σ) :
    σ → List ω → Prop
  | init : Reach step C s₀ s₀ []
  | step {s : σ} {tr : List ω} {a : α} {s' : σ} {os : List ω} :
      Reach step C s₀ s tr → C s tr a → step s a = .ok (s', os) →
      Reach step C s₀ s' (tr ++ os)

variable {step : Step σ α ω ε} {C : σ → List ω → α → Prop} {s₀ s : σ} {tr : List ω}

/-- **The invariant rule.** What holds at the start and is kept by each step of a
reachable state holds of every reachable state. -/
theorem Reach.invariant {P : σ → List ω → Prop} (h₀ : P s₀ [])
    (hstep : ∀ s tr a s' os, Reach step C s₀ s tr → P s tr → C s tr a →
      step s a = .ok (s', os) → P s' (tr ++ os))
    (h : Reach step C s₀ s tr) : P s tr := by
  induction h with
  | init => exact h₀
  | step hr hc hs ih => exact hstep _ _ _ _ _ hr ih hc hs

/-- A run that meets a condition meets every weaker one. -/
theorem Reach.mono {D : σ → List ω → α → Prop} (hCD : ∀ s tr a, C s tr a → D s tr a)
    (h : Reach step C s₀ s tr) : Reach step D s₀ s tr := by
  induction h with
  | init => exact .init
  | step _ hc hs ih => exact ih.step (hCD _ _ _ hc) hs

/-- Forgetting the condition. -/
theorem Reach.any (h : Reach step C s₀ s tr) : Reach step anyStep s₀ s tr :=
  h.mono (fun _ _ _ _ => trivial)

/-- The condition, asked of each step of a run in turn. -/
def Meets (step : Step σ α ω ε) (C : σ → List ω → α → Prop) : σ → List ω → List α → Prop
  | _, _, [] => True
  | s, tr, a :: as => C s tr a ∧
      match step s a with
      | .ok (s', os) => Meets step C s' (tr ++ os) as
      | .error _ => True

theorem meets_cons_iff {a : α} {as : List α} {s' : σ} {os : List ω}
    (h : step s a = .ok (s', os)) :
    Meets step C s tr (a :: as) ↔ C s tr a ∧ Meets step C s' (tr ++ os) as := by
  rw [Meets, h]

/-- A run that succeeds and meets the condition reaches its last state. This is
how a concrete run, evaluated, becomes a fact about `Reach`. -/
theorem Reach.of_run {as : List α} : ∀ {s : σ} {tr : List ω} {s' : σ} {os : List ω},
    Reach step C s₀ s tr → Meets step C s tr as → run step s as = .ok (s', os) →
    Reach step C s₀ s' (tr ++ os) := by
  induction as with
  | nil =>
      intro s tr s' os hr _ hrun
      obtain ⟨rfl, rfl⟩ : s = s' ∧ [] = os := by simpa [run] using hrun
      simpa using hr
  | cons a as ih =>
      intro s tr s' os hr hm hrun
      obtain ⟨s₁, os₁, os₂, h₁, h₂, rfl⟩ := run_cons_ok_iff.mp hrun
      obtain ⟨hc, hrest⟩ := (meets_cons_iff h₁).mp hm
      rw [← List.append_assoc]
      exact ih (hr.step hc h₁) hrest h₂

instance Meets.decidable [∀ s tr a, Decidable (C s tr a)] :
    ∀ (s : σ) (tr : List ω) (as : List α), Decidable (Meets step C s tr as)
  | _, _, [] => .isTrue trivial
  | s, tr, a :: as =>
      match h : step s a with
      | .ok (s', os) =>
          have := Meets.decidable s' (tr ++ os) as
          decidable_of_iff _ (meets_cons_iff h).symm
      | .error _ => decidable_of_iff (C s tr a) (by rw [Meets, h, and_true])

/-- A run whose steps all meet the condition reaches its last state. -/
theorem reach_of_meets {as : List α} {s' : σ} {os : List ω} (hm : Meets step C s₀ [] as)
    (hrun : run step s₀ as = .ok (s', os)) : Reach step C s₀ s' os := by
  simpa using Reach.of_run .init hm hrun

/-- **The rule for events.** What holds of every event that a step puts out, with what
was put out before it and after it, and goes on holding when more is put out, holds of
every event of a trace. -/
theorem Reach.events_between {Q : List ω → ω → List ω → Prop}
    (hmore : ∀ before e after os, Q before e after → Q before e (after ++ os))
    (hstep : ∀ s tr a s' os, Reach step C s₀ s tr → C s tr a → step s a = .ok (s', os) →
      ∀ before e after, os = before ++ e :: after → Q (tr ++ before) e after)
    (h : Reach step C s₀ s tr) {before after : List ω} {e : ω}
    (hevent : tr = before ++ e :: after) : Q before e after := by
  induction h generalizing after with
  | init => exact absurd hevent (by simp)
  | step hr hc hs ih =>
      rcases List.append_eq_append_iff.mp hevent with ⟨mid, hbefore, hos⟩ | ⟨mid, htr, hos⟩
      · -- put out by the last step
        rw [hbefore]
        exact hstep _ _ _ _ _ hr hc hs mid e after hos
      · cases mid with
        | nil =>
            rw [List.append_nil] at htr
            have h := hstep _ _ _ _ _ hr hc hs [] e after hos.symm
            rwa [List.append_nil, htr] at h
        | cons x mid =>
            obtain ⟨rfl, rfl⟩ := List.cons.inj hos
            exact hmore _ _ _ _ (ih htr)

/-- The same, of what was put out before. -/
theorem Reach.events {Q : List ω → ω → Prop}
    (hstep : ∀ s tr a s' os, Reach step C s₀ s tr → C s tr a → step s a = .ok (s', os) →
      ∀ before e after, os = before ++ e :: after → Q (tr ++ before) e)
    (h : Reach step C s₀ s tr) {before after : List ω} {e : ω}
    (hevent : tr = before ++ e :: after) : Q before e :=
  h.events_between (Q := fun before e _ => Q before e) (fun _ _ _ _ h => h) hstep hevent

/-- Every run meets the condition that asks nothing. -/
theorem meets_anyStep (as : List α) : ∀ (s : σ) (tr : List ω), Meets step anyStep s tr as := by
  induction as with
  | nil => intro s tr; trivial
  | cons a as ih =>
      intro s tr
      refine ⟨trivial, ?_⟩
      cases h : step s a with
      | error e => trivial
      | ok r => exact ih _ _

/-- A run meets what its condition says of the states it reaches. -/
theorem Meets.of_reach {D : σ → List ω → α → Prop} {as : List α}
    (hCD : ∀ s tr a, Reach step C s₀ s tr → C s tr a → D s tr a)
    (hr : Reach step C s₀ s tr) (hm : Meets step C s tr as) : Meets step D s tr as := by
  induction as generalizing s tr with
  | nil => trivial
  | cons a as ih =>
      obtain ⟨hc, hrest⟩ := hm
      refine ⟨hCD s tr a hr hc, ?_⟩
      cases h : step s a with
      | error e => trivial
      | ok r =>
          rw [h] at hrest
          exact ih (hr.step hc h) hrest

/-- A run, whatever its steps, reaches its last state. -/
theorem reach_of_run {as : List α} {s' : σ} {os : List ω}
    (hrun : run step s₀ as = .ok (s', os)) : Reach step anyStep s₀ s' os := by
  exact reach_of_meets (meets_anyStep as s₀ []) hrun

/-! ## Simulation -/

section Simulation

variable {τ υ : Type w} {β δ : Type*} {R : σ → List ω → τ → List υ → Prop}

/-- **The simulation rule.** A machine is explained by a higher one when some relation
holds at the start and every step is matched by a run of the higher one, of any length,
that restores it. It is between traces too, so that what the one has put out can be what
the other has recorded. -/
theorem Reach.simulated (h : Reach step C s₀ s tr) (high : Step τ β υ δ) (t₀ : τ)
    (h₀ : R s₀ [] t₀ [])
    (hstep : ∀ s tr a s' os t tr', R s tr t tr' → C s tr a → step s a = .ok (s', os) →
      ∃ bs t' os', run high t bs = .ok (t', os') ∧ R s' (tr ++ os) t' (tr' ++ os')) :
    ∃ t tr', Reach high anyStep t₀ t tr' ∧ R s tr t tr' := by
  refine h.invariant (P := fun s tr => ∃ t tr', Reach high anyStep t₀ t tr' ∧ R s tr t tr')
    ⟨t₀, [], .init, h₀⟩ ?_
  rintro s tr a s' os - ⟨t, tr', hhigh, hrel⟩ hc hlow
  obtain ⟨bs, t', os', hrun, hrel'⟩ := hstep s tr a s' os t tr' hrel hc hlow
  exact ⟨t', tr' ++ os', hhigh.of_run (meets_anyStep bs t tr') hrun, hrel'⟩

end Simulation

/-! ## Lockstep -/

section Lockstep

variable {τ υ : Type w} {β : Type*} {γ₁ δ₁ : Type v} {γ₂ δ₂ : Type w}

/-- Both fail, and in the same way, or both succeed, with results that are so related. -/
inductive Alike (R : γ₁ → γ₂ → Prop) : Except ε γ₁ → Except ε γ₂ → Prop
  | error (e : ε) : Alike R (.error e) (.error e)
  | ok {c : γ₁} {d : γ₂} (related : R c d) : Alike R (.ok c) (.ok d)

theorem Alike.refl (x : Except ε γ₁) : Alike (· = ·) x x := by
  cases x with
  | error e => exact .error e
  | ok c => exact .ok rfl

theorem Alike.bind {R : γ₁ → γ₂ → Prop} {Q : δ₁ → δ₂ → Prop} {x : Except ε γ₁} {y : Except ε γ₂}
    {f : γ₁ → Except ε δ₁} {g : γ₂ → Except ε δ₂} (h : Alike R x y)
    (hf : ∀ c d, R c d → Alike Q (f c) (g d)) : Alike Q (x >>= f) (y >>= g) := by
  cases h with
  | error e => exact .error e
  | ok related => exact hf _ _ related

theorem Alike.mono {R Q : γ₁ → γ₂ → Prop} {x : Except ε γ₁} {y : Except ε γ₂} (h : Alike R x y)
    (hRQ : ∀ c d, R c d → Q c d) : Alike Q x y := by
  cases h with
  | error e => exact .error e
  | ok related => exact .ok (hRQ _ _ related)

/-- Two loops over a list and its image, whose bodies keep a relation. -/
theorem Alike.foldlM {R : γ₁ → γ₂ → Prop} {f : γ₁ → α → Except ε γ₁} {g : γ₂ → β → Except ε γ₂}
    {φ : α → β} (hstep : ∀ c d a, R c d → Alike R (f c a) (g d (φ a))) :
    ∀ (l : List α) (c : γ₁) (d : γ₂), R c d → Alike R (l.foldlM f c) ((l.map φ).foldlM g d)
  | [], _, _, h => .ok h
  | a :: l, c, d, h => by
      rw [List.map_cons, List.foldlM_cons, List.foldlM_cons]
      exact (hstep c d a h).bind fun c' d' h' => Alike.foldlM hstep l c' d' h'

/-- **The lockstep rule.** Two machines that take related states, on an input and its
image, to related states and put out an output and its image, do so over whole runs. -/
theorem Alike.run {R : σ → τ → Prop} {one : Step σ α ω ε} {other : Step τ β υ ε} {φ : α → β}
    {ψ : ω → υ} (hstep : ∀ s t a, R s t →
      Alike (fun r q => R r.1 q.1 ∧ q.2 = r.2.map ψ) (one s a) (other t (φ a))) :
    ∀ (as : List α) (s : σ) (t : τ), R s t →
      Alike (fun r q => R r.1 q.1 ∧ q.2 = r.2.map ψ) (Machine.run one s as)
        (Machine.run other t (as.map φ))
  | [], _, _, h => .ok ⟨h, rfl⟩
  | a :: as, s, t, h => by
      refine (hstep s t a h).bind ?_
      rintro ⟨s₁, os₁⟩ ⟨t₁, us₁⟩ ⟨h₁, rfl⟩
      refine (Alike.run hstep as s₁ t₁ h₁).bind ?_
      rintro ⟨s₂, os₂⟩ ⟨t₂, us₂⟩ ⟨h₂, rfl⟩
      exact .ok ⟨h₂, (List.map_append).symm⟩

/-- The one goes on with what does not fail, and the other is done. -/
theorem Alike.bind_left {R : γ₁ → γ₂ → Prop} {Q : δ₁ → γ₂ → Prop} {x : Except ε γ₁}
    {y : Except ε γ₂} {f : γ₁ → Except ε δ₁} (h : Alike R x y)
    (hf : ∀ c d, R c d → ∃ c', f c = .ok c' ∧ Q c' d) : Alike Q (x >>= f) y := by
  cases h with
  | error e => exact .error e
  | ok related =>
      obtain ⟨c', hc', hq⟩ := hf _ _ related
      refine (congrArg (Alike Q · _) hc').mpr (.ok hq)

/-- **The rule for what is left out.** One machine is given inputs that another is not, and
puts out what the other does not. When both answer alike what both are given, and the rest
succeeds and is invisible to the other, so it is over whole runs. -/
theorem Alike.run_filterMap {R : σ → τ → Prop} {f : Step σ α ω ε} {g : Step τ β υ ε}
    {C : α → Prop} {φ : α → Option β} {ψ : ω → Option υ}
    (hstep : ∀ s t a b, R s t → C a → φ a = some b →
      Alike (fun r q => R r.1 q.1 ∧ q.2 = r.2.filterMap ψ) (f s a) (g t b))
    (hskip : ∀ s t a, R s t → C a → φ a = none →
      ∃ s' os, f s a = .ok (s', os) ∧ R s' t ∧ os.filterMap ψ = []) :
    ∀ (as : List α) (s : σ) (t : τ), R s t → (∀ a ∈ as, C a) →
      Alike (fun r q => R r.1 q.1 ∧ q.2 = r.2.filterMap ψ) (Machine.run f s as)
        (Machine.run g t (as.filterMap φ))
  | [], _, _, h, _ => .ok ⟨h, rfl⟩
  | a :: as, s, t, h, hC => by
      obtain ⟨ha, has⟩ := List.forall_mem_cons.mp hC
      cases hφ : φ a with
      | some b =>
          rw [List.filterMap_cons_some hφ]
          refine (hstep s t a b h ha hφ).bind ?_
          rintro ⟨s₁, os₁⟩ ⟨t₁, us₁⟩ ⟨h₁, rfl⟩
          refine (Alike.run_filterMap hstep hskip as s₁ t₁ h₁ has).bind ?_
          rintro ⟨s₂, os₂⟩ ⟨t₂, us₂⟩ ⟨h₂, rfl⟩
          exact .ok ⟨h₂, (List.filterMap_append).symm⟩
      | none =>
          obtain ⟨s₁, os₁, hone, h₁, hnil⟩ := hskip s t a h ha hφ
          rw [List.filterMap_cons_none hφ, Machine.run, hone]
          refine (Alike.run_filterMap hstep hskip as s₁ t h₁ has).bind_left ?_
          rintro ⟨s₂, os₂⟩ ⟨t₂, us₂⟩ ⟨h₂, rfl⟩
          refine ⟨_, rfl, h₂, ?_⟩
          rw [List.filterMap_append, hnil, List.nil_append]

end Lockstep

/-! ## Logged runs -/

section Logged

variable {β : Type v} {act : Step σ β ω ε}

/-- The same steps, each logged with its input beside what it emitted. -/
def logged (act : Step σ β ω ε) : Step σ β (β × List ω) ε := fun s a => do
  let (s', os) ← act s a
  return (s', [(a, os)])

theorem logged_ok_iff {s' : σ} {a : β} {entries : List (β × List ω)} :
    logged act s a = .ok (s', entries) ↔ ∃ os, act s a = .ok (s', os) ∧ entries = [(a, os)] := by
  constructor
  · intro h
    obtain ⟨⟨s₁, os⟩, hstep, hret⟩ := (bind_ok_iff _ _ _).mp h
    obtain ⟨rfl, rfl⟩ := Prod.mk.inj (Except.ok.inj hret)
    exact ⟨os, hstep, rfl⟩
  · rintro ⟨os, hstep, rfl⟩
    exact (bind_ok_iff _ _ _).mpr ⟨_, hstep, rfl⟩

/-- The trace of a logged run, its inputs forgotten. -/
def emitted (log : List (β × List ω)) : List ω := log.flatMap Prod.snd

@[simp] theorem emitted_append (log log' : List (β × List ω)) :
    emitted (log ++ log') = emitted log ++ emitted log' := List.flatMap_append

@[simp] theorem emitted_singleton (a : β) (os : List ω) : emitted [(a, os)] = os :=
  List.flatMap_singleton _ _

/-- **The rule for entries.** What holds of every step that a reachable state takes,
with the log so far, holds of every entry of a log, with the log before it. -/
theorem Reach.entries {C : σ → List (β × List ω) → β → Prop}
    {Q : List (β × List ω) → β → List ω → Prop} {log : List (β × List ω)}
    (hstep : ∀ s log a s' os, Reach (logged act) C s₀ s log → C s log a →
      act s a = .ok (s', os) → Q log a os)
    (h : Reach (logged act) C s₀ s log) {before after : List (β × List ω)} {a : β}
    {os : List ω} (hentry : log = before ++ (a, os) :: after) : Q before a os := by
  induction h generalizing after with
  | init => exact absurd hentry (by simp)
  | step hr hc hs ih =>
      obtain ⟨os', hone, rfl⟩ := logged_ok_iff.mp hs
      -- the last entry is the step just taken, an earlier one was there before it
      rcases List.eq_nil_or_concat after with rfl | ⟨after, last, rfl⟩
      · obtain ⟨rfl, hlast⟩ := List.append_inj' hentry rfl
        obtain ⟨rfl, rfl⟩ := Prod.mk.inj (List.singleton_inj.mp hlast)
        exact hstep _ _ _ _ _ hr hc hone
      · rw [List.concat_eq_append] at hentry
        have hsplit : before ++ (a, os) :: (after ++ [last])
            = (before ++ (a, os) :: after) ++ [last] := by simp
        rw [hsplit] at hentry
        exact ih (List.append_inj' hentry rfl).1

end Logged

end Machine
