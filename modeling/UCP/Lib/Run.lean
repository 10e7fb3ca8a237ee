import Mathlib.Data.List.Basic
import Mathlib.Logic.Relation

/-- The runs of a labelled transition system from a start state, with the
labels of their steps in order. -/
inductive Run {σ ε : Type*} (step : σ → ε → σ → Prop) (start : σ) : List ε → σ → Prop
  | start : Run step start [] start
  | next {events s e s'} : Run step start events s → step s e s' → Run step start (events ++ [e]) s'

namespace Run

variable {σ ε : Type*} {step : σ → ε → σ → Prop} {start s : σ} {events : List ε}

/-- What holds at the start and is kept by every step of a run holds in every
state that is reached. -/
theorem invariant (inv : List ε → σ → Prop) (first : inv [] start)
    (preserved : ∀ {events s e s'}, Run step start events s → inv events s → step s e s' → inv (events ++ [e]) s')
    (run : Run step start events s) : inv events s := by
  induction run with
  | start => exact first
  | next before taken ih => exact preserved before ih taken

theorem append {more : List ε} {s' : σ} (run : Run step start events s) (rest : Run step s more s') :
    Run step start (events ++ more) s' := by
  induction rest with
  | start =>
    rw [List.append_nil]
    exact run
  | next _ taken ih =>
    rw [← List.append_assoc]
    exact .next ih taken

theorem cons {e : ε} {s' : σ} (taken : step start e s) (rest : Run step s events s') :
    Run step start (e :: events) s' :=
  append (.next .start taken) rest

theorem eq_of_nil (run : Run step start [] s) : s = start := by
  generalize none : [] = events at run
  cases run with
  | start => rfl
  | next => exact absurd none.symm (List.concat_ne_nil _ _)

theorem singleton {e : ε} (run : Run step start [e] s) : step start e s := by
  generalize one : [e] = events at run
  cases run with
  | start => cases one
  | @next events middle last _ before taken =>
    have whole : [] ++ [e] = events ++ [last] := one
    obtain ⟨rfl, same⟩ := List.append_inj' whole rfl
    cases same
    rwa [before.eq_of_nil] at taken

/-- The state in which a step of a run was taken. -/
theorem split {before after : List ε} {e : ε} (run : Run step start (before ++ e :: after) s) :
    ∃ s1 s2, Run step start before s1 ∧ step s1 e s2 := by
  generalize whole : before ++ e :: after = events at run
  induction run generalizing after with
  | start => exact absurd whole (by simp)
  | @next earlier s1 last s2 run taken ih =>
    rcases List.eq_nil_or_concat after with rfl | ⟨rest, last', rfl⟩
    · obtain ⟨rfl, same⟩ := List.append_inj' whole rfl
      cases same
      exact ⟨s1, s2, run, taken⟩
    · rw [List.concat_eq_append, ← List.cons_append, ← List.append_assoc] at whole
      obtain ⟨same, _⟩ := List.append_inj' whole rfl
      exact ih same

/-- A simulation carries runs over, with the same labels. -/
theorem simulate {τ : Type*} {step' : τ → ε → τ → Prop} {rel : σ → τ → Prop}
    (simulates : ∀ {s t e s'}, rel s t → step s e s' → ∃ t', step' t e t' ∧ rel s' t')
    (run : Run step start events s) {start' : τ} (related : rel start start') :
    ∃ t, Run step' start' events t ∧ rel s t := by
  induction run with
  | start => exact ⟨start', .start, related⟩
  | next _ taken ih =>
    obtain ⟨t, run', related'⟩ := ih
    obtain ⟨t', taken', next⟩ := simulates related' taken
    exact ⟨t', .next run' taken', next⟩

/-- A simulation in which each step becomes a run, of what its label stands for. -/
theorem expand {τ ε' : Type*} {step' : τ → ε' → τ → Prop} (rel : σ → τ → Prop) (label : ε → List ε')
    (simulates : ∀ {s t e s'}, rel s t → step s e s' → ∃ t', Run step' t (label e) t' ∧ rel s' t')
    (run : Run step start events s) {start' : τ} (related : rel start start') :
    ∃ t, Run step' start' (events.flatMap label) t ∧ rel s t := by
  induction run with
  | start => exact ⟨start', .start, related⟩
  | next _ taken ih =>
    obtain ⟨t, run', related'⟩ := ih
    obtain ⟨t', more, next⟩ := simulates related' taken
    refine ⟨t', ?_, next⟩
    rw [List.flatMap_append, List.flatMap_singleton]
    exact run'.append more

/-- What steps turn into when something of the states and labels is forgotten,
runs turn into. -/
theorem map {τ ε' : Type*} {step' : τ → ε' → τ → Prop} (state : σ → τ) (label : ε → ε')
    (forgets : ∀ {s e s'}, step s e s' → step' (state s) (label e) (state s')) (run : Run step start events s) :
    Run step' (state start) (events.map label) (state s) := by
  induction run with
  | start => exact .start
  | next _ taken ih =>
    rw [List.map_append, List.map_singleton]
    exact .next ih (forgets taken)

/-- When every step can be taken with more in the states and labels, every run
can. -/
theorem lift {τ ε' : Type*} {step' : τ → ε' → τ → Prop} (state : τ → σ) (label : ε' → ε)
    (lifts : ∀ {t e s'}, step (state t) e s' → ∃ e' t', step' t e' t' ∧ label e' = e ∧ state t' = s')
    {start' : τ} (run : Run step (state start') events s) :
    ∃ events' t, Run step' start' events' t ∧ events'.map label = events ∧ state t = s := by
  induction run with
  | start => exact ⟨[], start', .start, rfl, rfl⟩
  | next _ taken ih =>
    obtain ⟨events', t, run', labels, rfl⟩ := ih
    obtain ⟨e', t', taken', same, next⟩ := lifts taken
    refine ⟨events' ++ [e'], t', .next run' taken', ?_, next⟩
    rw [List.map_append, labels, List.map_singleton, same]

/-- What every step of one system is in another, every run is. -/
theorem mono {step' : σ → ε → σ → Prop} (sub : ∀ {s e s'}, step s e s' → step' s e s')
    (run : Run step start events s) : Run step' start events s := by
  induction run with
  | start => exact .start
  | next _ taken ih => exact .next ih (sub taken)

end Run

/-- The steps of a system whose actions can fail: it goes on until one of them
has failed. -/
def Faulting {σ ε φ : Type*} (valid : σ → ε → Prop) (act : σ → ε → Except φ σ) (s : Except φ σ) (e : ε)
    (s' : Except φ σ) : Prop :=
  ∃ state, s = .ok state ∧ valid state e ∧ s' = act state e

namespace Run

variable {σ ε φ : Type*} {valid : σ → ε → Prop} {act : σ → ε → Except φ σ} {start : σ} {events : List ε}

/-- What holds at the start and is kept by every valid action that succeeds holds
in every state that is reached. -/
theorem faulting_invariant {state : σ} (inv : List ε → σ → Prop) (first : inv [] start)
    (preserved : ∀ {events state e state'}, inv events state → valid state e → act state e = .ok state' →
      inv (events ++ [e]) state')
    (run : Run (Faulting valid act) (.ok start) events (.ok state)) : inv events state := by
  refine run.invariant (fun events s => ∀ state, s = .ok state → inv events state) ?_ ?_ state rfl
  · rintro state same
    cases same
    exact first
  · rintro events s e s' _ ih ⟨before, rfl, isValid, rfl⟩ state' ran
    exact preserved (ih before rfl) isValid ran

/-- A run gets through without a failure exactly when it can survive each of its
events. -/
theorem faulting_isOk_iff {s : Except φ σ} (survivable : ε → Prop)
    (fails : ∀ {state e state'}, act state e = .ok state' → survivable e)
    (succeeds : ∀ {events state e}, Run (Faulting valid act) (.ok start) events (.ok state) → valid state e →
      survivable e → ∃ state', act state e = .ok state')
    (run : Run (Faulting valid act) (.ok start) events s) :
    (∃ state, s = .ok state) ↔ ∀ e ∈ events, survivable e := by
  induction run with
  | start => exact ⟨fun _ e member => absurd member List.not_mem_nil, fun _ => ⟨_, rfl⟩⟩
  | @next events s e s' run step ih =>
    obtain ⟨state, rfl, isValid, rfl⟩ := step
    constructor
    · rintro ⟨state', ran⟩ other member
      rcases List.mem_append.mp member with old | last
      · exact ih.mp ⟨state, rfl⟩ other old
      · rw [List.mem_singleton.mp last]
        exact fails ran
    · intro all
      exact succeeds run isValid (all e List.mem_concat_self)

end Run

namespace Relation

variable {σ : Type*} {step : σ → σ → Prop} {s : σ}

/-- What has the invariant can be brought to the goal, when from every state short
of it some steps lead to a lower rank. -/
theorem reach_of_descends {inv goal : σ → Prop} (rank : σ → Nat)
    (descends : ∀ s, inv s → goal s ∨ ∃ s', ReflTransGen step s s' ∧ inv s' ∧ rank s' < rank s) (start : inv s) :
    ∃ s', ReflTransGen step s s' ∧ inv s' ∧ goal s' := by
  generalize bound : rank s = n
  induction n using Nat.strongRecOn generalizing s with
  | ind n ih =>
    rcases descends s start with there | ⟨s1, steps, next, lower⟩
    · exact ⟨s, .refl, start, there⟩
    · obtain ⟨s2, further, last, there⟩ := ih (rank s1) (bound ▸ lower) next rfl
      exact ⟨s2, steps.trans further, last, there⟩

/-- What every step keeps and what no step raises, a sequence of steps keeps and
does not raise. -/
theorem ReflTransGen.keeps {inv : σ → Prop} {rank : σ → Nat}
    (keeps : ∀ {s s'}, inv s → step s s' → inv s' ∧ rank s' ≤ rank s) (start : inv s) {s' : σ}
    (steps : ReflTransGen step s s') : inv s' ∧ rank s' ≤ rank s := by
  induction steps with
  | refl => exact ⟨start, Nat.le_refl _⟩
  | tail _ taken ih =>
    obtain ⟨next, lower⟩ := keeps ih.1 taken
    exact ⟨next, Nat.le_trans lower ih.2⟩

end Relation
