import Mathlib.Logic.Relation

/-!
Runs of a machine that takes labelled steps.

* `Machine.Run`: a run all of whose steps meet a condition on the state before
  the step and on its label.
* `Machine.Reachable`: the states that some run from the start ends in.
* `Run.keeps`, `Run.invariant` and `Reachable.invariant`: what every step keeps
  holds at the end of a run. The last two let the step assume that it starts in a
  reachable state, so that invariants can be proved one after another.
-/

namespace Runs

universe u v

/-- A start state and labelled steps. -/
structure Machine (S : Type u) (A : Type v) where
  start : S
  step : S → A → S → Prop

variable {S : Type u} {A : Type v} {m : Machine S A} {ok : S → A → Prop}

/-- A run whose steps all meet `ok`. -/
def Machine.Run (m : Machine S A) (ok : S → A → Prop) : S → S → Prop :=
  Relation.ReflTransGen fun s s' => ∃ a, ok s a ∧ m.step s a s'

/-- Some run leads from the start to the state. -/
def Machine.Reachable (m : Machine S A) (s : S) : Prop := m.Run (fun _ _ => True) m.start s

namespace Machine.Run

lemma nil (s : S) : m.Run ok s s := .refl

lemma snoc {s s' s'' : S} (h : m.Run ok s s') (a : A) (hok : ok s' a)
    (hstep : m.step s' a s'') : m.Run ok s s'' := .tail h ⟨a, hok, hstep⟩

lemma append {s s' s'' : S} (h : m.Run ok s s') (h' : m.Run ok s' s'') : m.Run ok s s'' :=
  .trans h h'

lemma mono {ok' : S → A → Prop} {s s' : S} (hle : ∀ s a, ok s a → ok' s a) (h : m.Run ok s s') :
    m.Run ok' s s' :=
  Relation.ReflTransGen.mono (fun _ _ ⟨a, hok, hstep⟩ => ⟨a, hle _ a hok, hstep⟩) _ _ h

/-- What every step of the run keeps holds at its end. -/
@[elab_as_elim]
theorem invariant {motive : S → Prop} {s s' : S} (h : m.Run ok s s')
    (hreach : m.Run ok m.start s) (hs : motive s)
    (hstep : ∀ s a s', m.Run ok m.start s → motive s → ok s a → m.step s a s' → motive s') :
    motive s' := by
  induction h with
  | refl => exact hs
  | @tail t t' hrun hlast ih =>
      obtain ⟨a, hok, ha⟩ := hlast
      exact hstep t a t' (append hreach hrun) ih hok ha

/-- What every step keeps holds at the end of a run, wherever that began. -/
@[elab_as_elim]
theorem keeps {motive : S → Prop} {s s' : S} (h : m.Run ok s s') (hs : motive s)
    (hstep : ∀ s a s', motive s → ok s a → m.step s a s' → motive s') : motive s' := by
  induction h with
  | refl => exact hs
  | tail _ hlast ih =>
      obtain ⟨a, hok, ha⟩ := hlast
      exact hstep _ a _ ih hok ha

end Machine.Run

namespace Machine.Reachable

lemma start : m.Reachable m.start := .refl

lemma snoc {s s' : S} (h : m.Reachable s) (a : A) (hstep : m.step s a s') : m.Reachable s' :=
  Run.snoc h a trivial hstep

lemma of_run {s : S} (h : m.Run ok m.start s) : m.Reachable s := Run.mono (fun _ _ _ => trivial) h

lemma run {s s' : S} (h : m.Reachable s) (hrun : m.Run ok s s') : m.Reachable s' :=
  Run.append h (Run.mono (fun _ _ _ => trivial) hrun)

/-- What the start has and every step between reachable states keeps holds in
all of them. -/
@[elab_as_elim]
theorem invariant {motive : S → Prop} {s : S} (h : m.Reachable s) (hstart : motive m.start)
    (hstep : ∀ s a s', m.Reachable s → motive s → m.step s a s' → motive s') : motive s :=
  Run.invariant h .refl hstart fun s a s' hs hinv _ => hstep s a s' hs hinv

end Machine.Reachable

end Runs
