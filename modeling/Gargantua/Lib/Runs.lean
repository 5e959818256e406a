import Mathlib.Data.List.Forall2

/-! # Runs of a step function

    A component is a state and a step function over its events; `none` is an
    event the state does not allow.  A run is a list of events.  The one
    induction over runs is done here: what every step preserves holds after
    every run. -/

namespace Runs

variable {σ ε : Type}

/-- The state after a list of events, if every one of them is allowed. -/
def run (step : σ → ε → Option σ) : σ → List ε → Option σ
  | s, [] => some s
  | s, e :: es =>
      match step s e with
      | none => none
      | some s' => run step s' es

/-- Every allowed step keeps `Inv`. -/
def Preserves (step : σ → ε → Option σ) (Inv : σ → Prop) : Prop :=
  ∀ {s s' : σ} {e : ε}, step s e = some s' → Inv s → Inv s'

theorem run_cons {step : σ → ε → Option σ} {s t : σ} {e : ε} {es : List ε}
    (h : run step s (e :: es) = some t) :
    ∃ s', step s e = some s' ∧ run step s' es = some t := by
  rw [run] at h
  split at h
  · exact nomatch h
  · rename_i s' hs
    exact ⟨s', hs, h⟩

/-- What every step on a `Q` event keeps, every run of such events keeps. -/
theorem run_preserves_of {step : σ → ε → Option σ} {Q : ε → Prop} {Inv : σ → Prop}
    (hstep : ∀ {s s' : σ} {e : ε}, Q e → step s e = some s' → Inv s → Inv s') :
    ∀ {es : List ε}, (∀ e ∈ es, Q e) → ∀ {s t : σ}, run step s es = some t → Inv s → Inv t := by
  intro es
  induction es with
  | nil =>
      intro _ s t h hs
      obtain rfl := Option.some.inj h
      exact hs
  | cons e es ih =>
      intro hq s t h hs
      obtain ⟨s', h1, h2⟩ := run_cons h
      exact ih (fun e' he' => hq e' (List.mem_cons_of_mem _ he')) h2
        (hstep (hq e List.mem_cons_self) h1 hs)

/-- What every step keeps, every run keeps. -/
theorem run_preserves {step : σ → ε → Option σ} {Inv : σ → Prop}
    (hstep : Preserves step Inv) {es : List ε} {s t : σ} (h : run step s es = some t)
    (hs : Inv s) : Inv t :=
  run_preserves_of (Q := fun _ => True) (fun _ => hstep) (fun _ _ => trivial) h hs

/-! ## Runs of a total step function

    What holds in every state of a run is decided step by step, when each step
    decides it for the state it ends in. -/

/-- The state after a list of events. -/
def after (step : σ → ε → σ) (s : σ) (es : List ε) : σ := es.foldl step s

/-- `P` holds in every state of a run, the first one included. -/
def Always (step : σ → ε → σ) (P : σ → Prop) : σ → List ε → Prop
  | s, [] => P s
  | s, e :: es => P s ∧ Always step P (step s e) es

/-- `Q` holds of every event of a run, in the state it is issued in. -/
def EveryStep (step : σ → ε → σ) (Q : σ → ε → Prop) : σ → List ε → Prop
  | _, [] => True
  | s, e :: es => Q s e ∧ EveryStep step Q (step s e) es

instance decidableAlways (step : σ → ε → σ) (P : σ → Prop) [DecidablePred P] :
    (s : σ) → (es : List ε) → Decidable (Always step P s es)
  | s, [] => inferInstanceAs (Decidable (P s))
  | s, e :: es =>
      haveI := decidableAlways step P (step s e) es
      inferInstanceAs (Decidable (P s ∧ Always step P (step s e) es))

instance decidableEveryStep (step : σ → ε → σ) (Q : σ → ε → Prop) [∀ s e, Decidable (Q s e)] :
    (s : σ) → (es : List ε) → Decidable (EveryStep step Q s es)
  | _, [] => isTrue trivial
  | s, e :: es =>
      haveI := decidableEveryStep step Q (step s e) es
      inferInstanceAs (Decidable (Q s e ∧ EveryStep step Q (step s e) es))

theorem Always.head {step : σ → ε → σ} {P : σ → Prop} {s : σ} {es : List ε}
    (h : Always step P s es) : P s := by
  cases es with
  | nil => exact h
  | cons e es => exact h.1

theorem always_iff_everyStep {step : σ → ε → σ} {P : σ → Prop} {Q : σ → ε → Prop}
    (hstep : ∀ s e, P s → (P (step s e) ↔ Q s e)) {es : List ε} :
    ∀ {s : σ}, P s → (Always step P s es ↔ EveryStep step Q s es) := by
  induction es with
  | nil => exact fun hs => ⟨fun _ => trivial, fun _ => hs⟩
  | cons e es ih =>
      intro s hs
      constructor
      · rintro ⟨-, h⟩
        exact ⟨(hstep s e hs).mp h.head, (ih h.head).mp h⟩
      · rintro ⟨hq, h⟩
        exact ⟨hs, (ih ((hstep s e hs).mpr hq)).mpr h⟩

/-- What the events of a run keep, as long as each of them meets `Q`, holds in every
    state. -/
theorem always_of_everyStep {step : σ → ε → σ} {Q : σ → ε → Prop} {P : σ → Prop}
    (hstep : ∀ s e, Q s e → P s → P (step s e)) {es : List ε} :
    ∀ {s : σ}, P s → EveryStep step Q s es → Always step P s es := by
  induction es with
  | nil => exact fun hs _ => hs
  | cons e es ih => exact fun hs h => ⟨hs, ih (hstep _ e h.1 hs) h.2⟩

theorem Always.imp {step : σ → ε → σ} {P Q : σ → Prop} (hPQ : ∀ s, P s → Q s)
    {es : List ε} : ∀ {s : σ}, Always step P s es → Always step Q s es := by
  induction es with
  | nil => exact fun h => hPQ _ h
  | cons e es ih => exact fun h => ⟨hPQ _ h.1, ih h.2⟩

theorem Always.append {step : σ → ε → σ} {P : σ → Prop} {pre post : List ε} :
    ∀ {s : σ}, Always step P s (pre ++ post) → Always step P (after step s pre) post := by
  induction pre with
  | nil => exact fun h => h
  | cons e pre ih => exact fun h => ih h.2

/-- What every event of a run keeps, the run keeps. -/
theorem after_keeps {step : σ → ε → σ} {P : σ → Prop} {es : List ε} :
    (∀ e ∈ es, ∀ s, P s → P (step s e)) → ∀ {s : σ}, P s → P (after step s es) := by
  induction es with
  | nil => exact fun _ _ h => h
  | cons e es ih =>
      exact fun hstep s h =>
        ih (fun e' he' => hstep e' (List.mem_cons_of_mem e he')) (hstep e List.mem_cons_self s h)

/-- What an event settles holds after the run, if the later events keep it. -/
theorem after_settled {step : σ → ε → σ} {Inv : σ → Prop} {Q : ε → σ → Prop} {es : List ε} :
    (∀ e ∈ es, ∀ s, Inv s → Inv (step s e)) → (∀ e ∈ es, ∀ s, Inv s → Q e (step s e)) →
    (es.Pairwise fun e e' => ∀ s, Inv s → Q e s → Q e (step s e')) →
    ∀ {s : σ}, Inv s → ∀ e ∈ es, Q e (after step s es) := by
  induction es with
  | nil => exact fun _ _ _ _ _ e he => nomatch he
  | cons e es ih =>
      intro hinv hset hkeep s hs
      have hinv' : ∀ e' ∈ es, ∀ s, Inv s → Inv (step s e') :=
        fun e' he' => hinv e' (List.mem_cons_of_mem e he')
      have hfirst : Inv (step s e) := hinv e List.mem_cons_self s hs
      obtain ⟨hlater, hrest⟩ := List.pairwise_cons.mp hkeep
      intro e' he'
      rcases List.mem_cons.mp he' with rfl | he'
      · have hboth : Inv (after step (step s e') es) ∧ Q e' (after step (step s e') es) :=
          after_keeps (P := fun s => Inv s ∧ Q e' s)
            (fun e he s hs => ⟨hinv' e he s hs.1, hlater e he s hs.1 hs.2⟩)
            ⟨hfirst, hset e' List.mem_cons_self s hs⟩
        exact hboth.2
      · exact ih hinv' (fun e he => hset e (List.mem_cons_of_mem _ he)) hrest hfirst e' he'

/-! ## Machines that answer

    A step gives the next state and a reply.  One machine refines another when
    related states and events lead to related states and replies. -/

section Replies

variable {ρ σ' ε' ρ' : Type}

/-- The replies to a list of events. -/
def replies (step : σ → ε → σ × ρ) : σ → List ε → List ρ
  | _, [] => []
  | s, e :: es => (step s e).2 :: replies step (step s e).1 es

/-- The state that a list of events ends in. -/
def final (step : σ → ε → σ × ρ) (s : σ) (es : List ε) : σ :=
  after (fun s e => (step s e).1) s es

/-- **Refinement of runs**: what relates the machines in each step relates all
    replies and the states that a run ends in. -/
theorem run_refines {step : σ → ε → σ × ρ} {step' : σ' → ε' → σ' × ρ'} {abs : ε → ε'}
    {R : σ → σ' → Prop} {A : ρ → ρ' → Prop}
    (hstep : ∀ s s' e, R s s' →
      R (step s e).1 (step' s' (abs e)).1 ∧ A (step s e).2 (step' s' (abs e)).2)
    (es : List ε) : ∀ {s : σ} {s' : σ'}, R s s' →
      List.Forall₂ A (replies step s es) (replies step' s' (es.map abs))
        ∧ R (final step s es) (final step' s' (es.map abs)) := by
  induction es with
  | nil => exact fun h => ⟨List.Forall₂.nil, h⟩
  | cons e es ih =>
      intro s s' h
      obtain ⟨hnext, hreply⟩ := hstep s s' e h
      obtain ⟨hreplies, hend⟩ := ih hnext
      exact ⟨List.Forall₂.cons hreply hreplies, hend⟩

end Replies

end Runs
