import Mathlib.Data.Set.Finite.Basic
import Mathlib.Order.RelClasses
import Mathlib.Order.WellFounded
import Mathlib.Data.Fintype.EquivFin
import Mathlib.Logic.Relation
import Mathlib.Logic.Function.Iterate

/-! # Sweeps over a graph

    What depends on other nodes is often computed by sweeps: every node in turn
    takes a value as soon as the nodes that it needs have one, and the sweep is
    made again.  A step that changes something makes progress, so as many sweeps
    as there is progress to make settle the state (`sweeps_settle`).  A settled
    state leaves out only nodes from which a cycle or a dead end is reached,
    because a finite graph without cycles can be gone through from its leaves
    (`acyclic_induction`).

    Where a node is taken once its successors have been, the nodes come out in
    order (`Ordered`): all of them, or there is a cycle (`all_taken`).

    A chain is counted in nodes (`ChainFrom`), and the longest one from a node is
    one longer than those from its successors (`Longest.of_successors`). -/

namespace Sweeps

/-! ## Progress -/

section Progress

variable {σ ι : Type} {step : σ → ι → σ} {μ : σ → Nat}

/-- A step that changes the state makes `μ` larger. -/
def Progresses (step : σ → ι → σ) (μ : σ → Nat) : Prop :=
  ∀ s i, step s i = s ∨ μ s < μ (step s i)

/-- So does a sweep. -/
theorem sweep_progresses (h : Progresses step μ) (is : List ι) :
    ∀ s, is.foldl step s = s ∨ μ s < μ (is.foldl step s) := by
  induction is with
  | nil => intro s; exact .inl rfl
  | cons i is ih =>
      intro s
      show is.foldl step (step s i) = s ∨ μ s < μ (is.foldl step (step s i))
      rcases h s i with hi | hi
      · rw [hi]
        exact ih s
      · rcases ih (step s i) with hrest | hrest
        · rw [hrest]
          exact .inr hi
        · exact .inr (Nat.lt_trans hi hrest)

/-- A sweep that changes nothing has no step that changes something. -/
theorem sweep_still (h : Progresses step μ) {is : List ι} :
    ∀ {s}, is.foldl step s = s → ∀ i ∈ is, step s i = s := by
  induction is with
  | nil => intro s _ i hi; exact nomatch hi
  | cons j is ih =>
      intro s hs i hi
      have hfirst : step s j = s := by
        rcases h s j with hj | hj
        · exact hj
        · -- the progress of the first step cannot be lost again
          have hrest := sweep_progresses h is (step s j)
          have hback : is.foldl step (step s j) = s := hs
          rw [hback] at hrest
          rcases hrest with hrest | hrest
          · exact hrest.symm
          · omega
      have hlater : is.foldl step s = s := by
        have hback : is.foldl step (step s j) = s := hs
        rwa [hfirst] at hback
      rcases List.mem_cons.mp hi with rfl | hi
      · exact hfirst
      · exact ih hlater i hi

/-- **Enough sweeps settle the state**: as many as `μ` can grow. -/
theorem sweeps_settle {f : σ → σ} (hf : ∀ s, f s = s ∨ μ s < μ (f s)) {n : Nat} {s : σ}
    (hn : ∀ k, μ (f^[k] s) ≤ n) : f (f^[n] s) = f^[n] s := by
  have hgrows : ∀ k, f (f^[k] s) = f^[k] s ∨ k < μ (f^[k + 1] s) := by
    intro k
    induction k with
    | zero =>
        rcases hf s with h | h
        · exact .inl h
        · exact .inr (Nat.zero_lt_of_lt h)
    | succ k ih =>
        rw [Function.iterate_succ_apply' f (k + 1) s]
        rcases ih with h | h
        · left
          rw [Function.iterate_succ_apply' f k s, h, h]
        · rcases hf (f^[k + 1] s) with hstill | hmore
          · exact .inl hstill
          · exact .inr (Nat.lt_of_le_of_lt h hmore)
  rcases hgrows n with h | h
  · exact h
  · exact absurd (hn (n + 1)) (Nat.not_le.mpr h)

/-- Steps that may fail, one after another: all of them succeed, or one fails. -/
theorem sweep_or_fails {ε : Type} {P : ε → Prop} {try_ : σ → ι → Except ε σ}
    (h : ∀ s i, try_ s i = .ok (step s i) ∨ ∃ e, try_ s i = .error e ∧ P e) (is : List ι) :
    ∀ s, is.foldlM try_ s = .ok (is.foldl step s) ∨ ∃ e, is.foldlM try_ s = .error e ∧ P e := by
  induction is with
  | nil => intro s; exact .inl rfl
  | cons i is ih =>
      intro s
      rw [List.foldlM_cons, List.foldl_cons]
      rcases h s i with hi | ⟨e, hi, he⟩
      · rw [hi]
        exact ih (step s i)
      · rw [hi]
        exact .inr ⟨e, rfl, he⟩

end Progress

/-! ## Finite graphs without cycles -/

section Graph

open Relation

variable {α : Type} {r : α → α → Prop}

/-- **From the leaves up**: what a node inherits from its successors holds, if no
    cycle can be reached in the finite graph behind it. -/
theorem acyclic_induction {a : α} (hfinite : {b | ReflTransGen r a b}.Finite)
    (hacyclic : ∀ b, ReflTransGen r a b → ¬ TransGen r b b) {P : α → Prop}
    (h : ∀ b, ReflTransGen r a b → (∀ c, r b c → P c) → P b) : P a := by
  have : Finite {b | ReflTransGen r a b} := hfinite
  -- what is behind a node is below it; without cycles that is well founded
  let below : {b | ReflTransGen r a b} → {b | ReflTransGen r a b} → Prop :=
    fun x y => TransGen r y.1 x.1
  have : IsTrans _ below := ⟨fun x y z hxy hyz => hyz.trans hxy⟩
  have : Std.Irrefl below := ⟨fun x => hacyclic x.1 x.2⟩
  have hwf : WellFounded below := Finite.wellFounded_of_trans_of_irrefl below
  have hall : ∀ x : {b | ReflTransGen r a b}, P x.1 := by
    intro x
    induction x using hwf.induction with
    | _ x ih =>
        refine h x.1 x.2 fun c hc => ?_
        exact ih ⟨c, x.2.tail hc⟩ (.single hc)
  exact hall ⟨a, .refl⟩

/-- A chain of `d` nodes that begins with `a`. -/
inductive ChainFrom (r : α → α → Prop) : α → Nat → Prop where
  | one (a : α) : ChainFrom r a 1
  | step {a b : α} {d : Nat} (hab : r a b) (h : ChainFrom r b d) : ChainFrom r a (d + 1)

/-- The longest chain from `a` has `d` nodes. -/
structure Longest (r : α → α → Prop) (a : α) (d : Nat) : Prop where
  chain : ChainFrom r a d
  most : ∀ {e}, ChainFrom r a e → e ≤ d

/-- A chain behind a node gives one that is no shorter from the node. -/
theorem ChainFrom.reached {a b : α} {d : Nat} (hab : ReflTransGen r a b) (h : ChainFrom r b d) :
    ∃ e, d ≤ e ∧ ChainFrom r a e := by
  induction hab using ReflTransGen.head_induction_on with
  | refl => exact ⟨d, Nat.le_refl d, h⟩
  | head hac _ ih =>
      obtain ⟨e, he, hchain⟩ := ih
      exact ⟨e + 1, Nat.le_succ_of_le he, .step hac hchain⟩

/-- A step more gives a chain that is longer. -/
theorem ChainFrom.longer {a b : α} {d : Nat} (hab : TransGen r a b) (h : ChainFrom r b d) :
    ∃ e, d < e ∧ ChainFrom r a e := by
  obtain ⟨c, hac, hcb⟩ := TransGen.head'_iff.mp hab
  obtain ⟨e, he, hchain⟩ := h.reached hcb
  exact ⟨e + 1, Nat.lt_succ_of_le he, .step hac hchain⟩

/-- No chain is the longest where a cycle is reached. -/
theorem Longest.no_cycle {a b : α} {d : Nat} (h : Longest r a d) (hab : ReflTransGen r a b) :
    ¬ TransGen r b b := by
  intro hcycle
  -- round the cycle once more, and the chain is longer
  have hany : ∀ n, ∃ e, n < e ∧ ChainFrom r b e := by
    intro n
    induction n with
    | zero => exact ⟨1, Nat.one_pos, .one b⟩
    | succ n ih =>
        obtain ⟨e, he, hchain⟩ := ih
        obtain ⟨e', he', hchain'⟩ := hchain.longer hcycle
        exact ⟨e', by omega, hchain'⟩
  obtain ⟨e, he, hchain⟩ := hany d
  obtain ⟨e', he', hchain'⟩ := hchain.reached hab
  have hmost := h.most hchain'
  omega

/-- One node more than the longest chain from a successor, if there is one. -/
theorem Longest.of_successors {a : α} {d : Nat} {longest : α → Nat}
    (hsucc : ∀ b, r a b → Longest r b (longest b)) (hle : ∀ b, r a b → longest b + 1 ≤ d)
    (hd : d = 1 ∨ ∃ b, r a b ∧ d = longest b + 1) (hpos : 1 ≤ d) : Longest r a d where
  chain := by
    rcases hd with rfl | ⟨b, hab, rfl⟩
    · exact .one a
    · exact .step hab (hsucc b hab).chain
  most := by
    intro e he
    cases he with
    | one => exact hpos
    | step hab h => exact Nat.le_trans (Nat.succ_le_succ ((hsucc _ hab).most h)) (hle _ hab)

/-! ## Nodes in order -/

/-- Nodes one after another, each of them once and behind all of its
    successors. -/
structure Ordered (node : α → Prop) (r : α → α → Prop) (s : List α) : Prop where
  nodup : s.Nodup
  nodes : ∀ a ∈ s, node a
  behind : ∀ pre a post, s = pre ++ a :: post → ∀ b, r a b → b ∈ pre

section Order

variable {node : α → Prop} {s : List α}

theorem ordered_nil : Ordered node r [] where
  nodup := List.nodup_nil
  nodes := by simp
  behind := by simp

/-- A node more, once its successors are there. -/
theorem Ordered.snoc {a : α} (h : Ordered node r s) (ha : a ∉ s) (hnode : node a)
    (hready : ∀ b, r a b → b ∈ s) : Ordered node r (s ++ [a]) where
  nodup := by
    rw [List.nodup_append]
    refine ⟨h.nodup, List.nodup_singleton a, ?_⟩
    intro b hb c hc heq
    rw [List.mem_singleton] at hc
    exact ha (hc ▸ heq ▸ hb)
  nodes := by
    intro b hb
    rcases List.mem_append.mp hb with hb | hb
    · exact h.nodes b hb
    · rw [List.mem_singleton.mp hb]
      exact hnode
  behind := by
    intro pre b post hs
    rcases List.eq_nil_or_concat post with rfl | ⟨post, last, rfl⟩
    · obtain ⟨rfl, hb⟩ := List.append_inj' hs rfl
      obtain rfl : a = b := List.singleton_inj.mp hb
      exact hready
    · rw [List.concat_eq_append, ← List.cons_append, ← List.append_assoc] at hs
      obtain ⟨rfl, -⟩ := List.append_inj' hs rfl
      exact h.behind pre b post rfl

/-- What can be reached from a node is in front of it. -/
theorem Ordered.reached {pre post : List α} {a b : α} (h : Ordered node r s)
    (hs : s = pre ++ a :: post) (hab : TransGen r a b) : b ∈ pre := by
  induction hab with
  | single hab => exact h.behind pre a post hs _ hab
  | @tail b c _ hbc ih =>
      obtain ⟨front, back, rfl⟩ := List.append_of_mem ih
      have hc := h.behind front b (back ++ a :: post) (by rw [hs]; simp) c hbc
      exact List.mem_append_left _ hc

/-- So a node that has been taken is on no cycle. -/
theorem Ordered.no_cycle {a : α} (h : Ordered node r s) (ha : a ∈ s) : ¬ TransGen r a a := by
  intro hcycle
  obtain ⟨pre, post, hs⟩ := List.append_of_mem ha
  have hnodup := h.nodup
  rw [hs, List.nodup_append] at hnodup
  exact hnodup.2.2 a (h.reached hs hcycle) a List.mem_cons_self rfl

/-- **Every node has been taken, if no other is ready and there is no cycle.** -/
theorem all_taken (hfinite : {a | node a}.Finite) (hclosed : ∀ a b, node a → r a b → node b)
    (hsettled : ∀ a, node a → (∀ b, r a b → b ∈ s) → a ∈ s)
    (hacyclic : ∀ a, node a → ¬ TransGen r a a) {a : α} (ha : node a) : a ∈ s := by
  have hreach : ∀ b, ReflTransGen r a b → node b := by
    intro b hab
    induction hab with
    | refl => exact ha
    | tail _ hbc ih => exact hclosed _ _ ih hbc
  exact acyclic_induction (hfinite.subset hreach) (fun b hb => hacyclic b (hreach b hb))
    fun b hb hsucc => hsettled b (hreach b hb) hsucc

end Order

end Graph

end Sweeps
