import Mathlib.Data.List.Basic

/-! # Blocks with a mark

    A text of words and braces is well nested, and a mark stands in front of the
    brace that opens a marked block.  A scanner that reads one token after the other
    keeps the depth of the braces and, for the marked blocks that are open, the depths they were
    opened at.  On a well nested text it is back where it was (`run_code`), and it
    has counted the words that are flagged and stand in a marked block. -/

namespace Blocks

/-- A token. -/
inductive Token (W : Type) where
  | word (w : W)
  | opening
  | closing
  deriving DecidableEq

section

variable {W : Type} (mark flagged : W)

/-- Well nested text, the mark standing in front of a block only. -/
inductive Code where
  | nil
  | word (w : W) (h : w ≠ mark) (rest : Code)
  | block (body rest : Code)
  | marked (body rest : Code)

variable {mark}

/-- The tokens of a text. -/
def Code.tokens : Code mark → List (Token W)
  | .nil => []
  | .word w _ rest => .word w :: rest.tokens
  | .block body rest => .opening :: (body.tokens ++ .closing :: rest.tokens)
  | .marked body rest => .word mark :: .opening :: (body.tokens ++ .closing :: rest.tokens)

/-- How deep marked blocks are nested. -/
def Code.nesting : Code mark → Nat
  | .nil => 0
  | .word _ _ rest => rest.nesting
  | .block body rest => max body.nesting rest.nesting
  | .marked body rest => max (body.nesting + 1) rest.nesting

variable [DecidableEq W]

/-- How many flagged words stand in a marked block, `inside` saying whether the
    text does. -/
def Code.flags : Bool → Code mark → Nat
  | _, .nil => 0
  | inside, .word w _ rest => (if inside = true ∧ w = flagged then 1 else 0) + rest.flags inside
  | inside, .block body rest => body.flags inside + rest.flags inside
  | inside, .marked body rest => body.flags true + rest.flags inside

variable (mark)

/-- What the scanner keeps: the depth, the depths of the marked blocks that are open, the last one
    first, whether a mark waits for its brace, and how many words were flagged. -/
structure Guard where
  depth : Nat
  depths : List Nat
  armed : Bool
  count : Nat
  deriving DecidableEq

/-- A marked block is opened, if there are not too many of them. -/
def Guard.openMarked (limit : Nat) (g : Guard) : Guard :=
  { g with
    depths := if g.depths.length ≥ limit then g.depths else g.depth :: g.depths
    armed := false }

/-- A token is read. -/
def Guard.act (limit : Nat) (g : Guard) : Token W → Guard
  | .word w =>
      { g with
        armed := g.armed || w = mark
        count := g.count + if w = flagged ∧ g.depths ≠ [] then 1 else 0 }
  | .opening =>
      let g := { g with depth := g.depth + 1 }
      if g.armed then g.openMarked limit else g
  | .closing =>
      { g with
        depths := if g.depths.head? = some g.depth then g.depths.tail else g.depths
        depth := g.depth - 1 }

/-- Tokens are read. -/
def Guard.run (limit : Nat) (g : Guard) (tokens : List (Token W)) : Guard :=
  tokens.foldl (Guard.act mark flagged limit) g

variable {mark flagged}

theorem Guard.run_cons (limit : Nat) (g : Guard) (t : Token W) (tokens : List (Token W)) :
    g.run mark flagged limit (t :: tokens) = (g.act mark flagged limit t).run mark flagged limit tokens := rfl

theorem Guard.run_append (limit : Nat) (g : Guard) (ts us : List (Token W)) :
    g.run mark flagged limit (ts ++ us) = (g.run mark flagged limit ts).run mark flagged limit us :=
  List.foldl_append

/-- **A well nested text leaves the scanner as it was**, but for the flagged words in
    marked blocks, which it has counted. -/
theorem run_code (hne : flagged ≠ mark) (limit : Nat) (code : Code mark) :
    ∀ g : Guard, g.armed = false → (∀ d ∈ g.depths, d ≤ g.depth) → g.depths.length + code.nesting ≤ limit →
      g.run mark flagged limit code.tokens
        = { g with count := g.count + code.flags flagged (!g.depths.isEmpty) } := by
  induction code with
  | nil => exact fun g _ _ _ => rfl
  | word w h rest ih =>
      rintro ⟨depth, depths, armed, count⟩ rfl hdepths hlimit
      have hstep : Guard.act mark flagged limit ⟨depth, depths, false, count⟩ (.word w)
          = ⟨depth, depths, false, count + if w = flagged ∧ depths ≠ [] then 1 else 0⟩ := by
        simp [Guard.act, h]
      have hrest := ih ⟨depth, depths, false, count + if w = flagged ∧ depths ≠ [] then 1 else 0⟩ rfl
        hdepths hlimit
      rw [Code.tokens, Guard.run_cons, hstep, hrest, Code.flags]
      cases depths <;> simp [Nat.add_assoc]
  | block body rest ihb ihr =>
      rintro ⟨depth, depths, armed, count⟩ rfl hdepths hlimit
      dsimp only at hdepths hlimit
      rw [Code.nesting] at hlimit
      have hbody := ihb ⟨depth + 1, depths, false, count⟩ rfl (fun d hd => Nat.le_succ_of_le (hdepths d hd))
        (by dsimp only; omega)
      -- no marked block was opened at this depth
      have hclose : ∀ n, Guard.act mark flagged limit ⟨depth + 1, depths, false, n⟩ .closing
          = ⟨depth, depths, false, n⟩ := by
        intro n
        have hhead : depths.head? ≠ some (depth + 1) := by
          intro hh
          have hle := hdepths _ (List.mem_of_head? hh)
          omega
        rw [Guard.act]
        dsimp only
        rw [if_neg hhead, Nat.add_sub_cancel]
      have hrest := ihr ⟨depth, depths, false, count + body.flags flagged (!depths.isEmpty)⟩ rfl hdepths
        (by dsimp only; omega)
      have hopen : Guard.act mark flagged limit ⟨depth, depths, false, count⟩ .opening
          = ⟨depth + 1, depths, false, count⟩ := rfl
      rw [Code.tokens, Guard.run_cons, hopen, Guard.run_append, hbody, Guard.run_cons, hclose, hrest,
        Code.flags, Nat.add_assoc]
  | marked body rest ihb ihr =>
      rintro ⟨depth, depths, armed, count⟩ rfl hdepths hlimit
      dsimp only at hdepths hlimit
      rw [Code.nesting] at hlimit
      have hmark : Guard.act mark flagged limit ⟨depth, depths, false, count⟩ (.word mark)
          = ⟨depth, depths, true, count⟩ := by
        simp [Guard.act, Ne.symm hne]
      have hopen : Guard.act mark flagged limit ⟨depth, depths, true, count⟩ .opening
          = ⟨depth + 1, (depth + 1) :: depths, false, count⟩ := by
        simp only [Guard.act, Guard.openMarked, if_true]
        rw [if_neg (by omega)]
      have hbody := ihb ⟨depth + 1, (depth + 1) :: depths, false, count⟩ rfl
        (List.forall_mem_cons.mpr ⟨Nat.le_refl _, fun d hd => Nat.le_succ_of_le (hdepths d hd)⟩)
        (by rw [List.length_cons]; omega)
      have hclose : ∀ n, Guard.act mark flagged limit ⟨depth + 1, (depth + 1) :: depths, false, n⟩ .closing
          = ⟨depth, depths, false, n⟩ := by
        intro n
        simp [Guard.act]
      have hrest := ihr ⟨depth, depths, false, count + body.flags flagged true⟩ rfl hdepths
        (by dsimp only; omega)
      have hinside : (!((depth + 1) :: depths).isEmpty) = true := rfl
      rw [Code.tokens, Guard.run_cons, hmark, Guard.run_cons, hopen, Guard.run_append, hbody, hinside,
        Guard.run_cons, hclose, hrest, Code.flags, Nat.add_assoc]

end

end Blocks
