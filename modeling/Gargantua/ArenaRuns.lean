import Gargantua.ArenaChunks
import Gargantua.Lib.Runs

/-! # The arena over whole runs

    Requests, resets and the writes of the client come in any order.  Beside the
    arena a state records what a client has been given (`live` since the last
    reset, `ever` since the start), and what became of the canaries since then.

    A client that writes only into its own regions has them to itself, within the
    limit of the arena, and a reset leaves nothing of them behind
    (`arena_sound`).  A client that writes anywhere is reported in the cycle it
    did so, if no chunk is used again whose canary it has damaged in an earlier
    one (`arena_honest`): the canary of a chunk is written when the chunk is made,
    and not when it is used again. -/

namespace ArenaRuns

open ArenaChunks
open Runs (Always EveryStep)
open CString (Byte)

/-- A region that `arena_alloc` returned: its chunk and offset, the size asked for,
    and what was set aside. -/
structure Region where
  chunk : Nat
  offset : Nat
  requested : Nat
  size : Nat
  deriving Repr, DecidableEq

/-- A byte of a region. -/
def Region.Has (r : Region) (chunk i : Nat) : Prop :=
  r.chunk = chunk ∧ r.offset ≤ i ∧ i < r.offset + r.size

instance (r : Region) (chunk i : Nat) : Decidable (r.Has chunk i) :=
  inferInstanceAs (Decidable (_ ∧ _))

/-- Two regions have no byte in common. -/
def Region.Apart (r r' : Region) : Prop := ∀ chunk i, r.Has chunk i → ¬ r'.Has chunk i

/-- A call, with what the system gives where `arena_alloc` asks for a chunk, or a
    write of the client, to a byte of a chunk. -/
inductive Event (abi : Abi) where
  | alloc (n : Fin (2 ^ abi.bits)) (got : Option (Nat → Byte))
  | write (chunk i : Nat) (b : Byte)
  | reset

/-- An arena, the regions that were returned since the last reset and since the
    start, the canaries as they stood at the last reset or when the chunk was made,
    the chunks of which a write changed the canary since, and whether one was put
    back. -/
structure Traced where
  arena : Arena
  live : List Region := []
  ever : List Region := []
  seen : Nat → List Byte := fun _ => CANARY
  changes : List Nat := []
  putBack : Bool := false

/-- A write to a byte of a chunk. -/
def store (id i : Nat) (b : Byte) (c : Chunk) : Chunk :=
  if c.id = id ∧ i < c.cap + ARENA_CANARY_SIZE then
    { c with data := fun j => if j = i then b else c.data j }
  else c

/-- The chunks with a canary that a write changes. -/
def changedBy (id i : Nat) (b : Byte) (a : Arena) : List Nat :=
  ((chunks a).filter fun c => canary (store id i b c) ≠ canary c).map (·.id)

/-- Whether a write gives a canary its bytes of before. -/
def putsBack (id i : Nat) (b : Byte) (s : Traced) : Bool :=
  (chunks s.arena).any fun c => canary c ≠ s.seen c.id ∧ canary (store id i b c) = s.seen c.id

/-- The canaries as they stand at a reset.  Only the spare lives on. -/
def canaryOf (spare : Option Chunk) (id : Nat) : List Byte :=
  match spare.filter (fun c => c.id = id) with
  | none => CANARY
  | some c => canary c

/-- A step.  A write to a byte that no chunk has changes nothing. -/
def step (abi : Abi) (s : Traced) : Event abi → Traced
  | .alloc n got =>
      match arenaAlloc abi s.arena n got with
      | (none, a) => { s with arena := a }
      | (some (id, offset), a) =>
          let r : Region := ⟨id, offset, n, roundUp abi n⟩
          { s with arena := a, live := r :: s.live, ever := r :: s.ever }
  | .write id i b =>
      { s with
        arena := { s.arena with
          head := s.arena.head.map (store id i b), spare := s.arena.spare.map (store id i b) }
        changes := changedBy id i b s.arena ++ s.changes
        putBack := s.putBack || putsBack id i b s }
  | .reset =>
      let a := (arenaReset s.arena).2
      { arena := a, live := [], ever := s.ever, seen := canaryOf a.spare, changes := [],
        putBack := false }

/-! ## What an arena has to do -/

/-- The regions of a client, at any time: of the size asked for, aligned, inside of a
    chunk and apart from each other; the total adds up and keeps to the limit, also
    where a request is refused; a reset keeps one chunk at most, a small one, and it
    is zero wherever it was ever handed out. -/
structure Sound (abi : Abi) (max : Nat) (s : Traced) : Prop where
  distinct : ((chunks s.arena).map (·.id)).Nodup
  size : ∀ r ∈ s.live, r.requested ≤ r.size
  aligned : ∀ r ∈ s.live, ARENA_ALIGN abi ∣ r.offset ∧ ARENA_ALIGN abi ∣ abi.header + r.offset
  inside : ∀ r ∈ s.live, ∃ c ∈ s.arena.head, c.id = r.chunk ∧ r.offset + r.size ≤ c.cap
  apart : s.live.Pairwise Region.Apart
  sum : s.arena.used = (s.arena.head.map (·.used)).sum
  bounded : s.arena.used ≤ max
  refused : ∀ (n : Fin (2 ^ abi.bits)) (got : Option (Nat → Byte)),
    (arenaAlloc abi s.arena n got).1 = none → (arenaAlloc abi s.arena n got).2.used = s.arena.used
  emptied : (arenaReset s.arena).2.head = [] ∧ (arenaReset s.arena).2.used = 0
  kept : ∀ c, (arenaReset s.arena).2.spare = some c → c.cap ≤ ARENA_KEEP_MAX
  zeroed : ∀ c, (arenaReset s.arena).2.spare = some c →
    ∀ r ∈ s.ever, ∀ i, r.Has c.id i → c.data i = 0

/-- A write goes to a region that was returned since the last reset. -/
def inside {abi : Abi} (s : Traced) : Event abi → Bool
  | .write id i _ => s.live.any fun r => r.Has id i
  | _ => true

/-- A reset, at any time, reports that the canary of a chunk in use is not what it
    was: the canary of such a chunk was changed by a write since the reset before,
    and unless one was put back, each such write is reported. -/
structure Honest (s : Traced) : Prop where
  reported : (arenaReset s.arena).1 = -1 ↔ ∃ c ∈ s.arena.head, canary c ≠ s.seen c.id
  guilty : (arenaReset s.arena).1 = -1 → ∃ c ∈ s.arena.head, c.id ∈ s.changes
  every : s.putBack = false →
    ((arenaReset s.arena).1 = -1 ↔ ∃ c ∈ s.arena.head, c.id ∈ s.changes)

/-- Whether a request takes the spare. -/
def takesSpare (abi : Abi) (a : Arena) (n : Nat) : Bool :=
  admits abi a n && (a.head.take 1).all (fun c => ¬ roundUp abi n ≤ c.cap - c.used)
    && a.spare.any fun c => roundUp abi n ≤ c.cap

/-- A spare is used again only if its canary was intact at the last reset. -/
def reusesIntact {abi : Abi} (s : Traced) : Event abi → Bool
  | .alloc n _ => !takesSpare abi s.arena n || s.arena.spare.all fun c => s.seen c.id = CANARY
  | _ => true

/-! ## Writes -/

@[simp] theorem store_id (id i : Nat) (b : Byte) (c : Chunk) : (store id i b c).id = c.id := by
  rw [store]
  split <;> rfl

@[simp] theorem store_cap (id i : Nat) (b : Byte) (c : Chunk) : (store id i b c).cap = c.cap := by
  rw [store]
  split <;> rfl

@[simp] theorem store_used (id i : Nat) (b : Byte) (c : Chunk) : (store id i b c).used = c.used := by
  rw [store]
  split <;> rfl

/-- A write changes the byte it goes to. -/
theorem store_data {id i j : Nat} {b : Byte} {c : Chunk} (h : c.id = id → j ≠ i) :
    (store id i b c).data j = c.data j := by
  rw [store]
  split
  · rename_i hc
    exact if_neg (h hc.1)
  · rfl

variable {abi : Abi}

section Write

variable (id i : Nat) (b : Byte)

/-- The arena behind a write. -/
def stored (a : Arena) : Arena :=
  { a with head := a.head.map (store id i b), spare := a.spare.map (store id i b) }

theorem chunks_stored (a : Arena) : chunks (stored id i b a) = (chunks a).map (store id i b) := by
  rw [chunks, chunks, List.map_append, stored]
  cases a.spare <;> rfl

/-- A write keeps the layout. -/
theorem layout_stored {a : Arena} (h : Layout abi a) : Layout abi (stored id i b a) := by
  have hids : (fun c : Chunk => c.id) ∘ store id i b = fun c => c.id :=
    funext fun c => store_id id i b c
  have hused : (fun c : Chunk => c.used) ∘ store id i b = fun c => c.used :=
    funext fun c => store_used id i b c
  refine ⟨?_, ?_, ?_, ?_, ?_, ?_, h.bounded⟩
  · rw [chunks_stored, List.map_map, hids]
    exact h.distinct
  · intro c hc
    rw [chunks_stored] at hc
    obtain ⟨d, hd, rfl⟩ := List.mem_map.mp hc
    rw [store_id]
    exact h.made d hd
  · intro c hc
    obtain ⟨d, hd, rfl⟩ := List.mem_map.mp hc
    rw [store_used, store_cap]
    exact h.within d hd
  · intro c hc
    obtain ⟨d, hd, rfl⟩ := List.mem_map.mp hc
    rw [store_used]
    exact h.aligned d hd
  · intro c hc
    obtain ⟨d, hd, rfl⟩ := Option.map_eq_some_iff.mp hc
    rw [store_used, store_cap]
    exact h.spare d hd
  · show a.used = ((a.head.map (store id i b)).map (·.used)).sum
    rw [List.map_map, hused]
    exact h.sum

end Write

/-- Every step keeps the layout. -/
theorem layout_step {s : Traced} (h : Layout abi s.arena) (e : Event abi) :
    Layout abi (step abi s e).arena := by
  cases e with
  | alloc n got =>
      rcases arenaAlloc_cases abi s.arena n got with ⟨refusals, hr⟩ | ⟨hadmits, a₀, c, rest, hs, hr⟩
      · rw [step, hr]
        exact ⟨h.distinct, h.made, h.within, h.aligned, h.spare, h.sum, h.bounded⟩
      · obtain ⟨-, hdvd, hmax⟩ := admits_spec hadmits
        rw [step, hr]
        exact h.take hs hdvd hmax
  | write id i b => exact layout_stored id i b h
  | reset => exact h.reset

/-! ## Regions -/

theorem Region.apart_of_chunk {r r' : Region} (h : r.chunk ≠ r'.chunk) : r.Apart r' := by
  rintro chunk i ⟨h1, -⟩ ⟨h2, -⟩
  exact h (h1.trans h2.symm)

theorem Region.apart_of_behind {r r' : Region} (h : r'.offset + r'.size ≤ r.offset) : r.Apart r' := by
  rintro chunk i ⟨-, h1, -⟩ ⟨-, -, h2⟩
  omega

/-- Where the regions are: each live one below what its chunk has used, apart from
    the others. -/
structure Regions (abi : Abi) (s : Traced) : Prop where
  size : ∀ r ∈ s.live, r.requested ≤ r.size ∧ ARENA_ALIGN abi ∣ r.offset
  placed : ∀ r ∈ s.live, ∃ c ∈ s.arena.head, c.id = r.chunk ∧ r.offset + r.size ≤ c.used
  apart : s.live.Pairwise Region.Apart
  made : ∀ r ∈ s.ever, r.chunk < s.arena.made

/-- A granted request adds a region behind the others of its chunk. -/
theorem Regions.take {s : Traced} {n want : Nat} {got : Option (Nat → Byte)} {a₀ : Arena} {c : Chunk}
    {rest : List Chunk} (h : Regions abi s) (hl : Layout abi s.arena)
    (hs : Source abi s.arena want got a₀ c rest) (hle : n ≤ want) :
    Regions abi { s with
      arena := (take a₀ c rest want).2
      live := ⟨c.id, c.used, n, want⟩ :: s.live
      ever := ⟨c.id, c.used, n, want⟩ :: s.ever } := by
  obtain ⟨-, haligned, -, -⟩ := hs.room hl
  -- a chunk in use stays in use, and uses no less
  have hkeeps : ∀ d ∈ s.arena.head, ∃ d' ∈ (ArenaChunks.take a₀ c rest want).2.head,
      d'.id = d.id ∧ d.used ≤ d'.used ∧ (d.id = c.id → d.used ≤ c.used) := by
    intro d hd
    cases hs with
    | head hhead _ =>
        rw [hhead] at hd
        rcases List.mem_cons.mp hd with rfl | hd
        · exact ⟨_, List.mem_cons_self, rfl, Nat.le_add_right _ _, fun _ => Nat.le_refl _⟩
        · refine ⟨d, List.mem_cons_of_mem _ hd, rfl, Nat.le_refl _, ?_⟩
          intro hid
          have hmem : c ∈ s.arena.head := by rw [hhead]; exact List.mem_cons_self
          have hmem' : d ∈ s.arena.head := by rw [hhead]; exact List.mem_cons_of_mem _ hd
          rw [hl.unique (mem_chunks_head hmem') (mem_chunks_head hmem) hid]
    | @spare e hspare _ _ =>
        refine ⟨d, List.mem_cons_of_mem _ hd, rfl, Nat.le_refl _, ?_⟩
        intro hid
        have heq := hl.unique (mem_chunks_head hd) (mem_chunks_spare hspare) hid
        rw [heq, (hl.spare e hspare).1]
    | made hnew =>
        refine ⟨d, List.mem_cons_of_mem _ hd, rfl, Nat.le_refl _, ?_⟩
        intro hid
        have hlt := hl.made d (mem_chunks_head hd)
        rw [hid, (chunkNew_some hnew).1] at hlt
        exact absurd hlt (Nat.lt_irrefl _)
  refine ⟨?_, ?_, ?_, ?_⟩
  · intro r hr
    rcases List.mem_cons.mp hr with rfl | hr
    · exact ⟨hle, haligned⟩
    · exact h.size r hr
  · intro r hr
    rcases List.mem_cons.mp hr with rfl | hr
    · exact ⟨_, List.mem_cons_self, rfl, Nat.le_refl _⟩
    · obtain ⟨d, hd, hid, hbelow⟩ := h.placed r hr
      obtain ⟨d', hd', hid', hused, -⟩ := hkeeps d hd
      exact ⟨d', hd', hid'.trans hid, hbelow.trans hused⟩
  · refine List.pairwise_cons.mpr ⟨?_, h.apart⟩
    intro r hr
    obtain ⟨d, hd, hid, hbelow⟩ := h.placed r hr
    by_cases hsame : r.chunk = c.id
    · obtain ⟨-, -, -, -, hle'⟩ := hkeeps d hd
      exact Region.apart_of_behind (hbelow.trans (hle' (hid.trans hsame)))
    · exact Region.apart_of_chunk (Ne.symm hsame)
  · have hmade := hs.made_lt hl
    intro r hr
    rcases List.mem_cons.mp hr with rfl | hr
    · exact hmade.1
    · exact Nat.lt_of_lt_of_le (h.made r hr) hmade.2

/-- Every step keeps the regions. -/
theorem regions_step {s : Traced} (h : Regions abi s) (hl : Layout abi s.arena) (e : Event abi) :
    Regions abi (step abi s e) := by
  cases e with
  | alloc n got =>
      rcases arenaAlloc_cases abi s.arena n got with ⟨refusals, hr⟩ | ⟨hadmits, a₀, c, rest, hs, hr⟩
      · rw [step, hr]
        exact ⟨h.size, h.placed, h.apart, h.made⟩
      · rw [step, hr]
        exact h.take hl hs (admits_spec hadmits).1
  | write id i b =>
      refine ⟨h.size, ?_, h.apart, h.made⟩
      intro r hr
      obtain ⟨c, hc, hid, hbelow⟩ := h.placed r hr
      exact ⟨store id i b c, List.mem_map_of_mem hc, by rw [store_id, hid], by rwa [store_used]⟩
  | reset =>
      refine ⟨?_, ?_, .nil, h.made⟩
      · intro r hr
        cases hr
      · intro r hr
        cases hr

/-! ## Nothing is left behind -/

/-- What is handed out and not in use is zero. -/
def Clean (s : Traced) : Prop :=
  ∀ c ∈ chunks s.arena, ∀ r ∈ s.ever, ∀ i, r.Has c.id i → c.used ≤ i → c.data i = 0

theorem Clean.take {s : Traced} {n want : Nat} {got : Option (Nat → Byte)} {a₀ : Arena} {c : Chunk}
    {rest : List Chunk} (h : Clean s) (hl : Layout abi s.arena)
    (hmade : ∀ r ∈ s.ever, r.chunk < s.arena.made)
    (hl' : Layout abi (take a₀ c rest want).2) (hs : Source abi s.arena want got a₀ c rest) :
    Clean { s with
      arena := (take a₀ c rest want).2
      live := ⟨c.id, c.used, n, want⟩ :: s.live
      ever := ⟨c.id, c.used, n, want⟩ :: s.ever } := by
  intro d hd r hr i hhas hused
  have htaken : { c with used := c.used + want } ∈ chunks (ArenaChunks.take a₀ c rest want).2 :=
    List.mem_cons_self
  rcases List.mem_cons.mp hr with rfl | hr
  · -- what is handed out now is in use
    obtain ⟨hid, -, hlt⟩ := hhas
    obtain rfl := hl'.unique hd htaken hid.symm
    exact absurd hused (Nat.not_le.mpr hlt)
  · rcases List.mem_cons.mp (show d ∈ _ :: (rest ++ a₀.spare.toList) from hd) with rfl | hd
    · rcases hs.origin hl with hmem | ⟨hid, -⟩
      · exact h c hmem r hr i hhas (Nat.le_trans (Nat.le_add_right _ _) hused)
      · have hlt := hmade r hr
        rw [hhas.1.trans hid] at hlt
        exact absurd hlt (Nat.lt_irrefl _)
    · exact h d (hs.others d hd) r hr i hhas hused

/-- The spare that a reset leaves is zero wherever it was handed out. -/
theorem Clean.reset {s : Traced} (h : Clean s) (hl : Layout abi s.arena) :
    ∀ c, (arenaReset s.arena).2.spare = some c → ∀ r ∈ s.ever, ∀ i, r.Has c.id i → c.data i = 0 := by
  intro c hc r hr i hhas
  rcases arenaReset_spare hc with hold | ⟨-, d, hd, -, rfl⟩
  · refine h c (mem_chunks_spare hold) r hr i hhas ?_
    rw [(hl.spare c hold).1]
    exact Nat.zero_le _
  · rw [kept_data]
    split
    · rfl
    · rename_i hbehind
      rw [kept_id] at hhas
      exact h d (mem_chunks_head hd) r hr i hhas (Nat.not_lt.mp hbehind)

/-- A write into a live region leaves the rest of its chunk. -/
theorem Clean.store {s : Traced} (h : Clean s) (hl : Layout abi s.arena) (hr : Regions abi s)
    {id i : Nat} (b : Byte) (hin : ∃ r ∈ s.live, r.Has id i) :
    Clean (step abi s (.write id i b)) := by
  intro d hd r hever j hhas hused
  obtain ⟨r', hr', hid, -, hlt⟩ := hin
  obtain ⟨c, hc, hcid, hbelow⟩ := hr.placed r' hr'
  obtain ⟨d, hold, rfl⟩ := List.mem_map.mp ((chunks_stored id i b s.arena) ▸ hd)
  rw [store_id] at hhas
  rw [store_used] at hused
  rw [store_data]
  · exact h d hold r hever j hhas hused
  · -- the byte written is one in use
    intro hdid
    obtain rfl := hl.unique hold (mem_chunks_head hc) (hdid.trans (hid.symm.trans hcid.symm))
    omega

theorem clean_step {s : Traced} (h : Clean s) (hl : Layout abi s.arena) (hr : Regions abi s)
    {e : Event abi} (hin : inside s e = true) : Clean (step abi s e) := by
  cases e with
  | alloc n got =>
      have hl' := layout_step hl (.alloc n got)
      rcases arenaAlloc_cases abi s.arena n got with ⟨refusals, hr'⟩ | ⟨-, a₀, c, rest, hs, hr'⟩
      · rw [step, hr']
        exact h
      · rw [step, hr'] at hl' ⊢
        exact h.take hl hr.made hl' hs
  | write id i b =>
      rw [inside, List.any_eq_true] at hin
      obtain ⟨r, hlive, hhas⟩ := hin
      exact h.store hl hr b ⟨r, hlive, of_decide_eq_true hhas⟩
  | reset =>
      intro c hc r hever i hhas _
      exact h.reset hl c (Option.mem_toList.mp hc) r hever i hhas

/-! ## Sound runs -/

/-- The limit is the one the arena was made with. -/
theorem max_step (s : Traced) (e : Event abi) : (step abi s e).arena.max = s.arena.max := by
  cases e with
  | alloc n got =>
      rcases arenaAlloc_cases abi s.arena n got with ⟨refusals, hr⟩ | ⟨-, a₀, c, rest, hs, hr⟩
      · rw [step, hr]
      · rw [step, hr]
        exact hs.frame.2.1
  | write id i b => rfl
  | reset => rfl

/-- What holds in every state of a run that keeps its writes inside. -/
structure Kept (abi : Abi) (max : Nat) (s : Traced) : Prop where
  layout : Layout abi s.arena
  regions : Regions abi s
  clean : Clean s
  max : s.arena.max = max

theorem kept_init {max : Nat} {a : Arena} (h : arenaInit max = some a) :
    Kept abi max { arena := a } := by
  have hl : Layout abi a := layout_init h
  refine ⟨hl, ⟨?_, ?_, .nil, ?_⟩, ?_, ?_⟩
  · intro r hr
    cases hr
  · intro r hr
    cases hr
  · intro r hr
    cases hr
  · intro c _ r hr
    cases hr
  · rw [arenaInit] at h
    split at h
    · cases h
    · obtain rfl := Option.some.inj h
      rfl

theorem kept_step {max : Nat} {s : Traced} {e : Event abi} (hin : inside s e = true)
    (h : Kept abi max s) : Kept abi max (step abi s e) where
  layout := layout_step h.layout e
  regions := regions_step h.regions h.layout e
  clean := clean_step h.clean h.layout h.regions hin
  max := (max_step s e).trans h.max

/-- What is kept says that the arena is sound. -/
theorem Kept.sound {max : Nat} {s : Traced} (h : Kept abi max s) : Sound abi max s where
  distinct := h.layout.distinct
  size := fun r hr => (h.regions.size r hr).1
  aligned := by
    intro r hr
    have hdvd := (h.regions.size r hr).2
    refine ⟨hdvd, (Nat.dvd_add_right ?_).mpr hdvd⟩
    rw [align_pow]
    exact abi.header_align
  inside := by
    intro r hr
    obtain ⟨c, hc, hid, hbelow⟩ := h.regions.placed r hr
    exact ⟨c, hc, hid, hbelow.trans (h.layout.within c hc)⟩
  apart := h.regions.apart
  sum := h.layout.sum
  bounded := h.max ▸ h.layout.bounded
  refused := by
    intro n got hnone
    rcases arenaAlloc_cases abi s.arena n got with ⟨refusals, hr⟩ | ⟨-, a₀, c, rest, -, hr⟩
    · rw [hr]
    · rw [hr] at hnone
      cases hnone
  emptied := ⟨rfl, rfl⟩
  kept := fun c hc => (h.layout.reset.spare c hc).2
  zeroed := h.clean.reset h.layout

/-- **An arena is sound** in every state of every run from `arena_init`, whatever is
    asked for and whatever the system gives, if the client writes into its regions. -/
theorem arena_sound (abi : Abi) {max : Fin (2 ^ abi.bits)} {a : Arena}
    (hinit : arenaInit max = some a) {events : List (Event abi)}
    (hinside : EveryStep (step abi) (fun s e => inside s e = true) { arena := a } events) :
    Always (step abi) (Sound abi max) { arena := a } events :=
  (Runs.always_of_everyStep (fun _ _ => kept_step) (kept_init hinit) hinside).imp
    fun _ h => h.sound

/-- A request, a write into it and a reset, and a request that is given the spare. -/
def smallRun : List (Event lp64) :=
  [.alloc ⟨100, by decide⟩ (some fun _ => 7), .write 0 99 1, .reset, .alloc ⟨5, by decide⟩ none]

theorem arena_sound_small :
    ∃ a, arenaInit 4096 = some a
      ∧ Always (step lp64) (Sound lp64 4096) { arena := a } smallRun :=
  ⟨_, rfl, @arena_sound lp64 ⟨4096, by decide⟩ _ rfl smallRun (by decide)⟩

/-! ## Canaries -/

/-- What holds of the canaries in every state: what is not as it was, was changed by a
    write, and if none was put back the other way round.  A chunk in use had an
    intact one at the last reset. -/
structure Canaries (s : Traced) : Prop where
  intact : ∀ c ∈ s.arena.head, s.seen c.id = CANARY
  fresh : ∀ id, s.arena.made ≤ id → s.seen id = CANARY
  changed : ∀ c ∈ chunks s.arena, canary c ≠ s.seen c.id → c.id ∈ s.changes
  stays : s.putBack = false → ∀ c ∈ chunks s.arena, c.id ∈ s.changes → canary c ≠ s.seen c.id
  made : ∀ id ∈ s.changes, id < s.arena.made

/-- The request is one that takes the spare. -/
theorem takesSpare_spare {a : Arena} {n : Nat} {c : Chunk} (hadmits : admits abi a n = true)
    (hspare : a.spare = some c) (hroom : roundUp abi n ≤ c.cap)
    (hfull : ∀ d rest, a.head = d :: rest → ¬ roundUp abi n ≤ d.cap - d.used) :
    takesSpare abi a n = true := by
  rw [takesSpare, hadmits, hspare, Bool.true_and, Bool.and_eq_true]
  refine ⟨?_, by simpa using hroom⟩
  cases hhead : a.head with
  | nil => rfl
  | cons d rest => simpa using hfull d rest hhead

theorem Canaries.take {s : Traced} {n : Nat} {got : Option (Nat → Byte)} {a₀ : Arena} {c : Chunk}
    {rest : List Chunk} {live ever : List Region} (h : Canaries s) (hl : Layout abi s.arena)
    (hadmits : admits abi s.arena n = true)
    (hs : Source abi s.arena (roundUp abi n) got a₀ c rest)
    (hreuse : takesSpare abi s.arena n = true → ∀ d, s.arena.spare = some d → s.seen d.id = CANARY) :
    Canaries { s with arena := (take a₀ c rest (roundUp abi n)).2, live := live, ever := ever } := by
  have hmade := (hs.made_lt hl).2
  -- the chunk that is taken from has the canary it had, or is new
  have hnew : c.id = s.arena.made → canary c = CANARY →
      canary c = s.seen c.id ∧ c.id ∉ s.changes := by
    intro hid hcanary
    refine ⟨by rw [hid, h.fresh _ (Nat.le_refl _), hcanary], ?_⟩
    intro hmem
    exact absurd (h.made _ hmem) (by omega)
  refine ⟨?_, ?_, ?_, ?_, ?_⟩
  · intro d hd
    rcases List.mem_cons.mp hd with rfl | hd
    · show s.seen c.id = CANARY
      cases hs with
      | head hhead _ => exact h.intact c (by rw [hhead]; exact List.mem_cons_self)
      | @spare e hspare hroom hfull =>
          exact hreuse (takesSpare_spare hadmits hspare hroom hfull) e hspare
      | made hn => exact h.fresh _ (Nat.le_of_eq (chunkNew_some hn).1.symm)
    · exact h.intact d ((hs.room hl).2.2.1 d hd)
  · exact fun id hid => h.fresh id (hmade.trans hid)
  · intro d hd hne
    rcases List.mem_cons.mp (show d ∈ _ :: (rest ++ a₀.spare.toList) from hd) with rfl | hd
    · rcases hs.origin hl with hmem | ⟨hid, hcanary⟩
      · exact h.changed c hmem hne
      · exact absurd (hnew hid hcanary).1 hne
    · exact h.changed d (hs.others d hd) hne
  · intro hput d hd hmem
    rcases List.mem_cons.mp (show d ∈ _ :: (rest ++ a₀.spare.toList) from hd) with rfl | hd
    · rcases hs.origin hl with hold | ⟨hid, hcanary⟩
      · exact h.stays hput c hold hmem
      · exact absurd hmem (hnew hid hcanary).2
    · exact h.stays hput d (hs.others d hd) hmem
  · exact fun id hid => Nat.lt_of_lt_of_le (h.made id hid) hmade

theorem Canaries.store {s : Traced} (h : Canaries s) (hl : Layout abi s.arena) (id i : Nat)
    (b : Byte) : Canaries (step abi s (.write id i b)) := by
  have hmem : ∀ c ∈ chunks (step abi s (.write id i b)).arena,
      ∃ d ∈ chunks s.arena, c = ArenaRuns.store id i b d := by
    intro c hc
    obtain ⟨d, hd, rfl⟩ := List.mem_map.mp ((chunks_stored id i b s.arena) ▸ hc)
    exact ⟨d, hd, rfl⟩
  -- a canary that the write changes is counted
  have hcounted : ∀ d ∈ chunks s.arena, canary (ArenaRuns.store id i b d) ≠ canary d →
      d.id ∈ changedBy id i b s.arena := by
    intro d hd hne
    exact List.mem_map_of_mem (List.mem_filter.mpr ⟨hd, by simpa using hne⟩)
  refine ⟨?_, h.fresh, ?_, ?_, ?_⟩
  · intro c hc
    obtain ⟨d, hd, rfl⟩ := List.mem_map.mp hc
    rw [store_id]
    exact h.intact d hd
  · intro c hc hne
    obtain ⟨d, hd, rfl⟩ := hmem c hc
    rw [store_id] at hne ⊢
    by_cases hsame : canary (ArenaRuns.store id i b d) = canary d
    · rw [hsame] at hne
      exact List.mem_append_right _ (h.changed d hd hne)
    · exact List.mem_append_left _ (hcounted d hd hsame)
  · intro hput c hc hin heq
    obtain ⟨d, hd, rfl⟩ := hmem c hc
    rw [store_id] at hin heq
    obtain ⟨hput, hback⟩ := Bool.or_eq_false_iff.mp hput
    -- before the write the canary was as it was seen, or the write puts it back
    have hbefore : canary d = s.seen d.id := by
      by_contra hne
      rw [putsBack, List.any_eq_false] at hback
      exact hback d hd (by simpa using ⟨hne, heq⟩)
    rcases List.mem_append.mp hin with hin | hin
    · obtain ⟨d', hd', hid⟩ := List.mem_map.mp hin
      obtain ⟨hd', hne⟩ := List.mem_filter.mp hd'
      obtain rfl := hl.unique hd' hd hid
      simp only [ne_eq, decide_not, Bool.not_eq_true', decide_eq_false_iff_not] at hne
      exact hne (heq.trans hbefore.symm)
    · exact h.stays hput d hd hin hbefore
  · intro k hk
    rcases List.mem_append.mp hk with hk | hk
    · obtain ⟨d, hd, rfl⟩ := List.mem_map.mp hk
      exact hl.made d (List.mem_filter.mp hd).1
    · exact h.made k hk

theorem canaryOf_spare {c : Chunk} : canaryOf (some c) c.id = canary c := by
  rw [canaryOf, Option.filter_some, if_pos (by simp)]

theorem Canaries.reset {s : Traced} (hl : Layout abi s.arena) :
    Canaries (step abi s .reset) := by
  have hl' := hl.reset
  have hself : ∀ c ∈ chunks (arenaReset s.arena).2,
      canary c = canaryOf (arenaReset s.arena).2.spare c.id := by
    intro c hc
    have hspare : (arenaReset s.arena).2.spare = some c := Option.mem_toList.mp hc
    rw [hspare, canaryOf_spare]
  refine ⟨?_, ?_, ?_, ?_, ?_⟩
  · intro c hc
    cases hc
  · intro id hid
    show canaryOf (arenaReset s.arena).2.spare id = CANARY
    rw [canaryOf]
    split
    · rfl
    · rename_i c hc
      rw [Option.filter_eq_some_iff, decide_eq_true_eq] at hc
      obtain ⟨hspare, rfl⟩ := hc
      exact absurd (hl'.made c (mem_chunks_spare hspare)) (Nat.not_lt.mpr hid)
  · exact fun c hc hne => absurd (hself c hc) hne
  · intro _ c _ hmem
    cases hmem
  · intro id hid
    cases hid

theorem canaries_step {s : Traced} (h : Canaries s) (hl : Layout abi s.arena) {e : Event abi}
    (hreuse : reusesIntact s e = true) : Canaries (step abi s e) := by
  cases e with
  | alloc n got =>
      rcases arenaAlloc_cases abi s.arena n got with ⟨refusals, hr⟩ | ⟨hadmits, a₀, c, rest, hs, hr⟩
      · rw [step, hr]
        exact ⟨h.intact, h.fresh, h.changed, h.stays, h.made⟩
      · rw [step, hr]
        refine h.take hl hadmits hs fun htakes d hd => ?_
        rw [reusesIntact, htakes, hd] at hreuse
        simpa using hreuse
  | write id i b => exact h.store hl id i b
  | reset => exact Canaries.reset hl

/-- The reports of a reset are honest where the canaries are as they should be. -/
theorem Canaries.honest {s : Traced} (h : Canaries s) : Honest s := by
  have hreported : (arenaReset s.arena).1 = -1 ↔ ∃ c ∈ s.arena.head, canary c ≠ s.seen c.id := by
    rw [arenaReset_reports]
    constructor
    · rintro ⟨c, hc, hne⟩
      exact ⟨c, hc, by rwa [h.intact c hc]⟩
    · rintro ⟨c, hc, hne⟩
      exact ⟨c, hc, by rwa [h.intact c hc] at hne⟩
  have hguilty : (arenaReset s.arena).1 = -1 → ∃ c ∈ s.arena.head, c.id ∈ s.changes := by
    intro hbad
    obtain ⟨c, hc, hne⟩ := hreported.mp hbad
    exact ⟨c, hc, h.changed c (mem_chunks_head hc) hne⟩
  refine ⟨hreported, hguilty, fun hput => ⟨hguilty, ?_⟩⟩
  rintro ⟨c, hc, hmem⟩
  exact hreported.mpr ⟨c, hc, h.stays hput c (mem_chunks_head hc) hmem⟩

theorem canaries_init {a : Arena} (h : a.head = []) (hspare : a.spare = none) :
    Canaries { arena := a } := by
  have hnone : chunks a = [] := by rw [chunks, h, hspare]; rfl
  refine ⟨fun _ _ => rfl, fun _ _ => rfl, ?_, ?_, ?_⟩
  · intro c hc
    rw [hnone] at hc
    cases hc
  · intro _ c hc
    rw [hnone] at hc
    cases hc
  · intro id hid
    cases hid

/-- **Every reset is honest**, in every run in which no spare is used again whose
    canary was damaged at the last reset, wherever the client writes. -/
theorem arena_honest (abi : Abi) {max : Fin (2 ^ abi.bits)} {a : Arena}
    (hinit : arenaInit max = some a) {events : List (Event abi)}
    (hreuse : EveryStep (step abi) (fun s e => reusesIntact s e = true) { arena := a } events) :
    Always (step abi) Honest { arena := a } events := by
  have hempty : a.head = [] ∧ a.spare = none := by
    rw [arenaInit] at hinit
    split at hinit
    · cases hinit
    · obtain rfl := Option.some.inj hinit
      exact ⟨rfl, rfl⟩
  have hall := Runs.always_of_everyStep
    (P := fun s => Layout abi s.arena ∧ Canaries s)
    (fun s e hq hs => ⟨layout_step hs.1 e, canaries_step hs.2 hs.1 hq⟩)
    ⟨layout_init hinit, canaries_init hempty.1 hempty.2⟩ hreuse
  exact hall.imp fun _ h => h.2.honest

theorem arena_honest_small :
    ∃ a, arenaInit 4096 = some a ∧ Always (step lp64) Honest { arena := a } smallRun :=
  ⟨_, rfl, @arena_honest lp64 ⟨4096, by decide⟩ _ rfl smallRun (by decide)⟩

/-- A request that takes the spare. -/
theorem arenaAlloc_spare {a : Arena} {n : Nat} {c : Chunk} (got : Option (Nat → Byte))
    (htakes : takesSpare abi a n = true) (hspare : a.spare = some c) :
    arenaAlloc abi a n got
      = take { a with spare := none } { c with used := 0 } a.head (roundUp abi n) := by
  rw [takesSpare, Bool.and_eq_true, Bool.and_eq_true, hspare] at htakes
  obtain ⟨⟨hadmits, hfull⟩, hroom⟩ := htakes
  rw [admits, decide_eq_true_eq] at hadmits
  obtain ⟨hzero, hmax, hsize, hleft⟩ := hadmits
  have hcovered : allocCovered abi a (roundUp abi n) got
      = take { a with spare := none } { c with used := 0 } a.head (roundUp abi n) := by
    rw [allocCovered, hspare, Option.filter_some, if_pos (by simpa using hroom)]
  rw [arenaAlloc, if_neg (not_or.mpr ⟨hzero, hmax⟩), if_neg (Nat.not_lt.mpr hsize)]
  dsimp only
  rw [if_neg (Nat.not_lt.mpr hleft)]
  split
  · exact hcovered
  · rename_i d rest hhead
    rw [hhead] at hfull
    rw [if_neg (by simpa using hfull), hcovered]

/-- Where a cycle begins with a damaged spare and takes it, the reset is not honest. -/
theorem reuse_dishonest {s : Traced} {n : Fin (2 ^ abi.bits)} {c : Chunk} (got : Option (Nat → Byte))
    (hchanges : s.changes = []) (htakes : takesSpare abi s.arena n = true)
    (hspare : s.arena.spare = some c) (hdamaged : canary c ≠ CANARY) :
    ¬ Honest (step abi s (.alloc n got)) := by
  intro h
  have hrun := arenaAlloc_spare got htakes hspare
  rw [step, hrun] at h
  obtain ⟨d, -, hmem⟩ := h.guilty
    ((arenaReset_reports _).mpr ⟨{ c with used := 0 + roundUp abi n }, List.mem_cons_self, hdamaged⟩)
  rw [show _ = s.changes from rfl, hchanges] at hmem
  cases hmem

/-- A chunk is damaged, reported and used again. -/
def damagedRun : List (Event lp64) :=
  [.alloc ⟨100, by decide⟩ (some fun _ => 0), .write 0 4096 1, .reset, .alloc ⟨5, by decide⟩ none]

/-- No canary is touched in the second cycle, and a reset reports it. -/
theorem damage_reported_again :
    ∃ a, arenaInit 4096 = some a
      ∧ (arenaReset (Runs.after (step lp64) { arena := a } damagedRun).arena).1 = -1
      ∧ (Runs.after (step lp64) { arena := a } damagedRun).changes = []
      ∧ ¬ Always (step lp64) Honest { arena := a } damagedRun := by
  refine ⟨_, rfl, by decide, by decide, ?_⟩
  intro h
  obtain ⟨-, -, -, -, hlast⟩ := h
  obtain ⟨c, -, hmem⟩ := hlast.guilty (by decide)
  cases hmem

end ArenaRuns
