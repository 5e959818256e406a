import Mathlib.Data.List.Nodup
import Gargantua.Lib.CString
import Gargantua.Lib.Mask

/-! # The arena (`src/core/arena.c`)

    A request allocates from chunks that all go with it.  An allocation is a
    step of the `used` counter of the first chunk; a chunk that does not have the
    room is covered by another one, of twice the least size or more.  When the
    arena is reset the chunks are zeroed as far as they were used and released,
    but a small one is kept for the next request.  Behind its bytes each chunk
    has a canary, and a reset tells whether all of those in use are intact.

    A chunk is known by a number of its own, which stands for the address the
    system gave it, and its bytes are a function of the offset from `base`. -/

namespace ArenaChunks

open CString

/-- `ARENA_CANARY_SIZE`, `ARENA_MIN_SIZE`, `ARENA_KEEP_MAX` and `ARENA_MMAP_MIN`. -/
abbrev ARENA_CANARY_SIZE : Nat := 16
abbrev ARENA_MIN_SIZE : Nat := 4096
abbrev ARENA_KEEP_MAX : Nat := 64 * 1024
abbrev ARENA_MMAP_MIN : Nat := 256 * 1024

/-- The sizes the compiler gives: `size_t` in bits, `long double`, `void *` and
    `ArenaChunk` in bytes.  The larger of the two in the middle is a power of two. -/
structure Abi where
  bits : Nat
  longDouble : Nat
  pointer : Nat
  header : Nat
  alignLog : Nat
  align_eq : (if longDouble > pointer then longDouble else pointer) = 2 ^ alignLog
  align_le : alignLog ≤ bits
  header_align : 2 ^ alignLog ∣ header
  header_lt : header + ARENA_CANARY_SIZE < 2 ^ bits

/-- 64-bit Linux. -/
def lp64 : Abi where
  bits := 64
  longDouble := 16
  pointer := 8
  header := 48
  alignLog := 4
  align_eq := by decide
  align_le := by decide
  header_align := by decide
  header_lt := by decide

/-- `ARENA_ALIGN`. -/
def ARENA_ALIGN (abi : Abi) : Nat :=
  if abi.longDouble > abi.pointer then abi.longDouble else abi.pointer

/-- `SIZE_MAX`. -/
def SIZE_MAX (abi : Abi) : Nat := 2 ^ abi.bits - 1

/-- `CANARY`. -/
def CANARY : List Byte :=
  [0xA5, 0x5A, 0xC3, 0x3C, 0xA5, 0x5A, 0xC3, 0x3C, 0xA5, 0x5A, 0xC3, 0x3C, 0xA5, 0x5A, 0xC3, 0x3C]

/-- `ArenaChunk`, with its number and the bytes from `base` on. -/
structure Chunk where
  id : Nat
  cap : Nat
  used : Nat
  bytes : Nat
  mapped : Bool
  data : Nat → Byte

/-- `Arena`, with the number of chunks made so far. -/
structure Arena where
  head : List Chunk
  spare : Option Chunk
  used : Nat
  max : Nat
  peak : Nat
  refusals : Nat
  made : Nat

/-! ## Chunks -/

/-- The bytes behind the capacity. -/
def canary (c : Chunk) : List Byte :=
  (List.range ARENA_CANARY_SIZE).map fun i => c.data (c.cap + i)

/-- `chunk_ok`. -/
def chunkOk (c : Chunk) : Bool := canary c = CANARY

/-- `memcpy(base + cap, CANARY, ARENA_CANARY_SIZE)`. -/
def putCanary (cap : Nat) (data : Nat → Byte) (i : Nat) : Byte :=
  if cap ≤ i ∧ i < cap + ARENA_CANARY_SIZE then CANARY.getD (i - cap) 0 else data i

/-- `chunk_new`.  What the system gives, by `mmap` from `ARENA_MMAP_MIN` bytes on
    and by `malloc` below, is `got`. -/
def chunkNew (abi : Abi) (id cap : Nat) (got : Option (Nat → Byte)) : Option Chunk :=
  let total := (abi.header + cap + ARENA_CANARY_SIZE) % 2 ^ abi.bits
  if total < cap then none
  else
    got.map fun data =>
      { id := id, cap := cap, used := 0, bytes := total, mapped := total ≥ ARENA_MMAP_MIN,
        data := putCanary cap data }

/-- `secure_zero(c->base, c->used)`. -/
def secureZero (c : Chunk) : Chunk :=
  { c with data := fun i => if i < c.used then 0 else c.data i }

/-! ## The operations -/

/-- `arena_init`, for a struct: `none` where it returns `-1`. -/
def arenaInit (max : Nat) : Option Arena :=
  if max < ARENA_MIN_SIZE then none
  else some { head := [], spare := none, used := 0, max := max, peak := 0, refusals := 0, made := 0 }

/-- A request rounded up: `(n + (align - 1)) & ~(align - 1)`. -/
def roundUp (abi : Abi) (n : Nat) : Nat :=
  (n + (ARENA_ALIGN abi - 1)) &&& (2 ^ abi.bits - ARENA_ALIGN abi)

/-- The loop that finds a capacity, with rounds enough for any `want`. -/
def growLoop (max want : Nat) : Nat → Nat → Nat
  | 0, cap => cap
  | guard + 1, cap =>
      if cap < want then
        -- no overflow, the double is at most `max`
        if cap > max / 2 then want else growLoop max want guard (cap * 2)
      else cap

/-- The capacity of a chunk for a request. -/
def chunkCap (max want : Nat) : Nat :=
  let cap := growLoop max want want ARENA_MIN_SIZE
  if cap < want then want else cap

/-- What `arena_alloc` does with the chunk it allocates from. -/
def take (a : Arena) (c : Chunk) (rest : List Chunk) (want : Nat) : Option (Nat × Nat) × Arena :=
  let used := a.used + want
  (some (c.id, c.used),
    { a with
      head := { c with used := c.used + want } :: rest
      used := used
      peak := if used > a.peak then used else a.peak })

/-- A request that is counted and refused. -/
def refuse (a : Arena) : Option (Nat × Nat) × Arena := (none, { a with refusals := a.refusals + 1 })

/-- Behind the first chunk: the spare, or a new one. -/
def allocCovered (abi : Abi) (a : Arena) (want : Nat) (got : Option (Nat → Byte)) :
    Option (Nat × Nat) × Arena :=
  match a.spare.filter (fun c => c.cap ≥ want) with
  | some c => take { a with spare := none } { c with used := 0 } a.head want
  | none =>
      match chunkNew abi a.made (chunkCap a.max want) got with
      | none => refuse a
      | some c => take { a with made := a.made + 1 } c a.head want

/-- `arena_alloc`: the chunk and the offset of the result, `none` for `NULL`. -/
def arenaAlloc (abi : Abi) (a : Arena) (n : Nat) (got : Option (Nat → Byte)) :
    Option (Nat × Nat) × Arena :=
  if n = 0 ∨ a.max = 0 then (none, a)
  else if n > SIZE_MAX abi - (ARENA_ALIGN abi - 1) then refuse a
  else
    let want := roundUp abi n
    if want > a.max - a.used then refuse a
    else
      match a.head with
      | [] => allocCovered abi a want got
      | c :: rest =>
          if want ≤ c.cap - c.used then take a c rest want
          else allocCovered abi a want got

/-- The loop of `arena_reset`: the spare and `intact` behind the chunks. -/
def resetLoop : List Chunk → Option Chunk → Bool → Option Chunk × Bool
  | [], spare, intact => (spare, intact)
  | c :: rest, spare, intact =>
      let intact := intact && chunkOk c
      let c := if c.used > 0 then secureZero c else c
      if spare.isNone ∧ c.cap ≤ ARENA_KEEP_MAX then
        resetLoop rest (some { c with used := 0 }) intact
      else resetLoop rest spare intact

/-- `arena_reset`. -/
def arenaReset (a : Arena) : Int × Arena :=
  let r := resetLoop a.head a.spare true
  (if r.2 then 0 else -1, { a with head := [], spare := r.1, used := 0 })

/-! ## Rounding -/

variable {abi : Abi}

theorem align_pow (abi : Abi) : ARENA_ALIGN abi = 2 ^ abi.alignLog := abi.align_eq

theorem align_pos (abi : Abi) : 0 < ARENA_ALIGN abi := by
  rw [align_pow]
  exact Nat.two_pow_pos _

theorem roundUp_eq {n : Nat} (h : n ≤ SIZE_MAX abi - (ARENA_ALIGN abi - 1)) :
    roundUp abi n = (n + (ARENA_ALIGN abi - 1)) / ARENA_ALIGN abi * ARENA_ALIGN abi := by
  have hpos := align_pos abi
  have hle : ARENA_ALIGN abi ≤ 2 ^ abi.bits := by
    rw [align_pow]
    exact Nat.pow_le_pow_right (by decide) abi.align_le
  rw [SIZE_MAX] at h
  rw [roundUp]
  have hlt : n + (ARENA_ALIGN abi - 1) < 2 ^ abi.bits := by omega
  rw [align_pow] at hlt ⊢
  exact Mask.and_mask abi.align_le hlt

/-- A request is rounded up to a multiple of the alignment. -/
theorem roundUp_spec {n : Nat} (h : n ≤ SIZE_MAX abi - (ARENA_ALIGN abi - 1)) :
    n ≤ roundUp abi n ∧ ARENA_ALIGN abi ∣ roundUp abi n := by
  rw [roundUp_eq h]
  refine ⟨?_, Nat.dvd_mul_left _ _⟩
  have hpos := align_pos abi
  have hdiv := Nat.div_add_mod (n + (ARENA_ALIGN abi - 1)) (ARENA_ALIGN abi)
  have hmod := Nat.mod_lt (n + (ARENA_ALIGN abi - 1)) hpos
  rw [Nat.mul_comm] at hdiv
  omega

/-- The guard of the loop is not met. -/
theorem growLoop_ge {max want : Nat} : ∀ {guard cap : Nat}, 0 < cap → want ≤ cap + guard →
    want ≤ growLoop max want guard cap := by
  intro guard
  induction guard with
  | zero => exact fun _ h => h
  | succ guard ih =>
      intro cap hpos h
      rw [growLoop]
      split
      · split
        · exact Nat.le_refl _
        · exact ih (by omega) (by omega)
      · omega

theorem chunkCap_ge (max want : Nat) : want ≤ chunkCap max want := by
  rw [chunkCap]
  split
  · exact Nat.le_refl _
  · omega

/-! ## What the operations can do -/

/-- A chunk that the system gave. -/
theorem chunkNew_some {id cap : Nat} {got : Option (Nat → Byte)} {c : Chunk}
    (h : chunkNew abi id cap got = some c) :
    c.id = id ∧ c.cap = cap ∧ c.used = 0 ∧ c.bytes = abi.header + cap + ARENA_CANARY_SIZE
      ∧ canary c = CANARY := by
  rw [chunkNew] at h
  split at h
  · cases h
  rename_i hfits
  obtain ⟨data, -, rfl⟩ := Option.map_eq_some_iff.mp h
  refine ⟨rfl, rfl, rfl, ?_, ?_⟩
  · have hheader := abi.header_lt
    by_cases hlt : abi.header + cap + ARENA_CANARY_SIZE < 2 ^ abi.bits
    · exact Nat.mod_eq_of_lt hlt
    · -- a sum that wrapped is below the capacity
      have hmod : (abi.header + cap + ARENA_CANARY_SIZE) % 2 ^ abi.bits
          ≤ abi.header + cap + ARENA_CANARY_SIZE - 2 ^ abi.bits := by
        rw [Nat.mod_eq_sub_mod (Nat.not_lt.mp hlt)]
        exact Nat.mod_le _ _
      omega
  · rw [canary]
    refine List.ext_getElem (by simp [CANARY]) ?_
    intro i h1 h2
    have hi : i < ARENA_CANARY_SIZE := by simpa using h1
    rw [List.getElem_map, List.getElem_range]
    show putCanary cap data (cap + i) = _
    rw [putCanary, if_pos ⟨Nat.le_add_right _ _, Nat.add_lt_add_left hi _⟩, Nat.add_sub_cancel_left,
      List.getD_eq_getElem _ _ h2]

/-- Where `arena_alloc` finds the room for `want` bytes: the arena, the chunk and
    the other chunks in use that it goes on with. -/
inductive Source (abi : Abi) (a : Arena) (want : Nat) (got : Option (Nat → Byte)) :
    Arena → Chunk → List Chunk → Prop
  | head {c : Chunk} {rest : List Chunk} (hhead : a.head = c :: rest)
      (hroom : want ≤ c.cap - c.used) : Source abi a want got a c rest
  | spare {c : Chunk} (hspare : a.spare = some c) (hroom : want ≤ c.cap)
      (hfull : ∀ d rest, a.head = d :: rest → ¬ want ≤ d.cap - d.used) :
      Source abi a want got { a with spare := none } { c with used := 0 } a.head
  | made {c : Chunk} (hnew : chunkNew abi a.made (chunkCap a.max want) got = some c) :
      Source abi a want got { a with made := a.made + 1 } c a.head

/-- The tests in front of the chunks. -/
def admits (abi : Abi) (a : Arena) (n : Nat) : Bool :=
  n ≠ 0 ∧ a.max ≠ 0 ∧ n ≤ SIZE_MAX abi - (ARENA_ALIGN abi - 1) ∧ roundUp abi n ≤ a.max - a.used

theorem admits_spec {a : Arena} {n : Nat} (h : admits abi a n = true) :
    n ≤ roundUp abi n ∧ ARENA_ALIGN abi ∣ roundUp abi n ∧ roundUp abi n ≤ a.max - a.used := by
  rw [admits, decide_eq_true_eq] at h
  obtain ⟨-, -, hsize, hmax⟩ := h
  obtain ⟨hle, hdvd⟩ := roundUp_spec hsize
  exact ⟨hle, hdvd, hmax⟩

/-- A request that is refused changes no more than the count of the refusals. -/
def Refused (a : Arena) (r : Option (Nat × Nat) × Arena) : Prop :=
  ∃ refusals, r = (none, { a with refusals := refusals })

/-- A request that is granted takes what it needs from a chunk that has it. -/
def Granted (abi : Abi) (a : Arena) (want : Nat) (got : Option (Nat → Byte))
    (r : Option (Nat × Nat) × Arena) : Prop :=
  ∃ a₀ c rest, Source abi a want got a₀ c rest ∧ r = take a₀ c rest want

theorem allocCovered_cases {a : Arena} {want : Nat} (got : Option (Nat → Byte))
    (hfull : ∀ d rest, a.head = d :: rest → ¬ want ≤ d.cap - d.used) :
    Refused a (allocCovered abi a want got) ∨ Granted abi a want got (allocCovered abi a want got) := by
  rw [allocCovered]
  split
  · rename_i c hc
    rw [Option.filter_eq_some_iff] at hc
    exact .inr ⟨_, _, _, .spare hc.1 (by simpa using hc.2) hfull, rfl⟩
  · split
    · exact .inl ⟨_, rfl⟩
    · rename_i c hc
      exact .inr ⟨_, _, _, .made hc, rfl⟩

/-- **`arena_alloc`** refuses a request, or grants one that passes the tests. -/
theorem arenaAlloc_cases (abi : Abi) (a : Arena) (n : Nat) (got : Option (Nat → Byte)) :
    Refused a (arenaAlloc abi a n got) ∨ admits abi a n = true
      ∧ Granted abi a (roundUp abi n) got (arenaAlloc abi a n got) := by
  rw [arenaAlloc]
  split
  · exact .inl ⟨a.refusals, rfl⟩
  rename_i hzero
  split
  · exact .inl ⟨_, rfl⟩
  rename_i hsize
  dsimp only
  split
  · exact .inl ⟨_, rfl⟩
  rename_i hmax
  have hadmits : admits abi a n = true := by
    rw [admits, decide_eq_true_eq]
    exact ⟨fun h => hzero (.inl h), fun h => hzero (.inr h), by omega, by omega⟩
  split
  · rename_i hhead
    refine (allocCovered_cases got fun d rest h => ?_).imp_right (⟨hadmits, ·⟩)
    rw [hhead] at h
    cases h
  rename_i c rest hhead
  split
  · rename_i hroom
    exact .inr ⟨hadmits, _, _, _, .head hhead hroom, rfl⟩
  · rename_i hfull
    refine (allocCovered_cases got fun d rest' h => ?_).imp_right (⟨hadmits, ·⟩)
    rw [hhead] at h
    cases h
    exact hfull

/-- A chunk that a reset keeps. -/
def kept (c : Chunk) : Chunk :=
  { (if c.used > 0 then secureZero c else c) with used := 0 }

@[simp] theorem kept_id (c : Chunk) : (kept c).id = c.id := by
  rw [kept]
  split <;> rfl

@[simp] theorem kept_cap (c : Chunk) : (kept c).cap = c.cap := by
  rw [kept]
  split <;> rfl

@[simp] theorem kept_used (c : Chunk) : (kept c).used = 0 := rfl

theorem kept_data (c : Chunk) (i : Nat) :
    (kept c).data i = if i < c.used then 0 else c.data i := by
  rw [kept]
  split
  · rfl
  · rename_i hzero
    rw [if_neg (by omega)]

/-- The canary is behind what is zeroed. -/
theorem canary_kept {c : Chunk} (h : c.used ≤ c.cap) : canary (kept c) = canary c := by
  rw [canary, canary]
  refine List.map_congr_left fun i _ => ?_
  rw [kept_data, kept_cap, if_neg (by omega)]

/-- **The loop of `arena_reset`** keeps the spare or else the first chunk that is small
    enough, and looks at every canary. -/
theorem resetLoop_eq : ∀ (cs : List Chunk) (spare : Option Chunk) (intact : Bool),
    resetLoop cs spare intact
      = (spare.or ((cs.find? fun c => c.cap ≤ ARENA_KEEP_MAX).map kept), intact && cs.all chunkOk) := by
  intro cs
  induction cs with
  | nil => intro spare intact; simp [resetLoop]
  | cons c cs ih =>
      intro spare intact
      have hcap : (if c.used > 0 then secureZero c else c).cap = c.cap := by
        split <;> rfl
      change (if spare.isNone ∧ (if c.used > 0 then secureZero c else c).cap ≤ ARENA_KEEP_MAX then
          resetLoop cs (some (kept c)) (intact && chunkOk c)
        else resetLoop cs spare (intact && chunkOk c)) = _
      rw [hcap]
      cases spare with
      | some s => simp [ih, Bool.and_assoc]
      | none =>
          by_cases hsmall : c.cap ≤ ARENA_KEEP_MAX
          · simp [ih, hsmall, Bool.and_assoc]
          · simp [ih, hsmall, Bool.and_assoc]

/-- **`arena_reset`** reports a canary in use that is not intact. -/
theorem arenaReset_reports (a : Arena) :
    (arenaReset a).1 = -1 ↔ ∃ c ∈ a.head, canary c ≠ CANARY := by
  rw [arenaReset, resetLoop_eq]
  dsimp only
  rw [Bool.true_and]
  cases hall : a.head.all chunkOk with
  | true =>
      refine iff_of_false (by simp) ?_
      rintro ⟨c, hc, hne⟩
      exact hne (by simpa [chunkOk] using List.all_eq_true.mp hall c hc)
  | false =>
      refine iff_of_true rfl ?_
      simpa [chunkOk] using List.all_eq_false.mp hall

/-- The spare behind a reset. -/
theorem arenaReset_spare {a : Arena} {c : Chunk} (h : (arenaReset a).2.spare = some c) :
    a.spare = some c ∨ a.spare = none ∧ ∃ d ∈ a.head, d.cap ≤ ARENA_KEEP_MAX ∧ c = kept d := by
  rw [arenaReset, resetLoop_eq] at h
  cases hspare : a.spare with
  | some s =>
      rw [hspare] at h
      exact .inl h
  | none =>
      rw [hspare] at h
      obtain ⟨d, hd, rfl⟩ := Option.map_eq_some_iff.mp (show _ = some c from h)
      exact .inr ⟨rfl, d, List.mem_of_find?_eq_some hd,
        by simpa using List.find?_some hd, rfl⟩

/-! ## The layout of an arena -/

/-- The chunks of an arena, those in use first. -/
def chunks (a : Arena) : List Chunk := a.head ++ a.spare.toList

/-- What every operation keeps: chunks of their own memory, used as far as their
    capacity in steps of the alignment, and a total that adds up. -/
structure Layout (abi : Abi) (a : Arena) : Prop where
  distinct : ((chunks a).map (·.id)).Nodup
  made : ∀ c ∈ chunks a, c.id < a.made
  within : ∀ c ∈ a.head, c.used ≤ c.cap
  aligned : ∀ c ∈ a.head, ARENA_ALIGN abi ∣ c.used
  spare : ∀ c, a.spare = some c → c.used = 0 ∧ c.cap ≤ ARENA_KEEP_MAX
  sum : a.used = (a.head.map (·.used)).sum
  bounded : a.used ≤ a.max

theorem mem_chunks_head {a : Arena} {c : Chunk} (h : c ∈ a.head) : c ∈ chunks a :=
  List.mem_append_left _ h

theorem mem_chunks_spare {a : Arena} {c : Chunk} (h : a.spare = some c) : c ∈ chunks a :=
  List.mem_append_right _ (by rw [h]; exact List.mem_cons_self)

/-- A number stands for one chunk. -/
theorem Layout.unique {a : Arena} (h : Layout abi a) {c d : Chunk} (hc : c ∈ chunks a)
    (hd : d ∈ chunks a) (hid : c.id = d.id) : c = d :=
  List.inj_on_of_nodup_map h.distinct hc hd hid

theorem layout_init {max : Nat} {a : Arena} (h : arenaInit max = some a) : Layout abi a := by
  rw [arenaInit] at h
  split at h
  · cases h
  obtain rfl := Option.some.inj h
  exact ⟨List.nodup_nil, by simp [chunks], by simp, by simp, by simp, rfl, Nat.zero_le _⟩

section Source

variable {a a₀ : Arena} {want : Nat} {got : Option (Nat → Byte)} {c : Chunk} {rest : List Chunk}

/-- The chunk that is taken from is one of the arena's, or a new one. -/
theorem Source.origin (hs : Source abi a want got a₀ c rest) (h : Layout abi a) :
    c ∈ chunks a ∨ (c.id = a.made ∧ canary c = CANARY) := by
  cases hs with
  | head hhead _ => exact .inl (mem_chunks_head (by rw [hhead]; exact List.mem_cons_self))
  | @spare d hspare _ _ =>
      left
      have hd : { d with used := 0 } = d := by
        obtain ⟨id, cap, used, bytes, mapped, data⟩ := d
        have hzero := (h.spare _ hspare).1
        subst hzero
        rfl
      rw [hd]
      exact mem_chunks_spare hspare
  | made hnew =>
      obtain ⟨hid, -, -, -, hcanary⟩ := chunkNew_some hnew
      exact .inr ⟨hid, hcanary⟩

/-- The other chunks are the arena's. -/
theorem Source.others (hs : Source abi a want got a₀ c rest) :
    ∀ d ∈ rest ++ a₀.spare.toList, d ∈ chunks a := by
  intro d hd
  cases hs with
  | head hhead _ =>
      rw [chunks, hhead]
      exact List.mem_cons_of_mem _ hd
  | spare hspare _ _ =>
      rw [show a.head ++ (none : Option Chunk).toList = a.head from List.append_nil _] at hd
      exact mem_chunks_head hd
  | made _ => exact hd

/-- The numbers behind an allocation: those of before, or one more. -/
theorem Source.numbers (hs : Source abi a want got a₀ c rest) :
    (((c :: rest) ++ a₀.spare.toList).map (·.id)).Perm ((chunks a).map (·.id)) ∧ a₀.made = a.made
      ∨ (((c :: rest) ++ a₀.spare.toList).map (·.id)) = a.made :: (chunks a).map (·.id)
        ∧ a₀.made = a.made + 1 := by
  cases hs with
  | head hhead _ =>
      left
      rw [chunks, hhead]
      exact ⟨List.Perm.refl _, rfl⟩
  | @spare d hspare _ _ =>
      left
      rw [chunks, hspare]
      refine ⟨?_, rfl⟩
      simp only [Option.toList_none, List.append_nil, Option.toList_some, List.map_cons,
        List.map_append, List.map_nil]
      exact (List.perm_append_singleton _ _).symm
  | made hnew =>
      right
      rw [← (chunkNew_some hnew).1]
      exact ⟨rfl, rfl⟩

/-- The room, and the sum of what is used. -/
theorem Source.room (hs : Source abi a want got a₀ c rest) (h : Layout abi a) :
    c.used + want ≤ c.cap ∧ ARENA_ALIGN abi ∣ c.used ∧ (∀ d ∈ rest, d ∈ a.head)
      ∧ (a.head.map (·.used)).sum = c.used + (rest.map (·.used)).sum := by
  cases hs with
  | head hhead hroom =>
      have hmem : c ∈ a.head := by rw [hhead]; exact List.mem_cons_self
      have hwithin := h.within c hmem
      refine ⟨by omega, h.aligned c hmem, ?_, ?_⟩
      · intro d hd
        rw [hhead]
        exact List.mem_cons_of_mem _ hd
      · rw [hhead, List.map_cons, List.sum_cons]
  | spare hspare hroom _ =>
      exact ⟨by rw [Nat.zero_add]; exact hroom, Nat.dvd_zero _, fun _ hd => hd,
        (Nat.zero_add _).symm⟩
  | made hnew =>
      obtain ⟨-, hcap, hused, -, -⟩ := chunkNew_some hnew
      have hge := chunkCap_ge a.max want
      rw [hused, hcap]
      exact ⟨by omega, Nat.dvd_zero _, fun _ hd => hd, (Nat.zero_add _).symm⟩

theorem Source.frame (hs : Source abi a want got a₀ c rest) :
    a₀.used = a.used ∧ a₀.max = a.max ∧ (∀ d, a₀.spare = some d → a.spare = some d) := by
  cases hs with
  | head _ _ => exact ⟨rfl, rfl, fun _ h => h⟩
  | spare _ _ _ => exact ⟨rfl, rfl, fun _ h => by cases h⟩
  | made _ => exact ⟨rfl, rfl, fun _ h => h⟩

/-- The chunk that is taken from is one of those made. -/
theorem Source.made_lt (hs : Source abi a want got a₀ c rest) (h : Layout abi a) :
    c.id < a₀.made ∧ a.made ≤ a₀.made := by
  cases hs with
  | head hhead _ =>
      have hmem : c ∈ a.head := by rw [hhead]; exact List.mem_cons_self
      exact ⟨h.made c (mem_chunks_head hmem), Nat.le_refl _⟩
  | @spare d hspare _ _ => exact ⟨h.made d (mem_chunks_spare hspare), Nat.le_refl _⟩
  | made hnew =>
      refine ⟨?_, Nat.le_succ _⟩
      rw [(chunkNew_some hnew).1]
      exact Nat.lt_succ_self _

/-- An allocation keeps the layout. -/
theorem Layout.take (h : Layout abi a) (hs : Source abi a want got a₀ c rest)
    (hdvd : ARENA_ALIGN abi ∣ want) (hmax : want ≤ a.max - a.used) :
    Layout abi (take a₀ c rest want).2 := by
  obtain ⟨hroom, haligned, hrest, hsum⟩ := hs.room h
  obtain ⟨hused, hmax₀, hspare⟩ := hs.frame
  have hids : ((chunks (ArenaChunks.take a₀ c rest want).2).map (·.id))
      = ((c :: rest) ++ a₀.spare.toList).map (·.id) := rfl
  refine ⟨?_, ?_, ?_, ?_, ?_, ?_, ?_⟩
  · rw [hids]
    rcases hs.numbers with ⟨hperm, -⟩ | ⟨heq, -⟩
    · exact hperm.nodup_iff.mpr h.distinct
    · rw [heq, List.nodup_cons]
      refine ⟨?_, h.distinct⟩
      intro hmem
      obtain ⟨d, hd, hid⟩ := List.mem_map.mp hmem
      exact absurd (h.made d hd) (by omega)
  · intro d hd
    obtain ⟨hc, hle⟩ := hs.made_lt h
    rcases List.mem_cons.mp hd with rfl | hd
    · exact hc
    · exact Nat.lt_of_lt_of_le (h.made d (hs.others d hd)) hle
  · intro d hd
    rcases List.mem_cons.mp hd with rfl | hd
    · exact hroom
    · exact h.within d (hrest d hd)
  · intro d hd
    rcases List.mem_cons.mp hd with rfl | hd
    · exact (Nat.dvd_add_right haligned).mpr hdvd
    · exact h.aligned d (hrest d hd)
  · intro d hd
    exact h.spare d (hspare d hd)
  · show a₀.used + want = c.used + want + (rest.map (·.used)).sum
    rw [hused, h.sum, hsum]
    omega
  · show a₀.used + want ≤ a₀.max
    have hbounded := h.bounded
    rw [hused, hmax₀]
    omega

end Source

/-- A reset keeps the layout. -/
theorem Layout.reset {a : Arena} (h : Layout abi a) : Layout abi (arenaReset a).2 := by
  have hspare : ∀ c, (arenaReset a).2.spare = some c →
      c.id < a.made ∧ c.used = 0 ∧ c.cap ≤ ARENA_KEEP_MAX := by
    intro c hc
    rcases arenaReset_spare hc with hold | ⟨-, d, hd, hsmall, rfl⟩
    · exact ⟨h.made c (mem_chunks_spare hold), h.spare c hold⟩
    · exact ⟨by rw [kept_id]; exact h.made d (mem_chunks_head hd), kept_used d, by rwa [kept_cap]⟩
  have hchunks : chunks (arenaReset a).2 = (arenaReset a).2.spare.toList := rfl
  refine ⟨?_, ?_, ?_, ?_, fun c hc => (hspare c hc).2, rfl, Nat.zero_le _⟩
  · rw [hchunks]
    cases (arenaReset a).2.spare with
    | none => exact List.nodup_nil
    | some c => exact List.nodup_singleton _
  · intro c hc
    rw [hchunks, Option.mem_toList] at hc
    exact (hspare c hc).1
  · intro c hc
    cases hc
  · intro c hc
    cases hc

end ArenaChunks
