import Gargantua.ReplyFraming

/-! # Decoding chunks in place (`decode_chunked` of `src/runtime/fetch_reply.c`)

    `decodeChunked` takes the bytes that are there as a list, so it cannot say
    where the source reads and writes.  Here is the same function on indices, with
    a record of every byte it looks at and of every `memmove`.  It does what the
    function on lists does (`decodeLoop_spec`), within its bounds, and inverts
    every way to write chunks down (`chunked_decoding`). -/

namespace ChunkedInPlace

open CString HttpParse FetchReply ReplyFraming

/-! ## The source, on indices -/

/-- A `memmove(body + dst, body + src, len)`. -/
structure Move where
  dst : Nat
  src : Nat
  len : Nat
  deriving Repr, DecidableEq

/-- The locals of `decode_chunked`, and what it did to the buffer: the indices it
    read, and its moves. -/
structure Decoder where
  body : Bytes
  read : Nat := 0
  write : Nat := 0
  reads : List Nat := []
  moves : List Move := []
  deriving Repr, DecidableEq

/-- `body[i]`. -/
def Decoder.byte (d : Decoder) (i : Nat) : Byte := d.body.getD i 0

/-- The same, once `body[i]` was read. -/
def Decoder.look (d : Decoder) (i : Nat) : Decoder := { d with reads := i :: d.reads }

/-- `read += n`. -/
def Decoder.skip (d : Decoder) (n : Nat) : Decoder := { d with read := d.read + n }

/-- `memmove(body + write, body + read, size)`, and both indices behind it. -/
def Decoder.move (d : Decoder) (size : Nat) : Decoder :=
  { d with
    body := memmove d.body d.write ((d.body.drop d.read).take size)
    read := d.read + size
    write := d.write + size
    moves := ⟨d.write, d.read, size⟩ :: d.moves }

section Loops

variable (available : Nat)

/-- The loop over the digits of a size: the size and how many digits it has. -/
def sizeLoop (d : Decoder) (size digits : Nat) : Decoder × Except FetchError (Nat × Nat) :=
  if d.read < available then
    match hexValue (d.byte d.read) with
    | none => (d.look d.read, .ok (size, digits))
    | some v =>
        if size > FETCH_MAX_BODY / 16 then (d.look d.read, .error .tooLarge)
        else sizeLoop ((d.look d.read).skip 1) (size * 16 + v) (digits + 1)
  else (d, .ok (size, digits))
termination_by available - d.read
decreasing_by
  show available - (d.read + 1) < available - d.read
  omega

/-- The loop to the end of a size line. -/
def lineLoop (d : Decoder) : Decoder :=
  if d.read < available then
    if d.byte d.read = LF then d.look d.read else lineLoop ((d.look d.read).skip 1)
  else d
termination_by available - d.read
decreasing_by
  show available - (d.read + 1) < available - d.read
  omega

/-- A single line feed behind a chunk. -/
def bareLf (d : Decoder) : Decoder × Option Nat :=
  if d.read < available then
    (d.look d.read, if d.byte d.read = LF then some 1 else none)
  else (d, none)

/-- The test behind a chunk: the length of the line's end, if there is one. -/
def chunkEnd (d : Decoder) : Decoder × Option Nat :=
  if d.read + 1 ≥ available then bareLf available d
  else if d.byte d.read ≠ CR then bareLf available (d.look d.read)
  else if d.byte (d.read + 1) ≠ LF then bareLf available ((d.look d.read).look (d.read + 1))
  else ((d.look d.read).look (d.read + 1), some 2)

/-- The loop of `decode_chunked`: the length of the decoded body, or the error. -/
def decodeLoop : Nat → Decoder → Decoder × Except FetchError Nat
  | 0, d => (d, .error .badReply)
  | guard + 1, d =>
      match sizeLoop available d 0 0 with
      | (d, .error e) => (d, .error e)
      | (d, .ok (size, digits)) =>
          if digits = 0 ∨ digits > 8 then (d, .error .badReply)
          else
            let d := lineLoop available d
            if d.read ≥ available then (d, .error .badReply)
            else
              let d := d.skip 1
              if size = 0 then (d, .ok d.write)
              else if size > available - d.read ∨ d.write + size > FETCH_MAX_BODY then
                (d, .error (if d.write + size > FETCH_MAX_BODY then .tooLarge else .badReply))
              else
                match chunkEnd available (d.move size) with
                | (d, none) => (d, .error .badReply)
                | (d, some n) => decodeLoop guard (d.skip n)

end Loops

/-- `decode_chunked(body, available, out_len)`. -/
def decodeChunkedAt (body : Bytes) (available : Nat) : Decoder × Except FetchError Nat :=
  decodeLoop available 4096 { body := body }

/-! ## Bounds -/

/-- No byte at or past `available` was read, and every byte was moved towards the
    front. -/
structure Safe (available : Nat) (d : Decoder) : Prop where
  reads : ∀ i ∈ d.reads, i < available
  moves : ∀ m ∈ d.moves, m.dst < m.src ∧ m.src + m.len ≤ available

/-- What a scan changes: the position, and what was looked at. -/
structure Scanned (available : Nat) (d d' : Decoder) : Prop where
  body : d'.body = d.body
  write : d'.write = d.write
  moves : d'.moves = d.moves
  forward : d.read ≤ d'.read
  within : d.read ≤ available → d'.read ≤ available
  reads : ∀ i ∈ d'.reads, i ∈ d.reads ∨ i < available

section Scans

variable {available : Nat} {d d' d'' : Decoder}

theorem Scanned.refl (d : Decoder) : Scanned available d d :=
  ⟨rfl, rfl, rfl, Nat.le_refl _, id, fun _ hi => .inl hi⟩

theorem Scanned.trans (h : Scanned available d d') (h' : Scanned available d' d'') :
    Scanned available d d'' where
  body := h'.body.trans h.body
  write := h'.write.trans h.write
  moves := h'.moves.trans h.moves
  forward := Nat.le_trans h.forward h'.forward
  within := fun hd => h'.within (h.within hd)
  reads := by
    intro i hi
    rcases h'.reads i hi with hi | hi
    · exact h.reads i hi
    · exact .inr hi

theorem Scanned.safe (h : Scanned available d d') (hd : Safe available d) : Safe available d' where
  reads := by
    intro i hi
    rcases h.reads i hi with hi | hi
    · exact hd.reads i hi
    · exact hi
  moves := by
    rw [h.moves]
    exact hd.moves

/-- Looking at a byte that is there. -/
theorem scanned_look {i : Nat} (hi : i < available) : Scanned available d (d.look i) where
  body := rfl
  write := rfl
  moves := rfl
  forward := Nat.le_refl _
  within := id
  reads := by
    intro j hj
    rcases List.mem_cons.mp hj with rfl | hj
    · exact .inr hi
    · exact .inl hj

theorem scanned_skip {n : Nat} (hn : d.read + n ≤ available) : Scanned available d (d.skip n) where
  body := rfl
  write := rfl
  moves := rfl
  forward := Nat.le_add_right _ _
  within := fun _ => hn
  reads := fun _ hi => .inl hi

/-- The bytes that are still to be read. -/
def Decoder.rest (available : Nat) (d : Decoder) : Bytes := (d.body.take available).drop d.read

theorem rest_nil (h : available ≤ d.read) : d.rest available = [] := by
  rw [Decoder.rest]
  exact List.drop_of_length_le (Nat.le_trans (List.length_take_le _ _) h)

theorem rest_cons (hlen : available ≤ d.body.length) (h : d.read < available) :
    d.rest available = d.byte d.read :: (d.skip 1).rest available := by
  have hread : d.read < (d.body.take available).length := by
    rw [List.length_take]
    omega
  show (d.body.take available).drop d.read = _ :: (d.body.take available).drop (d.read + 1)
  rw [List.drop_eq_getElem_cons hread]
  simp [Decoder.byte, List.getD_eq_getElem?_getD, List.getElem?_eq_getElem (Nat.lt_of_lt_of_le h hlen)]

theorem rest_length (hlen : available ≤ d.body.length) :
    (d.rest available).length = available - d.read := by
  rw [Decoder.rest, List.length_drop, List.length_take, Nat.min_eq_left hlen]

/-- **The digits of a size** are read as `chunkSize` reads them. -/
theorem sizeLoop_spec (hlen : available ≤ d.body.length) (size digits : Nat) :
    Scanned available d (sizeLoop available d size digits).1
      ∧ match chunkSize size digits (d.rest available) with
        | none => (sizeLoop available d size digits).2 = .error .tooLarge
        | some (size', digits', s) => (sizeLoop available d size digits).2 = .ok (size', digits')
            ∧ s = (sizeLoop available d size digits).1.rest available
            ∧ digits' + d.read = digits + (sizeLoop available d size digits).1.read := by
  induction hn : available - d.read generalizing d size digits with
  | zero =>
      have hend : ¬ d.read < available := by omega
      rw [sizeLoop, if_neg hend, rest_nil (by omega), chunkSize]
      exact ⟨.refl d, rfl, rfl, rfl⟩
  | succ n ih =>
      have hread : d.read < available := by omega
      have hlook := scanned_look (d := d) hread
      rw [sizeLoop, if_pos hread, rest_cons hlen hread, chunkSize]
      cases hvalue : hexValue (d.byte d.read) with
      | none => exact ⟨hlook, rfl, (rest_cons hlen hread).symm, rfl⟩
      | some v =>
          by_cases hlarge : size > FETCH_MAX_BODY / 16
          · simp only [if_pos hlarge]
            exact ⟨hlook, trivial⟩
          · simp only [if_neg hlarge]
            have hskip : Scanned available (d.look d.read) ((d.look d.read).skip 1) :=
              scanned_skip hread
            obtain ⟨hscan, hmatch⟩ := ih (d := (d.look d.read).skip 1) hlen (size * 16 + v)
              (digits + 1) (by show available - (d.read + 1) = n; omega)
            refine ⟨(hlook.trans hskip).trans hscan, ?_⟩
            have hsame : ((d.look d.read).skip 1).rest available = (d.skip 1).rest available := rfl
            rw [hsame] at hmatch
            revert hmatch
            cases chunkSize (size * 16 + v) (digits + 1) ((d.skip 1).rest available) with
            | none => exact id
            | some p =>
                rintro ⟨hok, hs, hcount⟩
                have hnext : ((d.look d.read).skip 1).read = d.read + 1 := rfl
                rw [hnext] at hcount
                exact ⟨hok, hs, by omega⟩

/-- **The end of a size line** is where the list is cut. -/
theorem lineLoop_spec (hlen : available ≤ d.body.length) :
    Scanned available d (lineLoop available d)
      ∧ (lineLoop available d).rest available = (d.rest available).dropWhile (· != LF) := by
  induction hn : available - d.read generalizing d with
  | zero =>
      have hend : ¬ d.read < available := by omega
      rw [lineLoop, if_neg hend, rest_nil (by omega)]
      exact ⟨.refl d, rfl⟩
  | succ n ih =>
      have hread : d.read < available := by omega
      have hlook := scanned_look (d := d) hread
      rw [lineLoop, if_pos hread]
      by_cases hlf : d.byte d.read = LF
      · rw [if_pos hlf]
        refine ⟨hlook, ?_⟩
        show d.rest available = _
        rw [rest_cons hlen hread, List.dropWhile_cons_of_neg (by simp [hlf])]
      · rw [if_neg hlf]
        have hskip : Scanned available (d.look d.read) ((d.look d.read).skip 1) :=
          scanned_skip hread
        obtain ⟨hscan, hrest⟩ := ih (d := (d.look d.read).skip 1) hlen
          (by show available - (d.read + 1) = n; omega)
        refine ⟨(hlook.trans hskip).trans hscan, ?_⟩
        rw [hrest, rest_cons hlen hread, List.dropWhile_cons_of_pos (by simp [hlf])]
        rfl

theorem bareLf_scanned : Scanned available d (bareLf available d).1 := by
  rw [bareLf]
  split
  · rename_i hread
    exact scanned_look hread
  · exact .refl d

theorem bareLf_spec (hlen : available ≤ d.body.length) :
    (bareLf available d).2 = if (d.rest available).head? = some LF then some 1 else none := by
  rw [bareLf]
  by_cases hread : d.read < available
  · rw [if_pos hread, rest_cons hlen hread]
    simp
  · rw [if_neg hread, rest_nil (Nat.le_of_not_lt hread)]
    rfl

/-- **The end of a chunk**: `\r\n`, or `\n` by itself. -/
theorem chunkEnd_spec (hlen : available ≤ d.body.length) :
    Scanned available d (chunkEnd available d).1
      ∧ (chunkEnd available d).1.read = d.read
      ∧ (chunkEnd available d).2 = (match d.rest available with
        | [] => none
        | c :: s =>
            if c = CR ∧ s.head? = some LF then some 2 else if c = LF then some 1 else none) := by
  have hbare : ∀ d' : Decoder, (bareLf available d').1.read = d'.read := by
    intro d'
    rw [bareLf]
    split <;> rfl
  rw [chunkEnd]
  by_cases hlast : d.read + 1 ≥ available
  · rw [if_pos hlast]
    refine ⟨bareLf_scanned, hbare d, ?_⟩
    rw [bareLf_spec hlen]
    by_cases hread : d.read < available
    · have hnil : (d.skip 1).rest available = [] := rest_nil hlast
      rw [rest_cons hlen hread, hnil]
      simp
    · rw [rest_nil (Nat.le_of_not_lt hread)]
      rfl
  rw [if_neg hlast]
  have hread : d.read < available := by omega
  have hsecond : (d.skip 1).rest available
      = d.byte (d.read + 1) :: ((d.skip 1).skip 1).rest available :=
    rest_cons (d := d.skip 1) hlen (by show d.read + 1 < available; omega)
  have hlook := scanned_look (d := d) hread
  have hboth : Scanned available d ((d.look d.read).look (d.read + 1)) :=
    hlook.trans (scanned_look (by omega))
  have htail : (d.byte d.read ≠ CR ∨ d.byte (d.read + 1) ≠ LF) →
      (if (d.rest available).head? = some LF then some 1 else none) = (match d.rest available with
        | [] => (none : Option Nat)
        | c :: s =>
            if c = CR ∧ s.head? = some LF then some 2 else if c = LF then some 1 else none) := by
    intro hnot
    rw [rest_cons hlen hread, hsecond]
    rcases hnot with hnot | hnot
    · simp [hnot]
    · simp [hnot]
  by_cases hcr : d.byte d.read ≠ CR
  · rw [if_pos hcr]
    refine ⟨hlook.trans bareLf_scanned, hbare _, ?_⟩
    rw [bareLf_spec (d := d.look d.read) hlen]
    exact htail (.inl hcr)
  rw [if_neg hcr]
  by_cases hlf : d.byte (d.read + 1) ≠ LF
  · rw [if_pos hlf]
    refine ⟨hboth.trans bareLf_scanned, hbare _, ?_⟩
    rw [bareLf_spec (d := (d.look d.read).look (d.read + 1)) hlen]
    exact htail (.inr hlf)
  · rw [if_neg hlf]
    refine ⟨hboth, rfl, ?_⟩
    rw [rest_cons hlen hread, hsecond]
    simp only [ne_eq, not_not] at hcr hlf
    simp [hcr, hlf]

/-! ## The whole loop -/

/-- What holds in front of a chunk. -/
structure Ready (available : Nat) (d : Decoder) : Prop where
  safe : Safe available d
  behind : d.write ≤ d.read
  within : d.read ≤ available
  length : available ≤ d.body.length

/-- A move inside the first bytes is one of those bytes alone. -/
theorem memmove_split {body bytes : Bytes} {at_ : Nat} (h : at_ + bytes.length ≤ available)
    (hlen : available ≤ body.length) :
    (memmove body at_ bytes).take available = memmove (body.take available) at_ bytes
      ∧ (memmove body at_ bytes).drop available = body.drop available := by
  refine ⟨?_, memmove_drop (Nat.le_trans h hlen) h⟩
  have hfront : (body.take at_).length = at_ := List.length_take_of_le (by omega)
  have hfirst : (body.take at_).take available = (body.take available).take at_ := by
    rw [List.take_take, List.take_take, Nat.min_comm]
  have hbytes : bytes.take (available - at_) = bytes := List.take_of_length_le (by omega)
  have hlast : (body.drop (at_ + bytes.length)).take (available - at_ - bytes.length)
      = (body.take available).drop (at_ + bytes.length) := by
    rw [List.drop_take, Nat.sub_sub]
  rw [memmove, memmove, List.take_append, hfront, List.take_append, hfirst, hbytes, hlast]

/-- **A chunk is moved** as it is on lists, and stays in its bounds. -/
theorem move_spec (size : Nat) (hready : Ready available d) (hbehind : d.write < d.read)
    (hsize : size ≤ available - d.read) :
    (d.move size).body.take available
        = memmove (d.body.take available) d.write ((d.rest available).take size)
      ∧ (d.move size).body.drop available = d.body.drop available
      ∧ Ready available (d.move size) := by
  have hwithin := hready.within
  have hlength := hready.length
  have hdata : (d.body.drop d.read).take size = (d.rest available).take size := by
    rw [Decoder.rest, List.drop_take, List.take_take, Nat.min_eq_left hsize]
  have hlen : ((d.rest available).take size).length = size := by
    rw [List.length_take, rest_length hlength, Nat.min_eq_left hsize]
  have hroom : d.write + ((d.rest available).take size).length ≤ available := by
    rw [hlen]
    omega
  obtain ⟨htake, hdrop⟩ := memmove_split hroom hlength
  have hbody : (d.move size).body = memmove d.body d.write ((d.rest available).take size) := by
    rw [← hdata]
    rfl
  rw [hbody]
  refine ⟨htake, hdrop, ⟨hready.safe.reads, ?_⟩, ?_, ?_, ?_⟩
  · intro m hm
    rcases List.mem_cons.mp hm with rfl | hm
    · exact ⟨hbehind, by show d.read + size ≤ available; omega⟩
    · exact hready.safe.moves m hm
  · show d.write + size ≤ d.read + size
    omega
  · show d.read + size ≤ available
    omega
  · rw [hbody, memmove_length (Nat.le_trans hroom hlength)]
    exact hlength

/-- What `decode_chunked` on indices has to do with the same on lists. -/
def Agrees (available : Nat) (body : Bytes) (r : Decoder × Except FetchError Nat) :
    Except FetchError (Bytes × Nat) → Prop
  | .error e => r.2 = .error e
  | .ok (out, n) => r.2 = .ok n ∧ r.1.body = out ++ body.drop available

/-- Of the bytes behind those that were read only their tail matters. -/
theorem Agrees.behind {body body' : Bytes} {r : Decoder × Except FetchError Nat}
    {x : Except FetchError (Bytes × Nat)} (h : Agrees available body r x)
    (hdrop : body.drop available = body'.drop available) : Agrees available body' r x := by
  cases x with
  | error e => exact h
  | ok p => exact ⟨h.1, by rw [h.2, hdrop]⟩

/-- Behind the end of a chunk the next chunk may stand. -/
theorem Ready.next (hready : Ready available d) (hscan : Scanned available d d') (hread : d'.read = d.read)
    {n : Nat} (hn : d.read + n ≤ available) : Ready available (d'.skip n) := by
  have hsafe := hscan.safe hready.safe
  refine ⟨⟨hsafe.reads, hsafe.moves⟩, ?_, ?_, ?_⟩
  · show d'.write ≤ d'.read + n
    have hbehind := hready.behind
    rw [hscan.write, hread]
    omega
  · show d'.read + n ≤ available
    rw [hread]
    exact hn
  · show available ≤ d'.body.length
    rw [hscan.body]
    exact hready.length

/-- The end of a chunk, and the chunks behind it. -/
theorem chunkEnd_next {guard : Nat}
    (ih : ∀ {d : Decoder}, Ready available d → Safe available (decodeLoop available guard d).1
      ∧ Agrees available d.body (decodeLoop available guard d)
        (decodeChunkedLoop guard (d.body.take available) d.read d.write))
    (hready : Ready available d) :
    let r := match chunkEnd available d with
      | (d, none) => (d, .error .badReply)
      | (d, some n) => decodeLoop available guard (d.skip n)
    Safe available r.1 ∧ Agrees available d.body r (match d.rest available with
      | [] => .error .badReply
      | c :: s =>
          if c = CR ∧ s.head? = some LF then
            decodeChunkedLoop guard (d.body.take available) (d.read + 2) d.write
          else if c = LF then decodeChunkedLoop guard (d.body.take available) (d.read + 1) d.write
          else .error .badReply) := by
  obtain ⟨hscan, hread, hresult⟩ := chunkEnd_spec hready.length
  have hlength := rest_length hready.length
  generalize chunkEnd available d = e at hscan hread hresult ⊢
  obtain ⟨d', skip⟩ := e
  dsimp only at hscan hread hresult ⊢
  have hnext : ∀ n, d.read + n ≤ available →
      Safe available (decodeLoop available guard (d'.skip n)).1
        ∧ Agrees available d.body (decodeLoop available guard (d'.skip n))
          (decodeChunkedLoop guard (d.body.take available) (d.read + n) d.write) := by
    intro n hn
    have hbody : (d'.skip n).body = d.body := hscan.body
    have hstep : (d'.skip n).read = d.read + n := congrArg (· + n) hread
    have hwrite : (d'.skip n).write = d.write := hscan.write
    have hih := ih (hready.next hscan hread hn)
    rw [hbody, hstep, hwrite] at hih
    exact hih
  cases hrest : d.rest available with
  | nil =>
      rw [hrest] at hresult
      obtain rfl : skip = none := hresult
      exact ⟨hscan.safe hready.safe, rfl⟩
  | cons c t =>
      rw [hrest] at hresult hlength
      rw [List.length_cons] at hlength
      dsimp only at hresult ⊢
      by_cases hcrlf : c = CR ∧ t.head? = some LF
      · rw [if_pos hcrlf] at hresult ⊢
        subst hresult
        obtain ⟨t', rfl⟩ := List.head?_eq_some_iff.mp hcrlf.2
        rw [List.length_cons] at hlength
        exact hnext 2 (by omega)
      · rw [if_neg hcrlf] at hresult ⊢
        by_cases hlf : c = LF
        · rw [if_pos hlf] at hresult ⊢
          subst hresult
          exact hnext 1 (by omega)
        · rw [if_neg hlf] at hresult ⊢
          subst hresult
          exact ⟨hscan.safe hready.safe, rfl⟩

/-- **The loop on indices does what the loop on lists does**, and keeps to its
    bounds. -/
theorem decodeLoop_spec (guard : Nat) : ∀ {d : Decoder}, Ready available d →
    Safe available (decodeLoop available guard d).1
      ∧ Agrees available d.body (decodeLoop available guard d)
        (decodeChunkedLoop guard (d.body.take available) d.read d.write) := by
  induction guard with
  | zero => intro d hready; exact ⟨hready.safe, rfl⟩
  | succ guard ih =>
      intro d hready
      obtain ⟨hscan, hmatch⟩ := sizeLoop_spec hready.length 0 0
      have hrest : (d.body.take available).drop d.read = d.rest available := rfl
      rw [decodeLoop, decodeChunkedLoop, hrest]
      generalize sizeLoop available d 0 0 = r at hscan hmatch ⊢
      obtain ⟨d₁, result⟩ := r
      cases hsize : chunkSize 0 0 (d.rest available) with
      | none =>
          rw [hsize] at hmatch
          obtain rfl : result = .error .tooLarge := hmatch
          exact ⟨hscan.safe hready.safe, rfl⟩
      | some p =>
          obtain ⟨size, digits, s⟩ := p
          rw [hsize] at hmatch
          obtain ⟨hok, hs, hcount⟩ := hmatch
          obtain rfl : result = .ok (size, digits) := hok
          dsimp only at hcount hscan hs ⊢
          by_cases hdigits : digits = 0 ∨ digits > 8
          · rw [if_pos hdigits, if_pos hdigits]
            exact ⟨hscan.safe hready.safe, rfl⟩
          rw [if_neg hdigits, if_neg hdigits]
          -- the line, up to its end
          have hlen₁ : available ≤ d₁.body.length := by
            rw [hscan.body]
            exact hready.length
          obtain ⟨hline, hlinerest⟩ := lineLoop_spec hlen₁
          have hscan₂ := hscan.trans hline
          generalize lineLoop available d₁ = d₂ at hline hlinerest hscan₂ ⊢
          have hlen₂ : available ≤ d₂.body.length := by
            rw [hscan₂.body]
            exact hready.length
          rw [hs, ← hlinerest]
          by_cases hend : d₂.read ≥ available
          · rw [if_pos hend, rest_nil hend]
            exact ⟨hscan₂.safe hready.safe, rfl⟩
          rw [if_neg hend]
          have hread₂ : d₂.read < available := Nat.lt_of_not_le hend
          rw [rest_cons hlen₂ hread₂]
          have hscan₃ : Scanned available d (d₂.skip 1) := hscan₂.trans (scanned_skip hread₂)
          have hread₃ : d.write < (d₂.skip 1).read := by
            have hforward := hline.forward
            have hnext : (d₂.skip 1).read = d₂.read + 1 := rfl
            have hbehind := hready.behind
            omega
          generalize d₂.skip 1 = d₃ at hscan₃ hread₃ ⊢
          dsimp only
          by_cases hzero : size = 0
          · rw [if_pos hzero, if_pos hzero]
            refine ⟨hscan₃.safe hready.safe, ?_, ?_⟩
            · rw [hscan₃.write]
            · rw [List.take_append_drop]
              exact hscan₃.body
          rw [if_neg hzero, if_neg hzero]
          have hlen₃ : available ≤ d₃.body.length := by
            rw [hscan₃.body]
            exact hready.length
          have hwithin₃ : d₃.read ≤ available := hscan₃.within hready.within
          rw [rest_length hlen₃, hscan₃.write]
          by_cases hfit : size > available - d₃.read ∨ d.write + size > FETCH_MAX_BODY
          · rw [if_pos hfit, if_pos hfit]
            exact ⟨hscan₃.safe hready.safe, rfl⟩
          rw [if_neg hfit, if_neg hfit]
          -- the chunk is moved, and its end is looked at
          have hready₃ : Ready available d₃ :=
            ⟨hscan₃.safe hready.safe, by rw [hscan₃.write]; omega, hwithin₃, hlen₃⟩
          obtain ⟨htake, hdrop, hready₄⟩ := move_spec size hready₃
            (by rw [hscan₃.write]; exact hread₃) (by omega)
          rw [hscan₃.write, hscan₃.body] at htake
          rw [hscan₃.body] at hdrop
          have hread₄ : (d.body.take available).length - (available - d₃.read) + size
              = (d₃.move size).read := by
            show _ = d₃.read + size
            rw [List.length_take, Nat.min_eq_left hready.length]
            omega
          have hwrite₄ : (d₃.move size).write = d.write + size := by
            show d₃.write + size = _
            rw [hscan₃.write]
          have hnext := chunkEnd_next ih hready₄
          have hrest₄ : (d₃.move size).rest available
              = ((d₃.move size).body.take available).drop (d₃.move size).read := rfl
          rw [hread₄, ← htake, ← hwrite₄, ← hrest₄]
          exact ⟨hnext.1, hnext.2.behind hdrop⟩

end Scans

/-! ## Chunks as they are written -/

/-- A size in hexadecimal digits of either case, with zeros in front of it or not. -/
structure Spells (digits : Bytes) (size : Nat) : Prop where
  nonempty : digits ≠ []
  length : digits.length ≤ 8
  hex : ∀ c ∈ digits, (hexValue c).isSome = true
  value : hexNumber digits = size

/-- What stands between a size and the line feed: an extension, and the carriage
    return if there is one. -/
structure IsExtension (extension : Bytes) : Prop where
  line : LF ∉ extension
  apart : ∀ c ∈ extension.head?, hexValue c = none

/-- A chunk as it is written: the line of its size, its data, and `\r\n` or `\n`. -/
structure Chunk where
  digits : Bytes
  extension : Bytes
  data : Bytes
  eol : Bytes
  nonempty : data ≠ []
  spells : Spells digits data.length
  extends_ : IsExtension extension
  ends : eol = CRLF ∨ eol = [LF]

/-- The line of a size of zero. -/
structure LastChunk where
  digits : Bytes
  extension : Bytes
  spells : Spells digits 0
  extends_ : IsExtension extension

/-- A size line. -/
def sizeText (digits extension : Bytes) : Bytes := digits ++ (extension ++ [LF])

/-- Chunks and the last-chunk line. -/
def encode (last : LastChunk) : List Chunk → Bytes
  | [] => sizeText last.digits last.extension
  | c :: chunks => sizeText c.digits c.extension ++ (c.data ++ (c.eol ++ encode last chunks))

/-- The data of the chunks. -/
def dataOf (chunks : List Chunk) : Bytes := chunks.flatMap (·.data)

/-- What `decode_chunked` takes: as many chunks as its loop has rounds for, with
    as many bytes as a body may have. -/
structure Encoding where
  chunks : List Chunk
  last : LastChunk
  few : chunks.length ≤ 4095
  fits : (dataOf chunks).length ≤ FETCH_MAX_BODY

/-- Its bytes. -/
def Encoding.text (e : Encoding) : Bytes := encode e.last e.chunks

/-- The body it stands for. -/
def Encoding.body (e : Encoding) : Bytes := dataOf e.chunks

theorem Spells.sizeLine {digits extension : Bytes} {size : Nat} (h : Spells digits size)
    (hext : IsExtension extension) : SizeLine (sizeText digits extension) size :=
  ⟨digits, extension, rfl, h.nonempty, h.hex, h.value, hext.line, hext.apart⟩

/-- Chunks are a chunked text, whatever follows them. -/
theorem encode_chunked (last : LastChunk) (chunks : List Chunk) (rest : Bytes) :
    Chunked (encode last chunks ++ rest) (dataOf chunks) := by
  induction chunks with
  | nil => exact .last (last.spells.sizeLine last.extends_)
  | cons c chunks ih =>
      have htext : encode last (c :: chunks) ++ rest = sizeText c.digits c.extension
          ++ (c.data ++ (c.eol ++ (encode last chunks ++ rest))) := by
        simp only [encode, List.append_assoc]
      rw [htext]
      exact .chunk (c.spells.sizeLine c.extends_) c.nonempty c.ends ih

/-! ## Sizes -/

theorem hexFold_le (ds : Bytes) : ∀ n : Nat,
    n ≤ ds.foldl (fun n c => n * 16 + (hexValue c).getD 0) n := by
  induction ds with
  | nil => intro n; exact Nat.le_refl n
  | cons c ds ih =>
      intro n
      have h := ih (n * 16 + (hexValue c).getD 0)
      rw [List.foldl_cons]
      omega

/-- **A size that fits is read**: the bound that is checked in front of each digit
    holds for every size up to `FETCH_MAX_BODY`. -/
theorem chunkSize_complete {digits back : Bytes} (hhex : ∀ c ∈ digits, (hexValue c).isSome = true)
    (hback : ∀ c ∈ back.head?, hexValue c = none) : ∀ {size count : Nat},
      digits.foldl (fun n c => n * 16 + (hexValue c).getD 0) size ≤ FETCH_MAX_BODY →
      chunkSize size count (digits ++ back)
        = some (digits.foldl (fun n c => n * 16 + (hexValue c).getD 0) size,
          count + digits.length, back) := by
  induction digits with
  | nil =>
      intro size count _
      cases back with
      | nil => rfl
      | cons c back =>
          rw [List.nil_append, chunkSize, hback c rfl]
          rfl
  | cons c digits ih =>
      intro size count hfits
      obtain ⟨v, hv⟩ := Option.isSome_iff_exists.mp (hhex c List.mem_cons_self)
      have hvalue : (hexValue c).getD 0 = v := by rw [hv]; rfl
      rw [List.foldl_cons, hvalue] at hfits ⊢
      have hgrows := hexFold_le digits (size * 16 + v)
      have hsmall : ¬ size > FETCH_MAX_BODY / 16 := by
        show ¬ size > 64 * 1024 / 16
        have hmax : size * 16 + v ≤ 64 * 1024 := Nat.le_trans hgrows hfits
        omega
      rw [List.cons_append, chunkSize, hv]
      simp only [if_neg hsmall]
      rw [ih (fun d hd => hhex d (List.mem_cons_of_mem c hd)) hfits, List.length_cons]
      congr 3
      omega

/-- The size line at the place that is read. -/
theorem chunkSize_line {digits extension : Bytes} {size : Nat} (h : Spells digits size)
    (hext : IsExtension extension) (hsize : size ≤ FETCH_MAX_BODY) (rest : Bytes) :
    chunkSize 0 0 (sizeText digits extension ++ rest)
        = some (size, digits.length, extension ++ LF :: rest)
      ∧ (extension ++ LF :: rest).dropWhile (· != LF) = LF :: rest := by
  have hsplit : sizeText digits extension ++ rest = digits ++ (extension ++ LF :: rest) := by
    simp only [sizeText, List.append_assoc, List.cons_append, List.nil_append]
  have hback : ∀ c ∈ (extension ++ LF :: rest).head?, hexValue c = none := by
    intro c hc
    cases hextension : extension with
    | nil =>
        rw [hextension] at hc
        obtain rfl := Option.some.inj hc
        rfl
    | cons d ds =>
        rw [hextension] at hc
        refine hext.apart c ?_
        rw [hextension]
        exact hc
  have hvalue : digits.foldl (fun n c => n * 16 + (hexValue c).getD 0) 0 = size := h.value
  refine ⟨?_, (Scan.cut_append hext.line rest).2⟩
  rw [hsplit, chunkSize_complete h.hex hback (by rw [hvalue]; exact hsize), hvalue, Nat.zero_add]

/-! ## Round trips -/

/-- **The loop goes through all chunks.** -/
theorem decodeChunkedLoop_complete (last : LastChunk) (rest : Bytes) (chunks : List Chunk) :
    ∀ {guard : Nat} {body : Bytes} {read write : Nat}, chunks.length < guard → write ≤ read →
    read ≤ body.length → write + (dataOf chunks).length ≤ FETCH_MAX_BODY →
    body.drop read = encode last chunks ++ rest →
      ∃ out, decodeChunkedLoop guard body read write = .ok (out, write + (dataOf chunks).length) := by
  induction chunks with
  | nil =>
      intro guard body read write hguard _ _ _ hdrop
      obtain ⟨guard, rfl⟩ := Nat.exists_eq_add_of_lt hguard
      obtain ⟨hsize, hline⟩ := chunkSize_line last.spells last.extends_ (Nat.zero_le _) rest
      have hnonempty := List.length_pos_iff.mpr last.spells.nonempty
      have hlength := last.spells.length
      refine ⟨body, ?_⟩
      rw [show ([] : List Chunk).length + guard + 1 = guard + 1 by simp, decodeChunkedLoop, hdrop]
      simp only [encode, hsize, hline]
      rw [if_neg (by omega), if_pos trivial]
      rfl
  | cons c chunks ih =>
      intro guard body read write hguard hbehind hread hfits hdrop
      obtain ⟨guard, rfl⟩ : ∃ n, guard = n + 1 := ⟨guard - 1, by omega⟩
      have hdata : dataOf (c :: chunks) = c.data ++ dataOf chunks := List.flatMap_cons
      rw [hdata, List.length_append] at hfits ⊢
      have htext : body.drop read = sizeText c.digits c.extension
          ++ (c.data ++ (c.eol ++ (encode last chunks ++ rest))) := by
        rw [hdrop]
        simp only [encode, List.append_assoc]
      generalize hafter : c.eol ++ (encode last chunks ++ rest) = after at htext
      obtain ⟨hsize, hline⟩ := chunkSize_line c.spells c.extends_ (by omega) (c.data ++ after)
      have hnonempty := List.length_pos_iff.mpr c.spells.nonempty
      have hlength := c.spells.length
      have hpos := List.length_pos_iff.mpr c.nonempty
      -- where the data of the chunk stands
      have hbody := congrArg List.length htext
      rw [List.length_drop, List.length_append, List.length_append, sizeText, List.length_append,
        List.length_append] at hbody
      have hstart : body.drop (body.length - (c.data ++ after).length) = c.data ++ after := by
        have hsuffix : c.data ++ after <:+ body :=
          ⟨body.take read ++ sizeText c.digits c.extension, by
            rw [List.append_assoc, ← htext, List.take_append_drop]⟩
        exact (List.suffix_iff_eq_drop.mp hsuffix).symm
      have hroom : write + c.data.length ≤ body.length := by
        omega
      have htaken : (c.data ++ after).take c.data.length = c.data := List.take_left
      have hlater : ∀ k, body.length - (c.data ++ after).length + c.data.length ≤ k →
          (memmove body write c.data).drop k = body.drop k := by
        intro k hk
        rw [List.length_append] at hk
        exact memmove_drop hroom (by omega)
      have hrest : (memmove body write c.data).drop
          (body.length - (c.data ++ after).length + c.data.length) = after := by
        rw [hlater _ (Nat.le_refl _), ← List.drop_drop, hstart, List.drop_left]
      have hnext : ∀ n, c.eol.length = n →
          ∃ out, decodeChunkedLoop guard (memmove body write c.data)
            (body.length - (c.data ++ after).length + c.data.length + n) (write + c.data.length)
              = .ok (out, write + c.data.length + (dataOf chunks).length) := by
        intro n hn
        have hends : n ≤ after.length := by
          rw [← hafter, List.length_append]
          omega
        refine ih (by rw [List.length_cons] at hguard; omega) ?_ ?_ (by omega) ?_
        · rw [List.length_append]
          omega
        · rw [memmove_length hroom, List.length_append]
          omega
        · rw [hlater _ (Nat.le_add_right _ _), ← List.drop_drop, ← List.drop_drop, hstart,
            List.drop_left, ← hafter, ← hn, List.drop_left]
      rw [← Nat.add_assoc, decodeChunkedLoop, htext]
      simp only [hsize, hline]
      rw [if_neg (by omega), if_neg (by omega), if_neg (by rw [List.length_append]; omega), htaken,
        hrest]
      rcases c.ends with heol | heol
      · rw [heol] at hafter
        subst hafter
        exact hnext 2 (by rw [heol]; rfl)
      · rw [heol] at hafter
        subst hafter
        exact hnext 1 (by rw [heol]; rfl)

/-- **A cut encoding is no chunked text**: a chunked text that an encoding begins
    with is all of it. -/
theorem chunked_whole {last : LastChunk} {text data : Bytes} (h : Chunked text data) :
    ∀ {chunks : List Chunk} {missing : Bytes}, text ++ missing = encode last chunks →
      missing = [] := by
  induction h with
  | @last line rest hline =>
      intro chunks missing heq
      cases chunks with
      | nil =>
          have hsame : line ++ (rest ++ missing) = sizeText last.digits last.extension ++ [] := by
            rw [List.append_nil, ← List.append_assoc]
            exact heq
          obtain ⟨-, hnil⟩ := hline.unique (last.spells.sizeLine last.extends_) hsame
          exact (List.append_eq_nil_iff.mp hnil).2
      | cons c chunks =>
          rw [List.append_assoc] at heq
          obtain ⟨hsize, -⟩ := hline.unique (c.spells.sizeLine c.extends_) heq
          exact absurd (List.eq_nil_of_length_eq_zero hsize.symm) c.nonempty
  | @chunk line data eol text rest hline hne heol h ih =>
      intro chunks missing heq
      have hsame : line ++ (data ++ (eol ++ (text ++ missing))) = encode last chunks := by
        rw [← heq]
        simp only [List.append_assoc]
      cases chunks with
      | nil =>
          have hnil : line ++ (data ++ (eol ++ (text ++ missing)))
              = sizeText last.digits last.extension ++ [] := by
            rw [List.append_nil]
            exact hsame
          obtain ⟨hsize, -⟩ := hline.unique (last.spells.sizeLine last.extends_) hnil
          exact absurd (List.eq_nil_of_length_eq_zero hsize) hne
      | cons c chunks =>
          obtain ⟨hsize, hrest⟩ := hline.unique (c.spells.sizeLine c.extends_) hsame
          obtain ⟨-, heols⟩ := List.append_inj hrest hsize
          refine @ih chunks missing ?_
          rcases heol with rfl | rfl <;> rcases c.ends with hc | hc <;> rw [hc] at heols
          · exact List.append_cancel_left heols
          · exact absurd (List.cons.inj heols).1 (by decide)
          · exact absurd (List.cons.inj heols).1 (by decide)
          · exact List.append_cancel_left heols

theorem ready_start {body : Bytes} {available : Nat} (h : available ≤ body.length) :
    Ready available { body := body } where
  safe := ⟨fun _ hi => (nomatch hi), fun _ hm => (nomatch hm)⟩
  behind := Nat.le_refl 0
  within := Nat.zero_le _
  length := h

/-- **Chunked decoding inverts chunked encoding.**  Chunks that fit are decoded in
    place to their data, whatever follows the last-chunk line and whatever stands
    behind the bytes that are there.  On every input no byte at or past
    `available` is read and every byte is moved towards the front, and an encoding
    that is cut in front of the end of its last-chunk line is an error. -/
theorem chunked_decoding :
    (∀ (e : Encoding) (rest behind : Bytes), ∃ d,
        decodeChunkedAt (e.text ++ rest ++ behind) (e.text ++ rest).length = (d, .ok e.body.length)
          ∧ d.body.take e.body.length = e.body)
      ∧ (∀ (body : Bytes) (available : Nat), available ≤ body.length →
        Safe available (decodeChunkedAt body available).1)
      ∧ ∀ (chunks : List Chunk) (last : LastChunk) (k : Nat) (behind : Bytes),
        k < (encode last chunks).length →
        ∃ error, (decodeChunkedAt ((encode last chunks).take k ++ behind) k).2 = .error error := by
  refine ⟨?_, ?_, ?_⟩
  · intro e rest behind
    have hlen : (e.text ++ rest).length ≤ (e.text ++ rest ++ behind).length :=
      (List.prefix_append (e.text ++ rest) behind).length_le
    obtain ⟨-, hagrees⟩ := decodeLoop_spec 4096 (ready_start hlen)
    rw [List.take_left] at hagrees
    obtain ⟨out, hout⟩ : ∃ out,
        decodeChunkedLoop 4096 (e.text ++ rest) 0 0 = .ok (out, 0 + e.body.length) :=
      decodeChunkedLoop_complete e.last rest e.chunks (Nat.lt_succ_of_le e.few) (Nat.le_refl 0)
        (Nat.zero_le _) (by rw [Nat.zero_add]; exact e.fits) rfl
    obtain ⟨data, hdata, htake, -⟩ := decodeChunkedLoop_spec (Nat.le_refl 0) (Nat.zero_le _)
      (Nat.zero_le _) hout
    obtain rfl : data = e.body := hdata.unique (encode_chunked e.last e.chunks rest)
    rw [hout] at hagrees
    obtain ⟨hok, hafter⟩ := hagrees
    rw [Nat.zero_add] at hok htake
    rw [List.take_zero, List.nil_append] at htake
    have hle : e.body.length ≤ out.length := by
      rw [← htake, List.length_take]
      exact Nat.min_le_right _ _
    refine ⟨_, Prod.ext rfl hok, ?_⟩
    show (decodeLoop _ 4096 { body := e.text ++ rest ++ behind }).1.body.take e.body.length = e.body
    rw [hafter, List.take_append_of_le_length hle, htake]
  · intro body available hlen
    exact (decodeLoop_spec 4096 (ready_start hlen)).1
  · intro chunks last k behind hk
    have htaken : ((encode last chunks).take k).length = k := List.length_take_of_le (Nat.le_of_lt hk)
    have hlen : k ≤ ((encode last chunks).take k ++ behind).length := by
      rw [List.length_append, htaken]
      exact Nat.le_add_right _ _
    obtain ⟨-, hagrees⟩ := decodeLoop_spec 4096 (ready_start hlen)
    rw [List.take_left' htaken] at hagrees
    cases hresult : decodeChunkedLoop 4096 ((encode last chunks).take k) 0 0 with
    | error error =>
        rw [hresult] at hagrees
        exact ⟨error, hagrees⟩
    | ok p =>
        obtain ⟨data, hdata, -⟩ := decodeChunkedLoop_spec (Nat.le_refl 0) (Nat.zero_le _)
          (Nat.zero_le _) hresult
        rw [List.drop_zero] at hdata
        have hmissing := chunked_whole hdata (List.take_append_drop k (encode last chunks))
        have hlength := congrArg List.length hmissing
        rw [List.length_drop, List.length_nil] at hlength
        omega

end ChunkedInPlace
