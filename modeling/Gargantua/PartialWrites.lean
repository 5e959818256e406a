import Gargantua.Lib.CString
import Gargantua.Lib.Gather
import Gargantua.Lib.Runs

/-! # Writing a header and a body (`send_header_body` of `src/server/server.c`)

    `writev` is called again and again with a vector of two entries, until it has
    taken all bytes.  What it takes is cut off the vector in place
    (`iovec_advance`).  However the writes are cut, the socket has been given the
    first bytes of header and body, the vector stands for the others, and `0` is
    returned when there are none left (`partial_writes_exact`).

    What `set_timeout_until` and `writev` answer is the environment's.  The sizes
    are those of objects in memory, whose sum does not wrap. -/

namespace PartialWrites

open CString Gather Runs

/-- `SERVER_SEND_MAX`. -/
abbrev SERVER_SEND_MAX : Nat := 4096

/-- Where an entry points to. -/
inductive Buffer where
  | null
  | header
  | body
  deriving Repr, DecidableEq

/-- `struct iovec`: the buffer and the offset of `iov_base`, and `iov_len`. -/
abbrev IoVec := Slice Buffer

/-- An entry of `{0}`. -/
def zeroVec : IoVec := ⟨.null, 0, 0⟩

/-- What the buffers hold. -/
def memory (header : Bytes) (body : Option Bytes) : Buffer → Bytes
  | .null => []
  | .header => header
  | .body => body.getD []

/-! ## `iovec_advance` -/

/-- The first loop of `iovec_advance`, with so many entries left. -/
def consumeLoop : Nat → List IoVec → Nat → Nat → List IoVec
  | 0, iov, _, _ => iov
  | n + 1, iov, i, left =>
      if left > 0 then
        let e := iov.getD i zeroVec
        if left ≥ e.len then consumeLoop n (iov.set i { e with len := 0 }) (i + 1) (left - e.len)
        else consumeLoop n (iov.set i ⟨e.buffer, e.offset + left, e.len - left⟩) i 0
      else iov

/-- The second loop: empty entries at the front are dropped. -/
def dropLoop : Nat → List IoVec → List IoVec × Nat
  | 0, iov => (iov, 0)
  | count + 1, iov =>
      if (iov.getD 0 zeroVec).len = 0 then
        dropLoop count (if count + 1 = 2 then iov.set 0 (iov.getD 1 zeroVec) else iov)
      else (iov, count + 1)

/-- `iovec_advance`: the entries and `*count`. -/
def iovecAdvance (iov : List IoVec) (count consumed : Nat) : List IoVec × Nat :=
  dropLoop count (consumeLoop count iov 0 consumed)

theorem consumeLoop_done (n : Nat) (iov : List IoVec) (i : Nat) : consumeLoop n iov i 0 = iov := by
  cases n <;> rfl

/-- The first loop takes the bytes off the entries from `i` on. -/
theorem consumeLoop_eq : ∀ (n : Nat) (done iov : List IoVec) (left : Nat), n ≤ iov.length →
    consumeLoop n (done ++ iov) done.length left = done ++ (consume (iov.take n) left ++ iov.drop n) := by
  intro n
  induction n with
  | zero => exact fun done iov left _ => rfl
  | succ n ih =>
      intro done iov left hn
      cases iov with
      | nil => cases hn
      | cons e iov =>
          have hlen : n ≤ iov.length := Nat.le_of_succ_le_succ hn
          rw [consumeLoop, List.take_succ_cons, List.drop_succ_cons, consume]
          by_cases hleft : left = 0
          · rw [if_neg (by omega), if_pos hleft, List.cons_append, List.take_append_drop]
          have hget : (done ++ e :: iov).getD done.length zeroVec = e := by simp
          have hset : ∀ e' : IoVec, (done ++ e :: iov).set done.length e' = done ++ e' :: iov := by
            intro e'
            simp
          rw [if_pos (Nat.pos_of_ne_zero hleft), if_neg hleft, hget]
          dsimp only
          by_cases hwhole : left ≥ e.len
          · rw [if_pos hwhole, if_pos hwhole, hset]
            -- the entry that was taken whole joins the ones that are done
            have hih := ih (done ++ [e.empty]) iov (left - e.len) hlen
            rw [List.length_append, List.append_assoc, List.append_assoc] at hih
            exact hih
          · rw [if_neg hwhole, if_neg hwhole, hset, consumeLoop_done, List.cons_append, List.take_append_drop]
            rfl

/-- A vector of two entries, of which the first `count` are used. -/
structure Vec (mem : Buffer → Bytes) (iov : List IoVec) (count : Nat) : Prop where
  length : iov.length = 2
  count : count ≤ 2
  within : ∀ e ∈ iov, e.Within mem

/-- Empty entries at the front stand for nothing. -/
theorem dropLoop_spec {mem : Buffer → Bytes} {iov : List IoVec} {count : Nat} (h : Vec mem iov count) :
    Vec mem (dropLoop count iov).1 (dropLoop count iov).2
      ∧ gathered mem ((dropLoop count iov).1.take (dropLoop count iov).2) = gathered mem (iov.take count) := by
  obtain ⟨hlen, hcount, hwithin⟩ := h
  obtain ⟨a, b, rfl⟩ := List.length_eq_two.mp hlen
  have ha : a.Within mem := hwithin a (by simp)
  have hb : b.Within mem := hwithin b (by simp)
  have hcases : count = 0 ∨ count = 1 ∨ count = 2 := by omega
  rcases hcases with rfl | rfl | rfl
  · exact ⟨⟨hlen, hcount, hwithin⟩, rfl⟩
  · by_cases hfirst : a.len = 0
    · have hdrop : dropLoop 1 [a, b] = ([a, b], 0) := by
        rw [dropLoop, dropLoop]
        exact if_pos hfirst
      rw [hdrop]
      refine ⟨⟨hlen, Nat.zero_le 2, hwithin⟩, ?_⟩
      show [] = a.data mem ++ []
      rw [Slice.data_empty hfirst]
      rfl
    · have hkeep : dropLoop 1 [a, b] = ([a, b], 1) := if_neg hfirst
      rw [hkeep]
      exact ⟨⟨hlen, hcount, hwithin⟩, rfl⟩
  · by_cases hfirst : a.len = 0
    · -- the second entry moves to the front, and may be empty as well
      have hshift : dropLoop 2 [a, b] = dropLoop 1 [b, b] := if_pos hfirst
      have hboth : ∀ e ∈ [b, b], e.Within mem := by simpa using hb
      have hdata : gathered mem ([a, b].take 2) = b.data mem := by
        show a.data mem ++ (b.data mem ++ []) = b.data mem
        rw [Slice.data_empty hfirst, List.append_nil]
        rfl
      rw [hshift, hdata]
      by_cases hsecond : b.len = 0
      · have hdrop : dropLoop 1 [b, b] = ([b, b], 0) := by
          rw [dropLoop, dropLoop]
          exact if_pos hsecond
        rw [hdrop]
        exact ⟨⟨rfl, Nat.zero_le 2, hboth⟩, (Slice.data_empty hsecond).symm⟩
      · have hkeep : dropLoop 1 [b, b] = ([b, b], 1) := if_neg hsecond
        rw [hkeep]
        exact ⟨⟨rfl, Nat.le_succ 1, hboth⟩, List.append_nil _⟩
    · have hkeep : dropLoop 2 [a, b] = ([a, b], 2) := if_neg hfirst
      rw [hkeep]
      exact ⟨⟨hlen, hcount, hwithin⟩, rfl⟩

/-- **`iovec_advance`** cuts the bytes off what the vector stands for. -/
theorem iovecAdvance_spec {mem : Buffer → Bytes} {iov : List IoVec} {count : Nat} (h : Vec mem iov count)
    (n : Nat) :
    Vec mem (iovecAdvance iov count n).1 (iovecAdvance iov count n).2
      ∧ gathered mem ((iovecAdvance iov count n).1.take (iovecAdvance iov count n).2)
        = (gathered mem (iov.take count)).drop n := by
  have hle : count ≤ iov.length := by
    rw [h.length]
    exact h.count
  have hloop := consumeLoop_eq count [] iov n hle
  have hused : ∀ e ∈ iov.take count, e.Within mem := fun e he => h.within e (List.mem_of_mem_take he)
  have hlength : (consume (iov.take count) n).length = count := by
    rw [consume_length, List.length_take, Nat.min_eq_left hle]
  have hvec : Vec mem (consume (iov.take count) n ++ iov.drop count) count := by
    refine ⟨?_, h.count, ?_⟩
    · rw [List.length_append, hlength, List.length_drop, h.length]
      have hcount := h.count
      omega
    · intro e he
      rcases List.mem_append.mp he with he | he
      · exact consume_within n hused e he
      · exact h.within e (List.mem_of_mem_drop he)
  obtain ⟨hout, hdata⟩ := dropLoop_spec hvec
  have hfront : (consume (iov.take count) n ++ iov.drop count).take count = consume (iov.take count) n :=
    List.take_left' hlength
  have hadvance : iovecAdvance iov count n = dropLoop count (consume (iov.take count) n ++ iov.drop count) :=
    congrArg (dropLoop count) hloop
  rw [hadvance]
  refine ⟨hout, ?_⟩
  rw [hdata, hfront, gathered_consume n hused]

/-! ## `send_header_body` -/

/-- The locals of `send_header_body`, what `writev` has taken, and what was
    returned. -/
structure Sending where
  iov : List IoVec
  count : Nat
  sent : Nat := 0
  guard : Nat := 0
  socket : Bytes := []
  returned : Option Int := none
  deriving Repr, DecidableEq

/-- What a round of the loop is answered: `set_timeout_until` fails, or `writev`
    is interrupted, fails in another way or returns a count. -/
inductive SendReply where
  | noTimeout
  | interrupted
  | failed
  | wrote (n : Nat)
  deriving Repr, DecidableEq

section Send

variable (header : Bytes) (body : Option Bytes)

/-- `total`. -/
def total : Nat :=
  header.length + if (body.getD []).length > 0 then (body.getD []).length else 0

/-- The bytes that `writev` is offered. -/
def offered (s : Sending) : Bytes := gathered (memory header body) (s.iov.take s.count)

/-- The condition of the loop, and the return behind it. -/
def loopHead (s : Sending) : Sending :=
  if s.sent < total header body ∧ s.guard < SERVER_SEND_MAX then s
  else { s with returned := some (if s.sent = total header body then 0 else -1) }

/-- The loop is reached, if `deadline_after` succeeds. -/
def startSending (deadline : Bool) : Sending :=
  let first : IoVec := ⟨.header, 0, header.length⟩
  let s : Sending :=
    if (body.getD []).length > 0 then
      { iov := [first, ⟨.body, 0, (body.getD []).length⟩], count := 2 }
    else { iov := [first, zeroVec], count := 1 }
  if deadline then loopHead header body s else { s with returned := some (-1) }

/-- A round of the loop. -/
def sendRound (s : Sending) : SendReply → Sending
  | .noTimeout => { s with returned := some (-1) }
  | .interrupted => loopHead header body s
  | .failed => { s with returned := some (-1) }
  | .wrote n =>
      if n = 0 then { s with returned := some (-1) }
      else
        let r := iovecAdvance s.iov s.count n
        loopHead header body { s with
          iov := r.1
          count := r.2
          sent := s.sent + n
          guard := s.guard + 1
          socket := s.socket ++ (offered header body s).take n }

/-- A round, unless the function has returned. -/
def sendStep (s : Sending) (r : SendReply) : Sending :=
  if s.returned = none then sendRound header body s r else s

/-- `writev` takes no more than it is offered. -/
def InOffer (s : Sending) : SendReply → Prop
  | .wrote n => s.returned = none → n ≤ (offered header body s).length
  | _ => True

instance (s : Sending) : (r : SendReply) → Decidable (InOffer header body s r)
  | .noTimeout => isTrue trivial
  | .interrupted => isTrue trivial
  | .failed => isTrue trivial
  | .wrote n => inferInstanceAs (Decidable (s.returned = none → n ≤ (offered header body s).length))

/-! ## The invariant -/

/-- The header and the body. -/
def message : Bytes := header ++ body.getD []

theorem message_length : (message header body).length = total header body := by
  rw [message, total, List.length_append]
  split
  · rfl
  · omega

/-- What holds at every moment: the vector stands for the bytes that were not
    passed. -/
structure Exact (s : Sending) : Prop where
  vec : Vec (memory header body) s.iov s.count
  sent : s.sent ≤ total header body
  socket : s.socket = (message header body).take s.sent
  rest : offered header body s = (message header body).drop s.sent
  done : s.returned = some 0 ↔ s.sent = total header body

variable {header body}

theorem Exact.offered_length {s : Sending} (h : Exact header body s) :
    (offered header body s).length = total header body - s.sent := by
  rw [h.rest, List.length_drop, message_length]

/-- The return behind the loop says whether all was passed. -/
theorem exact_loopHead {s : Sending} (hvec : Vec (memory header body) s.iov s.count)
    (hsent : s.sent ≤ total header body) (hsocket : s.socket = (message header body).take s.sent)
    (hrest : offered header body s = (message header body).drop s.sent) (hrunning : s.returned = none) :
    Exact header body (loopHead header body s) := by
  rw [loopHead]
  split
  · -- the loop goes on, so there are bytes left
    rename_i hgo
    refine ⟨hvec, hsent, hsocket, hrest, ?_⟩
    rw [hrunning]
    constructor
    · intro h
      cases h
    · intro h
      omega
  · refine ⟨hvec, hsent, hsocket, hrest, ?_⟩
    show some (if s.sent = total header body then (0 : Int) else -1) = some 0 ↔ s.sent = total header body
    split
    · rename_i hall
      exact ⟨fun _ => hall, fun _ => rfl⟩
    · rename_i hsome
      constructor
      · intro h
        cases h
      · exact fun h => absurd h hsome

/-- A failure leaves everything as it is. -/
theorem Exact.fail {s : Sending} (h : Exact header body s) (hrunning : s.returned = none) :
    Exact header body { s with returned := some (-1) } := by
  refine ⟨h.vec, h.sent, h.socket, h.rest, ?_⟩
  constructor
  · intro hr
    cases hr
  · intro hall
    have hdone := h.done.mpr hall
    rw [hrunning] at hdone
    cases hdone

/-- **A round** passes the next bytes, or none. -/
theorem Exact.round {s : Sending} (h : Exact header body s) (hrunning : s.returned = none) {r : SendReply}
    (hr : InOffer header body s r) : Exact header body (sendRound header body s r) := by
  cases r with
  -- `errno` decides between an interruption, which is not counted, and a failure
  | noTimeout => exact h.fail hrunning
  | failed => exact h.fail hrunning
  | interrupted => exact exact_loopHead h.vec h.sent h.socket h.rest hrunning
  | wrote n =>
      rw [sendRound]
      split
      · exact h.fail hrunning
      · have hn : n ≤ (offered header body s).length := hr hrunning
        obtain ⟨hvec, hdata⟩ := iovecAdvance_spec h.vec n
        have hlen := h.offered_length
        have hsent := h.sent
        refine exact_loopHead hvec ?_ ?_ ?_ hrunning
        · show s.sent + n ≤ total header body
          omega
        · show s.socket ++ (offered header body s).take n = _
          rw [h.socket, h.rest, ← List.take_add]
        · refine hdata.trans ?_
          have hrest : gathered (memory header body) (s.iov.take s.count) = (message header body).drop s.sent :=
            h.rest
          rw [hrest, List.drop_drop]

/-- At the start there is everything to send. -/
theorem exact_start (hheader : header ≠ []) (deadline : Bool) :
    Exact header body (startSending header body deadline) := by
  have hpos : 0 < total header body := Nat.lt_of_lt_of_le (List.length_pos_of_ne_nil hheader) (Nat.le_add_right _ _)
  -- nothing has been passed yet: only the vector has to be right
  have hexact : ∀ (iov : List IoVec) (count : Nat), Vec (memory header body) iov count →
      gathered (memory header body) (iov.take count) = message header body →
      Exact header body { iov := iov, count := count } := by
    intro iov count hvec hdata
    refine ⟨hvec, Nat.zero_le _, rfl, hdata, ?_⟩
    constructor
    · intro h
      cases h
    · exact fun h => absurd h (Nat.ne_of_lt hpos)
  have hstart : ∀ s : Sending, Exact header body s → s.returned = none →
      Exact header body (if deadline then loopHead header body s else { s with returned := some (-1) }) := by
    intro s hs hrunning
    cases deadline with
    | false => exact hs.fail hrunning
    | true => exact exact_loopHead hs.vec hs.sent hs.socket hs.rest hrunning
  have hfirst : (⟨.header, 0, header.length⟩ : IoVec).Within (memory header body) := by
    show 0 + header.length ≤ header.length
    omega
  have hheaderData : (⟨.header, 0, header.length⟩ : IoVec).data (memory header body) = header := List.take_length
  unfold startSending
  dsimp only
  by_cases hbody : (body.getD []).length > 0
  · rw [if_pos hbody]
    refine hstart _ (hexact _ 2 ⟨rfl, Nat.le_refl 2, ?_⟩ ?_) rfl
    · have hsecond : (⟨.body, 0, (body.getD []).length⟩ : IoVec).Within (memory header body) := by
        show 0 + (body.getD []).length ≤ (body.getD []).length
        omega
      simp [hfirst, hsecond]
    · have hbodyData : (⟨.body, 0, (body.getD []).length⟩ : IoVec).data (memory header body) = body.getD [] :=
        List.take_length
      show Slice.data _ _ ++ (Slice.data _ _ ++ []) = _
      rw [hheaderData, hbodyData, List.append_nil, message]
  · -- without a body the second entry is not counted
    have hnone : body.getD [] = [] := List.length_eq_zero_iff.mp (Nat.eq_zero_of_not_pos hbody)
    rw [if_neg hbody]
    refine hstart _ (hexact _ 1 ⟨rfl, Nat.le_succ 1, ?_⟩ ?_) rfl
    · have hsecond : zeroVec.Within (memory header body) := Nat.le_refl 0
      simp [hfirst, hsecond]
    · show Slice.data _ _ ++ [] = _
      rw [hheaderData, message, hnone]

end Send

/-- **Partial writes never lose or repeat bytes.**  Whatever `writev` takes of what it is offered
    and whenever it is interrupted, at every moment the socket has been given the first
    `sent` bytes of header and body and the vector stands for the others; `0` is
    returned just when all of them were given. -/
theorem partial_writes_exact (header : Bytes) (hheader : header ≠ []) (body : Option Bytes) (deadline : Bool)
    (replies : List SendReply)
    (hreplies : EveryStep (sendStep header body) (InOffer header body) (startSending header body deadline)
      replies) :
    Always (sendStep header body)
      (fun s => s.sent ≤ (message header body).length
        ∧ s.socket = (message header body).take s.sent
        ∧ offered header body s = (message header body).drop s.sent
        ∧ (s.returned = some 0 ↔ s.socket = message header body))
      (startSending header body deadline) replies := by
  have hstep : ∀ s r, InOffer header body s r → Exact header body s →
      Exact header body (sendStep header body s r) := by
    intro s r hr hs
    rw [sendStep]
    split
    · exact hs.round ‹_› hr
    · exact hs
  refine (always_of_everyStep hstep (exact_start hheader deadline) hreplies).imp ?_
  intro s hs
  have hlen := message_length header body
  refine ⟨hs.sent.trans hlen.ge, hs.socket, hs.rest, hs.done.trans ?_⟩
  rw [hs.socket]
  constructor
  · intro hall
    rw [hall, ← hlen, List.take_length]
  · intro hall
    -- as many bytes as the message has are all of them
    have hsame := congrArg List.length hall
    have hsent := hs.sent
    rw [List.length_take] at hsame
    omega

/-- Three bytes and two, an interruption, a write over the end of the header and the
    last byte. -/
theorem partial_writes_exact_small :
    (after (sendStep (lit "abc") (some (lit "de"))) (startSending (lit "abc") (some (lit "de")) true)
      [.wrote 2, .interrupted, .wrote 2, .wrote 1]).socket = lit "abcde" := by
  let replies : List SendReply := [.wrote 2, .interrupted, .wrote 2, .wrote 1]
  have hreplies : EveryStep (sendStep (lit "abc") (some (lit "de"))) (InOffer (lit "abc") (some (lit "de")))
      (startSending (lit "abc") (some (lit "de")) true) replies := by decide
  have h := partial_writes_exact (lit "abc") (by decide) (some (lit "de")) true replies hreplies
  obtain ⟨-, -, -, hdone⟩ := (@Always.append _ _ _ _ replies [] _ h).head
  exact hdone.mp (by decide)

end PartialWrites
