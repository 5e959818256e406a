import Gargantua.Lib.Ring
import Gargantua.Lib.Runs
import Gargantua.ClientLimit

/-! # Connections between the threads (`src/server/server.c`, `server_worker.c`)

    The accepting thread counts a connection for its address and puts it into
    the ring; a worker takes it out, serves it, closes it and counts it down;
    when the accepting thread stops, it drains the ring and waits for the
    workers.  A step is one section under a lock, or what a thread does between
    two of them, so a run is any interleaving of the threads.

    Descriptors are numbers that the kernel hands out: `accept` returns one that
    is not open.  The histories in `Books` and `State` are not in the program;
    the theorems are about them. -/

namespace ServerConnections

open ClientLimit Ring Runs

/-- `SERVER_QUEUE`. -/
abbrev SERVER_QUEUE : Nat := 64

/-- `ConnQueue`.  `locked` says that `stop_workers` is draining it under the
    lock; every other section is one step. -/
structure ConnQueue where
  fds : Nat → Nat := fun _ => 0
  ips : Nat → Ip := fun _ => 0
  head : Nat := 0
  tail : Nat := 0
  count : Nat := 0
  stopping : Bool := false
  locked : Bool := false

/-- `queue_push`. -/
def queuePush (fd : Nat) (ip : Ip) (q : ConnQueue) : ConnQueue × Int :=
  if q.count < SERVER_QUEUE then
    ({ q with
        fds := Function.update q.fds q.tail fd
        ips := Function.update q.ips q.tail ip
        tail := (q.tail + 1) % SERVER_QUEUE
        count := q.count + 1 }, 0)
  else (q, -1)

/-- What `queue_pop` comes to, once it no longer waits. -/
inductive Popped where
  | waits
  | taken (fd : Nat) (ip : Ip) (q : ConnQueue)
  | stopped

/-- `queue_pop`, from a wake-up on. -/
def queuePop (q : ConnQueue) : Popped :=
  if q.count > 0 then
    .taken (q.fds q.head) (q.ips q.head)
      { q with head := (q.head + 1) % SERVER_QUEUE, count := q.count - 1 }
  else if q.stopping then .stopped
  else .waits

/-- Where a worker is in `worker_main`: at `queue_pop`, with a descriptor it has
    not announced yet, in `handle_connection`, between `close` and
    `client_limit`, or gone. -/
inductive WorkerPc where
  | popping
  | popped (fd : Nat)
  | serving (fd : Nat)
  | closed
  | ended
  deriving Repr, DecidableEq

/-- `Worker`: the address of its connection and its `socket`. -/
structure Worker where
  ip : Ip := 0
  socket : Option Nat := none
  pc : WorkerPc := .popping
  deriving Repr, DecidableEq

/-- Where the accepting thread is: in `accept_loop`, in `accept_one`, or in
    `stop_workers`. -/
inductive AcceptPc where
  | accepting
  | accepted (fd : Nat) (ip : Ip)
  | limited (fd : Nat) (ip : Ip)
  | full (fd : Nat) (ip : Ip)
  | refused (fd : Nat)
  | stopping
  | draining
  | drained (fd : Nat)
  | waiting
  | joining
  | returned
  deriving Repr, DecidableEq

/-- The client table and the kernel's open descriptors, with what has happened
    to them: the descriptors accepted and closed, the addresses counted and
    released, a `close` of a descriptor that was not open, and a release that
    found no clock. -/
structure Books where
  clients : List Client := emptyTable
  fds : List Nat := []
  accepted : List Nat := []
  closed : List Nat := []
  counted : List Ip := []
  released : List Ip := []
  misused : Bool := false
  clockFailed : Bool := false
  deriving Repr, DecidableEq

/-- The process.  `entered` and `left` are what has gone into the ring and come
    out of it, in order. -/
structure State where
  queue : ConnQueue := {}
  accept : AcceptPc := .accepting
  workers : List Worker
  books : Books := {}
  entered : List (Nat × Ip) := []
  left : List (Nat × Ip) := []

/-- `accept`, when it returns a descriptor. -/
def Books.accept (fd : Nat) (b : Books) : Books :=
  { b with fds := fd :: b.fds, accepted := b.accepted ++ [fd] }

/-- `close`. -/
def Books.close (fd : Nat) (b : Books) : Books :=
  if fd ∈ b.fds then { b with fds := b.fds.erase fd, closed := b.closed ++ [fd] }
  else { b with misused := true }

section Machine

/-! The limits are read once, before the threads start. -/

variable (perIp perMinute : Nat)

/-- `client_limit(ip, 1)`. -/
def Books.count (clock : Option Int) (ip : Ip) (b : Books) : Books × Bool :=
  let r := clientLimit perIp perMinute clock ip 1 b.clients
  if r.2 = 0 then ({ b with clients := r.1, counted := b.counted ++ [ip] }, true)
  else ({ b with clients := r.1 }, false)

/-- `client_limit(ip, -1)`. -/
def Books.release (clock : Option Int) (ip : Ip) (b : Books) : Books :=
  { b with
    clients := (clientLimit perIp perMinute clock ip (-1) b.clients).1
    released := b.released ++ [ip]
    clockFailed := b.clockFailed || clock.isNone }

/-- `client_limit(ip, 0)`. -/
def Books.request (clock : Option Int) (ip : Ip) (b : Books) : Books :=
  { b with clients := (clientLimit perIp perMinute clock ip 0 b.clients).1 }

/-- A step of the accepting thread. -/
inductive AcceptStep where
  | accept (fd : Nat) (ip : Ip)
  | nonblocking
  | limit (clock : Option Int)
  | push
  | unlimit (clock : Option Int)
  | reject
  | stop
  | lock
  | drainLimit (clock : Option Int)
  | drainClose
  | unlock
  | shutdown
  | join
  deriving Repr, DecidableEq

/-- The accepting thread: `accept_one` over and over, then `stop_workers`. -/
def acceptStep (s : State) : AcceptStep → Option State
  | .accept fd ip =>
      if s.accept = .accepting ∧ fd ∉ s.books.fds then
        some { s with accept := .accepted fd ip, books := s.books.accept fd }
      else none
  | .nonblocking =>
      match s.accept with
      | .accepted fd _ => some { s with accept := .accepting, books := s.books.close fd }
      | _ => none
  | .limit clock =>
      match s.accept with
      | .accepted fd ip =>
          match s.books.count perIp perMinute clock ip with
          | (books, true) => some { s with accept := .limited fd ip, books := books }
          | (books, false) => some { s with accept := .refused fd, books := books }
      | _ => none
  | .push =>
      match s.accept with
      | .limited fd ip =>
          if s.queue.locked then none
          else
            match queuePush fd ip s.queue with
            | (q, 0) =>
                some { s with queue := q, accept := .accepting,
                              entered := s.entered ++ [(fd, ip)] }
            | (q, _) => some { s with queue := q, accept := .full fd ip }
      | _ => none
  | .unlimit clock =>
      match s.accept with
      | .full fd ip =>
          some { s with accept := .refused fd,
                        books := s.books.release perIp perMinute clock ip }
      | _ => none
  | .reject =>
      match s.accept with
      | .refused fd => some { s with accept := .accepting, books := s.books.close fd }
      | _ => none
  | .stop => if s.accept = .accepting then some { s with accept := .stopping } else none
  | .lock =>
      if s.accept = .stopping then
        some { s with accept := .draining,
                      queue := { s.queue with stopping := true, locked := true } }
      else none
  | .drainLimit clock =>
      if s.accept = .draining ∧ s.queue.count > 0 then
        some { s with
          accept := .drained (s.queue.fds s.queue.head)
          books := s.books.release perIp perMinute clock (s.queue.ips s.queue.head) }
      else none
  | .drainClose =>
      match s.accept with
      | .drained fd =>
          some { s with
            accept := .draining
            books := s.books.close fd
            left := s.left ++ [(fd, s.queue.ips s.queue.head)]
            queue := { s.queue with head := (s.queue.head + 1) % SERVER_QUEUE,
                                    count := s.queue.count - 1 } }
      | _ => none
  | .unlock =>
      if s.accept = .draining ∧ s.queue.count = 0 then
        some { s with accept := .waiting, queue := { s.queue with locked := false } }
      else none
  | .shutdown => if s.accept = .waiting then some { s with accept := .joining } else none
  | .join =>
      if s.accept = .joining ∧ ∀ w ∈ s.workers, w.pc = .ended then
        some { s with accept := .returned }
      else none

/-- A step of a worker. -/
inductive WorkerStep where
  | pop
  | announce
  | request (clock : Option Int)
  | close
  | release (clock : Option Int)
  deriving Repr, DecidableEq

/-- A worker: `worker_main`.  While it serves, it may ask `client_limit` about
    each request. -/
def workerStep (i : Nat) (s : State) (e : WorkerStep) : Option State :=
  match s.workers[i]? with
  | none => none
  | some w =>
      match e, w.pc with
      | .pop, .popping =>
          if s.queue.locked then none
          else
            match queuePop s.queue with
            | .waits => none
            | .taken fd ip q =>
                some { s with
                  queue := q
                  left := s.left ++ [(fd, ip)]
                  workers := s.workers.set i { w with ip := ip, pc := .popped fd } }
            | .stopped => some { s with workers := s.workers.set i { w with pc := .ended } }
      | .announce, .popped fd =>
          if s.queue.locked then none
          else
            some { s with
              workers := s.workers.set i { w with socket := some fd, pc := .serving fd } }
      | .request clock, .serving _ =>
          some { s with books := s.books.request perIp perMinute clock w.ip }
      | .close, .serving fd =>
          if s.queue.locked then none
          else
            some { s with
              books := s.books.close fd
              workers := s.workers.set i { w with socket := none, pc := .closed } }
      | .release clock, .closed =>
          some { s with
            books := s.books.release perIp perMinute clock w.ip
            workers := s.workers.set i { w with pc := .popping } }
      | _, _ => none

/-- A step of one of the threads. -/
inductive Event where
  | accept (e : AcceptStep)
  | worker (i : Nat) (e : WorkerStep)
  deriving Repr, DecidableEq

def step (s : State) : Event → Option State
  | .accept e => acceptStep perIp perMinute s e
  | .worker i e => workerStep perIp perMinute i s e

end Machine

/-! ## The books -/

/-- The books are balanced: the open descriptors are `fds`, no two alike, and the
    connections counted are those of `ips`; everything accepted was closed once
    or is open, and everything counted was released once or is in `ips`. -/
structure Balanced (b : Books) (fds : List Nat) (ips : List Ip) : Prop where
  fds : b.fds.Perm fds
  nodup : b.fds.Nodup
  sound : b.misused = false
  closed : b.accepted.Perm (b.closed ++ b.fds)
  counted : b.counted.Perm (b.released ++ ips)
  table : WellFormed b.clients
  connections : b.clockFailed = false → ∀ ip, connectionsOf b.clients ip = ips.count ip

theorem Balanced.perm {b : Books} {fds fds' : List Nat} {ips ips' : List Ip}
    (h : Balanced b fds ips) (hfds : fds.Perm fds') (hips : ips.Perm ips') :
    Balanced b fds' ips' where
  fds := h.fds.trans hfds
  nodup := h.nodup
  sound := h.sound
  closed := h.closed
  counted := h.counted.trans (hips.append_left _)
  table := h.table
  connections hc ip := (h.connections hc ip).trans (hips.count_eq ip)

theorem Balanced.accept {b : Books} {fds : List Nat} {ips : List Ip} (h : Balanced b fds ips)
    {fd : Nat} (hfd : fd ∉ b.fds) : Balanced (b.accept fd) (fd :: fds) ips where
  fds := h.fds.cons fd
  nodup := List.nodup_cons.mpr ⟨hfd, h.nodup⟩
  sound := h.sound
  closed := by
    have hp : (b.accepted ++ [fd]).Perm (fd :: (b.closed ++ b.fds)) :=
      (List.perm_append_singleton fd _).trans (h.closed.cons fd)
    exact hp.trans List.perm_middle.symm
  counted := h.counted
  table := h.table
  connections := h.connections

theorem Balanced.close {b : Books} {fd : Nat} {fds : List Nat} {ips : List Ip}
    (h : Balanced b (fd :: fds) ips) : Balanced (b.close fd) fds ips := by
  have hmem : fd ∈ b.fds := h.fds.mem_iff.mpr List.mem_cons_self
  have hperm : b.fds.Perm (fd :: b.fds.erase fd) := List.perm_cons_erase hmem
  rw [Books.close, if_pos hmem]
  refine ⟨?_, h.nodup.erase fd, h.sound, ?_, h.counted, h.table, h.connections⟩
  · exact (List.perm_cons fd).mp (hperm.symm.trans h.fds)
  · rw [List.append_assoc]
    exact h.closed.trans (hperm.append_left _)

theorem clientLimit_none (perIp perMinute : Nat) (ip : Ip) (action : Int)
    (clients : List Client) :
    clientLimit perIp perMinute none ip action clients = (clients, -1) := rfl

theorem Balanced.count (perIp perMinute : Nat) {b : Books} {fds : List Nat} {ips : List Ip}
    (h : Balanced b fds ips) (clock : Option Int) (ip : Ip) :
    ((b.count perIp perMinute clock ip).2 = true
        ∧ Balanced (b.count perIp perMinute clock ip).1 fds (ip :: ips))
      ∨ ((b.count perIp perMinute clock ip).2 = false
        ∧ Balanced (b.count perIp perMinute clock ip).1 fds ips) := by
  unfold Books.count
  cases clock with
  | none => exact Or.inr ⟨rfl, h⟩
  | some now =>
      obtain ⟨hd, heff⟩ := clientLimit_spec perIp perMinute now ip 1 h.table
      dsimp only
      by_cases hr : (clientLimit perIp perMinute (some now) ip 1 b.clients).2 = 0
      · rw [if_pos hr]
        refine Or.inl ⟨rfl, h.fds, h.nodup, h.sound, h.closed, ?_, hd, fun hc ip' => ?_⟩
        · have hp : (b.counted ++ [ip]).Perm (ip :: (b.released ++ ips)) :=
            (List.perm_append_singleton ip _).trans (h.counted.cons ip)
          exact hp.trans List.perm_middle.symm
        · rw [heff ip', List.count_cons, h.connections hc, h.connections hc]
          by_cases hip : ip' = ip
          · rw [if_pos hip, if_neg (by decide), if_pos ⟨rfl, hr⟩, hip, if_pos (beq_self_eq_true ip)]
          · rw [if_neg hip, if_neg (by simpa using Ne.symm hip)]
            rfl
      · rw [if_neg hr]
        refine Or.inr ⟨rfl, h.fds, h.nodup, h.sound, h.closed, h.counted, hd, fun hc ip' => ?_⟩
        rw [heff ip', h.connections hc, h.connections hc]
        by_cases hip : ip' = ip
        · rw [if_pos hip, if_neg (by decide), if_neg fun hc => hr hc.2, hip]
        · rw [if_neg hip]

theorem Balanced.release {perIp perMinute : Nat} {b : Books} {fds : List Nat} {ip : Ip}
    {ips : List Ip} (h : Balanced b fds (ip :: ips)) (clock : Option Int) :
    Balanced (b.release perIp perMinute clock ip) fds ips := by
  have hcounted : b.counted.Perm ((b.released ++ [ip]) ++ ips) := by
    rw [List.append_assoc]
    exact h.counted
  cases clock with
  | none =>
      refine ⟨h.fds, h.nodup, h.sound, h.closed, hcounted, h.table, fun hc => ?_⟩
      have hcl : (b.clockFailed || true) = false := hc
      rw [Bool.or_true] at hcl
      exact nomatch hcl
  | some now =>
      obtain ⟨hd, heff⟩ := clientLimit_spec perIp perMinute now ip (-1) h.table
      refine ⟨h.fds, h.nodup, h.sound, h.closed, hcounted, hd, fun hc ip' => ?_⟩
      have hcl : b.clockFailed = false := by
        have hor : (b.clockFailed || false) = false := hc
        rwa [Bool.or_false] at hor
      show connectionsOf (clientLimit perIp perMinute (some now) ip (-1) b.clients).1 ip' = _
      rw [heff ip', h.connections hcl, h.connections hcl, List.count_cons, List.count_cons]
      by_cases hip : ip' = ip
      · rw [if_pos hip, if_pos rfl, hip, if_pos (beq_self_eq_true ip), Nat.add_sub_cancel]
      · rw [if_neg hip, if_neg (by simpa using Ne.symm hip), Nat.add_zero]

theorem Balanced.request {perIp perMinute : Nat} {b : Books} {fds : List Nat} {ips : List Ip}
    (h : Balanced b fds ips) (clock : Option Int) (ip : Ip) :
    Balanced (b.request perIp perMinute clock ip) fds ips := by
  cases clock with
  | none => exact h
  | some now =>
      obtain ⟨hd, heff⟩ := clientLimit_spec perIp perMinute now ip 0 h.table
      refine ⟨h.fds, h.nodup, h.sound, h.closed, h.counted, hd, fun hc ip' => ?_⟩
      show connectionsOf (clientLimit perIp perMinute (some now) ip 0 b.clients).1 ip' = _
      rw [heff ip', h.connections hc, h.connections hc]
      by_cases hip : ip' = ip
      · rw [if_pos hip, if_neg (by decide), if_neg fun hc => (nomatch hc.1), hip]
      · rw [if_neg hip]

/-! ## Who holds what -/

/-- The ring's contents, oldest first. -/
def ringItems (q : ConnQueue) : List (Nat × Ip) :=
  contents (fun i => (q.fds i, q.ips i)) SERVER_QUEUE q.head q.count

/-- The descriptor in the hands of the accepting thread; one that it is draining
    is still in the ring. -/
def acceptFds : AcceptPc → List Nat
  | .accepted fd _ => [fd]
  | .limited fd _ => [fd]
  | .full fd _ => [fd]
  | .refused fd => [fd]
  | _ => []

/-- The address it has counted, outside the ring. -/
def acceptIps : AcceptPc → List Ip
  | .limited _ ip => [ip]
  | .full _ ip => [ip]
  | _ => []

/-- The descriptor of a worker. -/
def workerFds (w : Worker) : List Nat :=
  match w.pc with
  | .popped fd => [fd]
  | .serving fd => [fd]
  | _ => []

/-- The address a worker has to release. -/
def workerIps (w : Worker) : List Ip :=
  match w.pc with
  | .popped _ => [w.ip]
  | .serving _ => [w.ip]
  | .closed => [w.ip]
  | _ => []

/-- The counted addresses in the ring: not the one that is being drained. -/
def ringIps (pc : AcceptPc) (q : ConnQueue) : List Ip :=
  match pc with
  | .drained _ => ((ringItems q).map Prod.snd).tail
  | _ => (ringItems q).map Prod.snd

/-- Every descriptor that somebody holds. -/
def heldFds (s : State) : List Nat :=
  acceptFds s.accept ++ ((ringItems s.queue).map Prod.fst ++ held workerFds s.workers)

/-- Every address that somebody still has to release. -/
def heldIps (s : State) : List Ip :=
  acceptIps s.accept ++ (ringIps s.accept s.queue ++ held workerIps s.workers)

/-- `stop_workers` is draining, with the queue locked. -/
def AcceptPc.drains : AcceptPc → Bool
  | .draining => true
  | .drained _ => true
  | _ => false

/-- The queue has been drained. -/
def AcceptPc.stopped : AcceptPc → Bool
  | .waiting => true
  | .joining => true
  | .returned => true
  | _ => false

/-- The indices of the ring, and its contents as a queue. -/
structure RingInv (s : State) : Prop where
  count : s.queue.count ≤ SERVER_QUEUE
  head : s.queue.head < SERVER_QUEUE
  tail : s.queue.tail = (s.queue.head + s.queue.count) % SERVER_QUEUE
  fifo : s.entered = s.left ++ ringItems s.queue

/-- What every step keeps. -/
structure Inv (s : State) : Prop where
  ring : RingInv s
  books : Balanced s.books (heldFds s) (heldIps s)
  locked : s.queue.locked = s.accept.drains
  drained : ∀ fd, s.accept = .drained fd → 0 < s.queue.count ∧ fd = s.queue.fds s.queue.head
  empty : s.accept.stopped = true → s.queue.count = 0
  ended : s.accept = .returned → ∀ w ∈ s.workers, w.pc = .ended

/-- The oldest element of the ring stands at its head. -/
theorem ringItems_cons {q : ConnQueue} (hhead : q.head < SERVER_QUEUE) (hcount : 0 < q.count) :
    ringItems q = (q.fds q.head, q.ips q.head)
      :: ringItems { q with head := (q.head + 1) % SERVER_QUEUE, count := q.count - 1 } := by
  obtain ⟨n, hn⟩ : ∃ n, q.count = n + 1 := ⟨q.count - 1, by omega⟩
  rw [ringItems, ringItems, hn, contents_pop, Nat.mod_eq_of_lt hhead]
  rfl

/-- The oldest connection leaves the ring. -/
theorem RingInv.pop {s s' : State} (h : RingInv s) (hcount : 0 < s.queue.count)
    (hqueue : s'.queue = { s.queue with
      head := (s.queue.head + 1) % SERVER_QUEUE
      count := s.queue.count - 1 })
    (hleft : s'.left = s.left ++ [(s.queue.fds s.queue.head, s.queue.ips s.queue.head)])
    (hentered : s'.entered = s.entered) : RingInv s' := by
  constructor
  · rw [hqueue]
    exact Nat.le_trans (Nat.sub_le _ _) h.count
  · rw [hqueue]
    exact Nat.mod_lt _ (by decide)
  · rw [hqueue, h.tail]
    refine Eq.trans ?_ (tail_pop SERVER_QUEUE s.queue.head (s.queue.count - 1)).symm
    rw [Nat.sub_add_cancel hcount]
  · rw [hentered, hleft, hqueue, h.fifo, ringItems_cons h.head hcount, List.append_assoc]
    rfl

theorem ringItems_nil {q : ConnQueue} (h : q.count = 0) : ringItems q = [] := by
  rw [ringItems, h]
  rfl

theorem ringIps_of_not_drains {pc : AcceptPc} (h : pc.drains = false) (q : ConnQueue) :
    ringIps pc q = (ringItems q).map Prod.snd := by
  cases pc <;> first | rfl | exact nomatch h

/-- A connection goes to the end of the ring. -/
theorem ringItems_push {q : ConnQueue} (htail : q.tail = (q.head + q.count) % SERVER_QUEUE)
    (hfull : q.count < SERVER_QUEUE) (fd : Nat) (ip : Ip) :
    ringItems { q with
        fds := Function.update q.fds q.tail fd
        ips := Function.update q.ips q.tail ip
        tail := (q.tail + 1) % SERVER_QUEUE
        count := q.count + 1 } = ringItems q ++ [(fd, ip)] := by
  have hcells : (fun i => (Function.update q.fds q.tail fd i, Function.update q.ips q.tail ip i))
      = Function.update (fun i => (q.fds i, q.ips i)) ((q.head + q.count) % SERVER_QUEUE) (fd, ip) := by
    rw [← htail]
    funext i
    by_cases hi : i = q.tail
    · rw [hi, Function.update_self, Function.update_self, Function.update_self]
    · rw [Function.update_of_ne hi, Function.update_of_ne hi, Function.update_of_ne hi]
  rw [ringItems, hcells]
  exact contents_push hfull (fd, ip)

/-- Outside the drain no element of the ring is held twice. -/
theorem Inv.balanced {s : State} (h : Inv s) (hs : s.accept.drains = false) :
    Balanced s.books
      (acceptFds s.accept ++ ((ringItems s.queue).map Prod.fst ++ held workerFds s.workers))
      (acceptIps s.accept ++ ((ringItems s.queue).map Prod.snd ++ held workerIps s.workers)) := by
  have hb := h.books
  rw [heldIps, ringIps_of_not_drains hs] at hb
  exact hb

/-- The accepting thread moves between places outside the drain, and the books
    follow. -/
theorem Inv.move {s : State} (h : Inv s) {pc pc' : AcceptPc} {b : Books} (hpc : s.accept = pc)
    (hs : pc.drains = false) (hs' : pc'.drains = false) (hstop : pc'.stopped = pc.stopped)
    (hret : pc' ≠ .returned)
    (hb : ∀ fds ips, Balanced s.books (acceptFds pc ++ fds) (acceptIps pc ++ ips) →
      Balanced b (acceptFds pc' ++ fds) (acceptIps pc' ++ ips)) :
    Inv { s with accept := pc', books := b } := by
  subst hpc
  refine ⟨⟨h.ring.count, h.ring.head, h.ring.tail, h.ring.fifo⟩, ?_, ?_, ?_, ?_, ?_⟩
  · show Balanced b _ (acceptIps pc' ++ (ringIps pc' s.queue ++ held workerIps s.workers))
    rw [ringIps_of_not_drains hs']
    exact hb _ _ (h.balanced hs)
  · exact h.locked.trans (hs.trans hs'.symm)
  · intro fd hfd
    have hd : pc' = .drained fd := hfd
    rw [hd] at hs'
    exact nomatch hs'
  · exact fun hst => h.empty (hstop.symm.trans hst)
  · exact fun hr => absurd hr hret

/-! ## The accepting thread -/

/-- A connection moves from the accepting thread to the end of the ring. -/
theorem Inv.push {s : State} {fd : Nat} {ip : Ip} (h : Inv s) (hpc : s.accept = .limited fd ip)
    (hfull : s.queue.count < SERVER_QUEUE) :
    Inv { s with
      queue := { s.queue with
        fds := Function.update s.queue.fds s.queue.tail fd
        ips := Function.update s.queue.ips s.queue.tail ip
        tail := (s.queue.tail + 1) % SERVER_QUEUE
        count := s.queue.count + 1 }
      accept := .accepting
      entered := s.entered ++ [(fd, ip)] } := by
  have hb := h.balanced (by rw [hpc]; rfl)
  rw [hpc] at hb
  have hring := ringItems_push h.ring.tail hfull fd ip
  refine ⟨⟨hfull, h.ring.head, ?_, ?_⟩, ?_, ?_, fun fd' hfd => (nomatch hfd),
    fun hs => (nomatch hs), fun hs => (nomatch hs)⟩
  · show (s.queue.tail + 1) % SERVER_QUEUE = _
    rw [h.ring.tail]
    exact tail_push SERVER_QUEUE s.queue.head s.queue.count
  · show s.entered ++ [(fd, ip)] = s.left ++ ringItems _
    rw [hring, h.ring.fifo, List.append_assoc]
  · -- the element moves from the thread to the end of the ring
    show Balanced s.books ([] ++ ((ringItems _).map Prod.fst ++ held workerFds s.workers))
      ([] ++ ((ringItems _).map Prod.snd ++ held workerIps s.workers))
    rw [hring, List.map_append, List.map_append, List.append_assoc, List.append_assoc]
    refine hb.perm ?_ ?_
    · show (fd :: ((ringItems s.queue).map Prod.fst ++ held workerFds s.workers)).Perm _
      exact List.perm_middle.symm
    · show (ip :: ((ringItems s.queue).map Prod.snd ++ held workerIps s.workers)).Perm _
      exact List.perm_middle.symm
  · exact h.locked.trans (by rw [hpc]; rfl)

/-- The oldest connection of the ring is no longer counted. -/
theorem Inv.drainLimit {s : State} (h : Inv s) (hpc : s.accept = .draining) (hcount : 0 < s.queue.count)
    {perIp perMinute : Nat} (clock : Option Int) :
    Inv { s with
      accept := .drained (s.queue.fds s.queue.head)
      books := s.books.release perIp perMinute clock (s.queue.ips s.queue.head) } := by
  have hcons := ringItems_cons h.ring.head hcount
  refine ⟨⟨h.ring.count, h.ring.head, h.ring.tail, h.ring.fifo⟩, ?_, ?_, ?_,
    fun hs => (nomatch hs), fun hs => (nomatch hs)⟩
  · have hb : Balanced s.books
        ([] ++ ((ringItems s.queue).map Prod.fst ++ held workerFds s.workers))
        ([] ++ ((ringItems s.queue).map Prod.snd ++ held workerIps s.workers)) := by
      have hbooks := h.books
      rw [heldFds, heldIps, hpc] at hbooks
      exact hbooks
    show Balanced _ ([] ++ ((ringItems s.queue).map Prod.fst ++ held workerFds s.workers))
      ([] ++ (((ringItems s.queue).map Prod.snd).tail ++ held workerIps s.workers))
    rw [hcons] at hb ⊢
    exact Balanced.release hb clock
  · exact h.locked.trans (by rw [hpc]; rfl)
  · intro fd hfd
    exact ⟨hcount, (AcceptPc.drained.inj hfd).symm⟩

/-- The oldest connection of the ring is closed, and leaves it. -/
theorem Inv.drainClose {s : State} {fd : Nat} (h : Inv s) (hpc : s.accept = .drained fd) :
    Inv { s with
      accept := .draining
      books := s.books.close fd
      left := s.left ++ [(fd, s.queue.ips s.queue.head)]
      queue := { s.queue with
        head := (s.queue.head + 1) % SERVER_QUEUE
        count := s.queue.count - 1 } } := by
  obtain ⟨hcount, rfl⟩ := h.drained fd hpc
  have hcons := ringItems_cons h.ring.head hcount
  refine ⟨h.ring.pop hcount rfl rfl rfl, ?_, ?_, fun fd' hfd => (nomatch hfd),
    fun hs => (nomatch hs), fun hs => (nomatch hs)⟩
  · have hb : Balanced s.books
        ([] ++ ((ringItems s.queue).map Prod.fst ++ held workerFds s.workers))
        ([] ++ (((ringItems s.queue).map Prod.snd).tail ++ held workerIps s.workers)) := by
      have hbooks := h.books
      rw [heldFds, heldIps, hpc] at hbooks
      exact hbooks
    rw [hcons] at hb
    exact Balanced.close hb
  · exact h.locked.trans (by rw [hpc]; rfl)

theorem acceptStep_inv {perIp perMinute : Nat} {s s' : State} {e : AcceptStep}
    (h : Inv s) (hstep : acceptStep perIp perMinute s e = some s') : Inv s' := by
  cases e with
  | accept fd ip =>
      rw [acceptStep] at hstep
      split_ifs at hstep with hc
      obtain rfl := Option.some.inj hstep
      exact h.move hc.1 rfl rfl rfl (fun hs => nomatch hs) fun _ _ hb => hb.accept hc.2
  | nonblocking =>
      rw [acceptStep] at hstep
      split at hstep
      · rename_i fd ip hpc
        obtain rfl := Option.some.inj hstep
        exact h.move hpc rfl rfl rfl (fun hs => nomatch hs) fun _ _ hb => hb.close
      · exact nomatch hstep
  | limit clock =>
      rw [acceptStep] at hstep
      split at hstep
      · rename_i fd ip hpc
        have hcount := fun fds ips (hb : Balanced s.books (fd :: fds) ips) =>
          Balanced.count perIp perMinute hb clock ip
        revert hcount hstep
        generalize s.books.count perIp perMinute clock ip = r
        obtain ⟨b, ok⟩ := r
        intro hstep hcount
        -- counted, or refused and nothing counted
        cases ok with
        | true =>
            obtain rfl := Option.some.inj hstep
            refine h.move hpc rfl rfl rfl (fun hs => nomatch hs) fun fds ips hb => ?_
            rcases hcount fds ips hb with ⟨-, hb'⟩ | ⟨hno, -⟩
            · exact hb'
            · exact nomatch hno
        | false =>
            obtain rfl := Option.some.inj hstep
            refine h.move hpc rfl rfl rfl (fun hs => nomatch hs) fun fds ips hb => ?_
            rcases hcount fds ips hb with ⟨hno, -⟩ | ⟨-, hb'⟩
            · exact nomatch hno
            · exact hb'
      · exact nomatch hstep
  | push =>
      rw [acceptStep] at hstep
      split at hstep
      · rename_i fd ip hpc
        split_ifs at hstep with hlocked
        by_cases hfull : s.queue.count < SERVER_QUEUE
        · rw [queuePush, if_pos hfull] at hstep
          obtain rfl := Option.some.inj hstep
          exact h.push hpc hfull
        · rw [queuePush, if_neg hfull] at hstep
          obtain rfl := Option.some.inj hstep
          exact h.move hpc rfl rfl rfl (fun hs => nomatch hs) fun _ _ hb => hb
      · exact nomatch hstep
  | unlimit clock =>
      rw [acceptStep] at hstep
      split at hstep
      · rename_i fd ip hpc
        obtain rfl := Option.some.inj hstep
        exact h.move hpc rfl rfl rfl (fun hs => nomatch hs) fun _ _ hb => hb.release clock
      · exact nomatch hstep
  | reject =>
      rw [acceptStep] at hstep
      split at hstep
      · rename_i fd hpc
        obtain rfl := Option.some.inj hstep
        exact h.move hpc rfl rfl rfl (fun hs => nomatch hs) fun _ _ hb => hb.close
      · exact nomatch hstep
  | stop =>
      rw [acceptStep] at hstep
      split_ifs at hstep with hpc
      obtain rfl := Option.some.inj hstep
      exact h.move hpc rfl rfl rfl (fun hs => nomatch hs) fun _ _ hb => hb
  | lock =>
      rw [acceptStep] at hstep
      split_ifs at hstep with hpc
      obtain rfl := Option.some.inj hstep
      have hb := h.balanced (by rw [hpc]; rfl)
      rw [hpc] at hb
      exact ⟨⟨h.ring.count, h.ring.head, h.ring.tail, h.ring.fifo⟩, hb, rfl,
        fun fd hfd => (nomatch hfd), fun hs => (nomatch hs), fun hs => (nomatch hs)⟩
  | drainLimit clock =>
      rw [acceptStep] at hstep
      split_ifs at hstep with hc
      obtain ⟨hpc, hcount⟩ := hc
      obtain rfl := Option.some.inj hstep
      exact h.drainLimit hpc hcount clock
  | drainClose =>
      rw [acceptStep] at hstep
      split at hstep
      · rename_i fd hpc
        obtain rfl := Option.some.inj hstep
        exact h.drainClose hpc
      · exact nomatch hstep
  | unlock =>
      rw [acceptStep] at hstep
      split_ifs at hstep with hc
      obtain ⟨hpc, hcount⟩ := hc
      obtain rfl := Option.some.inj hstep
      have hb := h.books
      rw [heldFds, heldIps, hpc] at hb
      exact ⟨⟨h.ring.count, h.ring.head, h.ring.tail, h.ring.fifo⟩, hb, rfl,
        fun fd hfd => (nomatch hfd), fun _ => hcount, fun hs => (nomatch hs)⟩
  | shutdown =>
      rw [acceptStep] at hstep
      split_ifs at hstep with hpc
      obtain rfl := Option.some.inj hstep
      exact h.move hpc rfl rfl rfl (fun hs => nomatch hs) fun _ _ hb => hb
  | join =>
      rw [acceptStep] at hstep
      split_ifs at hstep with hc
      obtain ⟨hpc, hended⟩ := hc
      obtain rfl := Option.some.inj hstep
      have hb := h.books
      rw [heldFds, heldIps, hpc] at hb
      exact ⟨⟨h.ring.count, h.ring.head, h.ring.tail, h.ring.fifo⟩, hb,
        h.locked.trans (by rw [hpc]; rfl), fun fd hfd => (nomatch hfd),
        fun _ => h.empty (by rw [hpc]; rfl), fun _ => hended⟩

/-! ## The workers -/

/-- A worker changes what it holds, and the books follow. -/
theorem Inv.work {s : State} (h : Inv s) {i : Nat} {w w' : Worker} {b : Books}
    (hw : s.workers[i]? = some w) (hend : w.pc ≠ .ended)
    (hb : ∀ fds ips, Balanced s.books (workerFds w ++ fds) (workerIps w ++ ips) →
      Balanced b (workerFds w' ++ fds) (workerIps w' ++ ips)) :
    Inv { s with books := b, workers := s.workers.set i w' } := by
  refine ⟨⟨h.ring.count, h.ring.head, h.ring.tail, h.ring.fifo⟩, ?_, h.locked, h.drained,
    h.empty, fun hr => absurd (h.ended hr w (List.mem_of_getElem? hw)) hend⟩
  have hbooks := h.books.perm (front_perm hw) (front_perm hw)
  exact (hb _ _ hbooks).perm (front_perm_set hw w').symm (front_perm_set hw w').symm

/-- What a worker that holds nothing takes from the ring stays accounted for. -/
theorem taken_perm {α : Type} {f : Worker → List α} {workers : List Worker} {i : Nat}
    {w w' : Worker} {a r : List α} {x : α} (hw : workers[i]? = some w) (hnone : f w = [])
    (hone : f w' = [x]) :
    (a ++ (x :: r ++ held f workers)).Perm (a ++ (r ++ held f (workers.set i w'))) := by
  have hold : (a ++ (r ++ held f workers)).Perm (a ++ (r ++ held f (workers.eraseIdx i))) := by
    have hfront := front_perm (f := f) (a := a) (r := r) hw
    rw [hnone] at hfront
    exact hfront
  have hnew := front_perm_set (f := f) (a := a) (r := r) hw w'
  rw [hone] at hnew
  exact List.perm_middle.trans ((hold.cons x).trans hnew.symm)

/-- The oldest connection of the ring goes to a worker. -/
theorem Inv.take {s : State} (h : Inv s) {i : Nat} {w : Worker} (hw : s.workers[i]? = some w)
    (hpc : w.pc = .popping) (hdrains : s.accept.drains = false) (hcount : 0 < s.queue.count) :
    Inv { s with
      queue := { s.queue with
        head := (s.queue.head + 1) % SERVER_QUEUE
        count := s.queue.count - 1 }
      left := s.left ++ [(s.queue.fds s.queue.head, s.queue.ips s.queue.head)]
      workers := s.workers.set i
        { w with ip := s.queue.ips s.queue.head, pc := .popped (s.queue.fds s.queue.head) } } := by
  have hcons := ringItems_cons h.ring.head hcount
  refine ⟨h.ring.pop hcount rfl rfl rfl, ?_, h.locked, ?_, ?_, ?_⟩
  · have hb := h.balanced hdrains
    rw [hcons] at hb
    have hfds : workerFds w = [] := by rw [workerFds, hpc]
    have hips : workerIps w = [] := by rw [workerIps, hpc]
    show Balanced s.books _ (acceptIps s.accept ++ (ringIps s.accept _ ++ _))
    rw [ringIps_of_not_drains hdrains]
    exact hb.perm (taken_perm hw hfds rfl) (taken_perm hw hips rfl)
  · intro fd hfd
    rw [hfd] at hdrains
    exact nomatch hdrains
  · intro hs
    have h0 := h.empty hs
    omega
  · intro hr
    have hended := h.ended hr w (List.mem_of_getElem? hw)
    exact nomatch hpc.symm.trans hended

theorem workerStep_inv {perIp perMinute : Nat} {i : Nat} {s s' : State} {e : WorkerStep}
    (h : Inv s) (hstep : workerStep perIp perMinute i s e = some s') : Inv s' := by
  unfold workerStep at hstep
  cases hw : s.workers[i]? with
  | none =>
      rw [hw] at hstep
      exact nomatch hstep
  | some w =>
      rw [hw] at hstep
      dsimp only at hstep
      have hnot : ∀ {pc}, w.pc = pc → pc ≠ .ended → w.pc ≠ .ended :=
        fun heq hne => heq ▸ hne
      split at hstep
      · rename_i hpc
        split_ifs at hstep with hlocked
        have hdrains : s.accept.drains = false :=
          h.locked.symm.trans (Bool.not_eq_true _ ▸ hlocked)
        rw [queuePop] at hstep
        split_ifs at hstep with hcount hstopping
        · obtain rfl := Option.some.inj hstep
          exact h.take hw hpc hdrains hcount
        · obtain rfl := Option.some.inj hstep
          refine h.work (b := s.books) hw (hnot hpc (fun hc => nomatch hc)) fun fds ips hb => ?_
          rw [workerFds, workerIps, hpc] at hb
          exact hb
      · rename_i fd hpc
        split_ifs at hstep with hlocked
        obtain rfl := Option.some.inj hstep
        refine h.work (b := s.books) hw (hnot hpc (fun hc => nomatch hc)) fun fds ips hb => ?_
        rw [workerFds, workerIps, hpc] at hb
        exact hb
      · rename_i clock fd hpc
        obtain rfl := Option.some.inj hstep
        exact ⟨⟨h.ring.count, h.ring.head, h.ring.tail, h.ring.fifo⟩,
          h.books.request clock w.ip, h.locked, h.drained, h.empty, h.ended⟩
      · rename_i fd hpc
        split_ifs at hstep with hlocked
        obtain rfl := Option.some.inj hstep
        refine h.work hw (hnot hpc (fun hc => nomatch hc)) fun fds ips hb => ?_
        rw [workerFds, workerIps, hpc] at hb
        exact Balanced.close hb
      · rename_i clock hpc
        obtain rfl := Option.some.inj hstep
        refine h.work hw (hnot hpc (fun hc => nomatch hc)) fun fds ips hb => ?_
        rw [workerFds, workerIps, hpc] at hb
        exact Balanced.release hb clock
      · exact nomatch hstep

theorem step_preserves_inv (perIp perMinute : Nat) : Preserves (step perIp perMinute) Inv := by
  intro s s' e hstep h
  cases e with
  | accept e => exact acceptStep_inv h hstep
  | worker i e => exact workerStep_inv h hstep

/-! ## Runs -/

/-- A server that starts: the ring is empty, and `n` workers wait at it. -/
def start (n : Nat) : State := { workers := List.replicate n {} }

/-- A worker that waits holds nothing. -/
theorem held_start {α : Type} {f : Worker → List α} (hf : f {} = []) (n : Nat) :
    held f (List.replicate n {}) = [] := by
  induction n with
  | zero => rfl
  | succ n ih =>
      rw [List.replicate_succ, held, List.flatMap_cons, hf, List.nil_append]
      exact ih

theorem start_inv (n : Nat) : Inv (start n) where
  ring := ⟨Nat.zero_le _, Nat.zero_lt_succ _, rfl, rfl⟩
  books := by
    have hfds : heldFds (start n) = [] := held_start rfl n
    have hips : heldIps (start n) = [] := held_start rfl n
    rw [hfds, hips]
    exact ⟨List.Perm.refl _, List.nodup_nil, rfl, List.Perm.refl _, List.Perm.refl _,
      emptyTable_wellFormed, fun _ ip => emptyTable_connections ip⟩
  locked := rfl
  drained fd h := nomatch h
  empty h := nomatch h
  ended h := nomatch h

/-- `clock_gettime` succeeds wherever the event reads the clock. -/
def Event.clockRuns : Event → Bool
  | .accept (.limit clock) => clock.isSome
  | .accept (.unlimit clock) => clock.isSome
  | .accept (.drainLimit clock) => clock.isSome
  | .worker _ (.request clock) => clock.isSome
  | .worker _ (.release clock) => clock.isSome
  | _ => true

/-- The books after a step record no failed release. -/
def Timed (s : State) : Prop := s.books.clockFailed = false

theorem Books.close_clockFailed (fd : Nat) (b : Books) :
    (b.close fd).clockFailed = b.clockFailed := by
  rw [Books.close]
  split <;> rfl

theorem Books.count_clockFailed (perIp perMinute : Nat) (clock : Option Int) (ip : Ip)
    (b : Books) : (b.count perIp perMinute clock ip).1.clockFailed = b.clockFailed := by
  unfold Books.count
  dsimp only
  split <;> rfl

theorem Books.release_clockFailed (perIp perMinute : Nat) {clock : Option Int}
    (hclock : clock.isSome = true) (ip : Ip) (b : Books) :
    (b.release perIp perMinute clock ip).clockFailed = b.clockFailed := by
  cases clock with
  | none => exact nomatch hclock
  | some now => exact Bool.or_false b.clockFailed

theorem acceptStep_timed {perIp perMinute : Nat} {s s' : State} {e : AcceptStep}
    (he : (Event.accept e).clockRuns = true)
    (hstep : acceptStep perIp perMinute s e = some s') (h : Timed s) : Timed s' := by
  cases e <;> rw [acceptStep] at hstep
  case limit clock =>
    split at hstep
    · rename_i fd ip hpc
      have hcount := s.books.count_clockFailed perIp perMinute clock ip
      revert hcount hstep
      generalize s.books.count perIp perMinute clock ip = r
      obtain ⟨b, ok⟩ := r
      intro hstep hcount
      cases ok <;> obtain rfl := Option.some.inj hstep <;> exact hcount.trans h
    · exact nomatch hstep
  case push =>
    split at hstep
    · split_ifs at hstep
      split at hstep <;> obtain rfl := Option.some.inj hstep <;> exact h
    · exact nomatch hstep
  case unlimit clock =>
    split at hstep
    · obtain rfl := Option.some.inj hstep
      exact (Books.release_clockFailed perIp perMinute he _ s.books).trans h
    · exact nomatch hstep
  case drainLimit clock =>
    split_ifs at hstep
    obtain rfl := Option.some.inj hstep
    exact (Books.release_clockFailed perIp perMinute he _ s.books).trans h
  case nonblocking | reject | drainClose =>
    split at hstep
    · obtain rfl := Option.some.inj hstep
      exact (Books.close_clockFailed _ s.books).trans h
    · exact nomatch hstep
  all_goals
    split_ifs at hstep
    obtain rfl := Option.some.inj hstep
    exact h

theorem workerStep_timed {perIp perMinute : Nat} {i : Nat} {s s' : State} {e : WorkerStep}
    (he : (Event.worker i e).clockRuns = true)
    (hstep : workerStep perIp perMinute i s e = some s') (h : Timed s) : Timed s' := by
  unfold workerStep at hstep
  split at hstep
  · exact nomatch hstep
  · split at hstep
    · split_ifs at hstep
      split at hstep
      · exact nomatch hstep
      · obtain rfl := Option.some.inj hstep
        exact h
      · obtain rfl := Option.some.inj hstep
        exact h
    · split_ifs at hstep
      obtain rfl := Option.some.inj hstep
      exact h
    · obtain rfl := Option.some.inj hstep
      exact h
    · split_ifs at hstep
      obtain rfl := Option.some.inj hstep
      exact (Books.close_clockFailed _ s.books).trans h
    · obtain rfl := Option.some.inj hstep
      exact (Books.release_clockFailed perIp perMinute he _ s.books).trans h
    · exact nomatch hstep

theorem run_timed {perIp perMinute n : Nat} {es : List Event} {s : State}
    (hclock : ∀ e ∈ es, e.clockRuns = true)
    (h : run (step perIp perMinute) (start n) es = some s) : Timed s := by
  have hstep : ∀ {s s' : State} {e : Event}, e.clockRuns = true →
      step perIp perMinute s e = some s' → Timed s → Timed s' := by
    intro s s' e he hstep hs
    cases e with
    | accept e => exact acceptStep_timed he hstep hs
    | worker i e => exact workerStep_timed he hstep hs
  exact run_preserves_of hstep hclock h rfl

/-! ## Conservation -/

/-- What holds in every state: the ring is a ring and a queue, nothing is closed
    that is not open, every accepted descriptor was closed once or is in exactly
    one place, and every address counted was released once or is still owed. -/
structure Conserved (s : State) : Prop where
  count : s.queue.count ≤ SERVER_QUEUE
  tail : s.queue.tail = (s.queue.head + s.queue.count) % SERVER_QUEUE
  fifo : s.entered = s.left ++ ringItems s.queue
  sound : s.books.misused = false
  accepted : s.books.accepted.Perm (s.books.closed ++ heldFds s)
  once : (heldFds s).Nodup
  counted : s.books.counted.Perm (s.books.released ++ heldIps s)

/-- What holds once `stop_workers` has returned. -/
structure Settled (s : State) : Prop where
  open_fds : s.books.fds = []
  closed : s.books.accepted.Perm s.books.closed
  delivered : s.entered = s.left
  released : s.books.counted.Perm s.books.released

theorem Inv.conserved {s : State} (h : Inv s) : Conserved s where
  count := h.ring.count
  tail := h.ring.tail
  fifo := h.ring.fifo
  sound := h.books.sound
  accepted := h.books.closed.trans (h.books.fds.append_left _)
  once := h.books.fds.nodup_iff.mp h.books.nodup
  counted := h.books.counted

/-- Workers that have ended hold nothing. -/
theorem held_ended {α : Type} {f : Worker → List α} (hf : ∀ w : Worker, w.pc = .ended → f w = [])
    {workers : List Worker} (h : ∀ w ∈ workers, w.pc = .ended) : held f workers = [] :=
  List.flatMap_eq_nil_iff.mpr fun w hw => hf w (h w hw)

theorem Inv.returned {s : State} (h : Inv s) (hret : s.accept = .returned) :
    heldFds s = [] ∧ heldIps s = [] ∧ ringItems s.queue = [] := by
  have hring : ringItems s.queue = [] := ringItems_nil (h.empty (by rw [hret]; rfl))
  have hfds : held workerFds s.workers = [] :=
    held_ended (fun w hw => by rw [workerFds, hw]) (h.ended hret)
  have hips : held workerIps s.workers = [] :=
    held_ended (fun w hw => by rw [workerIps, hw]) (h.ended hret)
  refine ⟨?_, ?_, hring⟩
  · rw [heldFds, hret, hring, hfds]
    rfl
  · rw [heldIps, hret, ringIps_of_not_drains rfl, hring, hips]
    rfl

theorem Inv.settled {s : State} (h : Inv s) (hret : s.accept = .returned) : Settled s := by
  obtain ⟨hfds, hips, hring⟩ := h.returned hret
  have hopen : s.books.fds = [] := List.Perm.eq_nil (hfds ▸ h.books.fds)
  refine ⟨hopen, ?_, ?_, ?_⟩
  · have hclosed := h.books.closed
    rwa [hopen, List.append_nil] at hclosed
  · have hfifo := h.ring.fifo
    rwa [hring, List.append_nil] at hfifo
  · have hcounted := h.books.counted
    rwa [hips, List.append_nil] at hcounted

theorem Inv.counters {s : State} (h : Inv s) (hret : s.accept = .returned) (ht : Timed s) :
    ∀ c ∈ s.books.clients, c.connections = 0 := by
  obtain ⟨-, hips, -⟩ := h.returned hret
  refine fun c hc => h.books.table.counter hc fun ip => ?_
  rw [h.books.connections ht ip, hips]
  rfl

/-- **Connections are conserved**, in every interleaving of the accepting thread
    and any number of workers.  The counters of the client table come down to
    zero as long as `clock_gettime` does not fail. -/
theorem connections_conserved (perIp perMinute n : Nat) {es : List Event} {s : State}
    (h : run (step perIp perMinute) (start n) es = some s) :
    Conserved s
      ∧ (s.accept = .returned →
          Settled s
            ∧ ((∀ e ∈ es, e.clockRuns = true) → ∀ c ∈ s.books.clients, c.connections = 0)) := by
  have hinv : Inv s := run_preserves (step_preserves_inv perIp perMinute) h (start_inv n)
  exact ⟨hinv.conserved, fun hret => ⟨hinv.settled hret,
    fun hclock => hinv.counters hret (run_timed hclock h)⟩⟩

/-- Two connections of one address, the second over the limit; the first is
    served while the server stops. -/
theorem connections_conserved_two :
    ∃ s : State,
      run (step 1 600) (start 1)
        [.accept (.accept 7 1), .accept (.limit (some 5)), .accept .push,
          .accept (.accept 8 1), .worker 0 .pop, .accept (.limit (some 5)), .worker 0 .announce,
          .accept .reject, .accept .stop, .worker 0 (.request (some 6)), .accept .lock,
          .accept .unlock, .worker 0 .close, .accept .shutdown, .worker 0 (.release (some 7)),
          .worker 0 .pop, .accept .join] = some s
        ∧ s.books.closed = [8, 7] ∧ Conserved s ∧ Settled s
        ∧ ∀ c ∈ s.books.clients, c.connections = 0 := by
  have hsome : (run (step 1 600) (start 1)
      [.accept (.accept 7 1), .accept (.limit (some 5)), .accept .push,
        .accept (.accept 8 1), .worker 0 .pop, .accept (.limit (some 5)), .worker 0 .announce,
        .accept .reject, .accept .stop, .worker 0 (.request (some 6)), .accept .lock,
        .accept .unlock, .worker 0 .close, .accept .shutdown, .worker 0 (.release (some 7)),
        .worker 0 .pop, .accept .join]).map (fun s => (s.accept, s.books.closed))
      = some (.returned, [8, 7]) := by decide +kernel
  obtain ⟨s, hrun, hs⟩ := Option.map_eq_some_iff.mp hsome
  obtain ⟨hret, hclosed⟩ := Prod.mk.inj hs
  obtain ⟨hcons, hstop⟩ := connections_conserved 1 600 1 hrun
  obtain ⟨hsettled, hcounters⟩ := hstop hret
  exact ⟨s, hrun, hclosed, hcons, hsettled, hcounters (by decide)⟩

end ServerConnections
