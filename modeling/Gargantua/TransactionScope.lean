import Gargantua.DbControl

/-! # Transaction scopes (`src/runtime/runtime_api.c`)

    A handler runs between `dispatch_route`'s `sigsetjmp` and its return.  The
    scopes it opens with `transaction_begin` lie on its C stack; each is closed
    by `transaction_end`, or by `transaction_cleanup` when the block is left in
    another way.  `request_raise` leaves the handler with a jump that skips the
    cleanups, and `dispatch_route` then undoes what is still open.

    The scopes are atomic as long as the database's depth counts them.  They
    stop being so when an inner scope closes after SQLite has rolled the whole
    transaction back, or by a cleanup in a request that has already failed: the
    depth falls to 0 under the outer scope, and `db_execute` then runs its
    statements in autocommit mode (`atomic_of_counted`). -/

namespace TransactionScope

open CString Savepoint DbSqlite DbCalls DbControl

variable {D : Type}

/-! ## The thread -/

/-- `Transaction`. -/
structure Transaction where
  active : Bool := false
  level : Nat := 0
  deriving Repr, DecidableEq

/-- One request thread: the database client and the scopes on the handler's
    stack, innermost first.  `st.active` is `g_escape != NULL`: a handler runs. -/
structure Thread (D : Type) where
  st : State D
  scopes : List Transaction
  deriving Repr, DecidableEq

/-- `request_failed`. -/
def requestFailed (s : State D) : Bool := s.fail.isSome

/-- What `dispatch_route` does once its handler is gone. -/
def dispatchLeave (a : ControlAnswer) (s : State D) : State D :=
  let s := { s with active := false }
  if s.depth > 0 then
    let s := dbAbortAll a s
    if !requestFailed s then
      requestFail 500 (lit "unfinished transaction rolled back") s
    else s
  else s

/-- `request_raise`; the flag says that it jumped.  `a` answers the rollback of
    `dispatch_route`. -/
def requestRaise (status : Nat) (message : Bytes) (a : ControlAnswer) (t : Thread D) :
    Thread D × Bool :=
  let s := requestFail status message t.st
  if s.active then (⟨dispatchLeave a s, []⟩, true) else ({ t with st := s }, false)

/-- `transaction_begin`: the scope it returns lies on top of the stack. -/
def transactionBegin (lock : LockReply) (a abort : ControlAnswer) (t : Thread D) :
    Thread D :=
  if requestFailed t.st then { t with scopes := {} :: t.scopes }
  else
    let (s, rc) := dbBegin lock a t.st
    if rc ≠ 0 then
      match requestRaise 503 (lit "could not begin transaction") abort { t with st := s } with
      | (t, true) => t
      | (t, false) => { t with scopes := {} :: t.scopes }
    else ⟨s, { active := true, level := dbDepth s } :: t.scopes⟩

/-- `transaction_end` of the innermost scope, which is then left. -/
def transactionEnd (a abort : ControlAnswer) (t : Thread D) : Thread D :=
  match t.scopes with
  | [] => t
  | tx :: scopes =>
      if !tx.active then { t with scopes := scopes }
      else if tx.level ≠ dbDepth t.st then
        (requestRaise 500 (lit "transaction scope mismatch") abort
          ⟨dbAbortAll a t.st, scopes⟩).1
      else if requestFailed t.st then
        let (s, rc) := dbRollback a t.st
        if rc ≠ 0 then ⟨dbAbortAll abort s, scopes⟩ else ⟨s, scopes⟩
      else
        let (s, rc) := dbCommit a t.st
        if rc ≠ 0 then
          (requestRaise 500 (lit "could not commit transaction") abort
            ⟨dbAbortAll abort s, scopes⟩).1
        else ⟨s, scopes⟩

/-- `transaction_cleanup` of the innermost scope. -/
def transactionCleanup (a abort : ControlAnswer) (t : Thread D) : Thread D :=
  match t.scopes with
  | [] => t
  | tx :: scopes =>
      if !tx.active then { t with scopes := scopes }
      else
        let s := dbAbortAll a t.st
        if !requestFailed s then
          (requestRaise 500 (lit "transaction exited before commit") abort ⟨s, scopes⟩).1
        else ⟨s, scopes⟩

/-- What happens on the thread: a request enters its handler, the handler opens
    and closes scopes, issues data calls, raises, or returns. -/
inductive Event (D : Type) where
  | enter
  | begin (lock : LockReply) (a abort : ControlAnswer)
  | close (a abort : ControlAnswer)
  | cleanup (a abort : ControlAnswer)
  | data (c : Call D)
  | raise (status : Nat) (message : Bytes) (abort : ControlAnswer)
  | return (abort : ControlAnswer)

/-- One event, if the thread can have it: a handler closes scopes it has opened,
    and returns when none is left. -/
def step (t : Thread D) : Event D → Option (Thread D)
  | .enter =>
      if t.st.active then none
      else some { t with st := { t.st with active := true, fail := none } }
  | .begin lock a abort =>
      if t.st.active then some (transactionBegin lock a abort t) else none
  | .close a abort =>
      if t.st.active && !t.scopes.isEmpty then some (transactionEnd a abort t) else none
  | .cleanup a abort =>
      if t.st.active && !t.scopes.isEmpty then some (transactionCleanup a abort t)
      else none
  | .data c => if t.st.active then some { t with st := (c.run t.st).1 } else none
  | .raise status message abort =>
      if t.st.active then some (requestRaise status message abort t).1 else none
  | .return abort =>
      if t.st.active && t.scopes.isEmpty then some ⟨dispatchLeave abort t.st, []⟩
      else none

/-- A thread between requests. -/
def idle (disk : D) : Thread D :=
  { st := { db := ⟨disk, none⟩, isOpen := true, depth := 0, failedLevel := 0,
            lastId := -1, lock := .free, active := false, fail := none },
    scopes := [] }

/-! ## Atomicity -/

/-- The scopes that have begun a transaction or a savepoint. -/
def openScopes (t : Thread D) : Nat := (t.scopes.filter (·.active)).length

/-- The event is the outermost scope's `COMMIT`, and SQLite runs it. -/
def commits (t : Thread D) : Event D → Bool
  | .close a _ =>
      match t.scopes with
      | [] => false
      | tx :: _ =>
          tx.active && tx.level == dbDepth t.st && !requestFailed t.st
            && t.st.depth == 1 && (dbCommit a t.st).2 == 0
  | _ => false

/-- The database at the `BEGIN` of the outermost open scope, after a step. -/
def baseAfter (base : Option D) (t t' : Thread D) : Option D :=
  if openScopes t' ≠ 0 then some (base.getD t.st.db.disk) else none

/-- Every outermost scope of a run is atomic: while it is open the committed
    database is the one at its `BEGIN`, and so it is when it has been closed,
    unless it was closed by its `COMMIT`. -/
def Atomic : Option D → Thread D → List (Event D) → Prop
  | _, _, [] => True
  | base, t, e :: es =>
      match step t e with
      | none => True
      | some t' =>
          ((openScopes t' ≠ 0 ∨ base ≠ none) →
              t'.st.db.disk = base.getD t.st.db.disk
                ∨ (openScopes t' = 0 ∧ commits t e = true))
            ∧ Atomic (baseAfter base t t') t' es

/-- `Atomic` runs: it is decided event by event. -/
instance decidableAtomic [DecidableEq D] :
    (base : Option D) → (t : Thread D) → (es : List (Event D)) →
      Decidable (Atomic base t es)
  | _, _, [] => .isTrue trivial
  | base, t, e :: es =>
      match hs : step t e with
      | none => .isTrue (by rw [Atomic, hs]; trivial)
      | some t' =>
          haveI := decidableAtomic (baseAfter base t t') t' es
          decidable_of_iff
            (((openScopes t' ≠ 0 ∨ base ≠ none) →
                t'.st.db.disk = base.getD t.st.db.disk
                  ∨ (openScopes t' = 0 ∧ commits t e = true))
              ∧ Atomic (baseAfter base t t') t' es)
            (by rw [Atomic, hs])

/-- No data call is issued while a scope is open that the depth does not count. -/
def counted (t : Thread D) : Event D → Bool
  | .data _ => openScopes t == 0 || t.st.depth != 0
  | _ => true

/-- Every step of the run meets `counted`. -/
def Counted : Thread D → List (Event D) → Prop
  | _, [] => True
  | t, e :: es =>
      counted t e = true ∧
        match step t e with
        | none => True
        | some t' => Counted t' es

/-! ## The invariant of a run -/

/-- `request_fail` touches the failure only, and leaves one. -/
theorem requestFail_eq (status : Nat) (message : Bytes) (s : State D) :
    requestFail status message s
      = { s with fail := (requestFail status message s).fail } := by
  rw [requestFail]
  split <;> rfl

/-- The depth counts the open scopes, or it has fallen to 0 in a request that has
    failed; outside a handler no scope is left. -/
structure Inv (t : Thread D) : Prop where
  idle : t.st.active = false → t.scopes = []
  quiet : Quiet t.st
  levels : ∀ tx ∈ t.scopes, tx.active = true → 1 ≤ tx.level
  depth : t.st.depth = openScopes t ∨ (t.st.depth = 0 ∧ t.st.fail ≠ none)

/-- A step keeps the disk, or it ends where no scope is open: it commits the
    outermost one, or none was open before. -/
structure StepSpec (t t' : Thread D) (committed : Bool) : Prop where
  inv : Inv t'
  disk : t'.st.db.disk = t.st.db.disk
    ∨ (openScopes t' = 0 ∧ (openScopes t = 0 ∨ committed = true))

theorem openScopes_nil (s : State D) : openScopes ⟨s, []⟩ = 0 := rfl

theorem openScopes_inactive {tx : Transaction} (h : tx.active = false) (s s' : State D)
    (scopes : List Transaction) : openScopes ⟨s, tx :: scopes⟩ = openScopes ⟨s', scopes⟩ := by
  rw [openScopes, List.filter_cons_of_neg (by rw [h]; exact Bool.false_ne_true)]
  rfl

theorem openScopes_active {tx : Transaction} (h : tx.active = true) (s s' : State D)
    (scopes : List Transaction) :
    openScopes ⟨s, tx :: scopes⟩ = openScopes ⟨s', scopes⟩ + 1 := by
  rw [openScopes, List.filter_cons_of_pos h]
  rfl

/-- Leaving the handler undoes everything. -/
theorem left_spec (a : ControlAnswer) {t : Thread D} {s : State D} (hq : Quiet s)
    (hdisk : s.db.disk = t.st.db.disk) (c : Bool) :
    StepSpec t ⟨dispatchLeave a s, []⟩ c := by
  have hleave : (dispatchLeave a s).depth = 0 ∧ (dispatchLeave a s).db.txn = none
      ∧ (dispatchLeave a s).db.disk = s.db.disk := by
    unfold dispatchLeave
    dsimp only
    by_cases hd : s.depth > 0
    · rw [if_pos hd]
      have habort := dbAbortAll_spec a (s := { s with active := false }) hq
      split
      · rw [requestFail_eq]
        exact ⟨habort.depth, habort.txn, habort.disk⟩
      · exact ⟨habort.depth, habort.txn, habort.disk⟩
    · rw [if_neg hd]
      have h0 : s.depth = 0 := by omega
      exact ⟨h0, hq h0, rfl⟩
  obtain ⟨h1, h2, h3⟩ := hleave
  exact ⟨⟨fun _ => rfl, fun _ => h2, fun tx htx => (nomatch htx), Or.inl h1⟩,
    Or.inl (h3.trans hdisk)⟩

/-- Raising inside a handler leaves it. -/
theorem raised_spec (status : Nat) (message : Bytes) (a : ControlAnswer) {t t₁ : Thread D}
    (hq : Quiet t₁.st) (hdisk : t₁.st.db.disk = t.st.db.disk) (hact : t₁.st.active = true)
    (c : Bool) :
    (requestRaise status message a t₁).2 = true
      ∧ StepSpec t (requestRaise status message a t₁).1 c := by
  have hreq : requestRaise status message a t₁
      = (⟨dispatchLeave a (requestFail status message t₁.st), []⟩, true) := by
    rw [requestRaise]
    refine if_pos ?_
    rw [requestFail_eq]
    exact hact
  rw [hreq]
  refine ⟨rfl, left_spec a ?_ ?_ c⟩
  · rw [requestFail_eq]
    exact hq
  · rw [requestFail_eq]
    exact hdisk

theorem begin_step {t : Thread D} (h : Inv t) (hact : t.st.active = true) (l : LockReply)
    (a abort : ControlAnswer) (c : Bool) :
    StepSpec t (transactionBegin l a abort t) c := by
  have hinactive : ∀ s : State D, Quiet s → s.db.disk = t.st.db.disk →
      s.active = true → (s.depth = openScopes t ∨ (s.depth = 0 ∧ s.fail ≠ none)) →
      StepSpec t ⟨s, {} :: t.scopes⟩ c := by
    intro s hq hdisk hs hd
    refine ⟨⟨fun hf => ?_, hq, fun tx htx hx => ?_, ?_⟩, Or.inl hdisk⟩
    · rw [hs] at hf
      exact nomatch hf
    · rcases List.mem_cons.mp htx with rfl | htx
      · exact nomatch hx
      · exact h.levels tx htx hx
    · rw [openScopes_inactive rfl s t.st]
      exact hd
  rw [transactionBegin]
  by_cases hf : requestFailed t.st = true
  · rw [if_pos hf]
    exact hinactive t.st h.quiet rfl hact h.depth
  rw [if_neg hf]
  have hnone : t.st.fail = none := by
    simpa [requestFailed] using hf
  have hdepth : t.st.depth = openScopes t := by
    rcases h.depth with hd | ⟨-, hd⟩
    · exact hd
    · exact absurd hnone hd
  have hspec := dbBegin_spec l a h.quiet
  cases hb : dbBegin l a t.st with
  | mk s rc =>
      rw [hb] at hspec
      have hs : s.active = true := hspec.kept.active.trans hact
      rcases hspec.result with ⟨hrc, hd⟩ | ⟨hrc, hd⟩
      · obtain rfl : rc = 0 := hrc
        have hd' : s.depth = t.st.depth + 1 := hd
        dsimp only
        rw [if_neg (by decide)]
        refine ⟨⟨fun hfalse => ?_, hspec.quiet, fun tx htx hx => ?_, Or.inl ?_⟩,
          Or.inl hspec.disk⟩
        · rw [show s.active = false from hfalse] at hs
          exact nomatch hs
        · rcases List.mem_cons.mp htx with rfl | htx
          · show 1 ≤ s.depth
            omega
          · exact h.levels tx htx hx
        · rw [openScopes_active rfl s t.st]
          show s.depth = openScopes t + 1
          rw [hd', hdepth]
      · obtain rfl : rc = -1 := hrc
        have hraised : (requestRaise 503 (lit "could not begin transaction") abort
              { t with st := s }).2 = true
            ∧ StepSpec t (requestRaise 503 (lit "could not begin transaction") abort
              { t with st := s }).1 c :=
          raised_spec _ _ abort hspec.quiet hspec.disk hs c
        obtain ⟨hjump, hraise⟩ := hraised
        dsimp only
        rw [if_pos (by decide)]
        cases hr : requestRaise 503 (lit "could not begin transaction") abort
            { t with st := s } with
        | mk t' jumped =>
            rw [hr] at hjump hraise
            obtain rfl : jumped = true := hjump
            exact hraise

/-- A scope is taken off the stack: what is left of the invariant. -/
theorem pop_levels {t : Thread D} (h : Inv t) {tx : Transaction} {scopes : List Transaction}
    (hs : t.scopes = tx :: scopes) : ∀ x ∈ scopes, x.active = true → 1 ≤ x.level :=
  fun x hx => h.levels x (hs ▸ List.mem_cons_of_mem tx hx)

/-- Leaving a scope without a raise: the depth still counts the scopes, or it is 0
    in a failed request. -/
theorem popped_spec {t : Thread D} {s : State D} {tx : Transaction}
    {scopes : List Transaction} (h : Inv t) (hs : t.scopes = tx :: scopes)
    (hact : s.active = true) (hq : Quiet s) {c : Bool}
    (hd : s.depth = openScopes ⟨s, scopes⟩ ∨ (s.depth = 0 ∧ s.fail ≠ none))
    (hdisk : s.db.disk = t.st.db.disk
      ∨ (openScopes ⟨s, scopes⟩ = 0 ∧ (openScopes t = 0 ∨ c = true))) :
    StepSpec t ⟨s, scopes⟩ c := by
  refine ⟨⟨fun hf => ?_, hq, pop_levels h hs, hd⟩, hdisk⟩
  rw [show s.active = false from hf] at hact
  exact nomatch hact

/-- An inactive scope is left without a trace. -/
theorem inactive_spec {t : Thread D} {tx : Transaction} {scopes : List Transaction}
    (h : Inv t) (hs : t.scopes = tx :: scopes) (hact : t.st.active = true)
    (htx : tx.active = false) (c : Bool) : StepSpec t { t with scopes := scopes } c := by
  refine popped_spec h hs hact h.quiet ?_ (Or.inl rfl)
  have hopen : openScopes t = openScopes ⟨t.st, scopes⟩ := by
    rw [← openScopes_inactive htx t.st t.st scopes, ← hs]
  rw [← hopen]
  exact h.depth

/-- The innermost scope of a running request is active, and the depth counts it
    and the scopes around it. -/
structure Innermost (t : Thread D) (scopes : List Transaction) : Prop where
  inv : Inv t
  running : t.st.active = true
  pushed : ∃ tx, t.scopes = tx :: scopes
  depth : t.st.depth = openScopes ⟨t.st, scopes⟩ + 1

/-- The scope of a failed request is rolled back, or all of them are. -/
theorem Innermost.rollback {t : Thread D} {scopes : List Transaction} (h : Innermost t scopes)
    (hf : requestFailed t.st = true) (a abort : ControlAnswer) (c : Bool) :
    StepSpec t (if (dbRollback a t.st).2 ≠ 0 then ⟨dbAbortAll abort (dbRollback a t.st).1, scopes⟩
      else ⟨(dbRollback a t.st).1, scopes⟩) c := by
  obtain ⟨tx, hs⟩ := h.pushed
  have hfail : t.st.fail ≠ none := by
    intro hc
    rw [requestFailed, hc] at hf
    exact nomatch hf
  have hspec := dbRollback_spec a h.inv.quiet
  have hact := hspec.kept.active.trans h.running
  have hfail' := hspec.kept.fail hfail
  rcases hspec.result with ⟨hrc, hd⟩ | ⟨hrc, hd⟩
  · rw [if_neg (not_not.mpr hrc)]
    refine popped_spec h.inv hs hact hspec.quiet ?_ (Or.inl hspec.disk)
    -- one level, or the whole transaction when it is gone already
    rcases hd with hd | hd
    · refine Or.inl ?_
      show (dbRollback a t.st).1.depth = openScopes ⟨t.st, scopes⟩
      rw [hd, h.depth, Nat.add_sub_cancel]
    · exact Or.inr ⟨hd, hfail'⟩
  · rw [if_pos (by rw [hrc]; decide)]
    have habort := dbAbortAll_spec abort hspec.quiet
    exact popped_spec h.inv hs (habort.kept.active.trans hact) (fun _ => habort.txn)
      (Or.inr ⟨habort.depth, habort.kept.fail hfail'⟩) (Or.inl (habort.disk.trans hspec.disk))

/-- The scope is committed: only the outermost one's `COMMIT` reaches the disk.  A
    refusal undoes everything. -/
theorem Innermost.commit {t : Thread D} {scopes : List Transaction} (h : Innermost t scopes)
    (a abort : ControlAnswer) {c : Bool}
    (hc : t.st.depth = 1 → (dbCommit a t.st).2 = 0 → c = true) :
    StepSpec t (if (dbCommit a t.st).2 ≠ 0 then
        (requestRaise 500 (lit "could not commit transaction") abort
          ⟨dbAbortAll abort (dbCommit a t.st).1, scopes⟩).1
      else ⟨(dbCommit a t.st).1, scopes⟩) c := by
  obtain ⟨tx, hs⟩ := h.pushed
  have hspec := dbCommit_spec a h.inv.quiet
  have hact := hspec.kept.active.trans h.running
  have hdepth := h.depth
  rcases hspec.result with ⟨hrc, hone, hd⟩ | ⟨hrc, -, hd, hdisk⟩ | ⟨hrc, hd, hdisk⟩
  · -- the outermost scope's `COMMIT`
    have hzero : openScopes ⟨(dbCommit a t.st).1, scopes⟩ = 0 := by
      show openScopes ⟨t.st, scopes⟩ = 0
      omega
    rw [if_neg (not_not.mpr hrc)]
    refine popped_spec h.inv hs hact hspec.quiet (Or.inl ?_)
      (Or.inr ⟨hzero, Or.inr (hc hone hrc)⟩)
    rw [hzero]
    exact hd
  · rw [if_neg (not_not.mpr hrc)]
    refine popped_spec h.inv hs hact hspec.quiet (Or.inl ?_) (Or.inl hdisk)
    -- a savepoint is released, and nothing reaches the disk
    show (dbCommit a t.st).1.depth = openScopes ⟨t.st, scopes⟩
    rw [hd, hdepth, Nat.add_sub_cancel]
  · rw [if_pos (by rw [hrc]; decide)]
    have habort := dbAbortAll_spec abort hspec.quiet
    exact (raised_spec _ _ abort (fun _ => habort.txn) (habort.disk.trans hdisk)
      (habort.kept.active.trans hact) _).2

theorem close_step {t : Thread D} (h : Inv t) (hact : t.st.active = true)
    (hne : t.scopes ≠ []) (a abort : ControlAnswer) :
    StepSpec t (transactionEnd a abort t) (commits t (.close a abort)) := by
  rw [transactionEnd, commits]
  cases hs : t.scopes with
  | nil => exact absurd hs hne
  | cons tx scopes =>
      dsimp only
      by_cases htx : tx.active = true
      swap
      · rw [if_pos (by simpa using htx)]
        exact inactive_spec h hs hact (by simpa using htx) _
      rw [if_neg (by rw [htx]; exact Bool.false_ne_true)]
      have hopen : openScopes t = openScopes ⟨t.st, scopes⟩ + 1 := by
        rw [← openScopes_active htx t.st t.st scopes, ← hs]
      by_cases hlevel : tx.level ≠ dbDepth t.st
      · -- the depth has moved under the scope: everything is undone
        rw [if_pos hlevel]
        have habort := dbAbortAll_spec a h.quiet
        exact (raised_spec _ _ abort (fun _ => habort.txn) habort.disk
          (habort.kept.active.trans hact) _).2
      rw [if_neg hlevel]
      have hpos : t.st.depth ≠ 0 := by
        have := h.levels tx (hs ▸ List.mem_cons_self) htx
        rw [not_not.mp hlevel, dbDepth] at this
        omega
      have hinnermost : Innermost t scopes := by
        refine ⟨h, hact, ⟨tx, hs⟩, ?_⟩
        rcases h.depth with hd | ⟨h0, -⟩
        · exact hd.trans hopen
        · exact absurd h0 hpos
      by_cases hf : requestFailed t.st = true
      · rw [if_pos hf]
        exact hinnermost.rollback hf a abort _
      · rw [if_neg hf]
        refine hinnermost.commit a abort fun hone hrc => ?_
        rw [htx, beq_iff_eq.mpr (not_not.mp hlevel), Bool.eq_false_iff.mpr hf, hone, hrc]
        rfl

theorem cleanup_step {t : Thread D} (h : Inv t) (hact : t.st.active = true)
    (hne : t.scopes ≠ []) (a abort : ControlAnswer) (c : Bool) :
    StepSpec t (transactionCleanup a abort t) c := by
  rw [transactionCleanup]
  cases hs : t.scopes with
  | nil => exact absurd hs hne
  | cons tx scopes =>
      dsimp only
      by_cases htx : tx.active = true
      swap
      · rw [if_pos (by simpa using htx)]
        exact inactive_spec h hs hact (by simpa using htx) c
      rw [if_neg (by rw [htx]; exact Bool.false_ne_true)]
      have habort := dbAbortAll_spec a h.quiet
      have hsact := habort.kept.active.trans hact
      by_cases hf : (!requestFailed (dbAbortAll a t.st)) = true
      · rw [if_pos hf]
        exact (raised_spec _ _ abort (fun _ => habort.txn) habort.disk hsact c).2
      · rw [if_neg hf]
        refine popped_spec h hs hsact (fun _ => habort.txn)
          (Or.inr ⟨habort.depth, fun hc => hf ?_⟩) (Or.inl habort.disk)
        rw [requestFailed, hc]
        rfl

/-- A data call inside a transaction writes in the transaction or is refused. -/
theorem data_step {t : Thread D} (h : Inv t) (c : Call D) (hcounted : counted t (.data c) = true)
    (b : Bool) : StepSpec t { t with st := (c.run t.st).1 } b := by
  -- the database the call leaves: what it wrote, or the same
  have hspec : Frame t.st (c.run t.st).1 ∧ ((c.run t.st).1.db = t.st.db
      ∨ (Live t.st ∧ (Wrote t.st.db (c.run t.st).1.db
          ∨ Lost t.st.db (c.run t.st).1.db))) := by
    rcases call_spec c t.st with ⟨frame, -, -, db, -, -⟩ | ⟨-, frame, -, db, -, -⟩ |
      ⟨-, live, frame, -, result⟩
    · exact ⟨frame, Or.inl db⟩
    · exact ⟨frame, Or.inl db⟩
    · refine ⟨frame, Or.inr ⟨live, ?_⟩⟩
      rcases result with ⟨-, -, hw⟩ | ⟨-, -, hw | ⟨-, hl, -⟩⟩
      · exact Or.inl hw
      · exact Or.inl hw
      · exact Or.inr hl
  obtain ⟨hframe, hdb⟩ := hspec
  have htxn : t.st.db.txn = none → (c.run t.st).1.db.txn = none := by
    intro hnone
    rcases hdb with hdb | ⟨-, ⟨f, hdb⟩ | ⟨f, hdb⟩⟩
    · rw [hdb]
      exact hnone
    · rw [hdb]
      exact (Db.write_txn_none f).mpr hnone
    · rw [hdb]
      rfl
  refine ⟨⟨fun hf => ?_, fun hd => htxn (h.quiet (hframe.depth.symm.trans hd)), h.levels, ?_⟩,
    ?_⟩
  · exact h.idle (hframe.active.symm.trans hf)
  · rcases h.depth with hd | ⟨h0, hf⟩
    · exact Or.inl (hframe.depth.trans hd)
    · exact Or.inr ⟨hframe.depth.trans h0, (Frame.kept hframe).fail hf⟩
  · by_cases hopen : openScopes t = 0
    · exact Or.inr ⟨hopen, Or.inl hopen⟩
    · refine Or.inl ?_
      have hdepth : t.st.depth ≠ 0 := by
        rw [counted, Bool.or_eq_true, beq_iff_eq, bne_iff_ne] at hcounted
        exact hcounted.resolve_left hopen
      rcases hdb with hdb | ⟨hlive, hdb⟩
      · exact congrArg Db.disk hdb
      · -- a statement that runs inside a level has a transaction to write in
        have hsome : t.st.db.txn ≠ none := fun hnone =>
          hlive.2 ⟨by omega, (autocommit_iff _).mpr hnone⟩
        rcases hdb with ⟨f, hdb⟩ | ⟨f, hdb⟩
        · exact (congrArg Db.disk hdb).trans (Db.write_disk hsome f)
        · exact (congrArg Db.disk hdb).trans (Db.write_disk hsome f)

/-- **One step**, whatever it is. -/
theorem step_spec {t t' : Thread D} {e : Event D} (h : Inv t) (hc : counted t e = true)
    (hstep : step t e = some t') : StepSpec t t' (commits t e) := by
  cases e with
  | enter =>
      rw [step] at hstep
      split at hstep
      · exact nomatch hstep
      · rename_i hact
        have hscopes : t.scopes = [] := h.idle (by simpa using hact)
        have hopen : openScopes t = 0 := by rw [openScopes, hscopes]; rfl
        have hdepth : t.st.depth = 0 := by
          rcases h.depth with hd | ⟨hd, -⟩
          · exact hd.trans hopen
          · exact hd
        rw [← Option.some.inj hstep]
        refine ⟨⟨fun hf => (nomatch hf), h.quiet, h.levels, Or.inl ?_⟩, Or.inl rfl⟩
        exact hdepth.trans hopen.symm
  | begin l a abort =>
      rw [step] at hstep
      split at hstep
      · rename_i hact
        rw [← Option.some.inj hstep]
        exact begin_step h hact l a abort _
      · exact nomatch hstep
  | close a abort =>
      rw [step] at hstep
      split at hstep
      · rename_i hact
        rw [Bool.and_eq_true, Bool.not_eq_true', List.isEmpty_eq_false_iff] at hact
        rw [← Option.some.inj hstep]
        exact close_step h hact.1 hact.2 a abort
      · exact nomatch hstep
  | cleanup a abort =>
      rw [step] at hstep
      split at hstep
      · rename_i hact
        rw [Bool.and_eq_true, Bool.not_eq_true', List.isEmpty_eq_false_iff] at hact
        rw [← Option.some.inj hstep]
        exact cleanup_step h hact.1 hact.2 a abort _
      · exact nomatch hstep
  | data c =>
      rw [step] at hstep
      split at hstep
      · rw [← Option.some.inj hstep]
        exact data_step h c hc _
      · exact nomatch hstep
  | raise status message abort =>
      rw [step] at hstep
      split at hstep
      · rename_i hact
        rw [← Option.some.inj hstep]
        exact (raised_spec status message abort h.quiet rfl hact _).2
      · exact nomatch hstep
  | «return» abort =>
      rw [step] at hstep
      split at hstep
      · rw [← Option.some.inj hstep]
        exact left_spec abort h.quiet rfl _
      · exact nomatch hstep

/-- The database at the `BEGIN` of the outermost open scope is the committed one. -/
def BaseOk (base : Option D) (t : Thread D) : Prop :=
  base = if openScopes t ≠ 0 then some t.st.db.disk else none

theorem atomic_of_inv {es : List (Event D)} :
    ∀ {base : Option D} {t : Thread D}, Inv t → BaseOk base t → Counted t es →
      Atomic base t es := by
  induction es with
  | nil => intro base t _ _ _; trivial
  | cons e es ih =>
      intro base t h hbase hcounted
      obtain ⟨hc, hrest⟩ := hcounted
      rw [Atomic]
      cases hstep : step t e with
      | none => trivial
      | some t' =>
          rw [hstep] at hrest
          have hspec := step_spec h hc hstep
          have hgetD : base.getD t.st.db.disk = t.st.db.disk := by
            rw [hbase]
            split <;> rfl
          refine ⟨?_, ih hspec.inv ?_ hrest⟩
          · intro hscope
            rw [hgetD]
            rcases hspec.disk with hdisk | ⟨h0, hopen | hcommit⟩
            · exact Or.inl hdisk
            · -- no scope was open and none is: there is nothing to keep
              rcases hscope with hscope | hscope
              · exact absurd h0 hscope
              · rw [hbase, if_neg fun hne => hne hopen] at hscope
                exact absurd rfl hscope
            · exact Or.inr ⟨h0, hcommit⟩
          · rw [BaseOk, baseAfter, hgetD]
            by_cases hopen : openScopes t' ≠ 0
            · rw [if_pos hopen, if_pos hopen]
              rcases hspec.disk with hdisk | ⟨h0, -⟩
              · rw [hdisk]
              · exact absurd h0 hopen
            · rw [if_neg hopen, if_neg hopen]

theorem idle_inv (disk : D) : Inv (idle disk) :=
  ⟨fun _ => rfl, fun _ => rfl, fun _ htx => (nomatch htx), Or.inl rfl⟩

/-- **Transaction scopes are atomic** in every run that issues no data call while
    a scope is open that the depth does not count. -/
theorem atomic_of_counted (disk : D) (es : List (Event D)) (h : Counted (idle disk) es) :
    Atomic none (idle disk) es :=
  atomic_of_inv (idle_inv disk) rfl h

/-- The answers of a statement that writes `n`, and of one that runs into an
    interrupt and rolls the whole transaction back. -/
def writes (n : Nat) : Answers Nat :=
  ⟨.acquired, 3035000, .ok (some ⟨0, fun _ => true, false, 0, [.done fun _ => n], 1, 1, 0⟩) []⟩

def interrupted : Answers Nat :=
  ⟨.acquired, 3035000,
    .ok (some ⟨0, fun _ => true, false, 0, [.rolledBack SQLITE_INTERRUPT], 0, 0, 0⟩) []⟩

/-- A write behind a nested scope that SQLite rolled back is durable, although
    the outer scope never commits. -/
theorem not_atomic_behind_collapse :
    let q : Query := ⟨some (lit "UPDATE t SET n = 1"), none, 0⟩
    ¬ Atomic none (idle 0)
      [.enter, .begin .acquired {} {}, .begin .acquired {} {},
       .data (.execute q interrupted), .close {} {}, .data (.execute q (writes 1)),
       .close {} {}] := by
  decide +kernel

/-- Two nested scopes that commit. -/
theorem atomic_of_counted_nested :
    let q : Query := ⟨some (lit "UPDATE t SET n = 1"), none, 0⟩
    Atomic none (idle 0)
      [.enter, .begin .acquired {} {}, .data (.execute q (writes 1)),
       .begin .acquired {} {}, .data (.execute q (writes 2)), .close {} {}, .close {} {},
       .return {}] :=
  atomic_of_counted 0 _ ⟨rfl, rfl, rfl, rfl, rfl, rfl, rfl, rfl, trivial⟩

end TransactionScope
