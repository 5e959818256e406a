import Gargantua.Lib.FixedWindow
import Gargantua.Lib.Runs
import Gargantua.ClientLimit

/-! # Runs of the client table

    Any sequence of `client_limit` calls at times that do not go back, in which
    an address releases only connections that were granted to it and asks for
    requests only while it has one.  The entry of an address then counts its open
    connections, and its requests are granted in windows that start at least 60
    seconds apart, whoever else has used the entry in between.

    `tv_sec` is in whole seconds, so 60 seconds of time see it take at most 61
    values, and an interval is `t ≤ now ≤ t + 60`. -/

namespace ClientLimit

open FixedWindow

/-! ## The entry of an address -/

/-- The entry of an address. -/
def entryOf (clients : List Client) (ip : Ip) : Option Client := clients.find? (·.isFor ip)

/-- The start of the address's window. -/
def windowOf (clients : List Client) (ip : Ip) : Option Int :=
  (entryOf clients ip).map (·.window)

theorem entryOf_none_iff {clients : List Client} {ip : Ip} :
    entryOf clients ip = none ↔ ∀ c ∈ clients, c.isFor ip = false := by
  rw [entryOf, List.find?_eq_none]
  exact ⟨fun h c hc => Bool.eq_false_iff.mpr (h c hc), fun h c hc => Bool.eq_false_iff.mp (h c hc)⟩

theorem entryOf_iff {clients : List Client} (h : Distinct clients) {ip : Ip} {c : Client} :
    entryOf clients ip = some c ↔ c ∈ clients ∧ c.isFor ip = true := by
  constructor
  · intro hf
    exact ⟨List.mem_of_find?_eq_some hf, List.find?_some (p := fun c : Client => c.isFor ip) hf⟩
  · rintro ⟨hc, hip⟩
    cases hf : entryOf clients ip with
    | none => rw [entryOf_none_iff.mp hf c hc] at hip; exact nomatch hip
    | some d =>
        have hd : d.isFor ip = true := List.find?_some (p := fun c : Client => c.isFor ip) hf
        obtain ⟨i, hi⟩ := List.mem_iff_getElem?.mp hc
        obtain ⟨j, hj⟩ := List.mem_iff_getElem?.mp (List.mem_of_find?_eq_some hf)
        obtain ⟨hu, hcip⟩ := isFor_iff.mp hip
        obtain ⟨hu', hdip⟩ := isFor_iff.mp hd
        have hij := h i j c d hi hj hu hu' (hcip.trans hdip.symm)
        rw [hij, hj] at hi
        exact hi

theorem connectionsOf_entry {clients : List Client} {ip : Ip} {c : Client}
    (h : entryOf clients ip = some c) : connectionsOf clients ip = c.connections := by
  rw [entryOf] at h
  rw [connectionsOf, h]
  rfl

/-- Writing one entry, for the addresses that it is not written for: whoever had
    it has lost it. -/
theorem entryOf_set {clients : List Client} (h : Distinct clients) {slot : Nat} {old c : Client}
    (hold : clients[slot]? = some old) (h' : Distinct (clients.set slot c)) {ip : Ip}
    (hip : c.ip ≠ ip) :
    entryOf (clients.set slot c) ip = if old.isFor ip then none else entryOf clients ip := by
  have hlt : slot < clients.length := (List.getElem?_eq_some_iff.mp hold).1
  have hc : c.isFor ip = false := Bool.eq_false_iff.mpr fun hf => hip (isFor_iff.mp hf).2
  by_cases hown : old.isFor ip = true
  · rw [if_pos hown, entryOf_none_iff]
    intro d hd
    obtain ⟨j, hj⟩ := List.mem_iff_getElem?.mp hd
    by_cases hs : slot = j
    · rw [← hs, List.getElem?_set_self hlt] at hj
      rw [← Option.some.inj hj]
      exact hc
    · rw [List.getElem?_set_ne hs] at hj
      refine Bool.eq_false_iff.mpr fun hf => hs ?_
      obtain ⟨hu, ho⟩ := isFor_iff.mp hown
      obtain ⟨hu', hd'⟩ := isFor_iff.mp hf
      exact h slot j old d hold hj hu hu' (ho.trans hd'.symm)
  · rw [if_neg hown]
    cases hf : entryOf clients ip with
    | none =>
        rw [entryOf_none_iff] at hf ⊢
        intro d hd
        rcases List.mem_or_eq_of_mem_set hd with hd | rfl
        · exact hf d hd
        · exact hc
    | some d =>
        obtain ⟨hd, hdip⟩ := (entryOf_iff h).mp hf
        obtain ⟨j, hj⟩ := List.mem_iff_getElem?.mp hd
        have hs : slot ≠ j := by
          rintro rfl
          rw [hold] at hj
          rw [Option.some.inj hj] at hown
          exact hown hdip
        refine (entryOf_iff h').mpr ⟨List.mem_iff_getElem?.mpr ⟨j, ?_⟩, hdip⟩
        rw [List.getElem?_set_ne hs, hj]

/-- The entry that `client_limit` sets up for an address without one. -/
def fresh (ip : Ip) (now : Int) : Client := { ip := ip, used := true, window := now }

/-- What a call does to the entries: the address's own entry, or a fresh one for
    a connection, is used; another address can only lose an entry that it could
    do without. -/
structure Moves (perIp perMinute : Nat) (now : Int) (ip : Ip) (action : Int)
    (clients : List Client) (r : List Client × Int) : Prop where
  distinct : Distinct r.1
  own : (∃ c, (entryOf clients ip = some c
        ∨ entryOf clients ip = none ∧ action = 1 ∧ c = fresh ip now)
      ∧ entryOf r.1 ip = some (useSlot perIp perMinute now action c).1
      ∧ r.2 = (useSlot perIp perMinute now action c).2)
    ∨ entryOf clients ip = none ∧ entryOf r.1 ip = none ∧ r.2 = -1
  others : ∀ ip' ≠ ip, entryOf r.1 ip' = entryOf clients ip'
    ∨ entryOf r.1 ip' = none ∧ ∃ c, entryOf clients ip' = some c ∧ c.connections = 0
        ∧ 60 ≤ now - c.window
  entries : ∀ c ∈ r.1, c ∈ clients ∨ ∃ d, (d ∈ clients ∨ d = fresh ip now)
    ∧ c = (useSlot perIp perMinute now action d).1

theorem Moves.of_unchanged {perIp perMinute : Nat} {now action : Int} {ip : Ip}
    {clients : List Client} (hd : Distinct clients) (h : entryOf clients ip = none) :
    Moves perIp perMinute now ip action clients (clients, -1) where
  distinct := hd
  own := Or.inr ⟨h, h, rfl⟩
  others _ _ := Or.inl rfl
  entries _ hc := Or.inl hc

theorem clientLimit_moves (perIp perMinute : Nat) (now : Int) (ip : Ip) (action : Int)
    {clients : List Client} (hd : Distinct clients) :
    Moves perIp perMinute now ip action clients
      (clientLimit perIp perMinute (some now) ip action clients) := by
  have hd' := (clientLimit_distinct perIp perMinute now ip action hd).1
  obtain ⟨hslot, hnone, hempty⟩ := findSlot_start ip now clients
  rw [clientLimit] at hd' ⊢
  revert hslot hnone hempty hd'
  generalize findSlot ip now 0 none clients = r
  obtain ⟨slot, empty⟩ := r
  intro hd' hslot hnone hempty
  cases slot with
  | some slot =>
      obtain ⟨c, hc, hip⟩ := hslot slot rfl
      have hget : clients.getD slot {} = c := by
        rw [List.getD_eq_getElem?_getD, hc]
        rfl
      dsimp only at hd' ⊢
      rw [hget] at hd' ⊢
      have hmem : c ∈ clients := List.mem_of_getElem? hc
      obtain ⟨hcip, hused, -⟩ := useSlot_spec perIp perMinute now action c
      have hlt : slot < clients.length := (List.getElem?_eq_some_iff.mp hc).1
      refine ⟨hd', Or.inl ⟨c, Or.inl ((entryOf_iff hd).mpr ⟨hmem, hip⟩), ?_, rfl⟩, ?_, ?_⟩
      · refine (entryOf_iff hd').mpr ⟨List.mem_set hlt _, isFor_iff.mpr ?_⟩
        rw [hcip, hused]
        exact isFor_iff.mp hip
      · intro ip' hne
        have hfor : c.isFor ip' = false := Bool.eq_false_iff.mpr fun hf =>
          hne ((isFor_iff.mp hf).2.symm.trans (isFor_iff.mp hip).2)
        left
        dsimp only
        rw [entryOf_set hd hc hd', hfor, if_neg Bool.false_ne_true]
        rw [hcip, (isFor_iff.mp hip).2]
        exact hne.symm
      · intro d hdm
        exact (List.mem_or_eq_of_mem_set hdm).imp id fun heq => ⟨c, Or.inl hmem, heq⟩
  | none =>
      have habs := entryOf_none_iff.mpr (hnone rfl)
      cases empty with
      | none => exact Moves.of_unchanged hd habs
      | some slot =>
          dsimp only at hd' ⊢
          by_cases ha : action = 1
          · rw [if_pos ha] at hd' ⊢
            obtain ⟨old, hold, hidle⟩ := hempty slot rfl
            have hlt : slot < clients.length := (List.getElem?_eq_some_iff.mp hold).1
            obtain ⟨hcip, hused, -⟩ := useSlot_spec perIp perMinute now action (fresh ip now)
            refine ⟨hd', Or.inl ⟨fresh ip now, Or.inr ⟨habs, ha, rfl⟩, ?_, rfl⟩, ?_, ?_⟩
            · exact (entryOf_iff hd').mpr
                ⟨List.mem_set hlt _, isFor_iff.mpr ⟨hused, hcip⟩⟩
            · intro ip' hne
              dsimp only
              rw [entryOf_set hd hold hd' (fun h => hne (h.symm.trans hcip))]
              by_cases hown : old.isFor ip' = true
              · -- the entry was another address's, without connections for a window
                rw [if_pos hown]
                rw [Client.idle, Bool.or_eq_true, Bool.and_eq_true, beq_iff_eq,
                  Bool.not_eq_true', (isFor_iff.mp hown).1] at hidle
                obtain ⟨hzero, hlate⟩ := hidle.resolve_left fun h => by cases h
                exact Or.inr ⟨rfl, old, (entryOf_iff hd).mpr
                  ⟨List.mem_of_getElem? hold, hown⟩, hzero, of_decide_eq_true hlate⟩
              · rw [if_neg hown]
                exact Or.inl rfl
            · intro d hdm
              exact (List.mem_or_eq_of_mem_set hdm).imp id fun heq => ⟨_, Or.inr rfl, heq⟩
          · rw [if_neg ha]
            exact Moves.of_unchanged hd habs

/-! ## The counters of an entry -/

/-- The entry with a window that is over started again. -/
def renewed (now : Int) (c : Client) : Client :=
  if now - c.window ≥ 60 then { c with requests := 0, window := now } else c

theorem renewed_cases (now : Int) (c : Client) :
    (60 ≤ now - c.window ∧ (renewed now c).window = now ∧ (renewed now c).requests = 0)
      ∨ (now - c.window < 60 ∧ (renewed now c).window = c.window
        ∧ (renewed now c).requests = c.requests) := by
  rw [renewed]
  by_cases h : now - c.window ≥ 60
  · rw [if_pos h]
    exact Or.inl ⟨h, rfl, rfl⟩
  · rw [if_neg h]
    exact Or.inr ⟨not_le.mp h, rfl, rfl⟩

theorem renewed_connections (now : Int) (c : Client) :
    (renewed now c).connections = c.connections := by
  rw [renewed]
  split <;> rfl

/-- A request is granted while the window has room for it, and nothing else
    touches the requests. -/
theorem useSlot_requests (perIp perMinute : Nat) (now action : Int) (c : Client) :
    (useSlot perIp perMinute now action c).1.window = (renewed now c).window
      ∧ ((action = 0 ∧ (useSlot perIp perMinute now action c).2 = 0
          ∧ (renewed now c).requests < perMinute
          ∧ (useSlot perIp perMinute now action c).1.requests = (renewed now c).requests + 1)
        ∨ ((action = 0 → (useSlot perIp perMinute now action c).2 ≠ 0)
          ∧ (useSlot perIp perMinute now action c).1.requests = (renewed now c).requests)) := by
  have huse : useSlot perIp perMinute now action c
      = if action = -1 then
          (if (renewed now c).connections > 0 then
            { renewed now c with connections := (renewed now c).connections - 1 }
           else renewed now c, 0)
        else if action = 1 ∧ (renewed now c).connections < perIp then
          ({ renewed now c with connections := (renewed now c).connections + 1 }, 0)
        else if action = 0 ∧ (renewed now c).requests < perMinute then
          ({ renewed now c with requests := (renewed now c).requests + 1 }, 0)
        else (renewed now c, -1) := rfl
  rw [huse]
  by_cases h1 : action = -1
  · rw [if_pos h1]
    dsimp only
    split <;> exact ⟨rfl, Or.inr ⟨fun h => by omega, rfl⟩⟩
  rw [if_neg h1]
  by_cases h2 : action = 1 ∧ (renewed now c).connections < perIp
  · rw [if_pos h2]
    exact ⟨rfl, Or.inr ⟨fun h => by omega, rfl⟩⟩
  rw [if_neg h2]
  by_cases h3 : action = 0 ∧ (renewed now c).requests < perMinute
  · rw [if_pos h3]
    exact ⟨rfl, Or.inl ⟨h3.1, rfl, h3.2, rfl⟩⟩
  · rw [if_neg h3]
    exact ⟨rfl, Or.inr ⟨fun _ h => (nomatch h), rfl⟩⟩

theorem useSlot_connections {perIp : Nat} (perMinute : Nat) (now action : Int) {c : Client}
    (h : c.connections ≤ perIp) :
    (useSlot perIp perMinute now action c).1.connections ≤ perIp := by
  rw [← renewed_connections now c] at h
  show (if action = -1 then
      ((if (renewed now c).connections > 0 then
        { renewed now c with connections := (renewed now c).connections - 1 }
       else renewed now c, 0) : Client × Int)
    else if action = 1 ∧ (renewed now c).connections < perIp then
      ({ renewed now c with connections := (renewed now c).connections + 1 }, 0)
    else if action = 0 ∧ (renewed now c).requests < perMinute then
      ({ renewed now c with requests := (renewed now c).requests + 1 }, 0)
    else (renewed now c, -1)).1.connections ≤ perIp
  split
  · dsimp only
    split
    · exact Nat.le_trans (Nat.sub_le _ 1) h
    · exact h
  · split
    · rename_i h2
      exact h2.2
    · split <;> exact h

/-! ## Runs -/

/-- A call of `client_limit`. -/
structure Call where
  now : Int
  ip : Ip
  action : Int
  deriving Repr, DecidableEq

/-- A call with its result, and where the window of its address starts after
    it. -/
structure Answer where
  call : Call
  result : Int
  window : Option Int
  deriving Repr, DecidableEq

/-- The table, and the calls that it has answered. -/
structure Limiter where
  clients : List Client := emptyTable
  answers : List Answer := []
  deriving Repr, DecidableEq

/-- An answered call opened a connection of the address. -/
def Answer.opens (ip : Ip) (a : Answer) : Bool :=
  a.call.ip == ip && a.call.action == 1 && a.result == 0

/-- An answered call closed a connection of the address. -/
def Answer.closes (ip : Ip) (a : Answer) : Bool := a.call.ip == ip && a.call.action == -1

/-- An answered call was granted a request of the address. -/
def Answer.grants (ip : Ip) (a : Answer) : Bool :=
  a.call.ip == ip && a.call.action == 0 && a.result == 0

/-- The connections that an address has open. -/
def openConnections (ip : Ip) (answers : List Answer) : Nat :=
  answers.countP (Answer.opens ip) - answers.countP (Answer.closes ip)

/-- The requests that an address was granted. -/
def requests (ip : Ip) (answers : List Answer) : Nat := answers.countP (Answer.grants ip)

/-- The same, from one time to another. -/
def requestsIn (ip : Ip) (first last : Int) (answers : List Answer) : Nat :=
  answers.countP fun a => a.grants ip && decide (first ≤ a.call.now ∧ a.call.now ≤ last)

section Run

variable (perIp perMinute : Nat)

/-- One call. -/
def answer (s : Limiter) (c : Call) : Limiter :=
  let r := clientLimit perIp perMinute (some c.now) c.ip c.action s.clients
  { clients := r.1
    answers := s.answers ++ [{ call := c, result := r.2, window := windowOf r.1 c.ip }] }

/-- A connection is released, and a request asked for, by an address that has a
    connection. -/
def Disciplined (s : Limiter) (c : Call) : Prop :=
  c.action = -1 ∨ c.action = 0 → 0 < openConnections c.ip s.answers

instance (s : Limiter) (c : Call) : Decidable (Disciplined s c) :=
  inferInstanceAs (Decidable (_ → _))

/-- The call starts a window of the address. -/
def Starts (ip : Ip) (s : Limiter) (c : Call) : Prop :=
  windowOf (answer perIp perMinute s c).clients ip ≠ none
    ∧ windowOf (answer perIp perMinute s c).clients ip ≠ windowOf s.clients ip

/-- What the table accounts for: one used entry for an address, and while it has
    connections open, that entry counts them, up to the limit. -/
structure Accounts (s : Limiter) : Prop where
  distinct : Distinct s.clients
  counted : ∀ ip, 0 < openConnections ip s.answers →
    ∃ c, entryOf s.clients ip = some c ∧ c.connections = openConnections ip s.answers
      ∧ c.connections ≤ perIp

end Run

/-! ## Connections -/

/-- The invariant behind `Accounts`. -/
structure Counted (perIp : Nat) (s : Limiter) : Prop where
  distinct : Distinct s.clients
  closed : ∀ ip, s.answers.countP (Answer.closes ip) ≤ s.answers.countP (Answer.opens ip)
  counter : ∀ ip, connectionsOf s.clients ip = openConnections ip s.answers
  limited : ∀ c ∈ s.clients, c.connections ≤ perIp

variable {perIp perMinute : Nat}

theorem Counted.accounts {s : Limiter} (h : Counted perIp s) : Accounts perIp s where
  distinct := h.distinct
  counted ip hpos := by
    rw [← h.counter] at hpos
    cases hc : entryOf s.clients ip with
    | none =>
        rw [connectionsOf_absent (entryOf_none_iff.mp hc)] at hpos
        exact absurd hpos (Nat.lt_irrefl 0)
    | some c =>
        exact ⟨c, rfl, by rw [← h.counter, connectionsOf_entry hc],
          h.limited c ((entryOf_iff h.distinct).mp hc).1⟩

theorem counted_start : Counted perIp {} where
  distinct := emptyTable_wellFormed.distinct
  closed _ := Nat.le_refl 0
  counter ip := emptyTable_connections ip
  limited c hc := by
    rw [List.eq_of_mem_replicate hc]
    exact Nat.zero_le perIp

/-- The connections of an address, after one more answer. -/
theorem openConnections_snoc (ip : Ip) {answers : List Answer} {a : Answer}
    (hclosed : answers.countP (Answer.closes ip) ≤ answers.countP (Answer.opens ip))
    (hpos : a.call.action = -1 → 0 < openConnections a.call.ip answers) :
    (answers ++ [a]).countP (Answer.closes ip) ≤ (answers ++ [a]).countP (Answer.opens ip)
      ∧ openConnections ip (answers ++ [a])
        = if ip = a.call.ip then
            if a.call.action = -1 then openConnections a.call.ip answers - 1
            else if a.call.action = 1 ∧ a.result = 0 then openConnections a.call.ip answers + 1
            else openConnections a.call.ip answers
          else openConnections ip answers := by
  rw [openConnections, List.countP_append, List.countP_append, List.countP_singleton,
    List.countP_singleton]
  by_cases hip : ip = a.call.ip
  · subst hip
    rw [if_pos rfl]
    rw [openConnections] at hpos ⊢
    by_cases h1 : a.call.action = -1
    · have hopens : a.opens a.call.ip = false := by
        simp [Answer.opens, h1]
      have hcloses : a.closes a.call.ip = true := by
        simp [Answer.closes, h1]
      have hlt := hpos h1
      rw [hopens, hcloses, if_pos h1, if_pos rfl, if_neg Bool.false_ne_true]
      omega
    · have hcloses : a.closes a.call.ip = false := by
        simp [Answer.closes, h1]
      rw [hcloses, if_neg h1, if_neg Bool.false_ne_true]
      by_cases h2 : a.call.action = 1 ∧ a.result = 0
      · have hopens : a.opens a.call.ip = true := by
          simp [Answer.opens, h2.1, h2.2]
        rw [hopens, if_pos h2, if_pos rfl]
        omega
      · have hopens : a.opens a.call.ip = false := by
          refine Bool.eq_false_iff.mpr fun h => h2 ?_
          simpa [Answer.opens] using h
        rw [hopens, if_neg h2, if_neg Bool.false_ne_true]
        omega
  · have hopens : a.opens ip = false := by
      simp [Answer.opens, Ne.symm hip]
    have hcloses : a.closes ip = false := by
      simp [Answer.closes, Ne.symm hip]
    rw [if_neg hip, hopens, hcloses, if_neg Bool.false_ne_true, openConnections]
    omega

theorem Counted.step {s : Limiter} (h : Counted perIp s) {c : Call} (hc : Disciplined s c) :
    Counted perIp (answer perIp perMinute s c) := by
  have hmoves := clientLimit_moves perIp perMinute c.now c.ip c.action h.distinct
  have heff := (clientLimit_distinct perIp perMinute c.now c.ip c.action h.distinct).2
  have hsnoc : ∀ ip, _ := fun ip => openConnections_snoc ip
    (a := { call := c
            result := (clientLimit perIp perMinute (some c.now) c.ip c.action s.clients).2
            window := windowOf
              (clientLimit perIp perMinute (some c.now) c.ip c.action s.clients).1 c.ip })
    (h.closed ip) fun h1 => hc (Or.inl h1)
  refine ⟨hmoves.distinct, fun ip => (hsnoc ip).1, fun ip => ?_, fun d hd => ?_⟩
  · show connectionsOf (clientLimit perIp perMinute (some c.now) c.ip c.action s.clients).1 ip = _
    rw [heff ip, h.counter, h.counter]
    exact (hsnoc ip).2.symm
  · rcases hmoves.entries d hd with hd | ⟨e, he, rfl⟩
    · exact h.limited d hd
    · refine useSlot_connections perMinute c.now c.action ?_
      rcases he with he | rfl
      · exact h.limited e he
      · exact Nat.zero_le perIp

/-! ## Requests -/

/-- The requests that an address was granted, with their windows. -/
def grantsOf (ip : Ip) (answers : List Answer) : List Grant :=
  answers.filterMap fun a =>
    if a.grants ip then some ⟨a.call.now, a.window.getD 0⟩ else none

theorem grantsOf_length (ip : Ip) (answers : List Answer) :
    (grantsOf ip answers).length = requests ip answers := by
  induction answers with
  | nil => rfl
  | cons a answers ih =>
      rw [grantsOf, List.filterMap_cons, requests, List.countP_cons]
      by_cases ha : a.grants ip = true
      · rw [if_pos ha, if_pos ha, List.length_cons]
        exact congrArg (· + 1) ih
      · rw [if_neg ha, if_neg ha]
        exact ih

theorem grantsOf_in (ip : Ip) (first last : Int) (answers : List Answer) :
    (grantsOf ip answers).countP (fun g => first ≤ g.time ∧ g.time ≤ last)
      = requestsIn ip first last answers := by
  rw [grantsOf, requestsIn, List.countP_filterMap]
  refine List.countP_congr fun a _ => ?_
  by_cases ha : a.grants ip = true
  · simp [ha]
  · simp [Bool.eq_false_iff.mpr ha]

/-- The windows of one address, up to a time: those of its grants are fair, and
    its entry has counted the ones in the present window. -/
structure Windows (perMinute : Nat) (ip : Ip) (latest : Int) (s : Limiter) : Prop where
  fair : Fair 60 perMinute (grantsOf ip s.answers)
  entry : ∀ c, entryOf s.clients ip = some c →
    c.window ≤ latest ∧ c.requests ≤ perMinute
      ∧ (∀ g ∈ grantsOf ip s.answers, g.window = c.window ∨ g.window + 60 ≤ c.window)
      ∧ (grantsOf ip s.answers).countP (fun g => g.window = c.window) ≤ c.requests
  absent : entryOf s.clients ip = none → ∀ g ∈ grantsOf ip s.answers, g.window + 60 ≤ latest

theorem windows_start (perMinute : Nat) (ip : Ip) (latest : Int) :
    Windows perMinute ip latest {} where
  fair := fair_nil
  entry c hc := by
    have hnone : entryOf emptyTable ip = none := entryOf_none_iff.mpr fun d hd => by
      rw [Client.isFor, emptyTable_unused hd]
      rfl
    cases hc.symm.trans hnone
  absent _ _ hg := by cases hg

/-- Nothing is granted: the grants stay as they are. -/
theorem grantsOf_snoc_other {ip : Ip} {answers : List Answer} {a : Answer}
    (h : a.grants ip = false) : grantsOf ip (answers ++ [a]) = grantsOf ip answers := by
  rw [grantsOf, List.filterMap_append, List.filterMap_cons, h, if_neg Bool.false_ne_true]
  exact List.append_nil _

theorem grantsOf_snoc_grant {ip : Ip} {answers : List Answer} {a : Answer}
    (h : a.grants ip = true) :
    grantsOf ip (answers ++ [a]) = grantsOf ip answers ++ [⟨a.call.now, a.window.getD 0⟩] := by
  rw [grantsOf, List.filterMap_append, List.filterMap_cons, if_pos h]
  rfl

/-- The address's entry in front of the call, renewed: its window is at most the
    present time and less than 60 seconds old, and counts its grants. -/
theorem Windows.renewed {ip : Ip} {latest now : Int} {s : Limiter}
    (h : Windows perMinute ip latest s) (hnow : latest ≤ now) {c : Client}
    (hc : entryOf s.clients ip = some c ∨ entryOf s.clients ip = none ∧ c = fresh ip now) :
    ((renewed now c).window ≤ now ∧ now < (renewed now c).window + 60)
      ∧ (renewed now c).requests ≤ perMinute
      ∧ (∀ g ∈ grantsOf ip s.answers,
          g.window = (renewed now c).window ∨ g.window + 60 ≤ (renewed now c).window)
      ∧ (grantsOf ip s.answers).countP (fun g => g.window = (renewed now c).window)
        ≤ (renewed now c).requests := by
  have hzero : (∀ g ∈ grantsOf ip s.answers, g.window + 60 ≤ now) →
      (grantsOf ip s.answers).countP (fun g => g.window = now) = 0 := by
    intro hall
    rw [List.countP_eq_zero]
    intro g hg heq
    have hle := hall g hg
    have heq' := of_decide_eq_true heq
    omega
  rcases hc with hc | ⟨hnone, rfl⟩
  · obtain ⟨hle, hroom, hgrants, hcount⟩ := h.entry c hc
    rcases renewed_cases now c with ⟨hover, hw, hr⟩ | ⟨hin, hw, hr⟩
    · have hall : ∀ g ∈ grantsOf ip s.answers, g.window + 60 ≤ now := by
        intro g hg
        rcases hgrants g hg with hg | hg <;> omega
      rw [hw, hr, hzero hall]
      exact ⟨⟨Int.le_refl _, by omega⟩, Nat.zero_le _, fun g hg => Or.inr (hall g hg),
        Nat.le_refl 0⟩
    · rw [hw, hr]
      exact ⟨⟨by omega, by omega⟩, hroom, hgrants, hcount⟩
  · have hall : ∀ g ∈ grantsOf ip s.answers, g.window + 60 ≤ now := fun g hg =>
      Int.le_trans (h.absent hnone g hg) hnow
    have hfresh : ClientLimit.renewed now (fresh ip now) = fresh ip now := by
      rw [ClientLimit.renewed, if_neg]
      show ¬ now - now ≥ 60
      omega
    rw [hfresh]
    refine ⟨⟨Int.le_refl _, ?_⟩, Nat.zero_le _, fun g hg => Or.inr (hall g hg), ?_⟩
    · show now < now + 60
      omega
    · show _ ≤ 0
      exact Nat.le_of_eq (hzero hall)

/-- One call, for the address that makes it. -/
theorem Windows.step_own {latest : Int} {s : Limiter} {c : Call}
    (h : Windows perMinute c.ip latest s) (hnow : latest ≤ c.now) (hd : Distinct s.clients) :
    Windows perMinute c.ip c.now (answer perIp perMinute s c) := by
  have hmoves := clientLimit_moves perIp perMinute c.now c.ip c.action hd
  show Windows perMinute c.ip c.now
    { clients := (clientLimit perIp perMinute (some c.now) c.ip c.action s.clients).1
      answers := s.answers ++ [{
        call := c
        result := (clientLimit perIp perMinute (some c.now) c.ip c.action s.clients).2
        window := windowOf
          (clientLimit perIp perMinute (some c.now) c.ip c.action s.clients).1 c.ip }] }
  revert hmoves
  generalize clientLimit perIp perMinute (some c.now) c.ip c.action s.clients = r
  intro hmoves
  rcases hmoves.own with ⟨e, he, hentry, hres⟩ | ⟨hnone, hentry, hres⟩
  · have he' : entryOf s.clients c.ip = some e
        ∨ entryOf s.clients c.ip = none ∧ e = fresh c.ip c.now :=
      he.imp id fun h => ⟨h.1, h.2.2⟩
    obtain ⟨hin, hroom, hgrants, hcount⟩ := h.renewed hnow he'
    obtain ⟨hw, hreq⟩ := useSlot_requests perIp perMinute c.now c.action e
    have hwin : windowOf r.1 c.ip = some (ClientLimit.renewed c.now e).window := by
      rw [windowOf, hentry, Option.map_some, hw]
    rcases hreq with ⟨h0, hok, hlt, hreq⟩ | ⟨hno, hreq⟩
    · -- a request is granted, in the window of the entry
      have hgrant : Answer.grants c.ip { call := c, result := r.2, window := windowOf r.1 c.ip }
          = true := by
        simp only [Answer.grants, Bool.and_eq_true, beq_iff_eq]
        exact ⟨⟨trivial, h0⟩, hres.trans hok⟩
      have hsnoc := @grantsOf_snoc_grant _ s.answers _ hgrant
      rw [hwin, Option.getD_some] at hsnoc
      have hfair := h.fair.add (g := ⟨c.now, (ClientLimit.renewed c.now e).window⟩) hin hgrants
        (Nat.lt_of_le_of_lt hcount hlt)
      refine ⟨?_, fun d hd' => ?_, fun hn => nomatch hentry.symm.trans hn⟩
      · rw [hwin]
        exact hsnoc ▸ hfair
      · have hde := Option.some.inj (hentry.symm.trans hd')
        rw [← hde, hw, hreq]
        dsimp only
        rw [hwin, hsnoc]
        refine ⟨hin.1, hlt, fun g hg => ?_, ?_⟩
        · rcases List.mem_append.mp hg with hg | hg
          · exact hgrants g hg
          · rw [List.mem_singleton.mp hg]
            exact Or.inl rfl
        · rw [List.countP_append, List.countP_singleton, if_pos (decide_eq_true rfl)]
          exact Nat.add_le_add_right hcount 1
    · have hgrant : Answer.grants c.ip { call := c, result := r.2, window := windowOf r.1 c.ip }
          = false := by
        refine Bool.eq_false_iff.mpr fun hg => ?_
        simp only [Answer.grants, Bool.and_eq_true, beq_iff_eq] at hg
        exact hno hg.1.2 (hres.symm.trans hg.2)
      have hsnoc := @grantsOf_snoc_other _ s.answers _ hgrant
      refine ⟨?_, fun d hd' => ?_, fun hn => nomatch hentry.symm.trans hn⟩
      · exact hsnoc ▸ h.fair
      · have hde := Option.some.inj (hentry.symm.trans hd')
        rw [← hde, hw, hreq]
        dsimp only
        rw [hsnoc]
        exact ⟨hin.1, hroom, hgrants, hcount⟩
  · have hgrant : Answer.grants c.ip { call := c, result := r.2, window := windowOf r.1 c.ip }
        = false := by
      rw [Answer.grants, hres]
      exact Bool.and_false _
    have hsnoc := @grantsOf_snoc_other _ s.answers _ hgrant
    refine ⟨?_, fun d hd' => (nomatch hentry.symm.trans hd'), fun _ => ?_⟩
    · exact hsnoc ▸ h.fair
    · dsimp only
      rw [hsnoc]
      exact fun g hg => Int.le_trans (h.absent hnone g hg) hnow

/-- And for the other addresses. -/
theorem Windows.step_other {ip : Ip} {latest : Int} {s : Limiter} {c : Call}
    (h : Windows perMinute ip latest s) (hnow : latest ≤ c.now) (hd : Distinct s.clients)
    (hip : ip ≠ c.ip) : Windows perMinute ip c.now (answer perIp perMinute s c) := by
  have hmoves := clientLimit_moves perIp perMinute c.now c.ip c.action hd
  have hsnoc : grantsOf ip (answer perIp perMinute s c).answers = grantsOf ip s.answers :=
    grantsOf_snoc_other (by simp [Answer.grants, Ne.symm hip])
  refine ⟨hsnoc.symm ▸ h.fair, fun d hd' => ?_, fun hn => ?_⟩
  · rw [hsnoc]
    rcases hmoves.others ip hip with heq | ⟨hnone, -⟩
    · obtain ⟨h1, h2⟩ := h.entry d (heq.symm.trans hd')
      exact ⟨Int.le_trans h1 hnow, h2⟩
    · exact nomatch hnone.symm.trans hd'
  · rw [hsnoc]
    rcases hmoves.others ip hip with heq | ⟨-, e, he, -, hlate⟩
    · exact fun g hg => Int.le_trans (h.absent (heq.symm.trans hn) g hg) hnow
    · -- the entry was given away, its window was over
      intro g hg
      rcases (h.entry e he).2.2.1 g hg with hg | hg <;> omega

theorem Windows.step {ip : Ip} {latest : Int} {s : Limiter} {c : Call}
    (h : Windows perMinute ip latest s) (hnow : latest ≤ c.now) (hd : Distinct s.clients) :
    Windows perMinute ip c.now (answer perIp perMinute s c) := by
  by_cases hip : ip = c.ip
  · subst hip
    exact h.step_own hnow hd
  · exact h.step_other hnow hd hip

/-! ## Whole runs -/

/-- The invariant of a run whose last call came at `latest`. -/
structure Invariant (perIp perMinute : Nat) (latest : Int) (s : Limiter) : Prop where
  counted : Counted perIp s
  windows : ∀ ip, Windows perMinute ip latest s

theorem invariant_start (perIp perMinute : Nat) (latest : Int) :
    Invariant perIp perMinute latest {} where
  counted := counted_start
  windows ip := windows_start perMinute ip latest

theorem Invariant.step {latest : Int} {s : Limiter} {c : Call}
    (h : Invariant perIp perMinute latest s) (hnow : latest ≤ c.now) (hc : Disciplined s c) :
    Invariant perIp perMinute c.now (answer perIp perMinute s c) where
  counted := h.counted.step hc
  windows ip := (h.windows ip).step hnow h.counted.distinct

/-- The calls of a run come at times that do not go back, from a time on. -/
def Forward : Int → List Call → Prop
  | _, [] => True
  | latest, c :: calls => latest ≤ c.now ∧ Forward c.now calls

/-- A run keeps the invariant, and what is left of it can go on. -/
theorem Invariant.run {pre post : List Call} : ∀ {latest : Int} {s : Limiter},
    Invariant perIp perMinute latest s → Forward latest (pre ++ post) →
    Runs.EveryStep (answer perIp perMinute) Disciplined s (pre ++ post) →
      ∃ last, Invariant perIp perMinute last (Runs.after (answer perIp perMinute) s pre)
        ∧ Forward last post
        ∧ Runs.EveryStep (answer perIp perMinute) Disciplined
            (Runs.after (answer perIp perMinute) s pre) post := by
  induction pre with
  | nil => exact fun h hnow hc => ⟨_, h, hnow, hc⟩
  | cons c pre ih => exact fun h hnow hc => ih (h.step hnow.1 hc.1) hnow.2 hc.2

/-- Every state of a run is accounted for. -/
theorem Invariant.always {calls : List Call} : ∀ {latest : Int} {s : Limiter},
    Invariant perIp perMinute latest s → Forward latest calls →
    Runs.EveryStep (answer perIp perMinute) Disciplined s calls →
      Runs.Always (answer perIp perMinute) (Accounts perIp) s calls := by
  induction calls with
  | nil => exact fun h _ _ => h.counted.accounts
  | cons c calls ih =>
      exact fun h hnow hc => ⟨h.counted.accounts, ih (h.step hnow.1 hc.1) hnow.2 hc.2⟩

theorem forward_of_pairwise {calls : List Call}
    (h : calls.Pairwise fun a b => a.now ≤ b.now) : ∃ latest, Forward latest calls := by
  induction calls with
  | nil => exact ⟨0, trivial⟩
  | cons c calls ih =>
      obtain ⟨hc, hcalls⟩ := List.pairwise_cons.mp h
      obtain ⟨latest, hl⟩ := ih hcalls
      cases calls with
      | nil => exact ⟨c.now, Int.le_refl _, trivial⟩
      | cons d calls => exact ⟨c.now, Int.le_refl _, hc d List.mem_cons_self, hl.2⟩

/-- One call grants the address a request only in the window that its entry then
    has. -/
theorem grantsOf_answer (ip : Ip) {s : Limiter} (hd : Distinct s.clients) (c : Call) :
    grantsOf ip (answer perIp perMinute s c).answers = grantsOf ip s.answers
      ∨ ∃ g, grantsOf ip (answer perIp perMinute s c).answers = grantsOf ip s.answers ++ [g]
        ∧ windowOf (answer perIp perMinute s c).clients ip = some g.window := by
  have hmoves := clientLimit_moves perIp perMinute c.now c.ip c.action hd
  rw [answer]
  revert hmoves
  generalize clientLimit perIp perMinute (some c.now) c.ip c.action s.clients = r
  intro hmoves
  dsimp only
  by_cases hg : Answer.grants ip { call := c, result := r.2, window := windowOf r.1 c.ip } = true
  · right
    refine ⟨_, grantsOf_snoc_grant hg, ?_⟩
    simp only [Answer.grants, Bool.and_eq_true, beq_iff_eq] at hg
    obtain ⟨⟨rfl, -⟩, hzero⟩ := hg
    rcases hmoves.own with ⟨e, -, hentry, -⟩ | ⟨-, -, hres⟩
    · rw [windowOf, hentry]
      rfl
    · exact nomatch hzero.symm.trans hres
  · exact Or.inl (grantsOf_snoc_other (Bool.eq_false_iff.mpr hg))

/-- While no window of the address starts, its requests are granted in one
    window. -/
theorem grants_one_window {ip : Ip} {w : Int} {calls : List Call} : ∀ {s : Limiter},
    Distinct s.clients → windowOf s.clients ip = none ∨ windowOf s.clients ip = some w →
    Runs.EveryStep (answer perIp perMinute) (fun s c => ¬ Starts perIp perMinute ip s c) s calls →
      ∃ gs, grantsOf ip (Runs.after (answer perIp perMinute) s calls).answers
          = grantsOf ip s.answers ++ gs ∧ ∀ g ∈ gs, g.window = w := by
  induction calls with
  | nil => exact fun _ _ _ => ⟨[], (List.append_nil _).symm, fun g hg => nomatch hg⟩
  | cons c calls ih =>
      intro s hd hw hstep
      have hmoves := clientLimit_moves perIp perMinute c.now c.ip c.action hd
      have hw' : windowOf (answer perIp perMinute s c).clients ip = none
          ∨ windowOf (answer perIp perMinute s c).clients ip = some w := by
        by_cases hnone : windowOf (answer perIp perMinute s c).clients ip = none
        · exact Or.inl hnone
        · have hsame := not_not.mp fun hne => hstep.1 ⟨hnone, hne⟩
          rw [hsame] at hnone ⊢
          exact Or.inr (hw.resolve_left hnone)
      obtain ⟨gs, hgs, hall⟩ := ih hmoves.distinct hw' hstep.2
      rcases @grantsOf_answer perIp perMinute ip _ hd c
        with heq | ⟨g, heq, hg⟩
      · exact ⟨gs, by rw [← heq]; exact hgs, hall⟩
      · refine ⟨g :: gs, ?_, fun x hx => ?_⟩
        · rw [show g :: gs = [g] ++ gs from rfl, ← List.append_assoc, ← heq]
          exact hgs
        · rcases List.mem_cons.mp hx with rfl | hx
          · rcases hw' with h | h
            · exact nomatch h.symm.trans hg
            · exact (Option.some.inj (hg.symm.trans h))
          · exact hall x hx

/-- The first call may start a window, and the others do not: at most one
    window's worth of requests is granted. -/
theorem Invariant.one_window {latest : Int} {s : Limiter} {c : Call} {calls post : List Call}
    (h : Invariant perIp perMinute latest s) (hnow : Forward latest (c :: calls ++ post))
    (hc : Runs.EveryStep (answer perIp perMinute) Disciplined s (c :: calls ++ post)) (ip : Ip)
    (hstart : Runs.EveryStep (answer perIp perMinute)
      (fun s c => ¬ Starts perIp perMinute ip s c) (answer perIp perMinute s c) calls) :
    requests ip (Runs.after (answer perIp perMinute) s (c :: calls)).answers
      ≤ requests ip s.answers + perMinute := by
  obtain ⟨last, hlast, -⟩ := h.run hnow hc
  have hd := (h.step hnow.1 hc.1).counted.distinct
  obtain ⟨w, hw⟩ : ∃ w, windowOf (answer perIp perMinute s c).clients ip = none
      ∨ windowOf (answer perIp perMinute s c).clients ip = some w := by
    cases hwin : windowOf (answer perIp perMinute s c).clients ip with
    | none => exact ⟨0, Or.inl rfl⟩
    | some w => exact ⟨w, Or.inr rfl⟩
  obtain ⟨gs, hgs, hall⟩ := grants_one_window hd hw hstart
  have hafter : grantsOf ip (Runs.after (answer perIp perMinute) s (c :: calls)).answers
      = grantsOf ip (answer perIp perMinute s c).answers ++ gs := hgs
  -- the grants of the run are the old ones and some of the one window
  obtain ⟨gs', hgs', hall'⟩ : ∃ gs', grantsOf ip
      (Runs.after (answer perIp perMinute) s (c :: calls)).answers
        = grantsOf ip s.answers ++ gs' ∧ ∃ w', ∀ g ∈ gs', g.window = w' := by
    rcases @grantsOf_answer perIp perMinute ip _ h.counted.distinct c
      with heq | ⟨g, heq, hg⟩
    · exact ⟨gs, by rw [hafter, heq], w, hall⟩
    · refine ⟨g :: gs, by rw [hafter, heq, List.append_assoc]; rfl, w, fun x hx => ?_⟩
      rcases List.mem_cons.mp hx with rfl | hx
      · rcases hw with hw | hw
        · exact nomatch hw.symm.trans hg
        · exact (Option.some.inj (hg.symm.trans hw))
      · exact hall x hx
  obtain ⟨w', hw'⟩ := hall'
  have hfew := (hlast.windows ip).fair.few w'
  have hcount : gs'.countP (fun g => decide (g.window = w')) = gs'.length :=
    List.countP_eq_length.mpr fun g hg => decide_eq_true (hw' g hg)
  rw [hgs', List.countP_append, hcount] at hfew
  rw [← grantsOf_length, ← grantsOf_length, hgs', List.length_append]
  omega

/-- **Reconnecting does not get around the limits.**  Whoever calls, and however
    entries are given away and taken again: an address has one used entry, which
    counts its open connections; between two starts of its window it is granted
    `perMinute` requests at the most, and twice that many in any 60 seconds. -/
theorem limits_not_bypassed (perIp perMinute : Nat) (calls : List Call)
    (hnow : calls.Pairwise fun a b => a.now ≤ b.now)
    (hc : Runs.EveryStep (answer perIp perMinute) Disciplined {} calls) :
    Runs.Always (answer perIp perMinute) (Accounts perIp) {} calls
      ∧ (∀ (ip : Ip) (pre : List Call) (c : Call) (seg post : List Call),
          calls = pre ++ (c :: seg ++ post) →
          Runs.EveryStep (answer perIp perMinute) (fun s c => ¬ Starts perIp perMinute ip s c)
            (Runs.after (answer perIp perMinute) {} (pre ++ [c])) seg →
          requests ip (Runs.after (answer perIp perMinute) {} (pre ++ c :: seg)).answers
            ≤ requests ip (Runs.after (answer perIp perMinute) {} pre).answers + perMinute)
      ∧ ∀ (ip : Ip) (t : Int),
          requestsIn ip t (t + 60) (Runs.after (answer perIp perMinute) {} calls).answers
            ≤ 2 * perMinute := by
  obtain ⟨latest, hforward⟩ := forward_of_pairwise hnow
  have hstart := invariant_start perIp perMinute latest
  refine ⟨hstart.always hforward hc, ?_, fun ip t => ?_⟩
  · rintro ip pre c seg post rfl hseg
    obtain ⟨last, hlast, hforward', hc'⟩ := hstart.run hforward hc
    rw [Runs.after, List.foldl_append] at hseg
    have hwindow := hlast.one_window hforward' hc' ip hseg
    rw [Runs.after, List.foldl_append]
    exact hwindow
  · rw [← List.append_nil calls] at hforward hc
    obtain ⟨last, hlast, -⟩ := hstart.run hforward hc
    rw [← grantsOf_in]
    exact (hlast.windows ip).fair.interval t

/-- Two addresses, one of which uses up its requests, goes away, comes back in the
    same window and is refused, and is granted one more in the next window. -/
def reconnecting : List Call :=
  [⟨0, 7, 1⟩, ⟨1, 7, 0⟩, ⟨2, 9, 1⟩, ⟨3, 7, -1⟩, ⟨4, 7, 1⟩, ⟨5, 7, 0⟩, ⟨60, 7, 0⟩]

theorem limits_not_bypassed_reconnecting :
    Runs.Always (answer 2 1) (Accounts 2) {} reconnecting
      ∧ (∀ (ip : Ip) (pre : List Call) (c : Call) (seg post : List Call),
          reconnecting = pre ++ (c :: seg ++ post) →
          Runs.EveryStep (answer 2 1) (fun s c => ¬ Starts 2 1 ip s c)
            (Runs.after (answer 2 1) {} (pre ++ [c])) seg →
          requests ip (Runs.after (answer 2 1) {} (pre ++ c :: seg)).answers
            ≤ requests ip (Runs.after (answer 2 1) {} pre).answers + 1)
      ∧ ∀ (ip : Ip) (t : Int),
          requestsIn ip t (t + 60) (Runs.after (answer 2 1) {} reconnecting).answers ≤ 2 * 1 :=
  limits_not_bypassed 2 1 reconnecting (by decide) (by decide +kernel)

end ClientLimit
