import Mathlib.Data.List.Basic
import Mathlib.Tactic.Common

/-! # The client table (`src/server/server.c`)

    `client_limit` keeps one entry for an address: its open connections and its
    requests in the current window.  An entry without connections may be given
    to another address once its window is over.  What matters to the callers is
    the number of connections an address has (`connectionsOf`): action `1` adds
    one, action `-1` takes one away, and no other entry is touched.

    `clock_gettime` is outside; `none` is its failure. -/

namespace ClientLimit

/-- An IPv4 address. -/
abbrev Ip := UInt32

/-- The entries of the table. -/
abbrev CLIENTS : Nat := 256

/-- `ClientLimit`. -/
structure Client where
  ip : Ip := 0
  used : Bool := false
  connections : Nat := 0
  requests : Nat := 0
  window : Int := 0
  deriving Repr, DecidableEq

/-- The entry is in use by the address. -/
def Client.isFor (c : Client) (ip : Ip) : Bool := c.used && c.ip == ip

/-- The entry may be given away. -/
def Client.idle (c : Client) (now : Int) : Bool :=
  !c.used || (c.connections == 0 && now - c.window ≥ 60)

/-- The loop of `client_limit`: the entry of the address, and the last idle entry
    in front of it. -/
def findSlot (ip : Ip) (now : Int) :
    Nat → Option Nat → List Client → Option Nat × Option Nat
  | _, empty, [] => (none, empty)
  | i, empty, c :: clients =>
      if c.isFor ip then (some i, empty)
      else findSlot ip now (i + 1) (if c.idle now then some i else empty) clients

/-- What `client_limit` does to the entry it has found: a window that is over
    starts again, and the action is counted if the limits allow it. -/
def useSlot (perIp perMinute : Nat) (now action : Int) (c : Client) : Client × Int :=
  let c := if now - c.window ≥ 60 then { c with requests := 0, window := now } else c
  if action = -1 then
    (if c.connections > 0 then { c with connections := c.connections - 1 } else c, 0)
  else if action = 1 ∧ c.connections < perIp then
    ({ c with connections := c.connections + 1 }, 0)
  else if action = 0 ∧ c.requests < perMinute then
    ({ c with requests := c.requests + 1 }, 0)
  else (c, -1)

/-- `client_limit`. -/
def clientLimit (perIp perMinute : Nat) (clock : Option Int) (ip : Ip) (action : Int)
    (clients : List Client) : List Client × Int :=
  match clock with
  | none => (clients, -1)
  | some now =>
      match findSlot ip now 0 none clients with
      | (some slot, _) =>
          let (c, result) := useSlot perIp perMinute now action (clients.getD slot {})
          (clients.set slot c, result)
      | (none, some slot) =>
          if action = 1 then
            let (c, result) := useSlot perIp perMinute now action
              { ip := ip, used := true, window := now }
            (clients.set slot c, result)
          else (clients, -1)
      | (none, none) => (clients, -1)

/-! ## One entry for an address -/

/-- No address has two entries. -/
def Distinct (clients : List Client) : Prop :=
  ∀ (i j : Nat) (c d : Client), clients[i]? = some c → clients[j]? = some d → c.used = true → d.used = true →
    c.ip = d.ip → i = j

/-- The connections of an address. -/
def connectionsOf (clients : List Client) (ip : Ip) : Nat :=
  ((clients.find? (·.isFor ip)).map (·.connections)).getD 0

theorem isFor_iff {c : Client} {ip : Ip} : c.isFor ip = true ↔ c.used = true ∧ c.ip = ip := by
  rw [Client.isFor, Bool.and_eq_true, beq_iff_eq]

theorem connectionsOf_present {clients : List Client} (h : Distinct clients) {i : Nat}
    {c : Client} (hc : clients[i]? = some c) {ip : Ip} (hip : c.isFor ip = true) :
    connectionsOf clients ip = c.connections := by
  obtain ⟨hu, hi⟩ := isFor_iff.mp hip
  cases hf : clients.find? (·.isFor ip) with
  | none => exact absurd hip (List.find?_eq_none.mp hf c (List.mem_of_getElem? hc))
  | some d =>
      have hd : d.isFor ip = true := List.find?_some (p := fun c : Client => c.isFor ip) hf
      obtain ⟨hu', hi'⟩ := isFor_iff.mp hd
      obtain ⟨j, hj⟩ := List.mem_iff_getElem?.mp (List.mem_of_find?_eq_some hf)
      have hij := h i j c d hc hj hu hu' (hi.trans hi'.symm)
      rw [hij, hj] at hc
      rw [connectionsOf, hf, Option.some.inj hc]
      rfl

theorem connectionsOf_absent {clients : List Client} {ip : Ip}
    (h : ∀ c ∈ clients, c.isFor ip = false) : connectionsOf clients ip = 0 := by
  have hf : clients.find? (·.isFor ip) = none :=
    List.find?_eq_none.mpr fun c hc => by rw [h c hc]; exact Bool.false_ne_true
  rw [connectionsOf, hf]
  rfl

/-- An address has an entry or it has none. -/
theorem present_or_absent (clients : List Client) (ip : Ip) :
    (∃ (i : Nat) (c : Client), clients[i]? = some c ∧ c.isFor ip = true)
      ∨ (∀ c ∈ clients, c.isFor ip = false) := by
  by_cases h : ∀ c ∈ clients, c.isFor ip = false
  · exact Or.inr h
  · simp only [not_forall, Bool.not_eq_false] at h
    obtain ⟨c, hc, hip⟩ := h
    obtain ⟨i, hi⟩ := List.mem_iff_getElem?.mp hc
    exact Or.inl ⟨i, c, hi, hip⟩

/-- Writing an entry for an address that has no other one: the entries stay
    distinct and nobody else's connections change, if the entry that is
    overwritten was the address's own or had none. -/
theorem connectionsOf_set {clients : List Client} (h : Distinct clients) {slot : Nat}
    {old c : Client} (hold : clients[slot]? = some old) (hu : c.used = true)
    (hown : old.isFor c.ip = true ∨ old.used = false ∨ old.connections = 0)
    (hother : ∀ (j : Nat) (d : Client), j ≠ slot → clients[j]? = some d → d.isFor c.ip = false) :
    Distinct (clients.set slot c)
      ∧ ∀ ip, connectionsOf (clients.set slot c) ip
          = if ip = c.ip then c.connections else connectionsOf clients ip := by
  have hlt : slot < clients.length := (List.getElem?_eq_some_iff.mp hold).1
  have hget : ∀ j, (clients.set slot c)[j]? = if slot = j then some c else clients[j]? := by
    intro j
    by_cases hj : slot = j
    · rw [if_pos hj, ← hj, List.getElem?_set_self hlt]
    · rw [if_neg hj, List.getElem?_set_ne hj]
  have hdist : Distinct (clients.set slot c) := by
    intro i j a b ha hb hua hub hab
    rw [hget] at ha hb
    by_cases hi : slot = i
    · rw [if_pos hi] at ha
      obtain rfl := Option.some.inj ha
      by_cases hj : slot = j
      · exact hi.symm.trans hj
      · rw [if_neg hj] at hb
        have hno := hother j b (Ne.symm hj) hb
        rw [(isFor_iff).mpr ⟨hub, hab.symm⟩] at hno
        exact nomatch hno
    · rw [if_neg hi] at ha
      by_cases hj : slot = j
      · rw [if_pos hj] at hb
        obtain rfl := Option.some.inj hb
        have hno := hother i a (Ne.symm hi) ha
        rw [(isFor_iff).mpr ⟨hua, hab⟩] at hno
        exact nomatch hno
      · rw [if_neg hj] at hb
        exact h i j a b ha hb hua hub hab
  refine ⟨hdist, fun ip => ?_⟩
  by_cases hip : ip = c.ip
  · rw [if_pos hip]
    refine connectionsOf_present hdist (i := slot) ?_ (isFor_iff.mpr ⟨hu, hip.symm⟩)
    rw [hget, if_pos rfl]
  rw [if_neg hip]
  rcases present_or_absent clients ip with ⟨j, d, hj, hd⟩ | habs
  · rw [connectionsOf_present h hj hd]
    by_cases hs : slot = j
    · -- the overwritten entry was another address's, so it had no connections
      rw [← hs, hold] at hj
      obtain rfl := Option.some.inj hj
      obtain ⟨hou, hoip⟩ := isFor_iff.mp hd
      have hzero : old.connections = 0 := by
        rcases hown with ho | ho | ho
        · exact absurd (hoip.symm.trans (isFor_iff.mp ho).2) hip
        · rw [hou] at ho
          exact nomatch ho
        · exact ho
      rw [hzero]
      refine connectionsOf_absent fun e he => ?_
      obtain ⟨k, hk⟩ := List.mem_iff_getElem?.mp he
      rw [hget] at hk
      by_cases hks : slot = k
      · rw [if_pos hks] at hk
        obtain rfl := Option.some.inj hk
        exact Bool.eq_false_iff.mpr fun hf => hip (isFor_iff.mp hf).2.symm
      · rw [if_neg hks] at hk
        refine Bool.eq_false_iff.mpr fun hf => hks ?_
        obtain ⟨heu, heip⟩ := isFor_iff.mp hf
        exact h slot k old e hold hk hou heu (hoip.trans heip.symm)
    · refine connectionsOf_present hdist (i := j) ?_ hd
      rw [hget, if_neg hs, hj]
  · rw [connectionsOf_absent habs]
    refine connectionsOf_absent fun e he => ?_
    rcases List.mem_or_eq_of_mem_set he with he | rfl
    · exact habs e he
    · exact Bool.eq_false_iff.mpr fun hf => hip (isFor_iff.mp hf).2.symm

/-! ## What `client_limit` does -/

/-- What the loop finds. -/
theorem findSlot_spec {ip : Ip} {now : Int} {clients : List Client} :
    ∀ {i : Nat} {empty : Option Nat} {pre : List Client}, pre.length = i →
      (∀ c ∈ pre, c.isFor ip = false) →
      (∀ e, empty = some e → ∃ c, (pre ++ clients)[e]? = some c ∧ c.idle now = true) →
      (∀ s, (findSlot ip now i empty clients).1 = some s →
          ∃ c, (pre ++ clients)[s]? = some c ∧ c.isFor ip = true)
        ∧ ((findSlot ip now i empty clients).1 = none →
          ∀ c ∈ pre ++ clients, c.isFor ip = false)
        ∧ (∀ e, (findSlot ip now i empty clients).2 = some e →
          ∃ c, (pre ++ clients)[e]? = some c ∧ c.idle now = true) := by
  induction clients with
  | nil =>
      intro i empty pre _ hpre hempty
      exact ⟨fun s h => (nomatch h), fun _ c hc => hpre c (by simpa using hc), hempty⟩
  | cons c clients ih =>
      intro i empty pre hlen hpre hempty
      have hget : (pre ++ c :: clients)[i]? = some c := by
        rw [← hlen, List.getElem?_append_right (Nat.le_refl _), Nat.sub_self]
        rfl
      rw [findSlot]
      by_cases hc : c.isFor ip = true
      · rw [if_pos hc]
        exact ⟨fun s h => ⟨c, by rw [← Option.some.inj h]; exact hget, hc⟩,
          fun h => (nomatch h), hempty⟩
      · rw [if_neg hc]
        have happ : pre ++ c :: clients = (pre ++ [c]) ++ clients := by simp
        rw [happ] at hget hempty ⊢
        refine ih (by simp [hlen]) ?_ ?_
        · intro d hd
          rcases List.mem_append.mp hd with hd | hd
          · exact hpre d hd
          · rw [List.mem_singleton.mp hd]
            exact Bool.eq_false_iff.mpr hc
        · intro e he
          split at he
          · rename_i hidle
            exact ⟨c, by rw [← Option.some.inj he]; exact hget, hidle⟩
          · exact hempty e he

theorem findSlot_start (ip : Ip) (now : Int) (clients : List Client) :
    (∀ s, (findSlot ip now 0 none clients).1 = some s →
        ∃ c, clients[s]? = some c ∧ c.isFor ip = true)
      ∧ ((findSlot ip now 0 none clients).1 = none → ∀ c ∈ clients, c.isFor ip = false)
      ∧ (∀ e, (findSlot ip now 0 none clients).2 = some e →
        ∃ c, clients[e]? = some c ∧ c.idle now = true) :=
  @findSlot_spec ip now clients 0 none [] rfl (fun _ hc => (nomatch hc))
    (fun _ he => (nomatch he))

/-- What the action does to an entry's connections. -/
theorem useSlot_spec (perIp perMinute : Nat) (now action : Int) (c : Client) :
    (useSlot perIp perMinute now action c).1.ip = c.ip
      ∧ (useSlot perIp perMinute now action c).1.used = c.used
      ∧ ((action = -1 ∧ (useSlot perIp perMinute now action c).1.connections = c.connections - 1
            ∧ (useSlot perIp perMinute now action c).2 = 0)
        ∨ (action = 1 ∧ (useSlot perIp perMinute now action c).1.connections = c.connections + 1
            ∧ (useSlot perIp perMinute now action c).2 = 0)
        ∨ (action ≠ -1 ∧ (useSlot perIp perMinute now action c).1.connections = c.connections
            ∧ ((useSlot perIp perMinute now action c).2 = 0 → action ≠ 1))) := by
  have hrefresh : ∃ d : Client, (if now - c.window ≥ 60 then
      { c with requests := 0, window := now } else c) = d ∧ d.ip = c.ip ∧ d.used = c.used
        ∧ d.connections = c.connections := by
    refine ⟨_, rfl, ?_⟩
    split <;> exact ⟨rfl, rfl, rfl⟩
  obtain ⟨d, hd, hip, hused, hconn⟩ := hrefresh
  unfold useSlot
  rw [hd, ← hip, ← hused, ← hconn]
  dsimp only
  by_cases h1 : action = -1
  · rw [if_pos h1]
    by_cases hpos : d.connections > 0
    · rw [if_pos hpos]
      exact ⟨rfl, rfl, Or.inl ⟨h1, rfl, rfl⟩⟩
    · rw [if_neg hpos]
      have hzero : d.connections = 0 := Nat.eq_zero_of_not_pos hpos
      exact ⟨rfl, rfl, Or.inl ⟨h1, by rw [hzero], rfl⟩⟩
  rw [if_neg h1]
  by_cases h2 : action = 1 ∧ d.connections < perIp
  · rw [if_pos h2]
    exact ⟨rfl, rfl, Or.inr (Or.inl ⟨h2.1, rfl, rfl⟩)⟩
  rw [if_neg h2]
  by_cases h3 : action = 0 ∧ d.requests < perMinute
  · rw [if_pos h3]
    exact ⟨rfl, rfl, Or.inr (Or.inr ⟨h1, rfl, fun _ h => by omega⟩)⟩
  · rw [if_neg h3]
    exact ⟨rfl, rfl, Or.inr (Or.inr ⟨h1, rfl, fun h => (nomatch h)⟩)⟩

/-- The effect of a call on the connections of every address. -/
def Effect (ip : Ip) (action : Int) (clients : List Client) (r : List Client × Int) : Prop :=
  ∀ ip', connectionsOf r.1 ip'
    = if ip' = ip then
        if action = -1 then connectionsOf clients ip - 1
        else if action = 1 ∧ r.2 = 0 then connectionsOf clients ip + 1
        else connectionsOf clients ip
      else connectionsOf clients ip'

/-- A call that changes nothing: the action is no release. -/
theorem effect_none {ip : Ip} {action : Int} (clients : List Client)
    (h : action = -1 → connectionsOf clients ip = 0) : Effect ip action clients (clients, -1) := by
  intro ip'
  by_cases hip : ip' = ip
  · rw [if_pos hip, hip]
    by_cases h1 : action = -1
    · rw [if_pos h1, h h1]
    · rw [if_neg h1, if_neg fun hc => (nomatch hc.2)]
  · rw [if_neg hip]

/-- The entry of the address is written. -/
theorem effect_set {perIp perMinute : Nat} {now action : Int} {clients : List Client}
    (hd : Distinct clients) {slot : Nat} {old c : Client} (hold : clients[slot]? = some old)
    (hu : c.used = true)
    (hown : old.isFor c.ip = true ∨ old.used = false ∨ old.connections = 0)
    (hother : ∀ (j : Nat) (d : Client), j ≠ slot → clients[j]? = some d → d.isFor c.ip = false)
    (hconn : connectionsOf clients c.ip = c.connections) :
    Distinct (clients.set slot (useSlot perIp perMinute now action c).1)
      ∧ Effect c.ip action clients
          (clients.set slot (useSlot perIp perMinute now action c).1,
            (useSlot perIp perMinute now action c).2) := by
  obtain ⟨hip, hused, hcases⟩ := useSlot_spec perIp perMinute now action c
  have hset := connectionsOf_set hd hold (hused.trans hu) (by rw [hip]; exact hown)
    (by rw [hip]; exact hother)
  refine ⟨hset.1, fun ip' => ?_⟩
  rw [hset.2 ip', hip]
  by_cases heq : ip' = c.ip
  · rw [if_pos heq, if_pos heq, hconn]
    rcases hcases with ⟨h1, h2, -⟩ | ⟨h1, h2, h3⟩ | ⟨h1, h2, h3⟩
    · rw [if_pos h1, h2]
    · rw [if_neg (by rw [h1]; decide), if_pos ⟨h1, h3⟩, h2]
    · rw [if_neg h1, if_neg fun hc => h3 hc.2 hc.1, h2]
  · rw [if_neg heq, if_neg heq]

theorem clientLimit_distinct (perIp perMinute : Nat) (now : Int) (ip : Ip) (action : Int)
    {clients : List Client} (hd : Distinct clients) :
    Distinct (clientLimit perIp perMinute (some now) ip action clients).1
      ∧ Effect ip action clients (clientLimit perIp perMinute (some now) ip action clients) := by
  obtain ⟨hslot, hnone, hempty⟩ := findSlot_start ip now clients
  rw [clientLimit]
  revert hslot hnone hempty
  generalize findSlot ip now 0 none clients = r
  obtain ⟨slot, empty⟩ := r
  intro hslot hnone hempty
  cases slot with
  | some slot =>
      obtain ⟨c, hc, hip⟩ := hslot slot rfl
      obtain ⟨hu, rfl⟩ := isFor_iff.mp hip
      have hget : clients.getD slot {} = c := by
        rw [List.getD_eq_getElem?_getD, hc]
        rfl
      dsimp only
      rw [hget]
      refine effect_set hd hc hu (Or.inl hip) ?_ (connectionsOf_present hd hc hip)
      intro j d hj hdj
      refine Bool.eq_false_iff.mpr fun hf => hj ?_
      obtain ⟨hdu, hdip⟩ := isFor_iff.mp hf
      exact hd j slot d c hdj hc hdu hu hdip
  | none =>
      have habs := hnone rfl
      have hzero := connectionsOf_absent habs
      cases empty with
      | none => exact ⟨hd, effect_none clients fun _ => hzero⟩
      | some slot =>
          dsimp only
          by_cases ha : action = 1
          · rw [if_pos ha]
            obtain ⟨old, hold, hidle⟩ := hempty slot rfl
            refine effect_set (c := { ip := ip, used := true, window := now }) hd hold rfl
              (Or.inr ?_) (fun j d _ hdj => habs d (List.mem_of_getElem? hdj)) hzero
            rw [Client.idle, Bool.or_eq_true, Bool.and_eq_true, beq_iff_eq,
              Bool.not_eq_true'] at hidle
            exact hidle.imp id And.left
          · rw [if_neg ha]
            exact ⟨hd, effect_none clients fun _ => hzero⟩

/-- An entry is the old one or is in use. -/
theorem clientLimit_entries (perIp perMinute : Nat) (now : Int) (ip : Ip) (action : Int)
    (clients : List Client) {c : Client}
    (hc : c ∈ (clientLimit perIp perMinute (some now) ip action clients).1) :
    c ∈ clients ∨ c.used = true := by
  obtain ⟨hslot, -, -⟩ := findSlot_start ip now clients
  rw [clientLimit] at hc
  revert hslot hc
  generalize findSlot ip now 0 none clients = r
  obtain ⟨slot, empty⟩ := r
  intro hc hslot
  cases slot with
  | some slot =>
      obtain ⟨d, hd, hip⟩ := hslot slot rfl
      have hget : clients.getD slot {} = d := by
        rw [List.getD_eq_getElem?_getD, hd]
        rfl
      dsimp only at hc
      rw [hget] at hc
      refine (List.mem_or_eq_of_mem_set hc).imp id fun heq => ?_
      rw [heq, (useSlot_spec perIp perMinute now action d).2.1]
      exact (isFor_iff.mp hip).1
  | none =>
      cases empty with
      | none => exact Or.inl hc
      | some slot =>
          dsimp only at hc
          by_cases ha : action = 1
          · rw [if_pos ha] at hc
            refine (List.mem_or_eq_of_mem_set hc).imp id fun heq => ?_
            rw [heq, (useSlot_spec perIp perMinute now action _).2.1]
          · rw [if_neg ha] at hc
            exact Or.inl hc

/-- What holds of the table between two calls. -/
structure WellFormed (clients : List Client) : Prop where
  distinct : Distinct clients
  unused : ∀ c ∈ clients, c.used = false → c.connections = 0

/-- The counter of every entry is the number that its address has. -/
theorem WellFormed.counter {clients : List Client} (h : WellFormed clients) {c : Client}
    (hc : c ∈ clients) (hzero : ∀ ip, connectionsOf clients ip = 0) : c.connections = 0 := by
  cases hu : c.used with
  | false => exact h.unused c hc hu
  | true =>
      obtain ⟨i, hi⟩ := List.mem_iff_getElem?.mp hc
      rw [← connectionsOf_present h.distinct hi (isFor_iff.mpr ⟨hu, rfl⟩)]
      exact hzero c.ip

/-- **The table counts connections.**  With a clock that runs, a call keeps the
    table well formed and counts its action for its own address only. -/
theorem clientLimit_spec (perIp perMinute : Nat) (now : Int) (ip : Ip) (action : Int)
    {clients : List Client} (h : WellFormed clients) :
    WellFormed (clientLimit perIp perMinute (some now) ip action clients).1
      ∧ Effect ip action clients (clientLimit perIp perMinute (some now) ip action clients) := by
  obtain ⟨hd, heff⟩ := clientLimit_distinct perIp perMinute now ip action h.distinct
  refine ⟨⟨hd, fun c hc hu => ?_⟩, heff⟩
  rcases clientLimit_entries perIp perMinute now ip action clients hc with hold | hused
  · exact h.unused c hold hu
  · rw [hu] at hused
    exact nomatch hused

/-- The table a server starts with. -/
def emptyTable : List Client := List.replicate CLIENTS {}

theorem emptyTable_unused {c : Client} (h : c ∈ emptyTable) : c.used = false := by
  rw [List.eq_of_mem_replicate h]

theorem emptyTable_wellFormed : WellFormed emptyTable where
  distinct := by
    intro i j c d hc _ hu _ _
    rw [emptyTable_unused (List.mem_of_getElem? hc)] at hu
    exact nomatch hu
  unused c hc _ := by rw [List.eq_of_mem_replicate hc]

theorem emptyTable_connections (ip : Ip) : connectionsOf emptyTable ip = 0 := by
  refine connectionsOf_absent fun c hc => ?_
  rw [Client.isFor, emptyTable_unused hc]
  rfl

end ClientLimit
