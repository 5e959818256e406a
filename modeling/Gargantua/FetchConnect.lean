import Gargantua.Lib.CString
import Gargantua.Lib.Mask

/-! # Connecting to a host (`connect_target` of `src/runtime/fetch.c`)

    The resolver gives a list of addresses, and the first eight are tried in
    turn.  An address is held against the link-local ranges in the family it is
    given in.  So an IPv4 host that is given as an IPv4-mapped IPv6 address is not
    recognised, and these are all that get through (`link_local_iff`).

    What the system answers for an entry of the list is a parameter. -/

namespace FetchConnect

open CString

/-! ## Addresses -/

/-- A `sockaddr_in` or `sockaddr_in6`: the bytes of the address, in network
    order. -/
inductive SockAddr where
  | inet (addr : Vector Byte 4)
  | inet6 (addr : Vector Byte 16)
  deriving Repr, DecidableEq

/-- `ntohl`. -/
def ntohl (addr : Vector Byte 4) : Nat :=
  addr[0].toNat * 2 ^ 24 + addr[1].toNat * 2 ^ 16 + addr[2].toNat * 2 ^ 8 + addr[3].toNat

/-- `address_allowed`, for the value of `fetch.link_local`. -/
def addressAllowed (linkLocal : Bytes) : SockAddr → Bool
  | .inet addr =>
      if linkLocal = lit "allow" then true
      else
        let host := ntohl addr
        if host &&& 0xFFFF0000 = 0xA9FE0000 ∨ host &&& 0xFF000000 = 0x00000000 then false
        else true
  | .inet6 addr =>
      if linkLocal = lit "allow" then true
      else if addr[0] = 0xFE ∧ addr[1] &&& 0xC0 = 0x80 then false
      else true

/-! ## The loop -/

/-- What `connect` returns: `0`, `EINPROGRESS`, or another failure. -/
inductive ConnectReturn where
  | connected
  | inProgress
  | failed
  deriving Repr, DecidableEq

/-- What the system answers while one entry is tried: the descriptor of `socket`,
    whether both `fcntl` succeed, what `connect` returns, whether `wait_ready`
    succeeds, and whether `getsockopt` then finds no error. -/
structure Attempt where
  socket : Option Nat
  nonblocking : Bool
  connect : ConnectReturn
  ready : Bool
  noError : Bool
  deriving Repr, DecidableEq

/-- `rc == 0` at the end of an attempt. -/
def Attempt.succeeds (a : Attempt) : Bool :=
  match a.connect with
  | .connected => true
  | .inProgress => a.ready && a.noError
  | .failed => false

/-- What is done with an address: `address_allowed` refuses it, or `connect` is
    called on it. -/
inductive Event where
  | refused (a : SockAddr)
  | connect (a : SockAddr)
  deriving Repr, DecidableEq

/-- `FETCH_BLOCKED`, `FETCH_NO_HOST` and `FETCH_NO_CONNECT`. -/
inductive ConnectError where
  | blocked
  | noHost
  | noConnect
  deriving Repr, DecidableEq

/-- The loop of `connect_target`, with the rounds left: the events, `fd` and
    `blocked`.  The attempts are those of the entries, in order. -/
def connectLoop (linkLocal : Bytes) :
    Nat → List SockAddr → (Nat → Attempt) → Bool → List Event × Option Nat × Bool
  | 0, _, _, blocked => ([], none, blocked)
  | _, [], _, blocked => ([], none, blocked)
  | guard + 1, a :: entries, attempts, blocked =>
      let later := fun i => attempts (i + 1)
      if addressAllowed linkLocal a = false then
        let r := connectLoop linkLocal guard entries later true
        (.refused a :: r.1, r.2)
      else
        match (attempts 0).socket with
        | none => connectLoop linkLocal guard entries later blocked
        | some fd =>
            if (attempts 0).nonblocking = false then
              connectLoop linkLocal guard entries later blocked
            else if (attempts 0).succeeds then ([.connect a], some fd, blocked)
            else
              let r := connectLoop linkLocal guard entries later blocked
              (.connect a :: r.1, r.2)

/-- `connect_target`, for what `getaddrinfo` gives: the events, and the descriptor
    or the error. -/
def connectTarget (linkLocal : Bytes) (list : Option (List SockAddr)) (attempts : Nat → Attempt) :
    List Event × Except ConnectError Nat :=
  match list with
  | none => ([], .error .noHost)
  | some entries =>
      match connectLoop linkLocal 8 entries attempts false with
      | (events, some fd, _) => (events, .ok fd)
      | (events, none, blocked) => (events, .error (if blocked then .blocked else .noConnect))

/-! ## What is denied -/

/-- A host: what `connect` reaches. -/
inductive Host where
  | v4 (addr : Vector Byte 4)
  | v6 (addr : Vector Byte 16)
  deriving Repr, DecidableEq

/-- An IPv4-mapped address: `::ffff:a.b.c.d`. -/
def IsMapped (addr : Vector Byte 16) : Prop :=
  (∀ i : Fin 10, addr[i] = 0) ∧ addr[10] = 0xFF ∧ addr[11] = 0xFF

instance (addr : Vector Byte 16) : Decidable (IsMapped addr) := by
  unfold IsMapped
  infer_instance

/-- The IPv4 address in a mapped one. -/
def embedded (addr : Vector Byte 16) : Vector Byte 4 := #v[addr[12], addr[13], addr[14], addr[15]]

/-- The host that an address denotes. -/
def SockAddr.host : SockAddr → Host
  | .inet addr => .v4 addr
  | .inet6 addr => if IsMapped addr then .v4 (embedded addr) else .v6 addr

/-- `169.254.0.0/16`, `0.0.0.0/8` and `fe80::/10`. -/
def Host.Denied : Host → Prop
  | .v4 addr => addr[0] = 169 ∧ addr[1] = 254 ∨ addr[0] = 0
  | .v6 addr => addr[0] = 0xFE ∧ (0x80 : Byte) ≤ addr[1] ∧ addr[1] ≤ 0xBF

/-- What a call has to keep to: no `connect` on an address of a denied host, and
    `FETCH_BLOCKED` if an address was refused and none connected. -/
structure Refuses (r : List Event × Except ConnectError Nat) : Prop where
  unreached : ∀ a, .connect a ∈ r.1 → ¬ a.host.Denied
  reported : (∃ a, .refused a ∈ r.1) → (∀ fd, r.2 ≠ .ok fd) → r.2 = .error .blocked

/-- A denied IPv4 host, given as an IPv4-mapped address. -/
def MappedDenied : SockAddr → Prop
  | .inet _ => False
  | .inet6 addr => IsMapped addr ∧ (Host.v4 (embedded addr)).Denied

/-! ## What `address_allowed` recognises -/

section Allowed

variable {linkLocal : Bytes}

theorem ntohl_lt (addr : Vector Byte 4) : ntohl addr < 2 ^ 32 := by
  have h0 := addr[0].toNat_lt
  have h1 := addr[1].toNat_lt
  have h2 := addr[2].toNat_lt
  have h3 := addr[3].toNat_lt
  rw [ntohl]
  omega

/-- The two masks of the IPv4 test compare whole bytes. -/
theorem inet_masks (addr : Vector Byte 4) :
    (ntohl addr &&& 0xFFFF0000 = 0xA9FE0000 ∨ ntohl addr &&& 0xFF000000 = 0x00000000)
      ↔ (Host.v4 addr).Denied := by
  have hlow : ntohl addr &&& 0xFFFF0000 = ntohl addr / 2 ^ 16 * 2 ^ 16 :=
    @Mask.and_mask _ 16 32 (by omega) (ntohl_lt addr)
  have hhigh : ntohl addr &&& 0xFF000000 = ntohl addr / 2 ^ 24 * 2 ^ 24 :=
    @Mask.and_mask _ 24 32 (by omega) (ntohl_lt addr)
  have h0 := addr[0].toNat_lt
  have h1 := addr[1].toNat_lt
  have h2 := addr[2].toNat_lt
  have h3 := addr[3].toNat_lt
  rw [hlow, hhigh, Host.Denied, ntohl, ← UInt8.toNat_inj, ← UInt8.toNat_inj, ← UInt8.toNat_inj]
  show _ ↔ addr[0].toNat = 169 ∧ addr[1].toNat = 254 ∨ addr[0].toNat = 0
  omega

/-- The mask of the IPv6 test leaves the two bits that `fe80::/10` fixes. -/
theorem inet6_mask (c : Byte) : c &&& 0xC0 = 0x80 ↔ 0x80 ≤ c ∧ c ≤ 0xBF := by
  cases c with
  | ofBitVec b =>
      revert b
      decide +kernel

/-- **`address_allowed` refuses the denied hosts, but for those behind a mapped
    address.** -/
theorem addressAllowed_iff (hdeny : linkLocal ≠ lit "allow") (a : SockAddr) :
    addressAllowed linkLocal a = false ↔ a.host.Denied ∧ ¬ MappedDenied a := by
  cases a with
  | inet addr =>
      rw [addressAllowed, if_neg hdeny]
      show (if _ then false else true) = false ↔ (Host.v4 addr).Denied ∧ ¬ False
      rw [← inet_masks]
      simp [imp_iff_not_or]
  | inet6 addr =>
      simp only [addressAllowed, if_neg hdeny, inet6_mask]
      by_cases hmapped : IsMapped addr
      · have hfirst : addr[0] = 0 := hmapped.1 0
        simp [SockAddr.host, MappedDenied, hmapped, hfirst]
      · simp [SockAddr.host, MappedDenied, hmapped, Host.Denied]

/-! ## Runs of the loop -/

/-- What happens to the entries is decided by `address_allowed`, and no event is
    about an entry beyond the rounds left. -/
theorem connectLoop_events {a : SockAddr} : ∀ {guard : Nat} {entries : List SockAddr}
    {attempts : Nat → Attempt} {blocked : Bool},
    .connect a ∈ (connectLoop linkLocal guard entries attempts blocked).1 →
      a ∈ entries.take guard ∧ addressAllowed linkLocal a = true := by
  intro guard
  induction guard with
  | zero => intro entries attempts blocked h; exact nomatch h
  | succ guard ih =>
      intro entries attempts blocked h
      cases entries with
      | nil => exact nomatch h
      | cons b entries =>
          have hlater : ∀ {blocked},
              .connect a ∈ (connectLoop linkLocal guard entries (fun i => attempts (i + 1)) blocked).1 →
              a ∈ (b :: entries).take (guard + 1) ∧ addressAllowed linkLocal a = true := by
            intro blocked hmem
            obtain ⟨hin, hallowed⟩ := ih hmem
            exact ⟨List.mem_cons_of_mem b hin, hallowed⟩
          have hhere : addressAllowed linkLocal b ≠ false →
              b ∈ (b :: entries).take (guard + 1) ∧ addressAllowed linkLocal b = true := by
            intro hb
            exact ⟨List.mem_cons_self, Bool.not_eq_false _ ▸ hb⟩
          rw [connectLoop] at h
          by_cases hb : addressAllowed linkLocal b = false
          · simp only [if_pos hb] at h
            rcases List.mem_cons.mp h with heq | hmem
            · cases heq
            · exact hlater hmem
          · simp only [if_neg hb] at h
            split at h
            · exact hlater h
            · split at h
              · exact hlater h
              · split at h
                · cases List.mem_singleton.mp h
                  exact hhere hb
                · rcases List.mem_cons.mp h with heq | hmem
                  · cases heq
                    exact hhere hb
                  · exact hlater hmem

/-- `blocked` is set once an address was refused, and stays. -/
theorem connectLoop_blocked : ∀ {guard : Nat} {entries : List SockAddr}
    {attempts : Nat → Attempt} {blocked : Bool},
    (blocked = true ∨ ∃ a, .refused a ∈ (connectLoop linkLocal guard entries attempts blocked).1) →
      (connectLoop linkLocal guard entries attempts blocked).2.2 = true := by
  intro guard
  induction guard with
  | zero =>
      intro entries attempts blocked h
      rcases h with h | ⟨a, ha⟩
      · exact h
      · exact nomatch ha
  | succ guard ih =>
      intro entries attempts blocked h
      cases entries with
      | nil =>
          rcases h with h | ⟨a, ha⟩
          · exact h
          · exact nomatch ha
      | cons b entries =>
          rw [connectLoop] at h ⊢
          by_cases hb : addressAllowed linkLocal b = false
          · simp only [if_pos hb]
            exact ih (.inl rfl)
          · simp only [if_neg hb] at h ⊢
            split at h
            · exact ih h
            · split at h
              · rename_i hmode
                rw [if_pos hmode]
                exact ih h
              · rename_i hmode
                rw [if_neg hmode]
                split at h
                · rename_i hdone
                  rw [if_pos hdone]
                  rcases h with h | ⟨a, ha⟩
                  · exact h
                  · cases List.mem_singleton.mp ha
                · rename_i hdone
                  rw [if_neg hdone]
                  refine ih (h.imp_right fun ⟨a, ha⟩ => ?_)
                  rcases List.mem_cons.mp ha with heq | hmem
                  · cases heq
                  · exact ⟨a, hmem⟩

/-- An attempt that goes as far as `connect` and does not connect. -/
def unanswered : Attempt := ⟨some 3, true, .failed, false, false⟩

/-- Where nothing answers, every allowed entry among the rounds left is tried. -/
theorem connectLoop_unanswered {a : SockAddr} (hallowed : addressAllowed linkLocal a = true) :
    ∀ {guard : Nat} {entries : List SockAddr} {blocked : Bool}, a ∈ entries.take guard →
      .connect a ∈ (connectLoop linkLocal guard entries (fun _ => unanswered) blocked).1 := by
  intro guard
  induction guard with
  | zero => intro entries blocked h; rw [List.take_zero] at h; exact nomatch h
  | succ guard ih =>
      intro entries blocked h
      cases entries with
      | nil => exact nomatch h
      | cons b entries =>
          rw [connectLoop]
          by_cases hb : addressAllowed linkLocal b = false
          · simp only [if_pos hb]
            rcases List.mem_cons.mp h with rfl | hmem
            · rw [hallowed] at hb
              exact nomatch hb
            · exact List.mem_cons_of_mem _ (ih hmem)
          · simp only [if_neg hb]
            show .connect a ∈ Event.connect b :: _
            rcases List.mem_cons.mp h with rfl | hmem
            · exact List.mem_cons_self
            · exact List.mem_cons_of_mem _ (ih hmem)

/-- What `connect_target` does with the list of `getaddrinfo`. -/
theorem connectTarget_spec (entries : List SockAddr) (attempts : Nat → Attempt) :
    (connectTarget linkLocal (some entries) attempts).1
        = (connectLoop linkLocal 8 entries attempts false).1
      ∧ ((∀ fd, (connectTarget linkLocal (some entries) attempts).2 ≠ .ok fd) →
        (connectLoop linkLocal 8 entries attempts false).2.2 = true →
        (connectTarget linkLocal (some entries) attempts).2 = .error .blocked) := by
  rw [connectTarget]
  generalize connectLoop linkLocal 8 entries attempts false = r
  obtain ⟨events, fd, blocked⟩ := r
  cases fd with
  | some fd => exact ⟨rfl, fun hnone _ => absurd rfl (hnone fd)⟩
  | none =>
      refine ⟨rfl, fun _ hblocked => ?_⟩
      show Except.error (if blocked then ConnectError.blocked else ConnectError.noConnect) = _
      rw [if_pos hblocked]

/-- **Link-local hosts are out of reach, but for IPv4-mapped addresses.**  While
    `fetch.link_local` is not `allow`, `connect_target` keeps to the rule whatever
    the system answers, exactly if none of the first eight addresses is a denied
    IPv4 host in IPv6 form. -/
theorem link_local_iff (hdeny : linkLocal ≠ lit "allow") (entries : List SockAddr) :
    (∀ attempts, Refuses (connectTarget linkLocal (some entries) attempts))
      ↔ ∀ a ∈ entries.take 8, ¬ MappedDenied a := by
  constructor
  · intro hrefuses a ha hmapped
    have hdenied : a.host.Denied := by
      cases a with
      | inet addr => exact hmapped.elim
      | inet6 addr =>
          rw [SockAddr.host, if_pos hmapped.1]
          exact hmapped.2
    have hallowed : addressAllowed linkLocal a = true := by
      rw [← Bool.not_eq_false]
      intro hfalse
      exact ((addressAllowed_iff hdeny a).mp hfalse).2 hmapped
    have hevent := @connectLoop_unanswered linkLocal a hallowed 8 entries false ha
    rw [← (connectTarget_spec entries fun _ => unanswered).1] at hevent
    exact (hrefuses fun _ => unanswered).unreached a hevent hdenied
  · intro hnone attempts
    obtain ⟨hevents, hreport⟩ := @connectTarget_spec linkLocal entries attempts
    constructor
    · intro a ha hdenied
      rw [hevents] at ha
      obtain ⟨hin, hallowed⟩ := connectLoop_events ha
      have hfalse := (addressAllowed_iff hdeny a).mpr ⟨hdenied, hnone a hin⟩
      rw [hallowed] at hfalse
      exact nomatch hfalse
    · rintro ⟨a, ha⟩ hfailed
      rw [hevents] at ha
      exact hreport hfailed (connectLoop_blocked (.inr ⟨a, ha⟩))

end Allowed

/-- An attempt that connects at once. -/
def answered : Attempt := ⟨some 3, true, .connected, true, true⟩

/-- A link-local IPv4 address by itself. -/
theorem link_local_iff_plain :
    Refuses (connectTarget (lit "deny") (some [.inet #v[169, 254, 169, 254]]) fun _ => answered) := by
  refine (link_local_iff (show lit "deny" ≠ lit "allow" by decide)
    [.inet #v[169, 254, 169, 254]]).mpr ?_ _
  intro a ha
  rw [List.mem_singleton.mp ha]
  exact id

/-- `::ffff:169.254.169.254`. -/
def mappedAddress : SockAddr :=
  .inet6 #v[0, 0, 0, 0, 0, 0, 0, 0, 0, 0, 0xFF, 0xFF, 169, 254, 169, 254]

/-- The same host as an IPv4-mapped address is connected to. -/
theorem mapped_connected :
    connectTarget (lit "deny") (some [mappedAddress]) (fun _ => answered)
        = ([.connect mappedAddress], .ok 3)
      ∧ ¬ Refuses (connectTarget (lit "deny") (some [mappedAddress]) fun _ => answered) := by
  have hrun : connectTarget (lit "deny") (some [mappedAddress]) (fun _ => answered)
      = ([.connect mappedAddress], .ok 3) := by decide +kernel
  refine ⟨hrun, fun h => ?_⟩
  rw [hrun] at h
  refine h.unreached mappedAddress List.mem_cons_self ?_
  show (Host.v4 #v[169, 254, 169, 254]).Denied
  exact .inl ⟨rfl, rfl⟩

end FetchConnect
