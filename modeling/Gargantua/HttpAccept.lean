import Gargantua.HttpGrammar

/-! # The head `http_parse_request` accepts

    The header loop is the grammar of its lines plus a count of six names; the
    count is read as one predicate on the list of headers (`HeadersOk`).  Put
    together, the parser of the head accepts exactly the heads of the grammar
    over the code's own token characters (`parseHead_iff`). -/

namespace HttpAccept

open CString Scan HttpParse HttpGrammar

/-! ## Counting the known headers -/

/-- The count of one name. -/
def count (seen : HeaderCounts) : Known → Nat
  | .host => seen.host
  | .contentLength => seen.contentLength
  | .transferEncoding => seen.transferEncoding
  | .authorization => seen.authorization
  | .contentType => seen.contentType
  | .expect => seen.expect

theorem count_ext {a b : HeaderCounts} (h : ∀ k, count a k = count b k) : a = b := by
  cases a
  cases b
  rw [HeaderCounts.mk.injEq]
  exact ⟨h .host, h .contentLength, h .transferEncoding, h .authorization,
    h .contentType, h .expect⟩

/-- `header_name_is` is equality up to case. -/
theorem headerNameIs_eq (h : HttpHeader) (k : Known) :
    headerNameIs h k.name = k.is h := by
  have hnul : (0 : Byte) ∉ k.name := by
    cases k <;> decide
  rw [Bool.eq_iff_iff, headerNameIs, Known.is, Bool.and_eq_true, beq_iff_eq, beq_iff_eq]
  constructor
  · rintro ⟨hlen, heq⟩
    exact (strncasecmpEq_iff hnul hlen).mp heq
  · intro heq
    have hlen : h.name.length = k.name.length := by
      have := congrArg List.length heq
      rwa [List.length_map, List.length_map] at this
    exact ⟨hlen, (strncasecmpEq_iff hnul hlen).mpr heq⟩

/-- A header has at most one of the counted names. -/
theorem is_unique {h : HttpHeader} {k k' : Known} (hk : k.is h = true)
    (hk' : k'.is h = true) : k = k' := by
  have h1 : k.name.map toLower = k'.name.map toLower :=
    (beq_iff_eq.mp hk).symm.trans (beq_iff_eq.mp hk')
  revert h1
  cases k <;> cases k' <;> decide

theorem hostValueValid_iff (v : Bytes) : hostValueValid v = true ↔ HostValue v := by
  unfold hostValueValid HostValue
  rw [Bool.and_eq_true, bne_iff_ne, List.all_eq_true]
  refine and_congr_right fun _ => forall₂_congr fun c _ => ?_
  simp only [Bool.not_eq_true', Bool.or_eq_false_iff, beq_eq_false_iff_ne, and_assoc, ne_eq]

/-- What one header does to the counts, when it is admitted. -/
structure CountStep (h : HttpHeader) (seen : HeaderCounts) (len : Int)
    (seen' : HeaderCounts) (len' : Int) : Prop where
  counts : ∀ k, count seen' k = count seen k + if k.is h then 1 else 0
  once : ∀ k, k ≠ .transferEncoding → k.is h = true → count seen k = 0
  host : Known.host.is h = true → HostValue h.value
  decimal : Known.contentLength.is h = true → Decimal h.value
  length : len' = if Known.contentLength.is h then (decimalValue h.value : Int) else len

/-- The counts with one more header of a known name. -/
def bump (seen : HeaderCounts) : Known → HeaderCounts
  | .host => { seen with host := seen.host + 1 }
  | .contentLength => { seen with contentLength := seen.contentLength + 1 }
  | .transferEncoding => { seen with transferEncoding := seen.transferEncoding + 1 }
  | .authorization => { seen with authorization := seen.authorization + 1 }
  | .contentType => { seen with contentType := seen.contentType + 1 }
  | .expect => { seen with expect := seen.expect + 1 }

theorem count_bump (seen : HeaderCounts) (k k' : Known) :
    count (bump seen k) k' = count seen k' + if k' = k then 1 else 0 := by
  cases k <;> cases k' <;> rfl

/-- The name a header has rules out the other five. -/
theorem is_eq_decide {h : HttpHeader} {k : Known} (hk : k.is h = true) (k' : Known) :
    k'.is h = decide (k' = k) := by
  by_cases hkk : k' = k
  · rw [hkk, hk, decide_eq_true rfl]
  · rw [decide_eq_false hkk, Bool.eq_false_iff]
    exact fun hk' => hkk (is_unique hk' hk)

/-- A header of a known name is admitted by bumping its count. -/
theorem countStep_bump {h : HttpHeader} {seen : HeaderCounts} {len len' : Int} {k : Known}
    (hk : k.is h = true) (honce : k ≠ .transferEncoding → count seen k = 0)
    (hhost : k = .host → HostValue h.value)
    (hdec : k = .contentLength → Decimal h.value)
    (hlen : len' = if k = .contentLength then (decimalValue h.value : Int) else len) :
    CountStep h seen len (bump seen k) len' where
  counts k' := by
    rw [count_bump, is_eq_decide hk k']
    by_cases hkk : k' = k
    · rw [if_pos hkk, if_pos (decide_eq_true hkk)]
    · rw [if_neg hkk, if_neg (by rw [decide_eq_false hkk]; exact Bool.false_ne_true)]
  once k' hne hk' := by
    obtain rfl := is_unique hk' hk
    exact honce hne
  host hk' := hhost (is_unique hk hk')
  decimal hk' := hdec (is_unique hk hk')
  length := by
    rw [hlen, is_eq_decide hk .contentLength]
    by_cases hkk : k = .contentLength
    · rw [if_pos hkk, if_pos (decide_eq_true hkk.symm)]
    · rw [if_neg hkk, if_neg (by
        rw [decide_eq_false fun h => hkk h.symm]; exact Bool.false_ne_true)]

/-- A step is a function of the header and the counts before it. -/
theorem CountStep.unique {h : HttpHeader} {seen s s' : HeaderCounts} {len l l' : Int}
    (hs : CountStep h seen len s l) (hs' : CountStep h seen len s' l') :
    s = s' ∧ l = l' :=
  ⟨count_ext fun k => by rw [hs.counts, hs'.counts], by rw [hs.length, hs'.length]⟩

private theorem some_iff_of_step {h : HttpHeader} {seen s seen' : HeaderCounts}
    {len l len' : Int} (hs : CountStep h seen len s l) :
    some (s, l) = some (seen', len') ↔ CountStep h seen len seen' len' := by
  constructor
  · intro heq
    obtain ⟨rfl, rfl⟩ := Prod.mk.inj (Option.some.inj heq)
    exact hs
  · intro hs'
    obtain ⟨rfl, rfl⟩ := hs.unique hs'
    rfl

private theorem none_iff_of_not_step {h : HttpHeader} {seen seen' : HeaderCounts}
    {len len' : Int} (hno : ¬ CountStep h seen len seen' len') :
    (none : Option (HeaderCounts × Int)) = some (seen', len')
      ↔ CountStep h seen len seen' len' :=
  ⟨fun heq => (nomatch heq), fun hs => absurd hs hno⟩

/-- The shape three of the branches share: refuse a second header of a name. -/
private theorem once_iff {h : HttpHeader} {seen seen' : HeaderCounts} {len len' : Int}
    {k : Known} (hk : k.is h = true) (hte : k ≠ .transferEncoding)
    (hho : k ≠ .host) (hcl : k ≠ .contentLength) :
    (if count seen k + 1 > 1 then none else some (bump seen k, len))
        = some (seen', len') ↔ CountStep h seen len seen' len' := by
  by_cases h0 : count seen k + 1 > 1
  · rw [if_pos h0]
    refine none_iff_of_not_step fun hs => ?_
    have := hs.once k hte hk
    omega
  · rw [if_neg h0]
    exact some_iff_of_step (countStep_bump hk (fun _ => by omega)
      (fun e => absurd e hho) (fun e => absurd e hcl) (by rw [if_neg hcl]))

/-- `count_known_header`, said once. -/
theorem countKnownHeader_iff {h : HttpHeader} {seen seen' : HeaderCounts} {len len' : Int} :
    countKnownHeader h seen len = some (seen', len')
      ↔ CountStep h seen len seen' len' := by
  unfold countKnownHeader
  rw [show lit "Host" = Known.host.name from rfl,
    show lit "Content-Length" = Known.contentLength.name from rfl,
    show lit "Transfer-Encoding" = Known.transferEncoding.name from rfl,
    show lit "Authorization" = Known.authorization.name from rfl,
    show lit "Content-Type" = Known.contentType.name from rfl,
    show lit "Expect" = Known.expect.name from rfl]
  simp only [headerNameIs_eq]
  by_cases h1 : Known.host.is h = true
  · rw [if_pos h1]
    show (if decide (seen.host + 1 > 1) || !hostValueValid h.value then none
      else some (bump seen .host, len)) = some (seen', len') ↔ _
    by_cases hbad : (decide (seen.host + 1 > 1) || !hostValueValid h.value) = true
    · rw [if_pos hbad]
      refine none_iff_of_not_step fun hs => ?_
      have h0 : seen.host = 0 := hs.once .host (by decide) h1
      rw [(hostValueValid_iff h.value).mpr (hs.host h1), h0] at hbad
      exact nomatch hbad
    · rw [if_neg hbad]
      rw [Bool.or_eq_true, not_or, decide_eq_true_eq, Bool.not_eq_true', Bool.not_eq_false,
        hostValueValid_iff] at hbad
      exact some_iff_of_step (countStep_bump h1
        (fun _ => show seen.host = 0 by omega) (fun _ => hbad.2)
        (fun e => nomatch e) rfl)
  rw [if_neg h1]
  by_cases h2 : Known.contentLength.is h = true
  · rw [if_pos h2]
    by_cases hc : seen.contentLength + 1 > 1
    · rw [if_pos hc]
      refine none_iff_of_not_step fun hs => ?_
      have : seen.contentLength = 0 := hs.once .contentLength (by decide) h2
      omega
    · rw [if_neg hc]
      cases hp : parseContentLength h.value with
      | none =>
          refine none_iff_of_not_step fun hs => ?_
          have := (parseContentLength_iff h.value _).mpr ⟨hs.decimal h2, rfl⟩
          rw [hp] at this
          exact nomatch this
      | some n =>
          obtain ⟨hd, rfl⟩ := (parseContentLength_iff h.value n).mp hp
          exact some_iff_of_step (countStep_bump h2
            (fun _ => show seen.contentLength = 0 by omega)
            (fun e => nomatch e) (fun _ => hd) rfl)
  rw [if_neg h2]
  by_cases h3 : Known.transferEncoding.is h = true
  · rw [if_pos h3]
    exact some_iff_of_step (countStep_bump h3 (fun e => absurd rfl e)
      (fun e => nomatch e) (fun e => nomatch e) rfl)
  rw [if_neg h3]
  by_cases h4 : Known.authorization.is h = true
  · rw [if_pos h4]
    exact once_iff h4 (by decide) (by decide) (by decide)
  rw [if_neg h4]
  by_cases h5 : Known.contentType.is h = true
  · rw [if_pos h5]
    exact once_iff h5 (by decide) (by decide) (by decide)
  rw [if_neg h5]
  by_cases h6 : Known.expect.is h = true
  · rw [if_pos h6]
    exact once_iff h6 (by decide) (by decide) (by decide)
  rw [if_neg h6]
  -- none of the six names, so nothing is counted
  have hnone : ∀ k : Known, ¬ k.is h = true := by
    intro k
    cases k <;> assumption
  exact some_iff_of_step ⟨fun k => by rw [if_neg (hnone k)]; rfl,
    fun k _ hk => absurd hk (hnone k), fun hk => absurd hk (hnone _),
    fun hk => absurd hk (hnone _), by rw [if_neg (hnone _)]⟩

/-- The header loop's counting, without the parsing. -/
def countKnownHeaders : HeaderCounts → Int → List HttpHeader → Option (HeaderCounts × Int)
  | seen, len, [] => some (seen, len)
  | seen, len, h :: hs =>
      match countKnownHeader h seen len with
      | none => none
      | some (seen, len) => countKnownHeaders seen len hs

/-- What a whole header list does to the counts, when it is admitted. -/
structure CountRun (hs : List HttpHeader) (seen : HeaderCounts) (len : Int)
    (seen' : HeaderCounts) (len' : Int) : Prop where
  counts : ∀ k, count seen' k = count seen k + (named k hs).length
  once : ∀ k, k ≠ .transferEncoding → named k hs ≠ [] →
    count seen k + (named k hs).length ≤ 1
  host : ∀ h ∈ named .host hs, HostValue h.value
  decimal : ∀ h ∈ named .contentLength hs, Decimal h.value
  length : len' = match named .contentLength hs with
    | [] => len
    | h :: _ => (decimalValue h.value : Int)

theorem named_cons (k : Known) (h : HttpHeader) (hs : List HttpHeader) :
    named k (h :: hs) = if k.is h then h :: named k hs else named k hs :=
  List.filter_cons

theorem length_named_cons (k : Known) (h : HttpHeader) (hs : List HttpHeader) :
    (named k (h :: hs)).length = (if k.is h then 1 else 0) + (named k hs).length := by
  rw [named_cons]
  by_cases hk : k.is h = true
  · rw [if_pos hk, if_pos hk, List.length_cons]
    omega
  · rw [if_neg hk, if_neg hk]
    omega

/-- The counts behind one header, whatever its name. -/
def stepCounts (h : HttpHeader) (seen : HeaderCounts) : HeaderCounts where
  host := seen.host + if Known.host.is h then 1 else 0
  contentLength := seen.contentLength + if Known.contentLength.is h then 1 else 0
  transferEncoding := seen.transferEncoding + if Known.transferEncoding.is h then 1 else 0
  authorization := seen.authorization + if Known.authorization.is h then 1 else 0
  contentType := seen.contentType + if Known.contentType.is h then 1 else 0
  expect := seen.expect + if Known.expect.is h then 1 else 0

theorem count_stepCounts (h : HttpHeader) (seen : HeaderCounts) (k : Known) :
    count (stepCounts h seen) k = count seen k + if k.is h then 1 else 0 := by
  cases k <;> rfl

/-- Counting header by header is counting the names of the list. -/
theorem countKnownHeaders_iff (hs : List HttpHeader) :
    ∀ {seen seen' : HeaderCounts} {len len' : Int},
      countKnownHeaders seen len hs = some (seen', len')
        ↔ CountRun hs seen len seen' len' := by
  induction hs with
  | nil =>
      intro seen seen' len len'
      constructor
      · intro h
        obtain ⟨rfl, rfl⟩ := Prod.mk.inj (Option.some.inj h)
        exact ⟨fun _ => rfl, fun _ _ h => absurd rfl h, fun _ h => (nomatch h),
          fun _ h => (nomatch h), rfl⟩
      · intro h
        have hseen : seen' = seen := count_ext fun k => h.counts k
        rw [hseen, h.length]
        rfl
  | cons h hs ih =>
      intro seen seen' len len'
      constructor
      · intro hrun
        unfold countKnownHeaders at hrun
        split at hrun
        · exact nomatch hrun
        · rename_i seen₁ len₁ hstep
          have hs1 := countKnownHeader_iff.mp hstep
          have hr := ih.mp hrun
          refine ⟨?_, ?_, ?_, ?_, ?_⟩
          · intro k
            rw [hr.counts, hs1.counts, length_named_cons]
            omega
          · intro k hte hne
            rw [length_named_cons]
            have hc1 := hs1.counts k
            by_cases hk : k.is h = true
            · rw [if_pos hk] at hc1 ⊢
              have h0 := hs1.once k hte hk
              by_cases hrest : named k hs = []
              · rw [hrest, List.length_nil]
                omega
              · have := hr.once k hte hrest
                omega
            · rw [if_neg hk] at hc1 ⊢
              rw [named_cons, if_neg hk] at hne
              have := hr.once k hte hne
              omega
          · intro g hg
            rw [named_cons] at hg
            by_cases hk : Known.host.is h = true
            · rw [if_pos hk] at hg
              rcases List.mem_cons.mp hg with rfl | hm
              · exact hs1.host hk
              · exact hr.host g hm
            · rw [if_neg hk] at hg
              exact hr.host g hg
          · intro g hg
            rw [named_cons] at hg
            by_cases hk : Known.contentLength.is h = true
            · rw [if_pos hk] at hg
              rcases List.mem_cons.mp hg with rfl | hm
              · exact hs1.decimal hk
              · exact hr.decimal g hm
            · rw [if_neg hk] at hg
              exact hr.decimal g hg
          · rw [hr.length, named_cons]
            by_cases hk : Known.contentLength.is h = true
            · -- a second Content-Length is never admitted
              have hnil : named .contentLength hs = [] := by
                by_contra hrest
                have hc1 := hs1.counts .contentLength
                rw [if_pos hk] at hc1
                have h1 := hr.once .contentLength (by decide) hrest
                have hpos := List.length_pos_iff.mpr hrest
                omega
              rw [hnil, if_pos hk, hs1.length, if_pos hk]
            · rw [if_neg hk, hs1.length, if_neg hk]
      · intro hrun
        have hmem : ∀ {k : Known} {g : HttpHeader}, g ∈ named k hs → g ∈ named k (h :: hs) := by
          intro k g hg
          rw [named_cons]
          split
          · exact List.mem_cons_of_mem h hg
          · exact hg
        have hhead : ∀ {k : Known}, k.is h = true → h ∈ named k (h :: hs) := by
          intro k hk
          rw [named_cons, if_pos hk]
          exact List.mem_cons_self
        have h1 : CountStep h seen len (stepCounts h seen)
            (if Known.contentLength.is h then (decimalValue h.value : Int) else len) := by
          refine ⟨count_stepCounts h seen, ?_, fun hk => hrun.host h (hhead hk),
            fun hk => hrun.decimal h (hhead hk), rfl⟩
          intro k hte hk
          have := hrun.once k hte (List.ne_nil_of_mem (hhead hk))
          rw [length_named_cons, if_pos hk] at this
          omega
        have h2 : CountRun hs (stepCounts h seen)
            (if Known.contentLength.is h then (decimalValue h.value : Int) else len)
            seen' len' := by
          refine ⟨?_, ?_, fun g hg => hrun.host g (hmem hg),
            fun g hg => hrun.decimal g (hmem hg), ?_⟩
          · intro k
            rw [hrun.counts, count_stepCounts, length_named_cons]
            omega
          · intro k hte hne
            obtain ⟨g, hg⟩ := List.exists_mem_of_ne_nil _ hne
            have := hrun.once k hte (List.ne_nil_of_mem (hmem hg))
            rw [length_named_cons] at this
            rw [count_stepCounts]
            omega
          · rw [hrun.length, named_cons]
            by_cases hk : Known.contentLength.is h = true
            · have hone := hrun.once .contentLength (by decide)
                (List.ne_nil_of_mem (hhead hk))
              rw [length_named_cons, if_pos hk] at hone
              have hnil : named .contentLength hs = [] :=
                List.length_eq_zero_iff.mp (by omega)
              rw [if_pos hk, if_pos hk, hnil]
            · rw [if_neg hk, if_neg hk]
        unfold countKnownHeaders
        rw [countKnownHeader_iff.mpr h1]
        exact ih.mpr h2

/-- The checks at the empty line, on the counts of a whole head, are
    `HeadersOk`. -/
theorem headersOk_iff {minor : Nat} {hs : List HttpHeader} {len' : Int} :
    (∃ seen', countKnownHeaders {} (-1) hs = some (seen', len')
        ∧ headComplete { minorVersion := minor } seen' = true)
      ↔ HeadersOk minor hs ∧ len' = declaredLength hs := by
  have hcount : ∀ (req : HttpRequest) (seen : HeaderCounts),
      headComplete req seen = true ↔ (req.minorVersion = 1 → seen.host = 1)
        ∧ seen.transferEncoding = 0 ∧ seen.contentLength ≤ 1 := by
    intro req seen
    unfold headComplete
    rw [Bool.and_eq_true, Bool.and_eq_true, Bool.not_eq_true', Bool.and_eq_false_iff,
      beq_eq_false_iff_ne, bne_eq_false_iff_eq, beq_iff_eq, decide_eq_true_eq,
      ← imp_iff_not_or]
  constructor
  · rintro ⟨seen', hrun, hdone⟩
    have hr := (countKnownHeaders_iff hs).mp hrun
    obtain ⟨hhost, hte, -⟩ := (hcount _ _).mp hdone
    have hzero : ∀ k, count ({} : HeaderCounts) k = 0 := by
      intro k
      cases k <;> rfl
    have hlen : ∀ k, (named k hs).length = count seen' k := by
      intro k
      rw [hr.counts, hzero, Nat.zero_add]
    have hte' : (named .transferEncoding hs).length = 0 := by
      rw [hlen]
      exact hte
    refine ⟨⟨List.length_eq_zero_iff.mp hte', ?_, ?_, hr.host, hr.decimal⟩, hr.length⟩
    · intro k
      by_cases hk : k = .transferEncoding
      · rw [hk]
        omega
      · by_cases hne : named k hs = []
        · rw [hne]
          exact Nat.zero_le 1
        · have := hr.once k hk hne
          omega
    · intro hminor hnil
      have h1 : (named .host hs).length = 1 := by
        rw [hlen]
        exact hhost hminor
      rw [hnil] at h1
      exact nomatch h1
  · rintro ⟨hok, rfl⟩
    have hrun : CountRun hs {} (-1)
        ⟨(named .host hs).length, (named .contentLength hs).length,
          (named .transferEncoding hs).length, (named .authorization hs).length,
          (named .contentType hs).length, (named .expect hs).length⟩
        (declaredLength hs) := by
      refine ⟨?_, ?_, hok.hostValid, hok.lengthValid, rfl⟩
      · intro k
        cases k <;> exact (Nat.zero_add _).symm
      · intro k _ _
        have := hok.once k
        cases k <;> exact (Nat.zero_add _).symm ▸ this
    refine ⟨_, (countKnownHeaders_iff hs).mpr hrun, (hcount _ _).mpr ⟨?_, ?_, ?_⟩⟩
    · intro hminor
      have h1 := hok.once .host
      have hpos := List.length_pos_iff.mpr (hok.hostPresent hminor)
      exact Nat.le_antisymm h1 hpos
    · show (named .transferEncoding hs).length = 0
      rw [hok.noTransferEncoding]
      rfl
    · exact hok.once .contentLength

/-! ## The header loop -/

/-- A header line does not start like the empty line. -/
theorem atEmptyLine_field {f : Field} (hf : f.WF isTokenChar) (s : Bytes) :
    atEmptyLine (f.bytes ++ s) = false := by
  cases hname : f.name with
  | nil => exact absurd hname hf.name_ne
  | cons c cs =>
      have hc : c ≠ CR := (isTokenChar_not (hf.name_tok c (by rw [hname]; simp))).1
      rw [Field.bytes, hname]
      generalize hq : cs ++ COLON :: (f.before ++ (f.value ++ (f.after ++ CRLF))) ++ s = q
      show atEmptyLine (c :: (cs ++ COLON :: (f.before ++ (f.value ++ (f.after ++ CRLF))) ++ s))
        = false
      rw [hq]
      cases q with
      | nil => rfl
      | cons d ds =>
          show (c == CR && d == LF) = false
          rw [beq_eq_false_iff_ne.mpr hc, Bool.false_and]

theorem atEmptyLine_iff {p : Bytes} :
    atEmptyLine p = true ↔ p = CRLF ++ p.drop 2 := by
  match p with
  | [] => exact ⟨fun h => (nomatch h), fun h => (nomatch h)⟩
  | [a] => exact ⟨fun h => (nomatch h), fun h => (nomatch h)⟩
  | a :: b :: q =>
      show (a == CR && b == LF) = true ↔ a :: b :: q = CR :: LF :: q
      rw [Bool.and_eq_true, beq_iff_eq, beq_iff_eq, List.cons.injEq, List.cons.injEq]
      exact ⟨fun h => ⟨h.1, h.2, rfl⟩, fun h => ⟨h.1, h.2.1⟩⟩

/-- At the empty line the loop decides, whatever room is left. -/
theorem parseHeadersLoop_empty (room : Nat) (seen : HeaderCounts) (rest : Bytes)
    (req : HttpRequest) :
    parseHeadersLoop room seen (CRLF ++ rest) req
      = if headComplete req seen then some (rest, req) else none := by
  cases room <;> rfl

/-- Elsewhere it needs room for one more header. -/
theorem parseHeadersLoop_full {seen : HeaderCounts} {p : Bytes} {req : HttpRequest}
    (hat : atEmptyLine p = false) : parseHeadersLoop 0 seen p req = none := by
  unfold parseHeadersLoop
  rw [hat]
  by_cases hp : p = []
  · rw [if_pos hp]
  · rw [if_neg hp]
    rfl

/-- One turn of the loop on a header line. -/
theorem parseHeadersLoop_line {room : Nat} {seen seen' : HeaderCounts} {p q : Bytes}
    {req : HttpRequest} {h : HttpHeader} {len : Int} (hat : atEmptyLine p = false)
    (hne : p ≠ []) (hline : parseHeaderLine p = some (h, q))
    (hstep : countKnownHeader h seen req.contentLength = some (seen', len)) :
    parseHeadersLoop (room + 1) seen p req
      = parseHeadersLoop room seen' q
          { req with headers := req.headers ++ [h], contentLength := len } := by
  conv_lhs => unfold parseHeadersLoop
  rw [if_neg hne, hat, if_neg Bool.false_ne_true]
  simp only [hline, hstep]

/-- A turn that succeeds was at the empty line or read a header line. -/
theorem parseHeadersLoop_cases {room : Nat} {seen : HeaderCounts} {p rest : Bytes}
    {req req' : HttpRequest} (h : parseHeadersLoop room seen p req = some (rest, req')) :
    (p = CRLF ++ rest ∧ headComplete req seen = true ∧ req' = req) ∨
    ∃ room' g q seen' len, room = room' + 1 ∧ parseHeaderLine p = some (g, q)
      ∧ countKnownHeader g seen req.contentLength = some (seen', len)
      ∧ parseHeadersLoop room' seen' q
          { req with headers := req.headers ++ [g], contentLength := len }
          = some (rest, req') := by
  by_cases hat : atEmptyLine p = true
  · rw [atEmptyLine_iff.mp hat, parseHeadersLoop_empty] at h
    by_cases hdone : headComplete req seen = true
    · rw [if_pos hdone] at h
      obtain ⟨hrest, rfl⟩ := Prod.mk.inj (Option.some.inj h)
      refine Or.inl ⟨?_, hdone, rfl⟩
      rw [← hrest]
      exact atEmptyLine_iff.mp hat
    · rw [if_neg hdone] at h
      exact nomatch h
  · refine Or.inr ?_
    rw [Bool.not_eq_true] at hat
    cases room with
    | zero =>
        rw [parseHeadersLoop_full hat] at h
        exact nomatch h
    | succ room =>
        have hne : p ≠ [] := by
          rintro rfl
          unfold parseHeadersLoop at h
          exact nomatch h
        cases hline : parseHeaderLine p with
        | none =>
            unfold parseHeadersLoop at h
            rw [if_neg hne, hat, if_neg Bool.false_ne_true] at h
            simp only [hline] at h
            exact nomatch h
        | some gq =>
            obtain ⟨g, q⟩ := gq
            cases hstep : countKnownHeader g seen req.contentLength with
            | none =>
                unfold parseHeadersLoop at h
                rw [if_neg hne, hat, if_neg Bool.false_ne_true] at h
                simp only [hline, hstep] at h
                exact nomatch h
            | some sl =>
                obtain ⟨seen', len⟩ := sl
                rw [parseHeadersLoop_line hat hne hline hstep] at h
                exact ⟨room, g, q, seen', len, rfl, rfl, hstep, h⟩

/-- The header loop reads the grammar's header lines and counts their names. -/
theorem parseHeadersLoop_sound :
    ∀ {room : Nat} {seen : HeaderCounts} {p rest : Bytes} {req req' : HttpRequest},
      parseHeadersLoop room seen p req = some (rest, req') →
        ∃ (fs : List Field) (seen' : HeaderCounts) (len' : Int), fs.length ≤ room
          ∧ (∀ f ∈ fs, Field.WF isTokenChar f)
          ∧ p = fs.flatMap Field.bytes ++ (CRLF ++ rest)
          ∧ countKnownHeaders seen req.contentLength (fs.map Field.header)
              = some (seen', len')
          ∧ headComplete req seen' = true
          ∧ req' = { req with headers := req.headers ++ fs.map Field.header,
                              contentLength := len' } := by
  intro room
  induction room with
  | zero =>
      intro seen p rest req req' h
      rcases parseHeadersLoop_cases h with
        ⟨rfl, hdone, rfl⟩ | ⟨room', _, _, _, _, hroom, -⟩
      · exact ⟨[], seen, req'.contentLength, Nat.le_refl 0, fun f hf => (nomatch hf),
          rfl, rfl, hdone, by simp⟩
      · exact nomatch hroom
  | succ room ih =>
      intro seen p rest req req' h
      rcases parseHeadersLoop_cases h with
        ⟨rfl, hdone, rfl⟩ | ⟨room', g, q, seen₁, len₁, hroom, hline, hstep, hrun⟩
      · exact ⟨[], seen, req'.contentLength, Nat.zero_le _, fun f hf => (nomatch hf),
          rfl, rfl, hdone, by simp⟩
      · obtain rfl := Nat.succ.inj hroom
        obtain ⟨f, hf, rfl, rfl⟩ := parseHeaderLine_iff.mp hline
        obtain ⟨fs, seen', len', h1, h2, rfl, h4, h5, rfl⟩ := ih hrun
        refine ⟨f :: fs, seen', len', Nat.succ_le_succ h1,
          List.forall_mem_cons.mpr ⟨hf, h2⟩, ?_, ?_, h5, ?_⟩
        · rw [List.flatMap_cons, List.append_assoc]
        · rw [List.map_cons, countKnownHeaders, hstep]
          exact h4
        · simp

/-- Every header block of the grammar whose counts are admitted is read. -/
theorem parseHeadersLoop_complete :
    ∀ {fs : List Field} {room : Nat} {seen seen' : HeaderCounts} {rest : Bytes}
      {req : HttpRequest} {len' : Int}, fs.length ≤ room →
      (∀ f ∈ fs, Field.WF isTokenChar f) →
      countKnownHeaders seen req.contentLength (fs.map Field.header)
        = some (seen', len') →
      headComplete req seen' = true →
      parseHeadersLoop room seen (fs.flatMap Field.bytes ++ (CRLF ++ rest)) req
        = some (rest, { req with headers := req.headers ++ fs.map Field.header,
                                 contentLength := len' }) := by
  intro fs
  induction fs with
  | nil =>
      intro room seen seen' rest req len' _ _ hcount hdone
      obtain ⟨rfl, rfl⟩ := Prod.mk.inj (Option.some.inj hcount)
      rw [List.flatMap_nil, List.nil_append, parseHeadersLoop_empty, if_pos hdone]
      simp
  | cons f fs ih =>
      intro room seen seen' rest req len' hlen hwf hcount hdone
      obtain ⟨hf, hfs⟩ := List.forall_mem_cons.mp hwf
      rw [List.map_cons, countKnownHeaders] at hcount
      split at hcount
      · exact nomatch hcount
      · rename_i seen₁ len₁ hstep
        obtain ⟨room, rfl⟩ : ∃ room', room = room' + 1 :=
          ⟨room - 1, by rw [List.length_cons] at hlen; omega⟩
        rw [List.flatMap_cons, List.append_assoc,
          parseHeadersLoop_line (atEmptyLine_field hf _) (by rw [Field.bytes]; simp)
            (parseHeaderLine_iff.mpr ⟨f, hf, rfl, rfl⟩) hstep]
        have hrest := @ih room seen₁ seen' rest
          { req with headers := req.headers ++ [f.header], contentLength := len₁ } len'
          (Nat.le_of_succ_le_succ hlen) hfs hcount hdone
        refine hrest.trans ?_
        simp

/-! ## The whole head -/

theorem flatMap_bytes_assoc (H : Head) (rest : Bytes) :
    H.bytes ++ rest = H.method ++ SP :: (H.target ++ SP ::
      (lit "HTTP/1." ++ (0x30 + H.minor.toUInt8) ::
        (CRLF ++ (H.fields.flatMap Field.bytes ++ (CRLF ++ rest))))) := by
  simp only [Head.bytes, Head.line, List.append_assoc, List.cons_append]

/-- **The parser of the head is the grammar** over the code's token
    characters. -/
theorem parseHead_iff {buf rest : Bytes} {req : HttpRequest} :
    parseHead buf = some (rest, req) ↔
      ∃ H : Head, H.WF isTokenChar ∧ buf = H.bytes ++ rest ∧ req = H.request := by
  constructor
  · intro h
    unfold parseHead at h
    split at h
    · exact nomatch h
    · rename_i p₁ req₁ hline
      obtain ⟨method, target, minor, rfl, h1, h2, h3, h4, h5, h6, rfl⟩ :=
        parseRequestLine_iff.mp hline
      obtain ⟨fs, seen', len', g1, g2, rfl, g4, g5, rfl⟩ := parseHeadersLoop_sound h
      have hok := headersOk_iff.mp ⟨seen', g4, g5⟩
      refine ⟨⟨method, target, minor, fs⟩,
        ⟨h1, h2, h3, h4, h5, h6, g1, g2, hok.1⟩, ?_, ?_⟩
      · rw [flatMap_bytes_assoc]
      · rw [Head.request, hok.2]
        rfl
  · rintro ⟨H, hwf, rfl, rfl⟩
    have hline : parseRequestLine (H.bytes ++ rest) {} = some
        (H.fields.flatMap Field.bytes ++ (CRLF ++ rest),
          { method := H.method, path := H.target, minorVersion := H.minor }) := by
      refine parseRequestLine_iff.mpr ⟨H.method, H.target, H.minor, ?_, hwf.method_len,
        hwf.method_tok, hwf.target_len, hwf.target_char, hwf.target_form, hwf.version, rfl⟩
      rw [flatMap_bytes_assoc]
    obtain ⟨seen', hcount, hdone⟩ := headersOk_iff.mpr ⟨hwf.headers_ok, rfl⟩
    rw [parseHead, hline]
    exact parseHeadersLoop_complete hwf.fields_len hwf.fields_wf hcount hdone

end HttpAccept
