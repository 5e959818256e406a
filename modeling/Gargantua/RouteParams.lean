import Gargantua.RouteUnique

/-! # Path parameters arrive unchanged

    A target is a valid template with a value at each placeholder, percent
    encoded in any way: a byte stands for itself, unless it is `%` or `?`, or
    for its escape in hexadecimal digits of either case (`Encodes`).  Such a
    target is decoded to the template with its values (`splitPath_target`), the
    template binds the values in order, and the slot that the generator has
    computed for a name counts the placeholders before it
    (`urlParamSlot_names`). -/

namespace RouteParams

open CString Segments UniqueMin RouteRuntime RouteGenerator RouteSegments RouteUnique

/-! ## Percent-encoding -/

/-- The text is a percent-encoding of the value. -/
inductive Encodes : Bytes → Bytes → Prop
  | nil : Encodes [] []
  | literal {c : Byte} {value text : Bytes} (hp : c ≠ percent) (hq : c ≠ question)
      (h : Encodes value text) : Encodes (c :: value) (c :: text)
  | escaped {c high low : Byte} {hi lo : Nat} {value text : Bytes}
      (hh : hexDigitValue high = some hi) (hl : hexDigitValue low = some lo)
      (hc : c.toNat = hi * 16 + lo) (h : Encodes value text) :
      Encodes (c :: value) (percent :: high :: low :: text)

/-- A byte that a segment of a path can hold. -/
structure Plain (c : Byte) : Prop where
  noControl : ¬ c.toNat < 0x20
  noDelete : c.toNat ≠ 0x7F
  noSlash : c ≠ slash
  noBackslash : c ≠ backslash

/-- The text is the path with its slashes kept and its other bytes percent
    encoded. -/
inductive PathText : Bytes → Bytes → Prop
  | nil : PathText [] []
  | slash {path text : Bytes} (h : PathText path text) :
      PathText (slash :: path) (slash :: text)
  | literal {c : Byte} {path text : Bytes} (hc : Plain c) (hp : c ≠ percent)
      (hq : c ≠ question) (h : PathText path text) : PathText (c :: path) (c :: text)
  | escaped {c high low : Byte} {hi lo : Nat} {path text : Bytes} (hc : Plain c)
      (hh : hexDigitValue high = some hi) (hl : hexDigitValue low = some lo)
      (hv : c.toNat = hi * 16 + lo) (h : PathText path text) :
      PathText (c :: path) (percent :: high :: low :: text)

theorem Encodes.append {value text path rest : Bytes} (h : Encodes value text)
    (hv : ∀ c ∈ value, Plain c) (hrest : PathText path rest) :
    PathText (value ++ path) (text ++ rest) := by
  induction h with
  | nil => exact hrest
  | literal hp hq _ ih =>
      obtain ⟨hc, hv⟩ := List.forall_mem_cons.mp hv
      exact .literal hc hp hq (ih hv)
  | escaped hh hl hcv _ ih =>
      obtain ⟨hc, hv⟩ := List.forall_mem_cons.mp hv
      exact .escaped hc hh hl hcv (ih hv)

/-- Encoded segments behind their slashes. -/
theorem pathText_slashed {segs encs : List Bytes} (h : List.Forall₂ Encodes segs encs)
    (hsegs : ∀ s ∈ segs, ∀ c ∈ s, Plain c) :
    PathText (slashed slash segs) (slashed slash encs) := by
  induction h with
  | nil => exact .nil
  | cons henc _ ih =>
      obtain ⟨hs, hsegs⟩ := List.forall_mem_cons.mp hsegs
      rw [slashed_cons, slashed_cons]
      exact .slash (henc.append hs (ih hsegs))

/-- A hexadecimal digit is no byte that the scans look for. -/
theorem hexDigit_ne {h : Byte} {n : Nat} (hh : hexDigitValue h = some n) {c : Byte}
    (hc : hexDigitValue c = none) : h ≠ c := by
  rintro rfl
  rw [hc] at hh
  exact nomatch hh

theorem PathText.noQuestion {path text : Bytes} (h : PathText path text) :
    question ∉ text := by
  induction h with
  | nil => exact List.not_mem_nil
  | slash _ ih =>
      rw [List.mem_cons, not_or]
      exact ⟨by decide, ih⟩
  | literal _ _ hq _ ih =>
      rw [List.mem_cons, not_or]
      exact ⟨fun h => hq h.symm, ih⟩
  | escaped _ hh hl _ _ ih =>
      rw [List.mem_cons, List.mem_cons, List.mem_cons, not_or, not_or, not_or]
      exact ⟨by decide, (hexDigit_ne hh (by decide)).symm, (hexDigit_ne hl (by decide)).symm, ih⟩

theorem PathText.noBackslash {path text : Bytes} (h : PathText path text) :
    backslash ∉ text ∧ backslash ∉ path := by
  induction h with
  | nil => exact ⟨List.not_mem_nil, List.not_mem_nil⟩
  | slash _ ih =>
      rw [List.mem_cons, List.mem_cons, not_or, not_or]
      exact ⟨⟨by decide, ih.1⟩, by decide, ih.2⟩
  | literal hc _ _ _ ih =>
      rw [List.mem_cons, List.mem_cons, not_or, not_or]
      exact ⟨⟨hc.noBackslash.symm, ih.1⟩, hc.noBackslash.symm, ih.2⟩
  | escaped hc hh hl _ _ ih =>
      rw [List.mem_cons, List.mem_cons, List.mem_cons, List.mem_cons, not_or, not_or, not_or,
        not_or]
      exact ⟨⟨by decide, (hexDigit_ne hh (by decide)).symm,
        (hexDigit_ne hl (by decide)).symm, ih.1⟩, hc.noBackslash.symm, ih.2⟩

/-- A byte that is no `%` starts no escape. -/
theorem encodedSeparator_cons {c : Byte} (hc : c ≠ percent) (s : Bytes) :
    encodedSeparator (c :: s) = encodedSeparator s := by
  rw [encodedSeparator.eq_def]
  dsimp only
  rw [beq_eq_false_iff_ne.mpr hc, Bool.false_and, Bool.false_or]

/-- An escape that the scan refuses stands for a slash or a backslash. -/
theorem encodedSeparator_escape {high low : Byte} {hi lo : Nat} {c : Byte} (hc : Plain c)
    (hh : hexDigitValue high = some hi) (hl : hexDigitValue low = some lo)
    (hv : c.toNat = hi * 16 + lo) (s : Bytes) :
    encodedSeparator (percent :: high :: low :: s) = encodedSeparator s := by
  rw [encodedSeparator, encodedSeparator_cons (hexDigit_ne hh (by decide)),
    encodedSeparator_cons (hexDigit_ne hl (by decide))]
  have hno : ((high == 0x32 && (low == 0x66 || low == 0x46))
      || (high == 0x35 && (low == 0x63 || low == 0x43))) = false := by
    refine Bool.eq_false_iff.mpr fun hyes => ?_
    rw [Bool.or_eq_true, Bool.and_eq_true, Bool.and_eq_true, Bool.or_eq_true, Bool.or_eq_true,
      beq_iff_eq, beq_iff_eq, beq_iff_eq, beq_iff_eq, beq_iff_eq, beq_iff_eq] at hyes
    have hbyte : ∀ b : Byte, c.toNat = b.toNat → c = b := fun b h => UInt8.toNat_inj.mp h
    rcases hyes with ⟨rfl, hlow⟩ | ⟨rfl, hlow⟩
    · refine hc.noSlash (hbyte _ ?_)
      rcases hlow with rfl | rfl
      · cases hh
        cases hl
        exact hv
      · cases hh
        cases hl
        exact hv
    · refine hc.noBackslash (hbyte _ ?_)
      rcases hlow with rfl | rfl
      · cases hh
        cases hl
        exact hv
      · cases hh
        cases hl
        exact hv
  rw [hno, Bool.and_false, Bool.false_or]

theorem PathText.noSeparator {path text : Bytes} (h : PathText path text) :
    encodedSeparator text = false := by
  induction h with
  | nil => rfl
  | slash _ ih => rw [encodedSeparator_cons (by decide), ih]
  | literal _ hp _ _ ih => rw [encodedSeparator_cons hp, ih]
  | escaped hc hh hl hv _ ih => rw [encodedSeparator_escape hc hh hl hv, ih]

/-- A byte that is no `%` stands for itself. -/
theorem urlDecodeLoop_cons {read : Nat} (hread : read < RUNTIME_MAX_TEXT) {c : Byte}
    (hc : c ≠ percent) (s : Bytes) :
    urlDecodeLoop read (c :: s) = (urlDecodeLoop (read + 1) s).map (c :: ·) := by
  rw [urlDecodeLoop.eq_def]
  dsimp only
  rw [if_neg (Nat.not_le.mpr hread), if_neg hc]

/-- **`url_decode`** undoes the encoding. -/
theorem PathText.decode {path text : Bytes} (h : PathText path text) : ∀ {read : Nat},
    read + text.length < RUNTIME_MAX_TEXT → urlDecodeLoop read text = some path := by
  induction h with
  | nil =>
      intro read hlen
      rw [urlDecodeLoop, if_neg (by rw [List.length_nil] at hlen; omega)]
  | slash _ ih =>
      intro read hlen
      rw [List.length_cons] at hlen
      rw [urlDecodeLoop_cons (by omega) (by decide), ih (by omega)]
      rfl
  | literal _ hp _ _ ih =>
      intro read hlen
      rw [List.length_cons] at hlen
      rw [urlDecodeLoop_cons (by omega) hp, ih (by omega)]
      rfl
  | @escaped c _ _ _ _ _ _ hc hh hl hv _ ih =>
      intro read hlen
      rw [List.length_cons, List.length_cons, List.length_cons] at hlen
      rw [urlDecodeLoop, if_neg (by omega), if_pos rfl]
      dsimp only
      rw [hh, hl]
      dsimp only
      rw [← hv, if_neg (not_or.mpr ⟨hc.noControl, hc.noDelete⟩), ih (by omega), Option.map_some]
      have hbyte : c.toNat.toUInt8 = c := UInt8.toNat_inj.mp (by simp)
      rw [hbyte]

/-! ## The target of a template -/

/-- A value that a placeholder can take. -/
structure Value (v : Bytes) : Prop where
  nonempty : v ≠ []
  short : v.length < PARAM_VALUE_LEN
  noDot : v ≠ lit "."
  noDots : v ≠ lit ".."
  plain : ∀ c ∈ v, Plain c

/-- The template with a value at each placeholder. -/
def fill : List Bytes → List Bytes → List Bytes
  | [], _ => []
  | p :: ps, vs =>
      if isDynamic p = true then
        match vs with
        | [] => p :: fill ps []
        | v :: vs => v :: fill ps vs
      else p :: fill ps vs

/-- The path of these segments. -/
def pathOf (segs : List Bytes) : Bytes :=
  if segs = [] then [slash] else slashed slash segs

/-- A segment of a path that `split_path` accepts. -/
structure GoodSegment (s : Bytes) : Prop where
  good : badSegment s = false
  plain : ∀ c ∈ s, Plain c

theorem GoodSegment.nonempty {s : Bytes} (h : GoodSegment s) : s ≠ [] := by
  rintro rfl
  exact absurd h.good (by decide)

theorem GoodSegment.noSlash {s : Bytes} (h : GoodSegment s) : slash ∉ s :=
  fun hs => (h.plain slash hs).noSlash rfl

theorem badSegment_false {s : Bytes} (h0 : s ≠ []) (h1 : s ≠ lit ".") (h2 : s ≠ lit "..") :
    badSegment s = false := by
  have hdot : lit "." = [0x2E] := by decide
  have hdots : lit ".." = [0x2E, 0x2E] := by decide
  rw [badSegment, beq_eq_false_iff_ne.mpr h0, beq_eq_false_iff_ne.mpr (hdot ▸ h1),
    beq_eq_false_iff_ne.mpr (hdots ▸ h2)]
  rfl

theorem Value.good {v : Bytes} (h : Value v) : GoodSegment v :=
  ⟨badSegment_false h.nonempty h.noDot h.noDots, h.plain⟩

/-- The bytes of an accepted template are plain but for its slashes. -/
theorem plain_of_safe {c : Byte} (h : isUnsafe c = false) (hs : c ≠ slash) : Plain c := by
  rw [isUnsafe, Bool.or_eq_false_iff, Bool.or_eq_false_iff, decide_eq_false_iff_not,
    beq_eq_false_iff_ne, beq_eq_false_iff_ne] at h
  obtain ⟨⟨hctl, hdel⟩, hback⟩ := h
  refine ⟨fun hlt => hctl ?_, fun heq => hdel ?_, hs, hback⟩
  · exact UInt8.lt_iff_toNat_lt.mpr hlt
  · exact UInt8.toNat_inj.mp heq

/-- The filled template binds the values, and its segments are good ones. -/
theorem fill_spec {ps names : List Bytes} (h : Named ps names)
    (hplain : ∀ p ∈ ps, ∀ c ∈ p, Plain c) : ∀ {vs : List Bytes}, (∀ v ∈ vs, Value v) →
    vs.length = names.length →
    Binds ps (fill ps vs) vs ∧ ∀ s ∈ fill ps vs, GoodSegment s := by
  induction h with
  | nil =>
      intro vs _ hlen
      obtain rfl := List.eq_nil_of_length_eq_zero hlen
      exact ⟨.nil, fun s hs => (nomatch hs)⟩
  | @static p ps names hp _ ih =>
      intro vs hvs hlen
      obtain ⟨hp', hps⟩ := List.forall_mem_cons.mp hplain
      obtain ⟨hb, hgood⟩ := ih hps hvs hlen
      have hd := isDynamic_static hp
      rw [fill.eq_def]
      dsimp only
      rw [if_neg (by rw [hd]; exact Bool.false_ne_true)]
      refine ⟨.static hd hb, List.forall_mem_cons.mpr ⟨⟨?_, hp'⟩, hgood⟩⟩
      exact badSegment_false hp.nonempty hp.noDot hp.noDots
  | @placeholder name ps names _ _ ih =>
      intro vs hvs hlen
      obtain ⟨-, hps⟩ := List.forall_mem_cons.mp hplain
      cases vs with
      | nil => exact nomatch hlen
      | cons v vs =>
          obtain ⟨hv, hvs⟩ := List.forall_mem_cons.mp hvs
          rw [List.length_cons, List.length_cons, Nat.add_right_cancel_iff] at hlen
          obtain ⟨hb, hgood⟩ := ih hps hvs hlen
          have hd := isDynamic_placeholder name
          rw [fill.eq_def]
          dsimp only
          rw [if_pos hd]
          exact ⟨.dynamic hd hv.nonempty hv.short hb,
            List.forall_mem_cons.mpr ⟨hv.good, hgood⟩⟩

/-- The last loop of `split_path` accepts good segments. -/
theorem segmentsOk_slashed : ∀ (segs : List Bytes) (n : Nat), (∀ s ∈ segs, GoodSegment s) →
    (slashed slash segs).tail.length ≤ n → segmentsOk n (slashed slash segs).tail = true := by
  intro segs
  induction segs with
  | nil =>
      intro n _ _
      cases n with
      | zero => rfl
      | succ n => rfl
  | cons s segs ih =>
      intro n hgood hlen
      obtain ⟨hs, hsegs⟩ := List.forall_mem_cons.mp hgood
      rw [slashed_cons, List.tail_cons] at hlen ⊢
      have hpos : 0 < s.length := List.length_pos_iff.mpr hs.nonempty
      rw [List.length_append] at hlen
      cases n with
      | zero => omega
      | succ n =>
          have hall : ∀ c ∈ s, (c != slash) = true :=
            fun c hc => bne_iff_ne.mpr fun h => hs.noSlash (h ▸ hc)
          rw [segmentsOk, if_neg (by simp [hs.nonempty]), List.takeWhile_append_of_pos hall,
            List.dropWhile_append_of_pos hall]
          cases segs with
          | nil =>
              rw [slashed_nil, List.takeWhile_nil, List.dropWhile_nil, List.append_nil,
                if_neg (by rw [hs.good]; exact Bool.false_ne_true)]
          | cons s' segs =>
              obtain ⟨hs', -⟩ := List.forall_mem_cons.mp hsegs
              have hstop : ¬ (slash != slash) = true := by decide
              rw [slashed_cons, List.takeWhile_cons_of_neg (p := (· != slash)) hstop,
                List.dropWhile_cons_of_neg (p := (· != slash)) hstop, List.append_nil,
                if_neg (by rw [hs.good]; exact Bool.false_ne_true)]
              dsimp only
              rw [if_neg (by simp [hs'.nonempty])]
              have hih := ih n hsegs (by
                rw [slashed_cons, List.length_cons] at hlen
                rw [slashed_cons, List.tail_cons]
                omega)
              rw [slashed_cons, List.tail_cons] at hih
              exact hih

/-- **`split_path`** turns the target back into the path. -/
theorem splitPath_target {segs encs : List Bytes} (hgood : ∀ s ∈ segs, GoodSegment s)
    (henc : List.Forall₂ Encodes segs encs) (hlen : (pathOf encs).length < HTTP_MAX_PATH) :
    splitPath (pathOf encs) = some (pathOf segs, none) := by
  have htext : PathText (pathOf segs) (pathOf encs) := by
    cases henc with
    | nil => exact .slash .nil
    | cons he hes =>
        rw [pathOf, if_neg (List.cons_ne_nil _ _), pathOf, if_neg (List.cons_ne_nil _ _)]
        exact pathText_slashed (.cons he hes) fun s hs => (hgood s hs).plain
  have hquery : (pathOf encs).takeWhile (· != question) = pathOf encs
      ∧ (pathOf encs).dropWhile (· != question) = [] := by
    have hall : ∀ c ∈ pathOf encs, (c != question) = true :=
      fun c hc => bne_iff_ne.mpr fun h => htext.noQuestion (h ▸ hc)
    exact ⟨List.takeWhile_eq_self_iff.mpr hall, List.dropWhile_eq_nil_iff.mpr hall⟩
  have hhead : (pathOf segs).head? = some slash := by
    rw [pathOf]
    split
    · rfl
    · rename_i hne
      obtain ⟨s, segs, rfl⟩ := List.exists_cons_of_ne_nil hne
      rfl
  have hsegs : segmentsOk (pathOf segs).length (pathOf segs).tail = true := by
    rw [pathOf]
    split
    · rfl
    · refine segmentsOk_slashed segs _ hgood ?_
      rw [List.length_tail]
      exact Nat.sub_le _ _
  have hdecode : urlDecode (pathOf encs) = some (pathOf segs) := by
    refine htext.decode ?_
    rw [Nat.zero_add]
    exact Nat.lt_trans hlen (by decide)
  rw [splitPath, hquery.1, hquery.2]
  dsimp only
  rw [if_neg htext.noBackslash.1, htext.noSeparator, if_neg Bool.false_ne_true, hdecode]
  dsimp only
  rw [if_neg (not_or.mpr ⟨htext.noBackslash.2, fun h => h hhead⟩), hsegs]
  rfl

/-! ## The slots -/

/-- Bytes that open no placeholder are passed over. -/
theorem urlParamSlotLoop_skip (name : Bytes) : ∀ (p s : Bytes) (n slot : Nat),
    openBrace ∉ p → p.length + s.length ≤ n →
    urlParamSlotLoop name n (p ++ s) slot = urlParamSlotLoop name (n - p.length) s slot := by
  intro p
  induction p with
  | nil =>
      intro s n slot _ _
      rfl
  | cons c p ih =>
      intro s n slot hp hlen
      rw [List.mem_cons, not_or] at hp
      rw [List.length_cons] at hlen
      cases n with
      | zero => omega
      | succ n =>
          rw [List.cons_append, urlParamSlotLoop, if_pos (fun h => hp.1 h.symm),
            ih s n slot hp.2 (by omega), List.length_cons, Nat.add_sub_add_right]

/-- A placeholder is the one looked for, or it counts. -/
theorem urlParamSlotLoop_placeholder (name : Bytes) {other : Bytes} (ho : closeBrace ∉ other)
    (s : Bytes) (n slot : Nat) :
    urlParamSlotLoop name (n + 1) (placeholder other ++ s) slot
      = if name = other then (slot : Int) else urlParamSlotLoop name n s (slot + 1) := by
  have hall : ∀ c ∈ other, (c != closeBrace) = true :=
    fun c hc => bne_iff_ne.mpr fun h => ho (h ▸ hc)
  have hstop : ¬ (closeBrace != closeBrace) = true := by decide
  have hrest : placeholder other ++ s = openBrace :: (other ++ closeBrace :: s) := by
    rw [placeholder, List.cons_append, List.append_assoc, List.singleton_append]
  rw [hrest, urlParamSlotLoop, if_neg (fun h => h rfl), List.dropWhile_append_of_pos hall,
    List.takeWhile_append_of_pos hall, List.dropWhile_cons_of_neg (p := (· != closeBrace)) hstop,
    List.takeWhile_cons_of_neg (p := (· != closeBrace)) hstop, List.append_nil]

/-- Over the rest of a path the slots go on from those counted. -/
theorem urlParamSlotLoop_names {ps names : List Bytes} (h : Named ps names) :
    ∀ {n slot k : Nat} {name : Bytes}, names.Nodup → (slashed slash ps).length ≤ n →
      names[k]? = some name →
      urlParamSlotLoop name n (slashed slash ps) slot = ((slot + k : Nat) : Int) := by
  induction h with
  | nil =>
      intro n slot k name _ _ hk
      exact nomatch hk
  | @static p ps names hp _ ih =>
      intro n slot k name hnodup hlen hk
      rw [slashed_cons] at hlen ⊢
      rw [List.length_cons, List.length_append] at hlen
      have hno : openBrace ∉ slash :: p := by
        rw [List.mem_cons, not_or]
        exact ⟨by decide, hp.noOpen⟩
      rw [← List.cons_append, urlParamSlotLoop_skip _ _ _ _ _ hno (by
        rw [List.length_cons]
        omega), List.length_cons]
      exact ih hnodup (by omega) hk
  | @placeholder other ps names ho _ ih =>
      intro n slot k name hnodup hlen hk
      rw [List.nodup_cons] at hnodup
      rw [slashed_cons] at hlen ⊢
      have hplen : (placeholder other).length = other.length + 2 := by
        rw [placeholder, List.length_cons, List.length_append, List.length_singleton]
      rw [List.length_cons, List.length_append, hplen] at hlen
      obtain ⟨n, rfl⟩ : ∃ m, n = m + 2 := ⟨n - 2, by omega⟩
      rw [urlParamSlotLoop, if_pos (by decide), urlParamSlotLoop_placeholder _ ho.noClose]
      cases k with
      | zero =>
          rw [List.getElem?_cons_zero] at hk
          rw [if_pos (Option.some.inj hk).symm, Nat.add_zero]
      | succ k =>
          rw [List.getElem?_cons_succ] at hk
          have hne : name ≠ other := by
            rintro rfl
            exact hnodup.1 (List.mem_of_getElem? hk)
          rw [if_neg hne, ih hnodup.2 (by omega) hk]
          congr 1
          omega

/-- **`url_param_slot`** is the place of the name among the placeholders. -/
theorem urlParamSlot_names {url : Bytes} {names : List Bytes} (h : ValidUrl url names)
    (hshort : url.length < GENERATOR_MAX_URL) {k : Nat} {name : Bytes}
    (hk : names[k]? = some name) : urlParamSlot url name = (k : Int) := by
  rw [urlParamSlot, List.take_of_length_le (Nat.le_of_lt hshort)]
  have hne : url.tail ≠ [] := by
    intro h0
    have hn := h.segments
    rw [h0] at hn
    cases hn
    exact nomatch hk
  have hurl : url = slashed slash (segments slash url.tail) := by
    rw [slashed_segments hne (h.tail_last.resolve_left hne)]
    exact h.eq_cons
  have hloop : urlParamSlotLoop name GENERATOR_MAX_URL
      (slashed slash (segments slash url.tail)) 0 = ((0 + k : Nat) : Int) :=
    urlParamSlotLoop_names h.segments h.distinct
      (by rw [← hurl]; exact Nat.le_of_lt hshort) hk
  rw [← hurl, Nat.zero_add] at hloop
  exact hloop

/-! ## The handler's view -/

/-- The target matches its template, with its values. -/
theorem pathMatches_target {url : Bytes} {names values : List Bytes} (h : ValidUrl url names)
    (hplain : ∀ p ∈ segments slash url.tail, ∀ c ∈ p, Plain c)
    (hv : ∀ v ∈ values, Value v) (hlen : values.length = names.length) :
    pathMatches url (pathOf (fill (segments slash url.tail) values)) paramsReset
      = (1, { paramsReset with pathValue := values }) := by
  obtain ⟨hb, hgood⟩ := fill_spec h.segments hplain hv hlen
  have hurl : segments slash url = [] :: segments slash url.tail := by
    conv => lhs; rw [h.eq_cons]
    exact segments_sep _
  have hpath : segments slash (pathOf (fill (segments slash url.tail) values))
      = [] :: fill (segments slash url.tail) values := by
    rw [pathOf]
    split
    · rename_i hnil
      rw [hnil]
      rfl
    · rename_i hne
      obtain ⟨s, segs, hs⟩ := List.exists_cons_of_ne_nil hne
      have hback := segments_slashed (fun s hs => (hgood s hs).nonempty)
        fun s hs => (hgood s hs).noSlash
      rw [hs] at hback ⊢
      rw [slashed_cons, List.tail_cons] at hback
      rw [slashed_cons, segments_sep, hback]
  refine pathMatches_iff.mpr ⟨values, ?_, ?_, ?_, rfl⟩
  · rw [hurl, hpath]
    exact .static rfl hb
  · rw [hurl, List.length_cons]
    have hc := h.count
    exact Nat.lt_of_le_of_lt (Nat.succ_le_succ hc) (by decide)
  · rw [hlen]
    exact h.few

/-- The names of a template's placeholders, in order. -/
def placeholderNames (url : Bytes) : List Bytes :=
  ((segments slash url.tail).filter isDynamic).map fun p => (p.drop 1).take (p.length - 2)

theorem Named.names {ps names : List Bytes} (h : Named ps names) :
    (ps.filter isDynamic).map (fun p => (p.drop 1).take (p.length - 2)) = names := by
  induction h with
  | nil => rfl
  | static hp _ ih =>
      rw [List.filter_cons_of_neg (by rw [isDynamic_static hp]; exact Bool.false_ne_true), ih]
  | @placeholder name _ _ _ _ ih =>
      have hname : ((placeholder name).drop 1).take ((placeholder name).length - 2) = name := by
        rw [placeholder, List.drop_one, List.tail_cons, List.length_cons, List.length_append,
          List.length_singleton]
        exact List.take_left
      rw [List.filter_cons_of_pos (isDynamic_placeholder name), List.map_cons, ih, hname]

/-- **Path parameters arrive unchanged.**

    A target made from an accepted template, with a value at each placeholder
    and percent-encoded, is split and matched; if no match has fewer
    placeholders, the template's route is chosen, and the text at the slot of
    each placeholder is its value. -/
theorem url_params_unchanged {types : List Bytes} {routes : List ParsedRoute}
    (h : Accepted types routes) {r : ParsedRoute} (hr : r ∈ routes) {values encs : List Bytes}
    (hv : ∀ v ∈ values, Value v) (hlen : values.length = (placeholderNames r.url).length)
    (henc : List.Forall₂ Encodes (fill (segments slash r.url.tail) values) encs)
    (hshort : (pathOf encs).length < HTTP_MAX_PATH) {method : Bytes}
    (hm : serves method (emitRoute r) = true) :
    ∃ path, splitPath (pathOf encs) = some (path, none)
      ∧ (routeFind (emitRouteTable routes) method path).1 ≠ none
      ∧ ((∀ r' ∈ matching (emitRouteTable routes) method path,
            dynamicSegmentCount r.url ≤ dynamicSegmentCount r'.url) →
          ∃ params, routeFind (emitRouteTable routes) method path = (some (emitRoute r), params)
            ∧ ∀ (k : Nat) (name value : Bytes), (placeholderNames r.url)[k]? = some name →
                values[k]? = some value →
                pathParamText params (urlParamSlot r.url name) = value) := by
  obtain ⟨line, hline⟩ := h.armed r hr
  have harmed := armed_of_line hline
  obtain ⟨names, hvalid⟩ := harmed.valid
  have hnames : placeholderNames r.url = names := Named.names hvalid.segments
  rw [hnames] at hlen ⊢
  have hplain : ∀ p ∈ segments slash r.url.tail, ∀ c ∈ p, Plain c := by
    intro p hp c hc
    have hmem : c ∈ r.url := List.mem_of_mem_tail (mem_of_mem_segments hp hc)
    refine plain_of_safe (harmed.safe c hmem) fun hs => ?_
    exact sep_not_mem hp (hs ▸ hc)
  obtain ⟨-, hgood⟩ := fill_spec hvalid.segments hplain hv hlen
  have hmatch := pathMatches_target hvalid hplain hv hlen
  generalize hpath : pathOf (fill (segments slash r.url.tail) values) = path at hmatch
  refine ⟨path, ?_, ?_⟩
  · rw [← hpath]
    exact splitPath_target hgood henc hshort
  have hlines := table_lines h
  rw [routeFind_eq (fun r hr => (hlines r hr).2), matching_eq hlines method path]
  -- the route is among the matches
  have hcand : (emitRoute r, ({ paramsReset with pathValue := values } : RequestParams))
      ∈ (emitRouteTable routes).filterMap (candidate (lookupMethod method) path) := by
    obtain ⟨table, heq, hperm⟩ := emitted_perm h.few
    have hmem : emitRoute r ∈ emitRouteTable routes := by
      rw [heq]
      exact List.mem_cons_of_mem _ (hperm.mem_iff.mpr (List.mem_map_of_mem hr))
    have hmethod : (emitRoute r).method = lookupMethod method :=
      (serves_iff (hlines _ hmem).2).mp hm
    have hurl : (emitRoute r).url = r.url := rfl
    refine List.mem_filterMap.mpr ⟨emitRoute r, hmem, ?_⟩
    rw [candidate, hurl, hmatch, if_pos ⟨(hlines _ hmem).1, hmethod, rfl⟩]
  obtain ⟨⟨best, ps⟩, hu⟩ := candidates_unique h (List.ne_nil_of_mem hcand)
  rw [routeFindExact_unique hu]
  refine ⟨fun h => (by cases h), fun hfewest => ?_⟩
  -- the cheapest match is no dearer than the route, and no other is as cheap
  have hbest : (best, ps) = (emitRoute r, { paramsReset with pathValue := values }) := by
    obtain ⟨before, after, heq, hlt⟩ := hu
    rw [heq] at hcand hfewest
    have hle := hfewest best (by
      rw [List.map_append, List.map_cons]
      exact List.mem_append_right _ List.mem_cons_self)
    rw [List.mem_append, List.mem_cons] at hcand
    have hno : ∀ c ∈ before ++ after, c ≠
        (emitRoute r, ({ paramsReset with pathValue := values } : RequestParams)) := by
      rintro c hc rfl
      have hcost := hlt _ hc
      exact absurd hle (Nat.not_le.mpr hcost)
    rcases hcand with hc | hc | hc
    · exact absurd rfl (hno _ (List.mem_append_left _ hc))
    · exact hc.symm
    · exact absurd rfl (hno _ (List.mem_append_right _ hc))
  obtain ⟨rfl, rfl⟩ := Prod.mk.inj hbest
  refine ⟨_, rfl, ?_⟩
  intro k name value hk hvalue
  have hklt : k < values.length := (List.getElem?_eq_some_iff.mp hvalue).1
  have hfew := hvalid.few
  rw [urlParamSlot_names hvalid harmed.short hk, pathParamText, if_neg, Int.toNat_natCast]
  · dsimp only
    rw [List.getD_eq_getElem?_getD, hvalue]
    rfl
  · rw [not_or]
    dsimp only
    constructor
    · omega
    · have h8 : (PATH_PARAM_MAX : Int) = 8 := rfl
      have h8' : GENERATOR_MAX_PARAMS = 8 := rfl
      omega

/-- `GET /%69tems/%252f` reaches `/items/{id}` with the value `%2f`. -/
theorem url_params_unchanged_escape :
    ∃ path params, splitPath (lit "/%69tems/%252f") = some (path, none)
      ∧ routeFind (emitRouteTable [itemRoute, newestRoute]) (lit "GET") path
        = (some (emitRoute itemRoute), params)
      ∧ pathParamText params (urlParamSlot itemRoute.url (lit "id")) = lit "%2f" := by
  have hv : ∀ v ∈ [lit "%2f"], Value v := by
    refine List.forall_mem_singleton.mpr
      ⟨by decide +kernel, by decide +kernel, by decide +kernel, by decide +kernel, ?_⟩
    have hplain : ∀ c ∈ lit "%2f", ¬ c.toNat < 0x20 ∧ c.toNat ≠ 0x7F ∧ c ≠ slash
        ∧ c ≠ backslash := by decide +kernel
    intro c hc
    obtain ⟨h1, h2, h3, h4⟩ := hplain c hc
    exact ⟨h1, h2, h3, h4⟩
  have hfill : fill (segments slash itemRoute.url.tail) [lit "%2f"]
      = [lit "items", lit "%2f"] := by decide +kernel
  have hdigit : hexDigitValue 0x32 = some 2 ∧ hexDigitValue 0x35 = some 5
      ∧ hexDigitValue 0x36 = some 6 ∧ hexDigitValue 0x39 = some 9 := by decide
  obtain ⟨h2, h5, h6, h9⟩ := hdigit
  have hitems : Encodes (lit "items") (lit "%69tems") :=
    .escaped h6 h9 rfl <| .literal (by decide) (by decide) <|
      .literal (by decide) (by decide) <| .literal (by decide) (by decide) <|
      .literal (by decide) (by decide) .nil
  have hvalue : Encodes (lit "%2f") (lit "%252f") :=
    .escaped h2 h5 rfl <| .literal (by decide) (by decide) <|
      .literal (by decide) (by decide) .nil
  have htarget : pathOf [lit "%69tems", lit "%252f"] = lit "/%69tems/%252f" := by
    decide +kernel
  have hget : serves (lit "GET") (emitRoute itemRoute) = true := by decide +kernel
  obtain ⟨path, hsplit, -, hchosen⟩ := url_params_unchanged accepted_two
    List.mem_cons_self hv (by decide +kernel)
    (by rw [hfill]; exact .cons hitems (.cons hvalue .nil)) (by decide +kernel) hget
  rw [htarget] at hsplit
  have hpath : splitPath (lit "/%69tems/%252f") = some (lit "/items/%2f", none) := by
    decide +kernel
  obtain rfl : path = lit "/items/%2f" :=
    (Prod.mk.inj (Option.some.inj (hsplit.symm.trans hpath))).1
  obtain ⟨params, hfind, htext⟩ := hchosen (by decide +kernel)
  exact ⟨_, params, hsplit, hfind, htext 0 _ _ (by decide +kernel) rfl⟩

end RouteParams
