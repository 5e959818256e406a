import Gargantua.RouteParams
import Gargantua.HttpExact

/-! # The path of a request keeps its structure

    `split_path` looks for encoded separators before it decodes and walks the
    segments after it has decoded.  Read together the two checks say: the path
    is one round of percent-decoding of its text (`percentDecode`), and the
    decoding adds no separator and leaves no segment that moves in the tree
    (`Intact`).  That is exactly what is accepted. -/

namespace SplitPath

open CString HttpGrammar HttpExact RouteRuntime RouteParams
open HttpParse (HttpRequest httpParseRequest)

/-! ## One round of percent-decoding -/

/-- Every escape becomes its byte, every other byte stays; there is nothing for
    a malformed escape. -/
def percentDecode : Bytes → Option Bytes
  | [] => some []
  | c :: s =>
      if c = percent then
        match s with
        | h :: l :: rest =>
            match hexDigitValue h, hexDigitValue l with
            | some hi, some lo => (percentDecode rest).map ((hi * 16 + lo).toUInt8 :: ·)
            | _, _ => none
        | _ => none
      else (percentDecode s).map (c :: ·)

/-- The same, as a relation between the text and what it says. -/
inductive Decodes : Bytes → Bytes → Prop
  | nil : Decodes [] []
  | literal {c : Byte} {s path : Bytes} (hc : c ≠ percent) (h : Decodes s path) :
      Decodes (c :: s) (c :: path)
  | escaped {high low : Byte} {hi lo : Nat} {s path : Bytes}
      (hh : hexDigitValue high = some hi) (hl : hexDigitValue low = some lo)
      (h : Decodes s path) :
      Decodes (percent :: high :: low :: s) ((hi * 16 + lo).toUInt8 :: path)

theorem percentDecode_iff {text path : Bytes} :
    percentDecode text = some path ↔ Decodes text path := by
  constructor
  · intro h
    induction text using percentDecode.induct generalizing path with
    | case1 =>
        obtain rfl := Option.some.inj h
        exact .nil
    | case2 high low rest hi lo hl hh ih =>
        rw [percentDecode, if_pos rfl, hh, hl] at h
        obtain ⟨p, hp, rfl⟩ := Option.map_eq_some_iff.mp h
        exact .escaped hh hl (ih hp)
    | case3 high low rest hno =>
        rw [percentDecode, if_pos rfl] at h
        split at h
        · rename_i hi lo hh hl
          exact absurd hl (hno hi lo hh)
        · exact nomatch h
    | case4 s hshort =>
        rw [percentDecode, if_pos rfl] at h
        · exact nomatch h
        · exact hshort
    | case5 c s hc ih =>
        rw [percentDecode.eq_def] at h
        dsimp only at h
        rw [if_neg hc] at h
        obtain ⟨p, hp, rfl⟩ := Option.map_eq_some_iff.mp h
        exact .literal hc (ih hp)
  · intro h
    induction h with
    | nil => rfl
    | literal hc _ ih =>
        rw [percentDecode.eq_def]
        dsimp only
        rw [if_neg hc, ih]
        rfl
    | escaped hh hl _ ih =>
        rw [percentDecode, if_pos rfl, hh, hl, ih]
        rfl

/-- No byte of it is a control character or DEL. -/
def Printable (s : Bytes) : Prop := ∀ c ∈ s, 0x20 ≤ c ∧ c ≠ 0x7F

theorem printable_cons {c : Byte} {s : Bytes} :
    Printable (c :: s) ↔ (0x20 ≤ c ∧ c ≠ 0x7F) ∧ Printable s :=
  List.forall_mem_cons

theorem hexDigitValue_lt {h : Byte} {n : Nat} (hh : hexDigitValue h = some n) : n < 16 := by
  revert n
  cases h with
  | ofBitVec b =>
      revert b
      decide +kernel

/-- The byte that `url_decode` refuses in an escape. -/
theorem escaped_printable {hi lo : Nat} (hhi : hi < 16) (hlo : lo < 16) :
    ¬ (hi * 16 + lo < 0x20 ∨ hi * 16 + lo = 0x7F)
      ↔ 0x20 ≤ (hi * 16 + lo).toUInt8 ∧ (hi * 16 + lo).toUInt8 ≠ 0x7F := by
  have hnat : (hi * 16 + lo).toUInt8.toNat = hi * 16 + lo :=
    UInt8.toNat_ofNat_of_lt' (show hi * 16 + lo < 256 by omega)
  have hle : 0x20 ≤ (hi * 16 + lo).toUInt8 ↔ 32 ≤ hi * 16 + lo := by
    rw [UInt8.le_iff_toNat_le, hnat]
    rfl
  have heq : (hi * 16 + lo).toUInt8 = 0x7F ↔ hi * 16 + lo = 127 := by
    rw [← UInt8.toNat_inj, hnat]
    rfl
  rw [hle, Ne, heq]
  omega

/-- **`url_decode`** is one round of decoding of a text that fits, and refuses
    what an escape must not stand for. -/
theorem urlDecodeLoop_iff {text path : Bytes} : ∀ {read : Nat}, Printable text →
    read + text.length < RUNTIME_MAX_TEXT →
    (urlDecodeLoop read text = some path ↔ Decodes text path ∧ Printable path) := by
  induction text using percentDecode.induct generalizing path with
  | case1 =>
      intro read _ hlen
      rw [urlDecodeLoop, if_neg (by rw [List.length_nil] at hlen; omega)]
      constructor
      · intro h
        obtain rfl := Option.some.inj h
        exact ⟨.nil, fun c hc => by cases hc⟩
      · rintro ⟨h, -⟩
        cases h
        rfl
  | case2 high low rest hi lo hl hh ih =>
      intro read hprint hlen
      rw [List.length_cons, List.length_cons, List.length_cons] at hlen
      obtain ⟨-, hprint⟩ := printable_cons.mp hprint
      obtain ⟨-, hprint⟩ := printable_cons.mp hprint
      obtain ⟨-, hprint⟩ := printable_cons.mp hprint
      -- an escape, whose byte has to be printable as well
      have hbyte := escaped_printable (hexDigitValue_lt hh) (hexDigitValue_lt hl)
      rw [urlDecodeLoop, if_neg (by omega), if_pos rfl]
      dsimp only
      rw [hh, hl]
      dsimp only
      constructor
      · intro h
        split at h
        · cases h
        · rename_i hgood
          obtain ⟨p, hp, rfl⟩ := Option.map_eq_some_iff.mp h
          obtain ⟨hdec, hp⟩ := (ih hprint (by omega)).mp hp
          exact ⟨.escaped hh hl hdec, printable_cons.mpr ⟨hbyte.mp hgood, hp⟩⟩
      · rintro ⟨h, hpath⟩
        cases h with
        | literal hc _ => exact absurd rfl hc
        | escaped hh' hl' hdec =>
            obtain rfl := Option.some.inj (hh.symm.trans hh')
            obtain rfl := Option.some.inj (hl.symm.trans hl')
            obtain ⟨hc, hpath⟩ := printable_cons.mp hpath
            rw [if_neg (hbyte.mpr hc), (ih hprint (by omega)).mpr ⟨hdec, hpath⟩]
            rfl
  -- no digits follow, or the text ends in the escape
  | case3 high low rest hno =>
      intro read _ hlen
      rw [List.length_cons] at hlen
      rw [urlDecodeLoop, if_neg (by omega), if_pos rfl]
      dsimp only
      constructor
      · intro h
        split at h
        · rename_i hi lo hh hl
          exact absurd hl (hno hi lo hh)
        · cases h
      · rintro ⟨h, -⟩
        cases h with
        | literal hc _ => exact absurd rfl hc
        | escaped hh hl _ => exact absurd hl (hno _ _ hh)
  | case4 s hshort =>
      intro read _ hlen
      rw [List.length_cons] at hlen
      rw [urlDecodeLoop, if_neg (by omega), if_pos rfl]
      · constructor
        · intro h
          cases h
        · rintro ⟨h, -⟩
          cases h with
          | literal hc _ => exact absurd rfl hc
          | escaped _ _ _ => exact absurd rfl (hshort _ _ _)
      · exact hshort
  | case5 c s hc ih =>
      intro read hprint hlen
      rw [List.length_cons] at hlen
      obtain ⟨hgood, hprint⟩ := printable_cons.mp hprint
      rw [urlDecodeLoop_cons (by omega) hc]
      constructor
      · intro h
        obtain ⟨p, hp, rfl⟩ := Option.map_eq_some_iff.mp h
        obtain ⟨hdec, hp⟩ := (ih hprint (by omega)).mp hp
        exact ⟨.literal hc hdec, printable_cons.mpr ⟨hgood, hp⟩⟩
      · rintro ⟨h, hpath⟩
        cases h with
        | literal _ hdec =>
            obtain ⟨-, hpath⟩ := printable_cons.mp hpath
            rw [(ih hprint (by omega)).mpr ⟨hdec, hpath⟩]
            rfl
        | escaped _ _ _ => exact absurd rfl hc

/-! ## Separators -/

/-- The digits of an encoded slash and of an encoded backslash. -/
theorem hexDigitValue_separator (h : Byte) :
    (hexDigitValue h = some 2 ↔ h = 0x32) ∧ (hexDigitValue h = some 5 ↔ h = 0x35)
      ∧ (hexDigitValue h = some 15 ↔ h = 0x66 ∨ h = 0x46)
      ∧ (hexDigitValue h = some 12 ↔ h = 0x63 ∨ h = 0x43) := by
  cases h with
  | ofBitVec b =>
      revert b
      decide +kernel

/-- The scan's comparison finds the escapes of a slash and of a backslash. -/
theorem separator_escape_iff {high low : Byte} {hi lo : Nat} (hh : hexDigitValue high = some hi)
    (hl : hexDigitValue low = some lo) :
    ((high == 0x32 && (low == 0x66 || low == 0x46))
        || (high == 0x35 && (low == 0x63 || low == 0x43))) = true
      ↔ (hi * 16 + lo).toUInt8 = slash ∨ (hi * 16 + lo).toUInt8 = backslash := by
  obtain ⟨h2, h5, -, -⟩ := hexDigitValue_separator high
  obtain ⟨-, -, hf, hc⟩ := hexDigitValue_separator low
  have hhi := hexDigitValue_lt hh
  have hlo := hexDigitValue_lt hl
  rw [hh, Option.some.injEq] at h2 h5
  rw [hl, Option.some.injEq] at hf hc
  have hnat : (hi * 16 + lo).toUInt8.toNat = hi * 16 + lo :=
    UInt8.toNat_ofNat_of_lt' (show hi * 16 + lo < 256 by omega)
  have hslash : (hi * 16 + lo).toUInt8 = slash ↔ hi = 2 ∧ lo = 15 := by
    rw [← UInt8.toNat_inj, hnat]
    change hi * 16 + lo = 47 ↔ _
    omega
  have hback : (hi * 16 + lo).toUInt8 = backslash ↔ hi = 5 ∧ lo = 12 := by
    rw [← UInt8.toNat_inj, hnat]
    change hi * 16 + lo = 92 ↔ _
    omega
  rw [hslash, hback, h2, h5, hf, hc]
  simp only [Bool.or_eq_true, Bool.and_eq_true, beq_iff_eq]

/-- One round of decoding never loses a separator, and the scan finds out
    whether it gains one. -/
theorem Decodes.separators {text path : Bytes} (h : Decodes text path) :
    text.count slash ≤ path.count slash ∧ text.count backslash ≤ path.count backslash
      ∧ (encodedSeparator text = false ↔
        path.count slash = text.count slash ∧ path.count backslash = text.count backslash) := by
  induction h with
  | nil => exact ⟨Nat.le_refl _, Nat.le_refl _, iff_of_true rfl ⟨rfl, rfl⟩⟩
  | @literal c s path hc _ ih =>
      obtain ⟨hs, hb, hiff⟩ := ih
      rw [List.count_cons, List.count_cons, List.count_cons, List.count_cons,
        encodedSeparator_cons hc, hiff]
      refine ⟨by omega, by omega, ?_⟩
      constructor <;> rintro ⟨h1, h2⟩ <;> exact ⟨by omega, by omega⟩
  | @escaped high low hi lo s path hh hl _ ih =>
      obtain ⟨hs, hb, hiff⟩ := ih
      have hsep := separator_escape_iff hh hl
      have hhigh : ∀ c : Byte, hexDigitValue c = none → (high == c) = false :=
        fun c hc => beq_eq_false_iff_ne.mpr (hexDigit_ne hh hc)
      have hlow : ∀ c : Byte, hexDigitValue c = none → (low == c) = false :=
        fun c hc => beq_eq_false_iff_ne.mpr (hexDigit_ne hl hc)
      have hcount : ∀ c : Byte, hexDigitValue c = none → percent ≠ c →
          (percent :: high :: low :: s).count c = s.count c := by
        intro c hc hp
        rw [List.count_cons, List.count_cons, List.count_cons, hhigh c hc, hlow c hc,
          beq_eq_false_iff_ne.mpr hp]
        simp
      rw [encodedSeparator, encodedSeparator_cons (hexDigit_ne hh (by decide)),
        encodedSeparator_cons (hexDigit_ne hl (by decide)), hcount slash (by decide) (by decide),
        hcount backslash (by decide) (by decide), List.count_cons, List.count_cons]
      refine ⟨by omega, by omega, ?_⟩
      rw [Bool.or_eq_false_iff, hiff, beq_self_eq_true, Bool.true_and, ← Bool.not_eq_true, hsep,
        not_or]
      constructor
      · rintro ⟨⟨hns, hnb⟩, h1, h2⟩
        rw [if_neg (by simpa using hns), if_neg (by simpa using hnb)]
        exact ⟨h1, h2⟩
      · rintro ⟨h1, h2⟩
        refine ⟨⟨fun heq => ?_, fun heq => ?_⟩, by omega, by omega⟩
        · rw [if_pos (by simpa using heq)] at h1
          omega
        · rw [if_pos (by simpa using heq)] at h2
          omega

/-! ## Segments -/

/-- What `split_path` asks of a segment. -/
theorem badSegment_iff {s : Bytes} :
    badSegment s = false ↔ s ≠ [] ∧ s ≠ lit "." ∧ s ≠ lit ".." := by
  have hdot : lit "." = [0x2E] := by decide
  have hdots : lit ".." = [0x2E, 0x2E] := by decide
  rw [badSegment, hdot, hdots, Bool.or_eq_false_iff, Bool.or_eq_false_iff, beq_eq_false_iff_ne,
    beq_eq_false_iff_ne, beq_eq_false_iff_ne, and_assoc]

/-- The walk over the segments sees every one, the empty one behind a closing
    slash included. -/
theorem segmentsOk_iff : ∀ (n : Nat) {s : Bytes}, s.length ≤ n →
    (segmentsOk n s = true ↔ s = [] ∨ ∀ x ∈ s.splitOn slash, badSegment x = false) := by
  intro n
  induction n with
  | zero =>
      intro s hlen
      obtain rfl := List.length_eq_zero_iff.mp (Nat.le_zero.mp hlen)
      exact iff_of_true rfl (.inl rfl)
  | succ n ih =>
      intro s hlen
      rw [segmentsOk]
      by_cases hs : s = []
      · rw [if_pos hs]
        exact iff_of_true rfl (.inl hs)
      rw [if_neg hs]
      have hparts := List.takeWhile_append_dropWhile (p := (· != slash)) (l := s)
      have hfree : slash ∉ s.takeWhile (· != slash) :=
        fun h => absurd (List.mem_takeWhile_imp h) (by decide)
      have hbehind : ∀ rest c, s.dropWhile (· != slash) = c :: rest → c = slash := by
        intro rest c h
        have hhead := List.head_dropWhile_not (· != slash) (l := s) (h ▸ List.cons_ne_nil _ _)
        simpa [h] using hhead
      generalize s.takeWhile (· != slash) = x at hparts hfree ⊢
      generalize s.dropWhile (· != slash) = back at hparts hbehind ⊢
      cases back with
      | nil =>
          rw [List.append_nil] at hparts
          rw [← hparts, List.splitOn_eq_singleton hfree, List.forall_mem_singleton]
          rw [← hparts] at hs
          cases badSegment x with
          | false => exact iff_of_true rfl (.inr rfl)
          | true => exact iff_of_false Bool.false_ne_true (not_or.mpr ⟨hs, Bool.noConfusion⟩)
      | cons c rest =>
          obtain rfl := hbehind rest c rfl
          rw [← hparts, List.splitOn_append_cons_self_of_not_mem hfree, List.forall_mem_cons]
          rw [← hparts, List.length_append, List.length_cons] at hlen
          have hne : x ++ slash :: rest ≠ [] := by simp
          cases badSegment x with
          | true =>
              exact iff_of_false Bool.false_ne_true (not_or.mpr ⟨hne, fun h => by cases h.1⟩)
          | false =>
              dsimp only
              rw [if_neg Bool.false_ne_true]
              by_cases hrest : rest = []
              · subst hrest
                rw [if_pos rfl]
                refine iff_of_false Bool.false_ne_true (not_or.mpr ⟨hne, fun h => ?_⟩)
                exact absurd (h.2 [] (by simp)) (by decide)
              · rw [if_neg hrest, ih (by omega)]
                constructor
                · rintro (h | h)
                  · exact absurd h hrest
                  · exact .inr ⟨rfl, h⟩
                · rintro (h | h)
                  · exact absurd h hne
                  · exact .inr h.2

/-! ## The claim -/

/-- The path says no more about the tree than its text does. -/
structure Intact (text path : Bytes) : Prop where
  rooted : path.head? = some slash
  separators : path.count slash = text.count slash
  segments : path ≠ [slash] → ∀ s ∈ path.tail.splitOn slash, s ≠ [] ∧ s ≠ lit "." ∧ s ≠ lit ".."
  noBackslash : backslash ∉ path
  printable : Printable path

/-- The part of a target in front of the first question mark. -/
def pathText (target : Bytes) : Bytes := target.takeWhile (· != question)

/-- What stands behind it. -/
def queryText (target : Bytes) : Option Bytes :=
  match target.dropWhile (· != question) with
  | [] => none
  | _ :: query => some query

/-- **`split_path`** accepts what decodes to an intact path. -/
theorem splitPath_iff {target path : Bytes} {query : Option Bytes} (hprint : Printable target)
    (hlen : target.length < HTTP_MAX_PATH) :
    splitPath target = some (path, query) ↔
      percentDecode (pathText target) = some path ∧ Intact (pathText target) path
        ∧ query = queryText target := by
  have hpart : pathText target ⊆ target := List.takeWhile_subset _
  have htext : Printable (pathText target) := fun c hc => hprint c (hpart hc)
  have hshort : 0 + (pathText target).length < RUNTIME_MAX_TEXT := by
    have hle : (pathText target).length ≤ target.length := (List.takeWhile_sublist _).length_le
    have hcap : HTTP_MAX_PATH < RUNTIME_MAX_TEXT := by decide
    omega
  have hdecode : ∀ p, urlDecode (pathText target) = some p
      ↔ Decodes (pathText target) p ∧ Printable p := fun p => urlDecodeLoop_iff htext hshort
  have hsplit : splitPath target = if backslash ∈ pathText target then none
      else if encodedSeparator (pathText target) then none
      else (urlDecode (pathText target)).bind fun path =>
        if backslash ∈ path ∨ path.head? ≠ some slash then none
        else if !segmentsOk path.length path.tail then none
        else some (path, queryText target) := by
    rw [splitPath, ← pathText]
    cases urlDecode (pathText target) <;> rfl
  rw [percentDecode_iff, hsplit]
  generalize pathText target = text at hdecode
  constructor
  · intro h
    split at h
    · cases h
    rename_i hback
    split at h
    · cases h
    rename_i hscan
    obtain ⟨p, hp, h⟩ := Option.bind_eq_some_iff.mp h
    split at h
    · cases h
    rename_i hroot
    split at h
    · cases h
    rename_i hok
    obtain ⟨rfl, rfl⟩ := Prod.mk.injEq _ _ _ _ ▸ Option.some.inj h
    obtain ⟨hdec, hprint⟩ := (hdecode p).mp hp
    obtain ⟨hnb, hhead⟩ := not_or.mp hroot
    refine ⟨hdec, ⟨not_not.mp hhead, ?_, fun hne s hs => ?_, hnb, hprint⟩, rfl⟩
    · exact (hdec.separators.2.2.mp (Bool.eq_false_iff.mpr hscan)).1
    · rw [Bool.not_eq_true', Bool.not_eq_false, segmentsOk_iff _ (by simp)] at hok
      rcases hok with hok | hok
      · refine absurd ?_ hne
        rw [← List.cons_head?_tail (not_not.mp hhead), hok]
      · exact badSegment_iff.mp (hok s hs)
  · rintro ⟨hdec, hintact, rfl⟩
    have hcounts := hdec.separators
    have hnone : path.count backslash = 0 := List.count_eq_zero.mpr hintact.noBackslash
    have hback : backslash ∉ text := List.count_eq_zero.mp (by omega)
    have hscan : encodedSeparator text = false :=
      hcounts.2.2.mpr ⟨hintact.separators, by omega⟩
    have hok : segmentsOk path.length path.tail = true := by
      rw [segmentsOk_iff _ (by simp)]
      by_cases hone : path = [slash]
      · exact .inl (hone ▸ rfl)
      · exact .inr fun s hs => badSegment_iff.mpr (hintact.segments hone s hs)
    rw [if_neg hback, hscan, if_neg Bool.false_ne_true, (hdecode path).mpr ⟨hdec, hintact.printable⟩,
      Option.bind_some]
    rw [if_neg (not_or.mpr ⟨hintact.noBackslash, fun h => h hintact.rooted⟩), hok]
    rfl

/-- The target of a request that was read holds no control character. -/
theorem request_target {buf : Bytes} {req : HttpRequest} (h : httpParseRequest buf = .ok req) :
    Printable req.path ∧ req.path.length < HTTP_MAX_PATH := by
  obtain ⟨m, hm, -, rfl⟩ := httpParseRequest_ok_iff.mp h
  refine ⟨fun c hc => ?_, ?_⟩
  · obtain ⟨hlow, hdel, -⟩ := hm.head_wf.target_char c hc
    exact ⟨UInt8.le_of_lt hlow, hdel⟩
  · exact Nat.lt_of_le_of_lt hm.head_wf.target_len.2 (by decide)

/-- **The path of a request keeps its structure**: `split_path` answers exactly
    where one round of decoding gives an intact path, and answers that path. -/
theorem split_path_intact {buf : Bytes} {req : HttpRequest} (h : httpParseRequest buf = .ok req)
    (path : Bytes) (query : Option Bytes) :
    splitPath req.path = some (path, query) ↔
      percentDecode (pathText req.path) = some path ∧ Intact (pathText req.path) path
        ∧ query = queryText req.path :=
  splitPath_iff (request_target h).1 (request_target h).2

/-- An escaped percent sign in a path is decoded once. -/
theorem split_path_intact_percent : Intact (lit "/a%252Fb") (lit "/a%2Fb") :=
  ((@split_path_intact (lit "GET /a%252Fb?x HTTP/1.0\r\n\r\n")
      { method := lit "GET", path := lit "/a%252Fb?x", headerLen := 27, messageLen := 27 }
      (by decide +kernel) (lit "/a%2Fb") (some (lit "x"))).mp (by decide +kernel)).2.1

end SplitPath
