import Gargantua.FetchReply
import Gargantua.HttpGrammar

/-! # What a reply's framing says (`src/runtime/fetch_reply.c`)

    The head of a reply is lines up to an empty one; a line with a colon is a
    field.  `parse_reply` looks at the digits of a length and at the end of a
    coding, and not at what stands around them.  So a reply that it accepts is
    framed as its fields say unless one of them has such a rest (`framed_iff`). -/

namespace ReplyFraming

open CString HttpParse HttpGrammar FetchReply

/-! ## Heads -/

/-- The end of a line. -/
def LineEnd (line eol : Bytes) : Prop := eol = CRLF ∨ (eol = [LF] ∧ line.getLast? ≠ some CR)

/-- A head behind its first line: `lines`, an empty line, and `rest`. -/
inductive Head : Bytes → List Bytes → Bytes → Prop where
  | blank {eol rest : Bytes} (heol : LineEnd [] eol) : Head (eol ++ rest) [] rest
  | line {line eol s rest : Bytes} {lines : List Bytes} (hne : line ≠ []) (hline : LF ∉ line)
      (heol : LineEnd line eol) (h : Head s lines rest) :
      Head (line ++ (eol ++ s)) (line :: lines) rest

/-- The value of the field of that name on a line. -/
def valueOf (name line : Bytes) : Option Bytes :=
  match line.dropWhile (· != COLON) with
  | [] => none
  | _ :: value =>
      if (line.takeWhile (· != COLON)).map toLower = name.map toLower then some value else none

/-- The values of the fields of that name. -/
def valuesOf (name : Bytes) (lines : List Bytes) : List Bytes := lines.filterMap (valueOf name)

/-- Blanks. -/
def Blank (s : Bytes) : Prop := ∀ c ∈ s, isOws c = true

/-- Blanks, digits and blanks: a length. -/
def IsLength (value : Bytes) (n : Nat) : Prop :=
  ∃ front digits back, value = front ++ (digits ++ back) ∧ Blank front ∧ Blank back
    ∧ digits ≠ [] ∧ (∀ c ∈ digits, isDigit c = true) ∧ decimalValue digits = n

/-- `chunked` between blanks. -/
def IsChunked (value : Bytes) : Prop :=
  ∃ front coding back, value = front ++ (coding ++ back) ∧ Blank front ∧ Blank back
    ∧ coding.map toLower = lit "chunked"

/-- The value of hexadecimal digits. -/
def hexNumber (digits : Bytes) : Nat :=
  digits.foldl (fun n c => n * 16 + (hexValue c).getD 0) 0

/-- A size, what else stands on its line, and the line's end. -/
structure SizeLine (line : Bytes) (size : Nat) : Prop where
  split : ∃ digits extension, line = digits ++ (extension ++ [LF]) ∧ digits ≠ []
    ∧ (∀ c ∈ digits, (hexValue c).isSome = true) ∧ hexNumber digits = size
    ∧ LF ∉ extension ∧ ∀ c ∈ extension.head?, hexValue c = none

/-- A chunked text and the data it holds: sizes with as many bytes and a line's
    end, up to a size of zero.  What follows it (trailers) is not looked at. -/
inductive Chunked : Bytes → Bytes → Prop where
  | last {line rest : Bytes} (hline : SizeLine line 0) : Chunked (line ++ rest) []
  | chunk {line data eol text rest : Bytes} (hline : SizeLine line data.length) (hne : data ≠ [])
      (heol : eol = CRLF ∨ eol = [LF]) (h : Chunked text rest) :
      Chunked (line ++ (data ++ (eol ++ text))) (data ++ rest)

/-- The fields of a head agree on where its body ends. -/
structure WellFramed (lines : List Bytes) : Prop where
  lengths : ∀ value ∈ valuesOf (lit "Content-Length") lines, ∃ n, IsLength value n
  once : (valuesOf (lit "Content-Length") lines).length ≤ 1
  codings : ∀ value ∈ valuesOf (lit "Transfer-Encoding") lines, IsChunked value
  apart : valuesOf (lit "Content-Length") lines = [] ∨ valuesOf (lit "Transfer-Encoding") lines = []

/-- The body that they say: as many bytes as declared, the data of the chunks, or
    all that is there. -/
structure Delimits (lines : List Bytes) (rest body : Bytes) : Prop where
  declared : ∀ value ∈ valuesOf (lit "Content-Length") lines, ∀ n, IsLength value n →
    n ≤ rest.length ∧ body = rest.take n
  chunked : valuesOf (lit "Transfer-Encoding") lines ≠ [] → Chunked rest body
  unframed : valuesOf (lit "Content-Length") lines = [] →
    valuesOf (lit "Transfer-Encoding") lines = [] → body = rest
  bounded : body.length ≤ FETCH_MAX_BODY

/-- A reply split at the end of its first line. -/
structure Splits (wire s : Bytes) : Prop where
  split : ∃ first, wire = first ++ LF :: s ∧ LF ∉ first

/-- `parse_reply` returns `0` only for a reply that is well framed, and with the
    body that its framing says. -/
def AcceptsFramed (wire : Bytes) : Prop :=
  ∀ r, parseReply wire = .ok r → ∃ s lines rest, Splits wire s ∧ Head s lines rest
    ∧ WellFramed lines ∧ Delimits lines rest r.body

/-! ## Where it goes wrong -/

/-- Digits with something else than blanks behind them. -/
def LooseLength (value : Bytes) : Prop :=
  ∃ front digits back, value = front ++ (digits ++ back) ∧ Blank front ∧ digits ≠ []
    ∧ (∀ c ∈ digits, isDigit c = true) ∧ (∀ c ∈ back.head?, isDigit c = false) ∧ ¬ Blank back

/-- `chunked` with something else than blanks in front of it. -/
def LooseCoding (value : Bytes) : Prop :=
  ∃ front coding, value = front ++ coding ∧ coding.map toLower = lit "chunked" ∧ ¬ Blank front

/-- A field that only begins as a length, or only ends as the coding. -/
def Loose (line : Bytes) : Prop :=
  (∃ value, valueOf (lit "Content-Length") line = some value ∧ LooseLength value)
    ∨ ∃ value, valueOf (lit "Transfer-Encoding") line = some value ∧ LooseCoding value

/-- `take_header` on each line. -/
def takeHeaders : List Bytes → Framing → Option Framing
  | [], f => some f
  | line :: lines, f => (takeHeader line f).bind (takeHeaders lines)

/-- What `parse_reply` asks of the parts of a reply: its status line, each of its
    fewer than 128 header lines, and its body. -/
def PartsPass (wire : Bytes) (lines : List Bytes) (rest : Bytes) : Prop :=
  (parseStatusLine wire).isSome = true ∧ lines.length < 128
    ∧ ∃ f r, takeHeaders lines {} = some f ∧ takeBody rest f = .ok r

/-- No field is loose in a reply whose parts pass. -/
def NoLooseField (wire : Bytes) : Prop :=
  ∀ s lines rest, Splits wire s → Head s lines rest → PartsPass wire lines rest →
    ∀ line ∈ lines, ¬ Loose line

/-! ## Lines -/

theorem stripCr_spec (raw : Bytes) :
    ∃ eol, LineEnd (stripCr raw) eol ∧ raw ++ [LF] = stripCr raw ++ eol := by
  rw [stripCr]
  by_cases hcr : raw.getLast? = some CR
  · rw [if_pos hcr]
    refine ⟨CRLF, .inl rfl, ?_⟩
    conv_lhs => rw [← List.dropLast_append_getLast? CR hcr]
    rw [List.append_assoc]
    rfl
  · rw [if_neg hcr]
    exact ⟨[LF], .inr ⟨rfl, hcr⟩, rfl⟩

/-- A line is cut off at its end. -/
theorem cut_line {line eol : Bytes} (hline : LF ∉ line) (heol : LineEnd line eol) (rest : Bytes) :
    (line ++ (eol ++ rest)).dropWhile (· != LF) = LF :: rest
      ∧ stripCr ((line ++ (eol ++ rest)).takeWhile (· != LF)) = line := by
  rcases heol with rfl | ⟨rfl, hlast⟩
  · have hraw : LF ∉ line ++ [CR] := by
      rw [List.mem_append, List.mem_singleton]
      exact fun h => h.elim hline (by decide)
    obtain ⟨htake, hdrop⟩ := Scan.cut_append hraw rest
    rw [List.append_assoc] at hdrop htake
    refine ⟨hdrop, ?_⟩
    rw [show line ++ (CRLF ++ rest) = line ++ ([CR] ++ LF :: rest) from rfl, htake, stripCr,
      if_pos List.getLast?_concat, List.dropLast_concat]
  · obtain ⟨htake, hdrop⟩ := Scan.cut_append hline rest
    refine ⟨hdrop, ?_⟩
    rw [show line ++ ([LF] ++ rest) = line ++ LF :: rest from rfl, htake, stripCr, if_neg hlast]

/-- A text with a line feed begins with a line. -/
theorem exists_line {s rest : Bytes} {c : Byte} (h : s.dropWhile (· != LF) = c :: rest) :
    ∃ line eol, stripCr (s.takeWhile (· != LF)) = line ∧ LF ∉ line ∧ LineEnd line eol
      ∧ s = line ++ (eol ++ rest) := by
  obtain ⟨-, hraw⟩ := Scan.dropWhile_bne_cons h
  obtain ⟨eol, heol, hsplit⟩ := stripCr_spec (s.takeWhile (· != LF))
  refine ⟨_, eol, rfl, fun hmem => ?_, heol, ?_⟩
  · have hin : LF ∈ s.takeWhile (· != LF) := by
      rw [stripCr] at hmem
      split at hmem
      · exact (List.dropLast_prefix _).subset hmem
      · exact hmem
    exact absurd (List.mem_takeWhile_imp hin) (by decide)
  · rw [← List.append_assoc, ← hsplit, List.append_assoc]
    exact hraw

/-- The header lines are read one by one, up to the empty one. -/
theorem parseReplyLoop_iff (status : Nat) : ∀ {guard : Nat} {s : Bytes} {f : Framing} {r : Reply},
    parseReplyLoop status guard s f = .ok r ↔
      ∃ lines rest f' b, Head s lines rest ∧ lines.length < guard
        ∧ takeHeaders lines f = some f' ∧ takeBody rest f' = .ok b ∧ r = ⟨status, b.1, b.2⟩ := by
  intro guard
  induction guard with
  | zero =>
      intro s f r
      exact ⟨fun h => (nomatch h), fun ⟨_, _, _, _, _, h, _⟩ => (nomatch h)⟩
  | succ guard ih =>
      intro s f r
      constructor
      · intro h
        rw [parseReplyLoop] at h
        split at h
        · exact nomatch h
        rename_i c rest hdrop
        obtain ⟨line, eol, hstrip, hline, heol, hsplit⟩ := exists_line hdrop
        dsimp only at h
        rw [hstrip] at h
        split at h
        · rename_i hempty
          subst hempty
          cases hbody : takeBody rest f with
          | error e =>
              rw [hbody] at h
              exact nomatch h
          | ok b =>
              rw [hbody] at h
              refine ⟨[], rest, f, b, ?_, Nat.succ_pos _, rfl, hbody, (Except.ok.inj h).symm⟩
              rw [hsplit]
              exact .blank heol
        · rename_i hne
          cases hheader : takeHeader line f with
          | none =>
              rw [hheader] at h
              exact nomatch h
          | some f₁ =>
              rw [hheader] at h
              obtain ⟨lines, rest', f', b, hhead, hlen, htake, hbody, hr⟩ := ih.mp h
              refine ⟨line :: lines, rest', f', b, ?_, Nat.succ_lt_succ hlen, ?_, hbody, hr⟩
              · rw [hsplit]
                exact .line hne hline heol hhead
              · rw [takeHeaders, hheader]
                exact htake
      · rintro ⟨lines, rest, f', b, hhead, hlen, htake, hbody, rfl⟩
        rw [parseReplyLoop]
        cases hhead with
        | blank heol =>
            obtain ⟨hdrop, hstrip⟩ := cut_line List.not_mem_nil heol rest
            rw [List.nil_append] at hdrop hstrip
            rw [hdrop]
            dsimp only
            obtain rfl := Option.some.inj htake
            rw [hstrip, if_pos rfl, hbody]
            rfl
        | line hne hline heol hhead =>
            rename_i line eol s lines
            obtain ⟨hdrop, hstrip⟩ := cut_line hline heol s
            rw [hdrop]
            dsimp only
            rw [hstrip, if_neg hne]
            rw [takeHeaders, Option.bind_eq_some_iff] at htake
            obtain ⟨f₁, hheader, htake⟩ := htake
            rw [hheader]
            exact ih.mpr ⟨lines, rest, f', b, hhead, Nat.lt_of_succ_lt_succ hlen, htake, hbody, rfl⟩

theorem Head.first {s rest : Bytes} {lines : List Bytes} (h : Head s lines rest) :
    (lines = [] ∧ stripCr (s.takeWhile (· != LF)) = [] ∧ s.dropWhile (· != LF) = LF :: rest)
      ∨ ∃ line lines' s', lines = line :: lines' ∧ line ≠ []
        ∧ stripCr (s.takeWhile (· != LF)) = line ∧ s.dropWhile (· != LF) = LF :: s'
        ∧ Head s' lines' rest := by
  cases h with
  | blank heol =>
      obtain ⟨hdrop, hstrip⟩ := cut_line List.not_mem_nil heol rest
      exact .inl ⟨rfl, hstrip, hdrop⟩
  | line hne hline heol h =>
      obtain ⟨hdrop, hstrip⟩ := cut_line hline heol _
      exact .inr ⟨_, _, _, rfl, hne, hstrip, hdrop, h⟩

/-- A head is read in one way. -/
theorem Head.unique {s rest : Bytes} {lines : List Bytes} (h : Head s lines rest) :
    ∀ {lines' : List Bytes} {rest' : Bytes}, Head s lines' rest' → lines = lines' ∧ rest = rest' := by
  induction h with
  | blank heol =>
      intro lines' rest' h'
      obtain ⟨hdrop, hstrip⟩ := cut_line List.not_mem_nil heol _
      rcases h'.first with ⟨rfl, _, hdrop'⟩ | ⟨line, _, _, _, hne, hstrip', _⟩
      · exact ⟨rfl, (List.cons.inj (hdrop.symm.trans hdrop')).2⟩
      · exact absurd (hstrip'.symm.trans hstrip) hne
  | line hne hline heol _ ih =>
      intro lines' rest' h'
      obtain ⟨hdrop, hstrip⟩ := cut_line hline heol _
      rcases h'.first with ⟨_, hstrip', _⟩ | ⟨line', _, _, rfl, _, hstrip', hdrop', hrest⟩
      · exact absurd (hstrip.symm.trans hstrip') hne
      · obtain rfl := (List.cons.inj (hdrop.symm.trans hdrop')).2
        obtain ⟨rfl, rfl⟩ := ih hrest
        exact ⟨by rw [← hstrip, hstrip'], rfl⟩

/-! ## Fields -/

/-- Digits, read from a value on. -/
theorem headerIntLoop_spec : ∀ {s : Bytes} {value digits value' digits' : Nat},
    headerIntLoop value digits s = some (value', digits') →
      ∃ ds back, s = ds ++ back ∧ (∀ c ∈ ds, isDigit c = true)
        ∧ (∀ c ∈ back.head?, isDigit c = false) ∧ digits' = digits + ds.length
        ∧ value' = ds.foldl (fun v c => v * 10 + (c.toNat - 48)) value := by
  intro s
  induction s with
  | nil =>
      intro value digits value' digits' h
      obtain ⟨rfl, rfl⟩ := Prod.mk.inj (Option.some.inj h)
      exact ⟨[], [], rfl, (fun _ hc => by cases hc), (fun _ hc => by cases hc), rfl, rfl⟩
  | cons c s ih =>
      intro value digits value' digits' h
      rw [headerIntLoop] at h
      split at h
      · rename_i hc
        split at h
        · cases h
        · obtain ⟨ds, back, rfl, hds, hback, hlen, hval⟩ := ih h
          refine ⟨c :: ds, back, rfl, List.forall_mem_cons.mpr ⟨hc, hds⟩, hback, ?_, hval⟩
          rw [hlen, List.length_cons]
          omega
      · rename_i hc
        obtain ⟨rfl, rfl⟩ := Prod.mk.inj (Option.some.inj h)
        refine ⟨[], c :: s, rfl, (fun _ hc => by cases hc), fun d hd => ?_, rfl, rfl⟩
        obtain rfl := Option.some.inj hd
        exact Bool.eq_false_iff.mpr hc

/-- **`header_int`** reads blanks and digits, and leaves what is behind them. -/
theorem headerInt_spec {value : Bytes} {n : Nat} (h : headerInt value = some n) :
    ∃ front digits back, value = front ++ (digits ++ back) ∧ Blank front ∧ digits ≠ []
      ∧ (∀ c ∈ digits, isDigit c = true) ∧ (∀ c ∈ back.head?, isDigit c = false)
      ∧ decimalValue digits = n := by
  rw [headerInt] at h
  split at h
  · exact nomatch h
  rename_i c s hdrop
  split at h
  · exact nomatch h
  rename_i v k hloop
  split at h
  · exact nomatch h
  rename_i hk
  obtain rfl := Option.some.inj h
  obtain ⟨ds, back, hs, hds, hback, hlen, hval⟩ := headerIntLoop_spec hloop
  refine ⟨value.takeWhile isOws, ds, back, ?_, fun _ hc => List.mem_takeWhile_imp hc, ?_, hds,
    hback, hval.symm⟩
  · rw [← hs, ← hdrop]
    exact List.takeWhile_append_dropWhile.symm
  · rintro rfl
    exact hk (.inl hlen)

theorem digit_not_ows {c : Byte} (h : isDigit c = true) : isOws c = false := by
  rw [isOws, Bool.or_eq_false_iff, beq_eq_false_iff_ne, beq_eq_false_iff_ne]
  refine ⟨?_, ?_⟩
  all_goals
    rintro rfl
    exact absurd h (by decide)

/-- Blanks, digits and what is behind them are told apart. -/
theorem length_parts {front digits back front' digits' back' : Bytes}
    (h : front ++ (digits ++ back) = front' ++ (digits' ++ back'))
    (hf : Blank front) (hf' : Blank front') (hne : digits ≠ []) (hne' : digits' ≠ [])
    (hd : ∀ c ∈ digits, isDigit c = true) (hd' : ∀ c ∈ digits', isDigit c = true)
    (hb : ∀ c ∈ back.head?, isDigit c = false) (hb' : ∀ c ∈ back'.head?, isDigit c = false) :
    digits = digits' ∧ back = back' := by
  have hhead : ∀ (bk : Bytes) {ds : Bytes}, ds ≠ [] → (∀ c ∈ ds, isDigit c = true) →
      ∀ c ∈ (ds ++ bk).head?, isOws c = false := by
    intro bk ds hne hds c hc
    cases ds with
    | nil => exact absurd rfl hne
    | cons d ds =>
        obtain rfl := Option.some.inj hc
        exact digit_not_ows (hds _ List.mem_cons_self)
  have h1 := (Scan.span_append hf (hhead back hne hd)).2
  have h2 := (Scan.span_append hf' (hhead back' hne' hd')).2
  have hrest : digits ++ back = digits' ++ back' := by rw [← h1, h, h2]
  obtain ⟨h3, h4⟩ := Scan.span_append hd hb
  obtain ⟨h5, h6⟩ := Scan.span_append hd' hb'
  exact ⟨by rw [← h3, hrest, h5], by rw [← h4, hrest, h6]⟩

theorem Blank.head {s : Bytes} (h : Blank s) : ∀ c ∈ s.head?, isDigit c = false := by
  intro c hc
  have hows := h c (List.mem_of_mem_head? hc)
  rw [isOws, Bool.or_eq_true, beq_iff_eq, beq_iff_eq] at hows
  rcases hows with rfl | rfl
  · rfl
  · rfl

theorem LooseLength.not_length {value : Bytes} {n : Nat} (h : LooseLength value) :
    ¬ IsLength value n := by
  rintro ⟨front', digits', back', heq, hf', hb', hne', hd', -⟩
  obtain ⟨front, digits, back, rfl, hf, hne, hd, hb, hloose⟩ := h
  rw [(length_parts heq hf hf' hne hne' hd hd' hb hb'.head).2] at hloose
  exact hloose hb'

/-- The number `header_int` reads is the one a length denotes. -/
theorem headerInt_length {value : Bytes} {n m : Nat} (h : headerInt value = some n)
    (h' : IsLength value m) : n = m := by
  obtain ⟨front, digits, back, rfl, hf, hne, hd, hb, rfl⟩ := headerInt_spec h
  obtain ⟨front', digits', back', heq, hf', hb', hne', hd', rfl⟩ := h'
  rw [(length_parts heq hf hf' hne hne' hd hd' hb hb'.head).1]

/-- A value that `header_int` takes is a length, or loose. -/
theorem length_or_loose {value : Bytes} {n : Nat} (h : headerInt value = some n) :
    IsLength value n ∨ LooseLength value := by
  obtain ⟨front, digits, back, hv, hf, hne, hd, hb, hn⟩ := headerInt_spec h
  by_cases hblank : Blank back
  · exact .inl ⟨front, digits, back, hv, hf, hblank, hne, hd, hn⟩
  · exact .inr ⟨front, digits, back, hv, hf, hne, hd, hb, hblank⟩

/-! ## Codings -/

/-- The suffix test of `take_header`. -/
def endsChunked (value : Bytes) : Bool :=
  !(value.length < 7 || strncasecmpEq 7 (value.drop (value.length - 7)) (lit "chunked") == false)

theorem endsChunked_iff {value : Bytes} :
    endsChunked value = true ↔ ∃ front coding, value = front ++ coding
      ∧ coding.map toLower = lit "chunked" := by
  have hlower : (lit "chunked").map toLower = lit "chunked" := by decide
  have hcompare : ∀ coding : Bytes, coding.length = 7 →
      (strncasecmpEq 7 coding (lit "chunked") = true ↔ coding.map toLower = lit "chunked") := by
    intro coding hlen
    have hnul : (0 : Byte) ∉ lit "chunked" := by decide
    have hiff := strncasecmpEq_iff hnul (a := coding) hlen
    rwa [hlower] at hiff
  rw [endsChunked, Bool.not_eq_true', Bool.or_eq_false_iff, decide_eq_false_iff_not,
    beq_eq_false_iff_ne, Bool.ne_false_iff, Nat.not_lt]
  constructor
  · rintro ⟨hlen, hend⟩
    refine ⟨value.take (value.length - 7), _, (List.take_append_drop _ _).symm, ?_⟩
    exact (hcompare _ (by rw [List.length_drop]; omega)).mp hend
  · rintro ⟨front, coding, rfl, hcoding⟩
    have hlen : coding.length = 7 := by
      rw [← List.length_map toLower, hcoding]
      rfl
    rw [List.length_append, hlen, Nat.add_sub_cancel, List.drop_left]
    exact ⟨by omega, (hcompare coding hlen).mpr hcoding⟩

/-- A value that the suffix test takes is the coding, or loose. -/
theorem coding_or_loose {value : Bytes} (h : endsChunked value = true) :
    IsChunked value ∨ LooseCoding value := by
  obtain ⟨front, coding, hv, hcoding⟩ := endsChunked_iff.mp h
  by_cases hblank : Blank front
  · exact .inl ⟨front, coding, [], by rw [hv, List.append_nil], hblank, (fun _ hc => by cases hc),
      hcoding⟩
  · exact .inr ⟨front, coding, hv, hcoding, hblank⟩

theorem LooseCoding.not_chunked {value : Bytes} (h : LooseCoding value) : ¬ IsChunked value := by
  obtain ⟨front, coding, rfl, hcoding, hloose⟩ := h
  rintro ⟨front', coding', back, heq, hfront, hback, hcoding'⟩
  have hlen : coding.length = coding'.length := by
    rw [← List.length_map toLower, hcoding, ← hcoding', List.length_map]
  -- the coding ends in a letter, so nothing stands behind it
  have hnil : back = [] := by
    rcases List.eq_nil_or_concat' back with hnil | ⟨init, c, rfl⟩
    · exact hnil
    · have hc := hback c (List.mem_append_right init (List.mem_singleton_self c))
      have hlast : coding.getLast? = some c := by
        have hne : coding ≠ [] := by
          rintro rfl
          exact nomatch hcoding
        have hend := congrArg List.getLast? heq
        rw [List.getLast?_append_of_ne_nil _ hne, ← List.append_assoc, ← List.append_assoc,
          List.getLast?_concat] at hend
        exact hend
      have hletter : some (toLower c) = (lit "chunked").getLast? := by
        rw [← hcoding, List.getLast?_map, hlast]
        rfl
      rw [isOws, Bool.or_eq_true, beq_iff_eq, beq_iff_eq] at hc
      rcases hc with rfl | rfl
      · exact absurd hletter (by decide)
      · exact absurd hletter (by decide)
  rw [hnil, List.append_nil] at heq
  exact hloose ((List.append_inj' heq hlen).1 ▸ hfront)

/-! ## `take_header` -/

theorem strncasecmpEq_append : ∀ {a : Bytes} (s b : Bytes),
    strncasecmpEq a.length (a ++ s) b = strncasecmpEq a.length a b := by
  intro a
  induction a with
  | nil => exact fun _ _ => rfl
  | cons c a ih =>
      intro s b
      rw [List.length_cons, List.cons_append, strncasecmpEq, strncasecmpEq, List.headD_cons,
        List.headD_cons, List.tail_cons, List.tail_cons, ih]

/-- The name test of `take_header`. -/
theorem named_iff {line field value : Bytes} (hline : line = field ++ COLON :: value) (name : Bytes)
    (hname : (0 : Byte) ∉ name) :
    (field.length = name.length ∧ strncasecmpEq name.length line name = true)
      ↔ field.map toLower = name.map toLower := by
  subst hline
  constructor
  · rintro ⟨hlen, heq⟩
    rw [← hlen, strncasecmpEq_append, hlen] at heq
    exact (strncasecmpEq_iff hname hlen).mp heq
  · intro heq
    have hlen : field.length = name.length := by
      rw [← List.length_map toLower, heq, List.length_map]
    refine ⟨hlen, ?_⟩
    rw [← hlen, strncasecmpEq_append, hlen]
    exact (strncasecmpEq_iff hname hlen).mpr heq

/-- What `take_header` does with a line: it reads a length, it checks a coding, or
    it passes the line over. -/
theorem takeHeader_cases (line : Bytes) (f : Framing) :
    (∃ value, valueOf (lit "Content-Length") line = some value
        ∧ valueOf (lit "Transfer-Encoding") line = none
        ∧ takeHeader line f = if f.declared ≥ 0 then none
            else (headerInt value).map fun n : Nat => { f with declared := n })
      ∨ (∃ value, valueOf (lit "Content-Length") line = none
        ∧ valueOf (lit "Transfer-Encoding") line = some value
        ∧ takeHeader line f = if endsChunked value then some { f with chunked := true } else none)
      ∨ (valueOf (lit "Content-Length") line = none
        ∧ valueOf (lit "Transfer-Encoding") line = none ∧ takeHeader line f = some f) := by
  rw [takeHeader, valueOf, valueOf]
  cases hdrop : line.dropWhile (· != COLON) with
  | nil => exact .inr (.inr ⟨rfl, rfl, rfl⟩)
  | cons c value =>
      obtain ⟨-, hline⟩ := Scan.dropWhile_bne_cons hdrop
      have hlen : line.length - value.length - 1 = (line.takeWhile (· != COLON)).length := by
        conv_lhs => rw [hline]
        rw [List.length_append, List.length_cons]
        omega
      have hlength : (line.takeWhile (· != COLON)).length = 14
            ∧ strncasecmpEq 14 line (lit "Content-Length") = true
          ↔ (line.takeWhile (· != COLON)).map toLower = (lit "Content-Length").map toLower :=
        named_iff hline (lit "Content-Length") (by decide)
      have hcoding : (line.takeWhile (· != COLON)).length = 17
            ∧ strncasecmpEq 17 line (lit "Transfer-Encoding") = true
          ↔ (line.takeWhile (· != COLON)).map toLower = (lit "Transfer-Encoding").map toLower :=
        named_iff hline (lit "Transfer-Encoding") (by decide)
      dsimp only
      rw [hlen]
      by_cases h1 : (line.takeWhile (· != COLON)).map toLower = (lit "Content-Length").map toLower
      · have h2 : ¬ (line.takeWhile (· != COLON)).map toLower
            = (lit "Transfer-Encoding").map toLower := by
          rw [h1]
          decide
        rw [if_pos h1, if_neg h2, if_pos (hlength.mpr h1)]
        exact .inl ⟨value, rfl, rfl, rfl⟩
      rw [if_neg h1, if_neg (hlength.not.mpr h1)]
      by_cases h2 : (line.takeWhile (· != COLON)).map toLower
          = (lit "Transfer-Encoding").map toLower
      · rw [if_pos h2, if_pos (hcoding.mpr h2)]
        refine .inr (.inl ⟨value, rfl, rfl, ?_⟩)
        cases hend : endsChunked value with
        | true =>
            rw [endsChunked, Bool.not_eq_true', Bool.or_eq_false_iff, decide_eq_false_iff_not,
              beq_eq_false_iff_ne] at hend
            exact if_neg fun h => h.elim hend.1 hend.2
        | false =>
            rw [endsChunked, Bool.not_eq_false', Bool.or_eq_true, decide_eq_true_iff,
              beq_iff_eq] at hend
            exact if_pos hend
      · rw [if_neg h2, if_neg (hcoding.not.mpr h2)]
        exact .inr (.inr ⟨rfl, rfl, rfl⟩)

/-- What `take_header` has seen of the header lines. -/
structure Seen (lines : List Bytes) (f f' : Framing) : Prop where
  codings : ∀ value ∈ valuesOf (lit "Transfer-Encoding") lines, endsChunked value = true
  chunked : f'.chunked = true
    ↔ f.chunked = true ∨ valuesOf (lit "Transfer-Encoding") lines ≠ []
  length : (valuesOf (lit "Content-Length") lines = [] ∧ f'.declared = f.declared)
    ∨ f.declared < 0 ∧ ∃ value n, valuesOf (lit "Content-Length") lines = [value]
      ∧ headerInt value = some n ∧ f'.declared = (n : Int)

theorem valuesOf_cons (name line : Bytes) (lines : List Bytes) :
    valuesOf name (line :: lines) = (valueOf name line).toList ++ valuesOf name lines := by
  rw [valuesOf, List.filterMap_cons]
  cases valueOf name line with
  | none => rfl
  | some value => rfl

theorem takeHeaders_seen : ∀ {lines : List Bytes} {f f' : Framing},
    takeHeaders lines f = some f' → Seen lines f f' := by
  intro lines
  induction lines with
  | nil =>
      intro f f' h
      obtain rfl := Option.some.inj h
      exact ⟨(fun _ h => nomatch h), ⟨.inl, fun h => h.elim id fun h => absurd rfl h⟩,
        .inl ⟨rfl, rfl⟩⟩
  | cons line lines ih =>
      intro f f' h
      rw [takeHeaders, Option.bind_eq_some_iff] at h
      obtain ⟨f₁, hheader, hlines⟩ := h
      have hseen := ih hlines
      rcases takeHeader_cases line f with ⟨value, hl, hc, heq⟩ | ⟨value, hl, hc, heq⟩ | ⟨hl, hc, heq⟩
      · rw [heq] at hheader
        split at hheader
        · exact nomatch hheader
        rename_i hnone
        obtain ⟨n, hn, rfl⟩ := Option.map_eq_some_iff.mp hheader
        refine ⟨?_, ?_, .inr ⟨by omega, value, n, ?_, hn, ?_⟩⟩
        · rw [valuesOf_cons, hc]
          exact hseen.codings
        · rw [valuesOf_cons, hc]
          exact hseen.chunked
        all_goals
          rcases hseen.length with ⟨hnil, hdecl⟩ | ⟨hneg, _⟩
          · first
              | exact hdecl
              | rw [valuesOf_cons, hl, hnil]
                rfl
          · exact absurd hneg (by
              show ¬ ((n : Int) < 0)
              omega)
      · rw [heq] at hheader
        split at hheader
        · rename_i hend
          obtain rfl := Option.some.inj hheader
          refine ⟨?_, ?_, ?_⟩
          · rw [valuesOf_cons, hc]
            exact List.forall_mem_cons.mpr ⟨hend, hseen.codings⟩
          · rw [valuesOf_cons, hc]
            exact ⟨fun _ => .inr (List.cons_ne_nil _ _), fun _ => hseen.chunked.mpr (.inl rfl)⟩
          · rw [valuesOf_cons, hl]
            exact hseen.length
        · exact nomatch hheader
      · rw [heq] at hheader
        obtain rfl := Option.some.inj hheader
        refine ⟨?_, ?_, ?_⟩
        · rw [valuesOf_cons, hc]
          exact hseen.codings
        · rw [valuesOf_cons, hc]
          exact hseen.chunked
        · rw [valuesOf_cons, hl]
          exact hseen.length

/-! ## Chunks -/

theorem chunkSize_spec : ∀ {s : Bytes} {size digits size' digits' : Nat} {back : Bytes},
    chunkSize size digits s = some (size', digits', back) →
      ∃ ds, s = ds ++ back ∧ (∀ c ∈ ds, (hexValue c).isSome = true)
        ∧ (∀ c ∈ back.head?, hexValue c = none) ∧ digits' = digits + ds.length
        ∧ size' = ds.foldl (fun n c => n * 16 + (hexValue c).getD 0) size := by
  intro s
  induction s with
  | nil =>
      intro size digits size' digits' back h
      rw [chunkSize, Option.some.injEq, Prod.mk.injEq, Prod.mk.injEq] at h
      obtain ⟨rfl, rfl, rfl⟩ := h
      exact ⟨[], rfl, (fun _ hc => by cases hc), (fun _ hc => by cases hc), rfl, rfl⟩
  | cons c s ih =>
      intro size digits size' digits' back h
      rw [chunkSize] at h
      split at h
      · rename_i hc
        rw [Option.some.injEq, Prod.mk.injEq, Prod.mk.injEq] at h
        obtain ⟨rfl, rfl, rfl⟩ := h
        refine ⟨[], rfl, (fun _ hc => by cases hc), fun d hd => ?_, rfl, rfl⟩
        obtain rfl := Option.some.inj hd
        exact hc
      · rename_i v hc
        split at h
        · cases h
        · obtain ⟨ds, rfl, hds, hback, hlen, hval⟩ := ih h
          refine ⟨c :: ds, rfl, List.forall_mem_cons.mpr ⟨by rw [hc]; rfl, hds⟩, hback, ?_, ?_⟩
          · rw [hlen, List.length_cons]
            omega
          · rw [hval, List.foldl_cons, hc]
            rfl

/-- The bytes in front of the place that is written, with what is moved there. -/
theorem memmove_take {body bytes : Bytes} {at_ : Nat} (h : at_ + bytes.length ≤ body.length) :
    (memmove body at_ bytes).take (at_ + bytes.length) = body.take at_ ++ bytes := by
  have hlen : (body.take at_).length = at_ := by
    rw [List.length_take]
    omega
  rw [memmove, ← List.append_assoc]
  exact List.take_left' (by rw [List.length_append, hlen])

/-- The bytes behind what is moved stay. -/
theorem memmove_drop {body bytes : Bytes} {at_ k : Nat} (h : at_ + bytes.length ≤ body.length)
    (hk : at_ + bytes.length ≤ k) : (memmove body at_ bytes).drop k = body.drop k := by
  have hlen : (body.take at_ ++ bytes).length = at_ + bytes.length := by
    rw [List.length_append, List.length_take]
    omega
  rw [memmove, ← List.append_assoc, List.drop_append, hlen,
    List.drop_of_length_le (by rw [hlen]; exact hk), List.nil_append, List.drop_drop]
  congr 1
  omega

theorem memmove_length {body bytes : Bytes} {at_ : Nat} (h : at_ + bytes.length ≤ body.length) :
    (memmove body at_ bytes).length = body.length := by
  rw [memmove, List.length_append, List.length_append, List.length_take, List.length_drop]
  omega

/-- **The chunks are decoded in place**: what has been written never reaches what
    is still to be read. -/
theorem decodeChunkedLoop_spec : ∀ {guard : Nat} {body out : Bytes} {read write n : Nat},
    write ≤ read → read ≤ body.length → write ≤ FETCH_MAX_BODY →
    decodeChunkedLoop guard body read write = .ok (out, n) →
      ∃ data, Chunked (body.drop read) data ∧ out.take n = body.take write ++ data
        ∧ n ≤ FETCH_MAX_BODY := by
  intro guard
  induction guard with
  | zero => exact fun _ _ _ h => nomatch h
  | succ guard ih =>
      intro body out read write n hwr hrl hmax h
      rw [decodeChunkedLoop] at h
      split at h
      · exact nomatch h
      rename_i size digits s hsize
      split at h
      · exact nomatch h
      rename_i hdigits
      split at h
      · exact nomatch h
      rename_i c text hdrop
      obtain ⟨-, hs⟩ := Scan.dropWhile_bne_cons hdrop
      obtain ⟨ds, hbody, hds, hback, hlen, hval⟩ := chunkSize_spec hsize
      have hline : SizeLine (ds ++ (s.takeWhile (· != LF) ++ [LF])) size := by
        refine ⟨ds, s.takeWhile (· != LF), rfl, ?_, hds, hval.symm, ?_, ?_⟩
        · rintro rfl
          exact hdigits (.inl hlen)
        · exact fun hmem => absurd (List.mem_takeWhile_imp hmem) (by decide)
        · intro d hd
          refine hback d ?_
          rw [hs, List.head?_append, Option.mem_def.mp hd]
          rfl
      have hsplit : body.drop read = (ds ++ (s.takeWhile (· != LF) ++ [LF])) ++ text := by
        rw [hbody]
        conv_lhs => rw [hs]
        simp only [List.append_assoc, List.cons_append, List.nil_append]
      split at h
      · rename_i hzero
        obtain ⟨rfl, rfl⟩ := Prod.mk.inj (Except.ok.inj h)
        refine ⟨[], ?_, (List.append_nil _).symm, hmax⟩
        rw [hsplit]
        exact .last (hzero ▸ hline)
      rename_i hpos
      split at h
      · exact nomatch h
      rename_i hfit
      rw [not_or, Nat.not_lt, Nat.not_lt] at hfit
      have hsuffix : text <:+ body :=
        ⟨body.take read ++ (ds ++ (s.takeWhile (· != LF) ++ [LF])), by
          rw [List.append_assoc, ← hsplit, List.take_append_drop]⟩
      have htext : body.drop (body.length - text.length) = text :=
        (List.suffix_iff_eq_drop.mp hsuffix).symm
      have hdata : (text.take size).length = size := List.length_take_of_le hfit.1
      have hread : read ≤ body.length - text.length := by
        have hlength := congrArg List.length hsplit
        rw [List.length_drop, List.length_append] at hlength
        omega
      have hle : text.length ≤ body.length := hsuffix.length_le
      have hroom : write + (text.take size).length ≤ body.length := by
        rw [hdata]
        omega
      have hlater : ∀ k, body.length - text.length + size ≤ k →
          (memmove body write (text.take size)).drop k = body.drop k := fun k hk =>
        memmove_drop hroom (by rw [hdata]; omega)
      have hrest : (memmove body write (text.take size)).drop (body.length - text.length + size)
          = text.drop size := by
        rw [hlater _ (Nat.le_refl _), ← List.drop_drop, htext]
      -- what is decoded so far, and where the rest of the text begins
      have hnext : ∀ {eol rest : Bytes}, (eol = CRLF ∨ eol = [LF]) → text.drop size = eol ++ rest →
          decodeChunkedLoop guard (memmove body write (text.take size))
            (body.length - text.length + size + eol.length) (write + size) = .ok (out, n) →
          ∃ data, Chunked (body.drop read) data ∧ out.take n = body.take write ++ data
            ∧ n ≤ FETCH_MAX_BODY := by
        intro eol rest heol hdrop hloop
        have heq : body.drop (body.length - text.length + size + eol.length) = rest := by
          rw [← List.drop_drop, ← List.drop_drop, htext, hdrop, List.drop_left]
        have hlength := congrArg List.length hdrop
        rw [List.length_drop, List.length_append] at hlength
        obtain ⟨data, hchunked, hout, hn⟩ := ih (by omega)
          (by rw [memmove_length hroom]; omega) hfit.2 hloop
        rw [hlater _ (by omega), heq] at hchunked
        refine ⟨text.take size ++ data, ?_, ?_, hn⟩
        · have hparts : text = text.take size ++ (eol ++ rest) := by
            rw [← hdrop, List.take_append_drop]
          have hne : text.take size ≠ [] := fun h0 => hpos (by rw [← hdata, h0]; rfl)
          rw [hsplit]
          conv => arg 1; rw [hparts]
          exact .chunk (hdata.symm ▸ hline) hne heol hchunked
        · have htake := memmove_take hroom
          rw [hdata] at htake
          rw [hout, htake, List.append_assoc]
      dsimp only at h
      rw [hrest] at h
      split at h
      · exact nomatch h
      rename_i d rest hd
      split at h
      · rename_i hcrlf
        obtain ⟨rfl, hlf⟩ := hcrlf
        obtain ⟨rest, rfl⟩ := List.head?_eq_some_iff.mp hlf
        exact hnext (.inl rfl) hd h
      · split at h
        · rename_i hlf
          subst hlf
          exact hnext (.inr rfl) hd h
        · exact nomatch h

/-- A size line ends at its line feed, and says one size. -/
theorem SizeLine.unique {line line' rest rest' : Bytes} {size size' : Nat} (h : SizeLine line size)
    (h' : SizeLine line' size') (heq : line ++ rest = line' ++ rest') :
    size = size' ∧ rest = rest' := by
  obtain ⟨ds, ext, rfl, hne, hds, rfl, hext, hhead⟩ := h
  obtain ⟨ds', ext', rfl, hne', hds', rfl, hext', hhead'⟩ := h'
  have hcut : ∀ {ds ext : Bytes}, (∀ c ∈ ds, (hexValue c).isSome = true) → LF ∉ ext →
      ∀ rest : Bytes, (ds ++ (ext ++ [LF]) ++ rest).takeWhile (· != LF) = ds ++ ext
        ∧ (ds ++ (ext ++ [LF]) ++ rest).dropWhile (· != LF) = LF :: rest := by
    intro ds ext hds hext rest
    have hlf : LF ∉ ds ++ ext := by
      rw [List.mem_append]
      exact fun h => h.elim (fun h => absurd (hds LF h) (by decide)) hext
    have hsplit : ds ++ (ext ++ [LF]) ++ rest = (ds ++ ext) ++ LF :: rest := by
      simp only [List.append_assoc, List.cons_append, List.nil_append]
    rw [hsplit]
    exact Scan.cut_append hlf rest
  have hnone : ∀ {ext : Bytes}, (∀ c ∈ ext.head?, hexValue c = none) →
      ∀ c ∈ ext.head?, (hexValue c).isSome = false := fun h c hc => by
    rw [h c hc]
    rfl
  obtain ⟨h1, h2⟩ := hcut hds hext rest
  obtain ⟨h3, h4⟩ := hcut hds' hext' rest'
  have hline : ds ++ ext = ds' ++ ext' := by rw [← h1, heq, h3]
  have hrest : LF :: rest = LF :: rest' := by rw [← h2, heq, h4]
  have hdigits : ds = ds' := by
    rw [← (Scan.span_append hds (hnone hhead)).1, hline,
      (Scan.span_append hds' (hnone hhead')).1]
  exact ⟨by rw [hdigits], (List.cons.inj hrest).2⟩

/-- **A text is decoded in one way.** -/
theorem Chunked.unique {text data : Bytes} (h : Chunked text data) :
    ∀ {data' : Bytes}, Chunked text data' → data = data' := by
  induction h with
  | @last line rest hline =>
      intro data' h'
      generalize htext : line ++ rest = text at h'
      cases h' with
      | last hline' => rfl
      | chunk hline' hne' heol' h' =>
          obtain ⟨hsize, -⟩ := hline.unique hline' htext
          exact absurd (List.eq_nil_of_length_eq_zero hsize.symm) hne'
  | @chunk line data eol text rest hline hne heol h ih =>
      intro data' h'
      generalize htext : line ++ (data ++ (eol ++ text)) = whole at h'
      cases h' with
      | last hline' =>
          obtain ⟨hsize, -⟩ := hline.unique hline' htext
          exact absurd (List.eq_nil_of_length_eq_zero hsize) hne
      | @chunk line' data' eol' text' rest' hline' hne' heol' h' =>
          obtain ⟨hsize, hrest⟩ := hline.unique hline' htext
          obtain ⟨rfl, heols⟩ := List.append_inj hrest hsize
          have hsame : text = text' := by
            rcases heol with rfl | rfl <;> rcases heol' with rfl | rfl
            · exact List.append_cancel_left heols
            · exact absurd (List.cons.inj heols).1 (by decide)
            · exact absurd (List.cons.inj heols).1 (by decide)
            · exact List.append_cancel_left heols
          rw [ih (hsame ▸ h')]

/-! ## The reply -/

/-- **`take_body`** takes the body that the fields delimit. -/
theorem takeBody_delimits {lines : List Bytes} {rest bytes : Bytes} {f : Framing} {n : Nat}
    (hseen : Seen lines {} f) (h : takeBody rest f = .ok (bytes, n)) :
    Delimits lines rest (bytes.take n)
      ∧ (valuesOf (lit "Content-Length") lines = []
        ∨ valuesOf (lit "Transfer-Encoding") lines = []) := by
  have hchunked : f.chunked = true ↔ valuesOf (lit "Transfer-Encoding") lines ≠ [] :=
    hseen.chunked.trans ⟨fun h => h.resolve_left Bool.false_ne_true, .inr⟩
  rw [takeBody] at h
  split at h
  · rename_i hc
    split at h
    · exact nomatch h
    rename_i hneg
    have hnone : valuesOf (lit "Content-Length") lines = [] := by
      rcases hseen.length with ⟨hnil, _⟩ | ⟨_, value, m, _, _, hm⟩
      · exact hnil
      · omega
    obtain ⟨data, hdata, hout, hmax⟩ :=
      decodeChunkedLoop_spec (Nat.le_refl _) (Nat.zero_le _) (Nat.zero_le _) h
    rw [List.take_zero, List.nil_append] at hout
    refine ⟨⟨?_, fun _ => hout ▸ hdata, fun _ h0 => absurd h0 (hchunked.mp hc), ?_⟩, .inl hnone⟩
    · rw [hnone]
      exact fun _ hv => nomatch hv
    · exact Nat.le_trans (List.length_take_le n bytes) hmax
  · rename_i hc
    have hplain : valuesOf (lit "Transfer-Encoding") lines = [] := by
      by_contra hne
      exact hc (hchunked.mpr hne)
    dsimp only at h
    generalize hlength : (if f.declared ≥ 0 then f.declared.toNat else rest.length) = length at h
    split at h
    · exact nomatch h
    rename_i hlen
    split at h
    · exact nomatch h
    rename_i hmax
    obtain ⟨rfl, rfl⟩ := Prod.mk.inj (Except.ok.inj h)
    refine ⟨⟨?_, fun hne => absurd hplain hne, fun hnil _ => ?_, ?_⟩, .inr hplain⟩
    · intro value hvalue m hm
      rcases hseen.length with ⟨hnil, _⟩ | ⟨_, v, k, hv, hk, hdecl⟩
      · rw [hnil] at hvalue
        exact nomatch hvalue
      · rw [hv] at hvalue
        obtain rfl := List.mem_singleton.mp hvalue
        obtain rfl := headerInt_length hk hm
        rw [if_pos (by omega), hdecl, Int.toNat_natCast] at hlength
        rw [hlength]
        exact ⟨Nat.le_of_not_lt hlen, rfl⟩
    · rcases hseen.length with ⟨_, hdecl⟩ | ⟨_, v, k, hv, _⟩
      · rw [hdecl, if_neg (by decide)] at hlength
        rw [← hlength]
        exact List.take_length
      · exact nomatch hv.symm.trans hnil
    · exact Nat.le_trans (List.length_take_le _ _) (Nat.le_of_not_lt hmax)

theorem parseStatusLine_splits {wire s : Bytes} {status : Nat}
    (h : parseStatusLine wire = some (status, s)) : Splits wire s := by
  rw [parseStatusLine] at h
  split at h
  · exact nomatch h
  dsimp only at h
  split at h
  · exact nomatch h
  split at h
  · exact nomatch h
  split at h
  · exact nomatch h
  rename_i c rest hdrop
  obtain ⟨-, rfl⟩ := Prod.mk.inj (Option.some.inj h)
  exact ⟨_, (Scan.dropWhile_bne_cons hdrop).2,
    fun hmem => absurd (List.mem_takeWhile_imp hmem) (by decide)⟩

theorem Splits.unique {wire s s' : Bytes} (h : Splits wire s) (h' : Splits wire s') : s = s' := by
  obtain ⟨first, rfl, hfirst⟩ := h
  obtain ⟨first', heq, hfirst'⟩ := h'
  have hcut := (Scan.cut_append hfirst s).2
  rw [heq, (Scan.cut_append hfirst' s').2] at hcut
  exact (List.cons.inj hcut).2.symm

/-- `parse_reply` takes the replies whose parts pass. -/
theorem parseReply_iff {wire : Bytes} {r : Reply} :
    parseReply wire = .ok r ↔ ∃ status s lines rest f b,
      parseStatusLine wire = some (status, s) ∧ Head s lines rest ∧ lines.length < 128
        ∧ takeHeaders lines {} = some f ∧ takeBody rest f = .ok b ∧ r = ⟨status, b.1, b.2⟩ := by
  rw [parseReply]
  cases hstatus : parseStatusLine wire with
  | none => exact ⟨fun h => (nomatch h), fun ⟨_, _, _, _, _, _, h, _⟩ => (nomatch h)⟩
  | some p =>
      obtain ⟨status, s⟩ := p
      refine (parseReplyLoop_iff status).trans ⟨?_, ?_⟩
      · rintro ⟨lines, rest, f, b, h⟩
        exact ⟨status, s, lines, rest, f, b, rfl, h⟩
      · rintro ⟨status', s', lines, rest, f, b, hp, h⟩
        obtain ⟨rfl, rfl⟩ := Prod.mk.inj (Option.some.inj hp)
        exact ⟨lines, rest, f, b, h⟩

theorem mem_valuesOf {name value : Bytes} {lines : List Bytes} :
    value ∈ valuesOf name lines ↔ ∃ line ∈ lines, valueOf name line = some value :=
  List.mem_filterMap

/-- The fields that `take_header` let through say how the body is framed, unless
    one of them is loose. -/
theorem wellFramed {lines : List Bytes} {f : Framing} (hseen : Seen lines {} f)
    (hloose : ∀ line ∈ lines, ¬ Loose line)
    (hapart : valuesOf (lit "Content-Length") lines = []
      ∨ valuesOf (lit "Transfer-Encoding") lines = []) : WellFramed lines where
  lengths := by
    intro value hvalue
    obtain ⟨line, hline, hof⟩ := mem_valuesOf.mp hvalue
    rcases hseen.length with ⟨hnil, _⟩ | ⟨_, v, n, hv, hn, _⟩
    · rw [hnil] at hvalue
      exact nomatch hvalue
    · rw [hv] at hvalue
      obtain rfl := List.mem_singleton.mp hvalue
      rcases length_or_loose hn with hlength | hl
      · exact ⟨n, hlength⟩
      · exact absurd (.inl ⟨value, hof, hl⟩) (hloose line hline)
  once := by
    rcases hseen.length with ⟨hnil, _⟩ | ⟨_, v, n, hv, _⟩
    · rw [hnil]
      exact Nat.zero_le _
    · rw [hv]
      exact Nat.le_refl _
  codings := by
    intro value hvalue
    obtain ⟨line, hline, hof⟩ := mem_valuesOf.mp hvalue
    rcases coding_or_loose (hseen.codings value hvalue) with hcoding | hl
    · exact hcoding
    · exact absurd (.inr ⟨value, hof, hl⟩) (hloose line hline)
  apart := hapart

theorem WellFramed.not_loose {lines : List Bytes} (h : WellFramed lines) {line : Bytes}
    (hline : line ∈ lines) : ¬ Loose line := by
  rintro (⟨value, hof, hl⟩ | ⟨value, hof, hl⟩)
  · obtain ⟨n, hn⟩ := h.lengths value (mem_valuesOf.mpr ⟨line, hline, hof⟩)
    exact hl.not_length hn
  · exact hl.not_chunked (h.codings value (mem_valuesOf.mpr ⟨line, hline, hof⟩))

/-- **Replies with malformed framing are refused, but for loose fields.**  A reply
    that is accepted is well framed, and its body is the one that its fields
    delimit, exactly if none of its fields only begins as a length or only ends
    as the coding. -/
theorem framed_iff (wire : Bytes) : AcceptsFramed wire ↔ NoLooseField wire := by
  constructor
  · intro haccepts s lines rest hsplit hhead hpass line hline
    obtain ⟨hstatus, hlen, f, b, htake, hbody⟩ := hpass
    obtain ⟨⟨status, s'⟩, hstatus⟩ := Option.isSome_iff_exists.mp hstatus
    obtain rfl := (parseStatusLine_splits hstatus).unique hsplit
    obtain ⟨s₂, lines₂, rest₂, hsplit₂, hhead₂, hframed, -⟩ := haccepts _
      (parseReply_iff.mpr ⟨status, s', lines, rest, f, b, hstatus, hhead, hlen, htake, hbody, rfl⟩)
    obtain rfl := hsplit₂.unique hsplit
    obtain ⟨rfl, rfl⟩ := hhead₂.unique hhead
    exact hframed.not_loose hline
  · intro hloose r hr
    obtain ⟨status, s, lines, rest, f, b, hstatus, hhead, hlen, htake, hbody, rfl⟩ :=
      parseReply_iff.mp hr
    have hsplit := parseStatusLine_splits hstatus
    have hseen := takeHeaders_seen htake
    obtain ⟨hdelimits, hapart⟩ := takeBody_delimits hseen hbody
    have hnone := hloose s lines rest hsplit hhead
      ⟨by rw [hstatus]; rfl, hlen, f, b, htake, hbody⟩
    exact ⟨s, lines, rest, hsplit, hhead, wellFramed hseen hnone hapart, hdelimits⟩

/-- A length that only begins as one. -/
def looseReply : Bytes := lit "HTTP/1.1 200 OK\r\nContent-Length: 2x\r\n\r\nhello"

theorem looseReply_accepted :
    parseReply looseReply = .ok ⟨200, lit "hello", 2⟩ ∧ ¬ AcceptsFramed looseReply := by
  have haccepted : parseReply looseReply = .ok ⟨200, lit "hello", 2⟩ := by decide +kernel
  refine ⟨haccepted, fun h => ?_⟩
  obtain ⟨s, lines, rest, hsplit, hhead, hframed, -⟩ := h _ haccepted
  have hfirst : Splits looseReply
      (lit "Content-Length: 2x" ++ (CRLF ++ ([] ++ (CRLF ++ lit "hello")))) :=
    ⟨lit "HTTP/1.1 200 OK\r", by decide +kernel, by decide +kernel⟩
  have hlines : Head (lit "Content-Length: 2x" ++ (CRLF ++ ([] ++ (CRLF ++ lit "hello"))))
      [lit "Content-Length: 2x"] (lit "hello") :=
    .line (by decide) (by decide) (.inl rfl) (.blank (.inl rfl))
  obtain rfl := hsplit.unique hfirst
  obtain ⟨rfl, -⟩ := hhead.unique hlines
  refine hframed.not_loose List.mem_cons_self (.inl ⟨lit " 2x", by decide +kernel, ?_⟩)
  refine ⟨[SP], [0x32], [0x78], by decide, ?_, by decide, by decide, ?_, ?_⟩
  · unfold Blank
    decide
  · intro c hc
    cases hc
    decide
  · unfold Blank
    decide

end ReplyFraming
