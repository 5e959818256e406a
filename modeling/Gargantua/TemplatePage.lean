import Gargantua.TemplateRender

/-! # What a page consists of

    A template has a head, the pieces that are written for each row, and a tail; a
    page is what its pieces are written as, one after the other
    (`renderSource_eq`).  The literal pieces and the placeholders that are filled do not depend
    on the rows.  A text of a row is escaped, so it is safe wherever it stands; one that
    does not fit in its buffer is not written at all. -/

namespace TemplatePage

open CString Decimal GeneratorText GeneratorSource RuntimeTypes RuntimeObject ObjectFields Memory Bounded
  Entities Placeholders TemplateRender

/-! ## The entities -/

/-- The table of `write_escaped`. -/
def html : Table Byte where
  amp := 0x26
  entries := [(0x26, lit "amp;"), (0x3C, lit "lt;"), (0x3E, lit "gt;"), (0x22, lit "quot;"),
    (0x27, lit "#39;")]
  amp_mem := by decide
  ampFree := by decide
  prefixFree := by decide
  distinct := by decide
  plain := by decide

theorem escapedChar_eq (c : Byte) : escapedChar c = escapeChar html c := by
  rw [escapedChar]
  rcases escapeChar_cases html c with ⟨e, he, rfl, heq⟩ | ⟨-, hnot, heq⟩
  · rw [heq]
    simp only [html, List.mem_cons, List.not_mem_nil, or_false] at he
    rcases he with rfl | rfl | rfl | rfl | rfl <;> rfl
  · have hne : ∀ d : Byte, (∃ n, (d, n) ∈ html.entries) → c ≠ d := by
      rintro d ⟨n, hd⟩ rfl
      exact hnot _ hd rfl
    rw [heq, if_neg (hne _ ⟨_, .head _⟩), if_neg (hne _ ⟨_, .tail _ (.head _)⟩),
      if_neg (hne _ ⟨_, .tail _ (.tail _ (.head _))⟩),
      if_neg (hne _ ⟨_, .tail _ (.tail _ (.tail _ (.head _)))⟩),
      if_neg (hne _ ⟨_, .tail _ (.tail _ (.tail _ (.tail _ (.head _))))⟩)]

/-- A number has no character that is escaped. -/
theorem escape_printInt (n : Int) : escape html (printInt n) = printInt n := by
  refine escape_plain fun c hc e he heq => ?_
  have hdigit : c = 0x2D ∨ (0x30 ≤ c ∧ c ≤ 0x39) := by
    rw [printInt, List.mem_append] at hc
    rcases hc with hc | hc
    · split at hc
      · exact .inl (List.mem_singleton.mp hc)
      · cases hc
    · exact .inr (print_digits _ c hc)
  subst heq
  simp only [html, List.mem_cons, List.not_mem_nil, or_false] at he
  rcases he with rfl | rfl | rfl | rfl | rfl <;> revert hdigit <;> decide

/-- What is written for a text has no NUL if the text has none. -/
theorem escape_noNul {s : Bytes} (h : 0 ∉ s) : 0 ∉ escape html s := by
  intro hmem
  rcases mem_escape hmem with hs | hamp | ⟨e, he, hname⟩
  · exact h hs
  · cases hamp
  · simp only [html, List.mem_cons, List.not_mem_nil, or_false] at he
    rcases he with rfl | rfl | rfl | rfl | rfl <;> revert hname <;> decide

/-! ## The writer -/

/-- The longest page. -/
abbrev LIMIT : Nat := TEMPLATE_MAX_OUT - 1

/-- What is in the writer, unless something did not fit. -/
def content (w : Writer) : Option Bytes := if w.overflow then none else some w.out

/-- The writer of a page. -/
structure Ready (w : Writer) : Prop where
  cap : w.cap = LIMIT + 1
  room : w.out.length ≤ LIMIT

/-- `text` has been written. -/
def Wrote (w w' : Writer) (text : Bytes) : Prop :=
  Ready w → Ready w' ∧ content w' = put LIMIT (content w) text

theorem wrote_nothing (w : Writer) : Wrote w w [] := by
  intro h
  refine ⟨h, ?_⟩
  rw [content]
  split
  · rfl
  · exact (put_nil LIMIT h.room).symm

theorem Wrote.append {w w' w'' : Writer} {s t : Bytes} (h : Wrote w w' s) (h' : Wrote w' w'' t) :
    Wrote w w'' (s ++ t) := by
  intro hw
  obtain ⟨hw', hs⟩ := h hw
  obtain ⟨hw'', ht⟩ := h' hw'
  exact ⟨hw'', by rw [ht, hs, put_put]⟩

/-- Nothing is written to a writer that is full. -/
theorem wrote_full {w : Writer} (h : w.overflow = true) (text : Bytes) : Wrote w w text := by
  intro hw
  refine ⟨hw, ?_⟩
  rw [content, if_pos h, put_none]

theorem writeRaw_wrote (w : Writer) (text : Bytes) : Wrote w (writeRaw w text) text := by
  by_cases hover : w.overflow = true
  · rw [writeRaw, if_pos hover]
    exact wrote_full hover text
  intro hw
  have hcap := hw.cap
  have hroom := hw.room
  rw [writeRaw, if_neg hover]
  by_cases hlen : text.length ≥ w.cap - w.out.length
  · rw [if_pos hlen, content, content, if_pos rfl, if_neg hover, put_some, if_neg (by omega)]
    exact ⟨⟨hcap, hroom⟩, rfl⟩
  · rw [if_neg hlen, content, content, if_neg hover, if_neg hover, put_some, if_pos (by omega)]
    refine ⟨⟨hcap, ?_⟩, rfl⟩
    rw [List.length_append]
    omega

theorem writeEscaped_wrote (w : Writer) (text : Bytes) :
    Wrote w (writeEscaped w text) (escape html (cstr text)) := by
  induction text generalizing w with
  | nil => exact wrote_nothing w
  | cons c text ih =>
      rw [writeEscaped]
      by_cases hgo : c ≠ 0 ∧ w.overflow = false
      · have hcstr : cstr (c :: text) = c :: cstr text :=
          List.takeWhile_cons_of_pos (by simpa using hgo.1)
        rw [if_pos hgo, hcstr, escape_cons, ← escapedChar_eq]
        exact (writeRaw_wrote w _).append (ih _)
      · rw [if_neg hgo]
        by_cases hc : c = 0
        · have hcstr : cstr (c :: text) = [] := List.takeWhile_cons_of_neg (by simpa using hc)
          rw [hcstr]
          exact wrote_nothing w
        · exact wrote_full (by simpa [hc] using hgo) _

/-! ## The delimiters -/

theorem findLoop_none {needle s : Bytes} (h : ¬ needle <:+: s) : findLoop needle s = none := by
  induction s with
  | nil => rfl
  | cons c s ih =>
      rw [findLoop, if_neg fun hp => h hp.isInfix, ih fun hi => h (hi.trans (List.suffix_cons c s).isInfix)]
      rfl

theorem findLoop_first {needle front rest : Bytes} (hne : needle ≠ []) (h : First needle front rest) :
    findLoop needle (front ++ (needle ++ rest)) = some front.length := by
  induction front with
  | nil =>
      obtain ⟨c, n, rfl⟩ := List.exists_cons_of_ne_nil hne
      have hpre : c :: n <+: c :: (n ++ rest) := List.prefix_append (c :: n) rest
      rw [List.nil_append, List.cons_append, findLoop, if_pos hpre]
      rfl
  | cons c front ih =>
      rw [List.cons_append, findLoop, if_neg h.not_prefix, ih h.tail]
      rfl

theorem findBytes_eq {needle : Bytes} (hne : needle ≠ []) (s : Bytes) :
    findBytes s needle = findLoop needle s := by
  have hpos := List.length_pos_iff.mpr hne
  rw [findBytes]
  split
  · rename_i hshort
    refine (findLoop_none fun hi => ?_).symm
    have hle := hi.length_le
    omega
  · rfl

theorem findBytes_none {needle s : Bytes} (hne : needle ≠ []) (h : ¬ needle <:+: s) :
    findBytes s needle = none := by
  rw [findBytes_eq hne, findLoop_none h]

theorem findBytes_first {needle front rest : Bytes} (hne : needle ≠ []) (h : First needle front rest) :
    findBytes (front ++ (needle ++ rest)) needle = some front.length := by
  rw [findBytes_eq hne, findLoop_first hne h]

/-- What is found is the first place. -/
theorem findBytes_some {needle s : Bytes} (hne : needle ≠ []) {n : Nat} (h : findBytes s needle = some n) :
    ∃ front rest, s = front ++ (needle ++ rest) ∧ First needle front rest ∧ front.length = n := by
  by_cases hi : needle <:+: s
  · obtain ⟨front, rest, rfl, hfirst⟩ := first_exists hi
    rw [findBytes_first hne hfirst] at h
    exact ⟨front, rest, rfl, hfirst, Option.some.inj h⟩
  · rw [findBytes_none hne hi] at h
    cases h

/-- The closing delimiter is not in the opening one. -/
theorem findBytes_close (s : Bytes) : findBytes (OPEN ++ s) CLOSE = (findBytes s CLOSE).map (· + 2) := by
  have hstep : ∀ u : Bytes, findLoop CLOSE (0x7B :: u) = (findLoop CLOSE u).map (· + 1) := by
    intro u
    rw [findLoop, if_neg]
    rintro ⟨v, hv⟩
    cases hv
  rw [findBytes_eq (by decide), findBytes_eq (by decide)]
  show findLoop CLOSE (0x7B :: 0x7B :: s) = _
  rw [hstep, hstep, Option.map_map]
  rfl

/-! ## Pieces -/

/-- What a piece of the template stands for: a text, or the text of a field. -/
inductive Part where
  | text (s : Bytes)
  | field (row : Nat) (name : Bytes)
  deriving DecidableEq

/-- The first field of that name, if it is no object. -/
def scalarField (type : Option TypeInfo) (name : Bytes) : Option FieldInfo :=
  type.bind fun type => (type.fields.find? (·.name = name)).filter (·.kind ≠ .object)

/-- What a placeholder in a row stands for, by its name in `row`. -/
def placeholderPart (type : Option TypeInfo) (row : Option Nat) (total : Int) (name : Bytes) : Part :=
  if name = lit "index" then .text (printInt (row.elim 0 Int.ofNat))
  else if name = lit "count" then .text (printInt total)
  else
    match row with
    | none => .text []
    | some i => if (scalarField type name).isSome then .field i name else .text []

/-- A piece with the row it is written for. -/
abbrev Slot := Option Nat × Segment Byte

/-- What a piece stands for, a name being read by `key`. -/
def partOf (key : Bytes → Bytes) (type : Option TypeInfo) (total : Int) : Slot → Part
  | (_, .literal s) => .text s
  | (row, .placeholder name) => placeholderPart type row total (key name)

/-- What a part is written as. -/
def Part.written (value : Nat → Bytes → Bytes) : Part → Bytes
  | .text s => s
  | .field row name => escape html (value row name)

section Values

variable {abi : Abi} (nl : NullableLayout abi) (json : Bytes) (printG17 : LongDouble → Bytes)

/-- The text of a value, null being empty. -/
def valueText : Option Scalar → Bytes
  | none => []
  | some (.str p) => p.text json
  | some (.int n) => printInt n
  | some (.long n) => printInt n
  | some (.double x) => cstr (printG17 x)
  | some (.bool b) => if b then lit "true" else lit "false"

/-- The text of a field of a row. -/
def fieldValueText (rows : RowList) (row : Nat) (name : Bytes) : Bytes :=
  match scalarField rows.type name, rowAt rows row with
  | some field, some (items, base) => valueText json printG17 (fieldValue nl field items base)
  | _, _ => []

/-- The text that the buffer for a value holds, nothing where the text does not fit. -/
def givenText (rows : RowList) (row : Nat) (name : Bytes) : Bytes :=
  let text := fieldValueText nl json printG17 rows row name
  if text.length < TEMPLATE_MAX_VALUE then text else []

/-- `field_text` gives the text of the first field of that name. -/
theorem fieldTextLoop_eq (row : Object) (base : Nat) (name : Bytes) {cap : Nat} (hcap : 0 < cap) :
    ∀ fields : List FieldInfo,
      (fieldTextLoop nl json printG17 row base name cap fields).getD []
        = match (fields.find? (·.name = name)).filter (·.kind ≠ .object) with
          | none => []
          | some f => (printed cap (valueText json printG17 (fieldValue nl f row base))).getD [] := by
  intro fields
  induction fields with
  | nil => rfl
  | cons f fields ih =>
      rw [fieldTextLoop]
      by_cases hname : f.name = name
      · rw [if_neg (by simpa using hname), List.find?_cons_of_pos (by simpa using hname)]
        have hnil : printed cap [] = some [] := if_neg (by rw [List.length_nil]; omega)
        cases hnull : fieldIsNull abi f row base with
        | true =>
            rw [if_pos rfl]
            cases hkind : f.kind <;> simp [Option.filter, fieldValue, hnull, hkind, valueText, hnil]
        | false =>
            rw [if_neg Bool.false_ne_true]
            dsimp only
            rw [fieldScalar_kind]
            cases hkind : f.kind with
            | str =>
                cases hread : readStr abi row (base + (fieldScalar nl f).offset) <;>
                  simp [Option.filter, fieldValue, hnull, hkind, valueText, hread]
            | int => simp [Option.filter, fieldValue, hnull, hkind, valueText]
            | long => simp [Option.filter, fieldValue, hnull, hkind, valueText]
            | double => simp [Option.filter, fieldValue, hnull, hkind, valueText]
            | bool => simp [Option.filter, fieldValue, hnull, hkind, valueText]
            | object => simp [Option.filter, hkind]
      · rw [if_pos hname, ih, List.find?_cons_of_neg (by simpa using hname)]

theorem fieldText_none (type : Option TypeInfo) (name : Bytes) (cap : Nat) :
    fieldText nl json printG17 type none name cap = none := by
  cases type <;> rfl

/-- What the buffer holds is what `field_text` gives. -/
theorem fieldText_eq (rows : RowList) (i : Nat) (name : Bytes) :
    (fieldText nl json printG17 rows.type (rowAt rows i) name TEMPLATE_MAX_VALUE).getD []
      = givenText nl json printG17 rows i name := by
  rw [givenText, fieldValueText, rowAt, scalarField]
  cases rows.type with
  | none => rfl
  | some type =>
      cases rows.items with
      | none =>
          rw [Option.bind_some, Option.bind_some, Option.map_none, fieldText_none]
          cases (type.fields.find? (·.name = name)).filter (·.kind ≠ .object) <;> rfl
      | some items =>
          rw [Option.bind_some, Option.bind_some, Option.map_some, fieldText, if_neg (by decide),
            fieldTextLoop_eq nl json printG17 items (i * type.size) name (by decide)]
          cases (type.fields.find? (·.name = name)).filter (·.kind ≠ .object) with
          | none => rfl
          | some f =>
              dsimp only
              rw [printed]
              split
              · rw [if_neg (by omega)]
                rfl
              · rw [if_pos (by omega)]
                rfl

theorem printInt_noNul (n : Int) : 0 ∉ printInt n := by
  intro hn
  rw [printInt, List.mem_append] at hn
  rcases hn with hn | hn
  · split at hn
    · cases List.mem_singleton.mp hn
    · cases hn
  · exact absurd (print_digits _ 0 hn).1 (by decide)

theorem valueText_noNul (v : Option Scalar) : 0 ∉ valueText json printG17 v := by
  cases v with
  | none => exact List.not_mem_nil
  | some v =>
      cases v with
      | str p =>
          cases p with
          | body start => exact cstr_no_nul _
          | elsewhere text => exact cstr_no_nul _
      | int n => exact printInt_noNul n
      | long n => exact printInt_noNul n
      | double x => exact cstr_no_nul _
      | bool b =>
          cases b with
          | true => exact (by decide : (0 : Byte) ∉ lit "true")
          | false => exact (by decide : (0 : Byte) ∉ lit "false")

theorem fieldValueText_noNul (rows : RowList) (i : Nat) (name : Bytes) :
    0 ∉ fieldValueText nl json printG17 rows i name := by
  rw [fieldValueText]
  split
  · exact valueText_noNul json printG17 _
  · exact List.not_mem_nil

theorem givenText_noNul (rows : RowList) (i : Nat) (name : Bytes) :
    0 ∉ givenText nl json printG17 rows i name := by
  rw [givenText]
  split
  · exact fieldValueText_noNul nl json printG17 rows i name
  · exact List.not_mem_nil

/-- A row of the list, or none. -/
def rowOf (rows : RowList) (row : Option Nat) : Option (Object × Nat) := row.bind (rowAt rows)

/-- What `write_row` writes for a piece. -/
def slotText (rows : RowList) (slot : Slot) : Bytes :=
  (partOf keyOf rows.type rows.count slot).written (givenText nl json printG17 rows)

theorem writeValue_wrote (rows : RowList) (row : Option Nat) (name : Bytes) (w : Writer) :
    Wrote w (writeValue nl json printG17 w rows.type (rowOf rows row) (row.elim 0 Int.ofNat) rows.count
      (keyOf name)) (slotText nl json printG17 rows (row, .placeholder name)) := by
  have hnumber : ∀ n : Int, Wrote w (writeEscaped w (printInt n)) (printInt n) := by
    intro n
    have h := writeEscaped_wrote w (printInt n)
    rwa [cstr_eq_self (printInt_noNul n), escape_printInt] at h
  rw [writeValue, slotText, partOf, placeholderPart.eq_def]
  by_cases hindex : keyOf name = lit "index"
  · rw [if_pos hindex, if_pos hindex]
    exact hnumber _
  rw [if_neg hindex, if_neg hindex]
  by_cases hcount : keyOf name = lit "count"
  · rw [if_pos hcount, if_pos hcount]
    exact hnumber _
  rw [if_neg hcount, if_neg hcount]
  cases row with
  | none =>
      rw [rowOf, Option.bind_none, fieldText_none]
      exact wrote_nothing w
  | some i =>
      have hgiven := fieldText_eq nl json printG17 rows i (keyOf name)
      have hnul := givenText_noNul nl json printG17 rows i (keyOf name)
      have hwritten : (if (scalarField rows.type (keyOf name)).isSome then Part.field i (keyOf name)
          else .text []).written (givenText nl json printG17 rows)
          = escape html (givenText nl json printG17 rows i (keyOf name)) := by
        cases hfield : scalarField rows.type (keyOf name) with
        | some f => rfl
        | none =>
            rw [givenText, fieldValueText, hfield]
            rfl
      dsimp only
      rw [hwritten]
      have hrow : rowOf rows (some i) = rowAt rows i := rfl
      rw [hrow]
      cases htext : fieldText nl json printG17 rows.type (rowAt rows i) (keyOf name) TEMPLATE_MAX_VALUE with
      | none =>
          rw [htext, Option.getD_none] at hgiven
          rw [← hgiven]
          exact wrote_nothing w
      | some value =>
          rw [htext, Option.getD_some] at hgiven
          have h := writeEscaped_wrote w value
          rw [hgiven, cstr_eq_self hnul] at h
          rw [hgiven]
          exact h

/-- **`write_row`** writes the pieces of the block. -/
theorem writeRowLoop_wrote (rows : RowList) (row : Option Nat) {block : Bytes} {segs : List (Segment Byte)}
    (hcut : Cut OPEN CLOSE block segs) : ∀ {guard : Nat} {w : Writer}, block.length < guard →
    Wrote w (writeRowLoop nl json printG17 rows.type (rowOf rows row) (row.elim 0 Int.ofNat) rows.count
      guard w block) (segs.flatMap fun seg => slotText nl json printG17 rows (row, seg)) := by
  have hliteral : ∀ s : Bytes, [Segment.literal s].flatMap (fun seg => slotText nl json printG17 rows (row, seg))
      = s := by
    intro s
    rw [List.flatMap_singleton]
    rfl
  have hnext : ∀ {n guard : Nat}, n < guard → ∃ left, guard = left + 1 :=
    fun h => Nat.exists_eq_add_one_of_ne_zero (by omega)
  induction hcut with
  | @plain s hopen =>
      intro guard w hguard
      obtain ⟨left, rfl⟩ := hnext hguard
      rw [hliteral, writeRowLoop]
      split
      · rename_i hstop
        rcases hstop with rfl | hfull
        · exact wrote_nothing w
        · exact wrote_full hfull _
      · rw [findBytes_none (by decide) hopen]
        exact writeRaw_wrote w s
  | @unclosed front rest hopen hclose =>
      intro guard w hguard
      obtain ⟨left, rfl⟩ := hnext hguard
      rw [hliteral, writeRowLoop]
      split
      · rename_i hstop
        rcases hstop with hnil | hfull
        · simp at hnil
        · exact wrote_full hfull _
      · rw [findBytes_first (by decide) hopen]
        dsimp only
        rw [List.take_left, List.drop_left, findBytes_close, findBytes_none (by decide) hclose]
        exact (writeRaw_wrote w front).append (writeRaw_wrote _ _)
  | @placeholder front name rest segs hopen hclose _ ih =>
      intro guard w hguard
      obtain ⟨left, rfl⟩ := hnext hguard
      have hleft : rest.length < left := by
        simp only [List.length_append, List.length_cons, List.length_nil] at hguard
        omega
      rw [writeRowLoop]
      split
      · rename_i hstop
        rcases hstop with hnil | hfull
        · simp at hnil
        · exact wrote_full hfull _
      · rw [findBytes_first (by decide) hopen]
        dsimp only
        rw [List.take_left, List.drop_left, findBytes_close, findBytes_first (by decide) hclose]
        have hname : ((OPEN ++ (name ++ (CLOSE ++ rest))).drop 2).take (name.length + 2 - 2) = name := by
          rw [Nat.add_sub_cancel]
          exact List.take_left
        have hrest : (OPEN ++ (name ++ (CLOSE ++ rest))).drop (name.length + 2 + 2) = rest := by
          have hlen : (OPEN ++ (name ++ CLOSE)).length = name.length + 2 + 2 := by simp
          rw [← hlen]
          have hsplit : OPEN ++ (name ++ (CLOSE ++ rest)) = (OPEN ++ (name ++ CLOSE)) ++ rest := by simp
          rw [hsplit, List.drop_left]
        dsimp only [Option.map_some]
        rw [hname, hrest, List.flatMap_cons, List.flatMap_cons]
        exact (writeRaw_wrote w front).append
          ((writeValue_wrote nl json printG17 rows row name _).append (ih hleft))

/-! ## The parts of a template -/

/-- The first opening tag, with the first closing one behind it. -/
def HasEach (source head block tail : Bytes) : Prop :=
  source = head ++ (EACH_OPEN ++ (block ++ (EACH_CLOSE ++ tail)))
    ∧ First EACH_OPEN head (block ++ (EACH_CLOSE ++ tail))
    ∧ First EACH_CLOSE (head ++ (EACH_OPEN ++ block)) tail

/-- The pieces in front of the block, in it and behind it; a text without a block has
    them all in front. -/
inductive Parses (source : Bytes) : List (Segment Byte) → List (Segment Byte) → List (Segment Byte) → Prop
  | each {head block tail : Bytes} {hs bs ts : List (Segment Byte)} (h : HasEach source head block tail)
      (hhead : Cut OPEN CLOSE head hs) (hblock : Cut OPEN CLOSE block bs) (htail : Cut OPEN CLOSE tail ts) :
      Parses source hs bs ts
  | plain {hs : List (Segment Byte)} (h : ∀ head block tail, ¬ HasEach source head block tail)
      (hsource : Cut OPEN CLOSE source hs) : Parses source hs [] []

/-- A template with its pieces. -/
structure Template (source : Bytes) where
  head : List (Segment Byte)
  block : List (Segment Byte)
  tail : List (Segment Byte)
  parses : Parses source head block tail

/-- **Every text is a template.** -/
theorem template_exists (source : Bytes) : Nonempty (Template source) := by
  have hcut : ∀ s : Bytes, ∃ segs, Cut OPEN CLOSE s segs := cut_exists (by decide)
  by_cases h : ∃ head block tail, HasEach source head block tail
  · obtain ⟨head, block, tail, h⟩ := h
    obtain ⟨hs, hhs⟩ := hcut head
    obtain ⟨bs, hbs⟩ := hcut block
    obtain ⟨ts, hts⟩ := hcut tail
    exact ⟨hs, bs, ts, .each h hhs hbs hts⟩
  · obtain ⟨hs, hhs⟩ := hcut source
    exact ⟨hs, [], [], .plain (fun head block tail hb => h ⟨head, block, tail, hb⟩) hhs⟩

/-- The pieces that are written, the block for each of the rows. -/
def Template.slots {source : Bytes} (t : Template source) (rows : List Nat) : List Slot :=
  t.head.map (none, ·) ++ rows.flatMap (fun i => t.block.map (some i, ·)) ++ t.tail.map (none, ·)

/-- The tags do not run into each other. -/
theorem tags_apart {rest m q : Bytes} (h : EACH_OPEN ++ rest = m ++ (EACH_CLOSE ++ q)) :
    EACH_OPEN.length ≤ m.length := by
  by_contra hlt
  have hdiff : ∀ k < 9, (EACH_OPEN.drop k).take (min 3 (9 - k)) ≠ EACH_CLOSE.take (min 3 (9 - k)) := by
    decide
  have hlen : EACH_OPEN.length = 9 := by decide
  have hlen' : EACH_CLOSE.length = 9 := by decide
  rw [hlen] at hlt
  refine hdiff m.length (by omega) ?_
  have hdrop := congrArg (fun s => (s.drop m.length).take (min 3 (9 - m.length))) h
  rw [List.drop_left, List.drop_append_of_le_length (by omega),
    List.take_append_of_le_length (by rw [List.length_drop]; omega),
    List.take_append_of_le_length (by omega)] at hdrop
  exact hdrop

/-- The rows of the loop, one after the other. -/
theorem rows_wrote {segs : List (Segment Byte)} {block : Bytes} (rows : RowList)
    (hcut : Cut OPEN CLOSE block segs) (indices : List Nat) (w : Writer) :
    Wrote w (indices.foldl (fun w i =>
        writeRow nl json printG17 w block rows.type (rowAt rows i) i rows.count) w)
      (indices.flatMap fun i => segs.flatMap fun seg => slotText nl json printG17 rows (some i, seg)) := by
  induction indices generalizing w with
  | nil => exact wrote_nothing w
  | cons i indices ih =>
      rw [List.foldl_cons, List.flatMap_cons]
      exact (writeRowLoop_wrote nl json printG17 rows (some i) hcut (Nat.lt_succ_self _)).append (ih _)

/-- The text of a page. -/
def pageText (rows : RowList) {source : Bytes} (t : Template source) : Bytes :=
  (t.slots (shownRows rows)).flatMap (slotText nl json printG17 rows)

/-- What `finish` returns. -/
theorem finish_eq {w : Writer} {text : Bytes} (h : Wrote ⟨[], TEMPLATE_MAX_OUT, false⟩ w text) :
    finish w = if text.length ≤ LIMIT then .ok (cstr text)
      else .error (lit "rendered page exceeds the response limit") := by
  obtain ⟨-, hcontent⟩ := h ⟨rfl, Nat.zero_le _⟩
  have hput : put LIMIT (content ⟨[], TEMPLATE_MAX_OUT, false⟩) text
      = if text.length ≤ LIMIT then some text else none := by
    show put LIMIT (some []) text = _
    rw [put_some, List.length_nil, Nat.zero_add, List.nil_append]
  rw [hput, content] at hcontent
  rw [finish]
  split at hcontent
  · rename_i hover
    rw [if_pos hover]
    split at hcontent
    · cases hcontent
    · rename_i hlong
      rw [if_neg hlong]
  · rename_i hover
    rw [if_neg hover]
    split at hcontent
    · rename_i hfits
      rw [if_pos hfits, Option.some.inj hcontent]
    · cases hcontent

/-- **The page** is what the pieces of the template are written as, if it fits. -/
theorem renderSource_eq (rows : RowList) {source : Bytes} (t : Template source) :
    renderSource nl json printG17 source rows
      = if (pageText nl json printG17 rows t).length ≤ LIMIT then .ok (cstr (pageText nl json printG17 rows t))
        else .error (lit "rendered page exceeds the response limit") := by
  obtain ⟨hs, bs, ts, hparses⟩ := t
  have hflat : ∀ segs : List (Segment Byte), (segs.map fun seg => ((none : Option Nat), seg)).flatMap
      (slotText nl json printG17 rows) = segs.flatMap fun seg => slotText nl json printG17 rows (none, seg) :=
    fun segs => List.flatMap_map _ _ segs
  have hplain : ∀ {w : Writer} {part : Bytes} {segs : List (Segment Byte)}, Cut OPEN CLOSE part segs →
      Wrote w (writeRow nl json printG17 w part rows.type none 0 rows.count)
        ((segs.map fun seg => ((none : Option Nat), seg)).flatMap (slotText nl json printG17 rows)) := by
    intro w part segs hcut
    rw [hflat]
    exact writeRowLoop_wrote nl json printG17 rows none hcut (Nat.lt_succ_self _)
  rw [renderSource]
  cases hparses with
  | @each head block tail _ _ _ h hhead hblock htail =>
      obtain ⟨rfl, hopen, hclose⟩ := h
      have hne : EACH_OPEN ≠ [] := by decide
      have hne' : EACH_CLOSE ≠ [] := by decide
      have hfind := findBytes_first hne hopen
      have hfind' := findBytes_first hne' hclose
      have hsplit : head ++ (EACH_OPEN ++ (block ++ (EACH_CLOSE ++ tail)))
          = (head ++ (EACH_OPEN ++ block)) ++ (EACH_CLOSE ++ tail) := by simp
      rw [← hsplit] at hfind'
      have hlen : EACH_OPEN.length = 9 := by decide
      have hlen' : EACH_CLOSE.length = 9 := by decide
      have hclose_len : (head ++ (EACH_OPEN ++ block)).length = head.length + 9 + block.length := by
        rw [List.length_append, List.length_append, hlen, Nat.add_assoc]
      -- the source cuts the block and the tail out by their positions
      have hblock_eq : ((head ++ (EACH_OPEN ++ (block ++ (EACH_CLOSE ++ tail)))).drop (head.length + 9)).take
          (head.length + 9 + block.length - (head.length + 9)) = block := by
        have hfront : (head ++ EACH_OPEN).length = head.length + 9 := by rw [List.length_append, hlen]
        rw [← List.append_assoc, ← hfront, List.drop_left, Nat.add_sub_cancel_left, List.take_left]
      have htail_eq : (head ++ (EACH_OPEN ++ (block ++ (EACH_CLOSE ++ tail)))).drop
          (head.length + 9 + block.length + 9) = tail := by
        have hfront : (head ++ (EACH_OPEN ++ block) ++ EACH_CLOSE).length = head.length + 9 + block.length + 9 := by
          rw [List.length_append, hclose_len, hlen']
        rw [hsplit, ← List.append_assoc, ← hfront, List.drop_left]
      have hfinish := finish_eq ((hplain (w := ⟨[], TEMPLATE_MAX_OUT, false⟩) hhead).append
        ((rows_wrote nl json printG17 rows hblock (shownRows rows) _).append (hplain htail)))
      have hpage : pageText nl json printG17 rows ⟨hs, bs, ts, .each ⟨rfl, hopen, hclose⟩ hhead hblock htail⟩
          = (hs.map fun seg => ((none : Option Nat), seg)).flatMap (slotText nl json printG17 rows)
            ++ ((shownRows rows).flatMap (fun i => bs.flatMap fun seg =>
                slotText nl json printG17 rows (some i, seg))
              ++ (ts.map fun seg => ((none : Option Nat), seg)).flatMap (slotText nl json printG17 rows)) := by
        rw [pageText, Template.slots, List.flatMap_append, List.flatMap_append, List.append_assoc,
          List.flatMap_assoc]
        simp only [List.flatMap_map]
      rw [hfind, hfind', hpage]
      dsimp only
      rw [hclose_len, if_neg (by omega), hblock_eq, htail_eq, List.take_left]
      exact hfinish
  | plain h hsource =>
      have hpage : pageText nl json printG17 rows ⟨hs, [], [], .plain h hsource⟩
          = (hs.map fun seg => ((none : Option Nat), seg)).flatMap (slotText nl json printG17 rows) := by
        rw [pageText, Template.slots]
        simp
      have hfinish := finish_eq (hplain (w := ⟨[], TEMPLATE_MAX_OUT, false⟩) hsource)
      rw [← hpage] at hfinish
      split
      · rename_i i j hi hj
        dsimp only
        split
        · exact hfinish
        · rename_i hle
          -- two tags in this order would have a block between them
          obtain ⟨head, rest, hsource', hfirst, hi'⟩ := findBytes_some (by decide) hi
          obtain ⟨front, tail, hfront, hfirst', hj'⟩ := findBytes_some (by decide) hj
          obtain ⟨block, hb⟩ := first_between tags_apart hsource' hfirst hfront hfirst' (by omega)
          exact absurd hb (h head block tail)
      · exact hfinish

end Values

end TemplatePage
