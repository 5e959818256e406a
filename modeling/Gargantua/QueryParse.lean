import Gargantua.SplitPath

/-! # Query strings (`query_parse`, `query_text`, `query_has`)

    The query is split, its plus signs replaced and its escapes decoded in the
    buffer it was read into: separators are overwritten with NUL, and decoded
    bytes are written over the text they came from.  A pointer into the buffer
    is the list of bytes from the pointer on, the terminator included, and a
    write through it gives the new list.

    One round of the loop is then a function of the text in front of the next
    ampersand (`readPair_spec`), whatever the writes leave in between, so
    `query_parse` accepts the lists of pairs with distinct names that fit
    (`queryParse_iff`). -/

namespace QueryParse

open CString RouteRuntime SplitPath

/-- `QUERY_PARAM_MAX`. -/
abbrev QUERY_PARAM_MAX : Nat := 12

abbrev ampersand : Byte := 0x26
abbrev equals : Byte := 0x3D
abbrev plus : Byte := 0x2B
abbrev space : Byte := 0x20

/-! ## The code -/

/-- `text[i]`. -/
def charAt (text : Bytes) (i : Nat) : Byte := (text.drop i).headD 0

/-- `strchr(text, c)`, as an index, for a `c` other than NUL. -/
def strchrIndex (c : Byte) : Bytes → Option Nat
  | [] => none
  | b :: s => if b = c then some 0 else if b = 0 then none else (strchrIndex c s).map (· + 1)

/-- The loops of `query_parse` that turn plus signs into blanks. -/
def plusToSpace : Bytes → Bytes
  | [] => []
  | c :: s => if c = 0 then c :: s else (if c = plus then space else c) :: plusToSpace s

/-- `url_decode` in its buffer; each round reads a byte, so one round more than
    there are bytes is enough. -/
def urlDecodeBuffer : Nat → Bytes → Nat → Nat → Option Bytes
  | 0, _, _, _ => none
  | n + 1, text, read, write =>
      if read < RUNTIME_MAX_TEXT ∧ charAt text read ≠ 0 then
        let c := charAt text read
        if c = percent then
          let hi := if charAt text (read + 1) ≠ 0 then hexDigitValue (charAt text (read + 1))
            else none
          match hi with
          | none => none
          | some hi =>
              match hexDigitValue (charAt text (read + 2)) with
              | none => none
              | some lo =>
                  let decoded := hi * 16 + lo
                  if decoded < 0x20 ∨ decoded = 0x7F then none
                  else urlDecodeBuffer n (text.set write decoded.toUInt8) (read + 3) (write + 1)
        else urlDecodeBuffer n (text.set write c) (read + 1) (write + 1)
      else if read = RUNTIME_MAX_TEXT then none
      else some (text.set write 0)

/-- `url_decode(text)`. -/
def urlDecodeAt (text : Bytes) : Option Bytes := urlDecodeBuffer (text.length + 1) text 0 0

/-- `copy_bounded`. -/
def copyBounded (src : Bytes) : Bytes := src.take (PARAM_VALUE_LEN - 1)

/-- The body of the loop from the search for `=` to the lengths: the name, the
    value and the buffer they were decoded in. -/
def readPair (buf : Bytes) : Option (Bytes × Bytes × Bytes) :=
  match strchrIndex equals buf with
  | none => none
  | some eq =>
      if charAt buf 0 = 0 ∨ eq = 0 then none
      else
        let buf := plusToSpace (buf.set eq 0)
        let buf := buf.take (eq + 1) ++ plusToSpace (buf.drop (eq + 1))
        match urlDecodeAt buf with
        | none => none
        | some buf =>
            match urlDecodeAt (buf.drop (eq + 1)) with
            | none => none
            | some behind =>
                let name := cstr buf
                let value := cstr behind
                if name.length ≥ PARAM_VALUE_LEN ∨ value.length ≥ PARAM_VALUE_LEN then none
                else some (name, value, buf.take (eq + 1) ++ behind)

/-- One round of the loop: the parameters with one more pair and, if there was
    an ampersand, what stands behind it. -/
def queryRound (p : RequestParams) (cursor : Bytes) : Option (RequestParams × Option Bytes) :=
  if p.query.length ≥ QUERY_PARAM_MAX then none
  else
    let amp := strchrIndex ampersand cursor
    let buf := match amp with
      | none => cursor
      | some amp => cursor.set amp 0
    match readPair buf with
    | none => none
    | some (name, value, buf) =>
        if name ∈ p.query.map Prod.fst then none
        else
          some ({ p with query := p.query ++ [(copyBounded name, copyBounded value)] },
            amp.map fun amp => buf.drop (amp + 1))

/-- The loop; every round stores a pair or is the last. -/
def queryLoop : Nat → RequestParams → Bytes → Int × RequestParams
  | 0, p, _ => (-1, { p with invalid := true })
  | n + 1, p, cursor =>
      if charAt cursor 0 = 0 then (0, p)
      else
        match queryRound p cursor with
        | none => (-1, { p with invalid := true })
        | some (p, none) => (0, p)
        | some (p, some cursor) => queryLoop n p cursor

/-- `query_parse`, with the status it returns. -/
def queryParse (p : RequestParams) (query : Option Bytes) : Int × RequestParams :=
  let p := { p with query := [], invalid := false }
  match query with
  | none => (0, p)
  | some query => queryLoop (QUERY_PARAM_MAX + 1) p query

/-- `query_index`, `none` for `-1`. -/
def queryIndex (p : RequestParams) (name : Bytes) : Option Nat :=
  (p.query.take QUERY_PARAM_MAX).findIdx? (·.1 == name)

/-- `query_text`. -/
def queryText (p : RequestParams) (name : Bytes) : Bytes :=
  match queryIndex p name with
  | none => []
  | some i => (p.query.getD i ([], [])).2

/-- `query_has`. -/
def queryHas (p : RequestParams) (name : Bytes) : Bool := (queryIndex p name).isSome

/-! ## Bytes and writes -/

theorem charAt_append {d s : Bytes} {i : Nat} (h : d.length = i) (n : Nat) :
    charAt (d ++ s) (i + n) = charAt s n := by
  rw [charAt, charAt, ← h, List.drop_append, List.drop_of_length_le (Nat.le_add_right _ _),
    List.nil_append, Nat.add_sub_cancel_left]

theorem strchrIndex_found {c : Byte} {a : Bytes} (hc : c ∉ a) (h0 : (0 : Byte) ∉ a) (s : Bytes) :
    strchrIndex c (a ++ c :: s) = some a.length := by
  induction a with
  | nil => rw [List.nil_append, strchrIndex, if_pos rfl, List.length_nil]
  | cons b a ih =>
      obtain ⟨hb, hc⟩ := not_or.mp (mt List.mem_cons.mpr hc)
      obtain ⟨hb0, h0⟩ := not_or.mp (mt List.mem_cons.mpr h0)
      rw [List.cons_append, strchrIndex, if_neg (Ne.symm hb), if_neg (Ne.symm hb0), ih hc h0]
      rfl

theorem strchrIndex_missing {c : Byte} {a : Bytes} (hc : c ∉ a) (hne : c ≠ 0)
    (h0 : (0 : Byte) ∉ a) (s : Bytes) : strchrIndex c (a ++ 0 :: s) = none := by
  induction a with
  | nil => rw [List.nil_append, strchrIndex, if_neg (Ne.symm hne), if_pos rfl]
  | cons b a ih =>
      obtain ⟨hb, hc⟩ := not_or.mp (mt List.mem_cons.mpr hc)
      obtain ⟨hb0, h0⟩ := not_or.mp (mt List.mem_cons.mpr h0)
      rw [List.cons_append, strchrIndex, if_neg (Ne.symm hb), if_neg (Ne.symm hb0), ih hc h0]
      rfl

/-- A blank for every plus sign. -/
def spaced (s : Bytes) : Bytes := s.map fun c => if c = plus then space else c

theorem plusToSpace_append {a : Bytes} (h0 : (0 : Byte) ∉ a) (s : Bytes) :
    plusToSpace (a ++ 0 :: s) = spaced a ++ 0 :: s := by
  induction a with
  | nil => rw [List.nil_append, plusToSpace, if_pos rfl]; rfl
  | cons b a ih =>
      obtain ⟨hb0, h0⟩ := not_or.mp (mt List.mem_cons.mpr h0)
      rw [List.cons_append, plusToSpace, if_neg (Ne.symm hb0), ih h0]
      rfl

theorem spaced_noNul {a : Bytes} (h0 : (0 : Byte) ∉ a) : (0 : Byte) ∉ spaced a := by
  intro h
  obtain ⟨c, hc, heq⟩ := List.mem_map.mp h
  split at heq
  · exact absurd heq (by decide)
  · exact h0 (heq ▸ hc)

/-- **`url_decode` in its buffer** leaves the decoded text, its terminator and
    what the text has left of itself; what stands behind is unchanged. -/
theorem urlDecodeBuffer_spec : ∀ (n : Nat) (d junk s post : Bytes), (0 : Byte) ∉ s →
    s.length < n →
    match urlDecodeLoop (d.length + junk.length) s with
    | none =>
        urlDecodeBuffer n (d ++ ((junk ++ s) ++ 0 :: post)) (d.length + junk.length) d.length
          = none
    | some p => ∃ left : Bytes, p.length + left.length = junk.length + s.length
        ∧ urlDecodeBuffer n (d ++ ((junk ++ s) ++ 0 :: post)) (d.length + junk.length) d.length
          = some (d ++ (p ++ 0 :: (left ++ post))) := by
  intro n
  induction n with
  | zero => intro d junk s post _ hn; exact absurd hn (Nat.not_lt_zero _)
  | succ n ih =>
      intro d junk s post h0 hn
      have hchar : ∀ k, charAt (d ++ ((junk ++ s) ++ 0 :: post)) (d.length + junk.length + k)
          = charAt (s ++ 0 :: post) k := by
        intro k
        rw [← List.length_append, List.append_assoc junk, ← List.append_assoc d]
        exact charAt_append rfl k
      -- the write that ends the decoded text
      have hstop : (d ++ ((junk ++ s) ++ 0 :: post)).set d.length 0
          = d ++ ([] ++ 0 :: ((junk ++ s ++ [0]).tail ++ post)) := by
        have := set_front (d := d) (m := junk ++ s ++ [0]) (by simp) post 0
        rw [List.append_assoc (junk ++ s), List.singleton_append] at this
        rw [this, List.append_assoc]
        rfl
      have hleft : ([] : Bytes).length + ((junk ++ s ++ [0]).tail).length
          = junk.length + s.length := by simp
      -- a byte of the decoded text, written over what it stands for
      have hstep : ∀ (x rest : Bytes) (v : Byte), s = x ++ rest → x ≠ [] →
          ∀ q, urlDecodeLoop (d.length + junk.length + x.length) rest = q →
          match (q.map (v :: ·) : Option Bytes) with
          | none => urlDecodeBuffer n ((d ++ ((junk ++ s) ++ 0 :: post)).set d.length v)
              (d.length + junk.length + x.length) (d.length + 1) = none
          | some p => ∃ left : Bytes, p.length + left.length = junk.length + s.length
              ∧ urlDecodeBuffer n ((d ++ ((junk ++ s) ++ 0 :: post)).set d.length v)
                  (d.length + junk.length + x.length) (d.length + 1)
                = some (d ++ (p ++ 0 :: (left ++ post))) := by
        rintro x rest v rfl hx q hq
        have hm : junk ++ x ≠ [] := by simp [hx]
        have hxlen : 0 < x.length := List.length_pos_iff.mpr hx
        have hset := set_front (d := d) hm (rest ++ 0 :: post) v
        have hassoc : (junk ++ (x ++ rest)) ++ 0 :: post = (junk ++ x) ++ (rest ++ 0 :: post) := by
          simp
        have htail : (junk ++ x).tail.length = junk.length + x.length - 1 := by simp
        have hread : d.length + junk.length + x.length
            = (d ++ [v]).length + (junk ++ x).tail.length := by
          rw [htail, List.length_append, List.length_singleton]
          omega
        have hwrite : d.length + 1 = (d ++ [v]).length := by simp
        have hih := ih (d ++ [v]) (junk ++ x).tail rest post
          (fun h => h0 (List.mem_append_right _ h))
          (by rw [List.length_append] at hn; omega)
        rw [hassoc, hset, hread, hwrite]
        rw [hread] at hq
        rw [hq, List.append_assoc _ rest] at hih
        cases q with
        | none => exact hih
        | some p =>
            obtain ⟨left, hlen, hrun⟩ := hih
            refine ⟨left, ?_, ?_⟩
            · rw [htail] at hlen
              rw [List.length_cons, List.length_append]
              omega
            · rw [hrun, List.append_assoc d]
              rfl
      rw [urlDecodeBuffer]
      have hread := hchar 0
      rw [Nat.add_zero] at hread
      rw [hread]
      cases s with
      | nil =>
          rw [if_neg (not_and.mpr fun _ h => h rfl), urlDecodeLoop]
          by_cases hmax : d.length + junk.length = RUNTIME_MAX_TEXT
          · rw [if_pos hmax, if_pos hmax]
          · rw [if_neg hmax, if_neg hmax]
            exact ⟨_, hleft, congrArg some hstop⟩
      | cons c s =>
          obtain ⟨hc0, hs0⟩ := not_or.mp (mt List.mem_cons.mpr h0)
          have hc : charAt (c :: s ++ 0 :: post) 0 = c := rfl
          rw [hc]
          by_cases hlt : d.length + junk.length < RUNTIME_MAX_TEXT
          · rw [if_pos ⟨hlt, Ne.symm hc0⟩]
            dsimp only
            by_cases hpc : c = percent
            · subst hpc
              rw [if_pos rfl, hchar 1, hchar 2]
              obtain _ | ⟨h, _ | ⟨l, rest⟩⟩ := s
              · rw [urlDecodeLoop, if_neg (by omega), if_pos rfl]
                · rfl
                · exact fun _ _ _ h => by cases h
              · rw [urlDecodeLoop, if_neg (by omega), if_pos rfl]
                · have h1 : charAt ([percent, h] ++ 0 :: post) 1 = h := rfl
                  have h2 : hexDigitValue (charAt ([percent, h] ++ 0 :: post) 2) = none := rfl
                  have hh0 : h ≠ 0 := fun hh => hs0 (hh ▸ List.mem_cons_self)
                  dsimp only
                  rw [h1, h2, if_pos hh0]
                  cases hexDigitValue h <;> rfl
                · exact fun _ _ _ h => by cases h
              · have h1 : charAt (percent :: h :: l :: rest ++ 0 :: post) 1 = h := rfl
                have h2 : charAt (percent :: h :: l :: rest ++ 0 :: post) 2 = l := rfl
                have hh0 : h ≠ 0 := fun hh => hs0 (hh ▸ List.mem_cons_self)
                rw [h1, h2, if_pos hh0, urlDecodeLoop, if_neg (by omega), if_pos rfl]
                dsimp only
                cases hexDigitValue h with
                | none => rfl
                | some hi =>
                    cases hexDigitValue l with
                    | none => rfl
                    | some lo =>
                        dsimp only
                        by_cases hbad : hi * 16 + lo < 0x20 ∨ hi * 16 + lo = 0x7F
                        · rw [if_pos hbad, if_pos hbad]
                        · rw [if_neg hbad, if_neg hbad]
                          exact hstep [percent, h, l] rest _ rfl (by simp) _ rfl
            · rw [if_neg hpc, RouteParams.urlDecodeLoop_cons hlt hpc]
              exact hstep [c] s c rfl (by simp) _ rfl
          · rw [if_neg fun h => hlt h.1, urlDecodeLoop.eq_def]
            dsimp only
            rw [if_pos (Nat.le_of_not_lt hlt)]
            by_cases hmax : d.length + junk.length = RUNTIME_MAX_TEXT
            · rw [if_pos hmax, if_pos hmax]
            · rw [if_neg hmax, if_neg hmax]
              exact ⟨_, hleft, congrArg some hstop⟩

theorem urlDecodeAt_spec {s : Bytes} (h0 : (0 : Byte) ∉ s) (post : Bytes) :
    match urlDecode s with
    | none => urlDecodeAt (s ++ 0 :: post) = none
    | some p => ∃ left : Bytes, p.length + left.length = s.length
        ∧ urlDecodeAt (s ++ 0 :: post) = some (p ++ 0 :: (left ++ post)) := by
  have hlen : s.length < (s ++ 0 :: post).length + 1 := by
    rw [List.length_append]
    omega
  have h := urlDecodeBuffer_spec ((s ++ 0 :: post).length + 1) [] [] s post h0 hlen
  simp only [List.nil_append, List.length_nil, Nat.zero_add] at h
  exact h

/-- Decoding makes no NUL. -/
theorem urlDecodeLoop_noNul {s : Bytes} : ∀ {read : Nat} {p : Bytes}, (0 : Byte) ∉ s →
    urlDecodeLoop read s = some p → (0 : Byte) ∉ p := by
  induction s using percentDecode.induct with
  | case1 =>
      intro read p _ h
      rw [urlDecodeLoop] at h
      split at h
      · cases h
      · exact Option.some.inj h ▸ List.not_mem_nil
  | case2 high low rest hi lo hl hh ih =>
      intro read p h0 h
      rw [urlDecodeLoop] at h
      split at h
      · split at h
        · cases h
        · exact Option.some.inj h ▸ List.not_mem_nil
      rw [if_pos rfl] at h
      dsimp only at h
      rw [hh, hl] at h
      dsimp only at h
      split at h
      · cases h
      rename_i hgood
      obtain ⟨q, hq, rfl⟩ := Option.map_eq_some_iff.mp h
      have hbyte := (escaped_printable (hexDigitValue_lt hh) (hexDigitValue_lt hl)).mp hgood
      rw [List.mem_cons, not_or]
      refine ⟨fun hz => ?_, ih (fun hz => h0 (by simp [hz])) hq⟩
      exact absurd (hz ▸ hbyte.1) (by decide)
  | case3 high low rest hno =>
      intro read p _ h
      rw [urlDecodeLoop] at h
      split at h
      · split at h
        · cases h
        · exact Option.some.inj h ▸ List.not_mem_nil
      rw [if_pos rfl] at h
      dsimp only at h
      split at h
      · rename_i hi lo hh hl
        exact absurd hl (hno hi lo hh)
      · cases h
  | case4 s hshort =>
      intro read p _ h
      rw [urlDecodeLoop] at h
      · split at h
        · split at h
          · cases h
          · exact Option.some.inj h ▸ List.not_mem_nil
        · rw [if_pos rfl] at h
          cases h
      · exact hshort
  | case5 c s hc ih =>
      intro read p h0 h
      rw [urlDecodeLoop.eq_def] at h
      dsimp only at h
      split at h
      · split at h
        · cases h
        · exact Option.some.inj h ▸ List.not_mem_nil
      obtain ⟨q, hq, rfl⟩ := Option.map_eq_some_iff.mp h
      obtain ⟨hc0, hs0⟩ := not_or.mp (mt List.mem_cons.mpr h0)
      rw [List.mem_cons, not_or]
      exact ⟨hc0, ih hs0 hq⟩

/-! ## One pair -/

/-- The part stands for the pair: what it writes in front of and behind its first
    `=` decodes to the name and the value. -/
structure Means (part : Bytes) (pair : Bytes × Bytes) : Prop where
  split : ∃ name value, part = name ++ equals :: value ∧ name ≠ [] ∧ equals ∉ name
    ∧ urlDecode (spaced name) = some pair.1 ∧ urlDecode (spaced value) = some pair.2
  name_fits : pair.1.length < PARAM_VALUE_LEN
  value_fits : pair.2.length < PARAM_VALUE_LEN

theorem spaced_length (s : Bytes) : (spaced s).length = s.length := List.length_map ..

/-- The buffer of a part with a name and a value. -/
theorem readPair_split {n v : Bytes} (hne : n ≠ []) (heq : equals ∉ n) (hn0 : (0 : Byte) ∉ n)
    (hv0 : (0 : Byte) ∉ v) (post : Bytes) :
    match urlDecode (spaced n), urlDecode (spaced v) with
    | some name, some value =>
        if name.length ≥ PARAM_VALUE_LEN ∨ value.length ≥ PARAM_VALUE_LEN then
          readPair (n ++ equals :: v ++ 0 :: post) = none
        else ∃ buf, readPair (n ++ equals :: v ++ 0 :: post) = some (name, value, buf)
          ∧ buf.drop ((n ++ equals :: v).length + 1) = post
    | _, _ => readPair (n ++ equals :: v ++ 0 :: post) = none := by
  have hindex : strchrIndex equals (n ++ equals :: v ++ 0 :: post) = some n.length := by
    rw [List.append_assoc]
    exact strchrIndex_found heq hn0 _
  have hpos : n.length ≠ 0 := fun h => hne (List.length_eq_zero_iff.mp h)
  have hfirst : charAt (n ++ equals :: v ++ 0 :: post) 0 ≠ 0 := by
    obtain ⟨c, n, rfl⟩ := List.exists_cons_of_ne_nil hne
    exact fun h => hn0 (List.mem_cons.mpr (.inl h.symm))
  -- the buffer once the plus signs are gone
  have hplus : plusToSpace ((n ++ equals :: v ++ 0 :: post).set n.length 0)
      = spaced n ++ 0 :: (v ++ 0 :: post) := by
    rw [List.append_assoc, List.set_append_right _ _ (Nat.le_refl _), Nat.sub_self,
      List.cons_append, List.set_cons_zero, plusToSpace_append hn0]
  have hcut : ∀ a b : Bytes, a.length = n.length →
      (a ++ 0 :: b).take (n.length + 1) = a ++ [0] ∧ (a ++ 0 :: b).drop (n.length + 1) = b := by
    intro a b ha
    rw [← ha]
    constructor
    · rw [List.take_append, List.take_of_length_le (by omega), Nat.add_sub_cancel_left]
      rfl
    · rw [List.drop_append, List.drop_of_length_le (by omega), Nat.add_sub_cancel_left]
      rfl
  have hbuf : (spaced n ++ 0 :: (v ++ 0 :: post)).take (n.length + 1)
      ++ plusToSpace ((spaced n ++ 0 :: (v ++ 0 :: post)).drop (n.length + 1))
      = spaced n ++ 0 :: (spaced v ++ 0 :: post) := by
    rw [(hcut _ _ (spaced_length n)).1, (hcut _ _ (spaced_length n)).2, plusToSpace_append hv0,
      List.append_assoc]
    rfl
  have hname := urlDecodeAt_spec (spaced_noNul hn0) (spaced v ++ 0 :: post)
  have hvalue := urlDecodeAt_spec (spaced_noNul hv0) post
  rw [readPair, hindex]
  dsimp only
  rw [if_neg (not_or.mpr ⟨hfirst, hpos⟩), hplus, hbuf]
  cases hdn : urlDecode (spaced n) with
  | none =>
      rw [hdn] at hname
      rw [hname]
  | some name =>
      rw [hdn] at hname
      obtain ⟨left, hleft, hname⟩ := hname
      -- the value stands where it stood
      have hsame : ∀ b : Bytes, (name ++ 0 :: (left ++ b)).drop (n.length + 1) = b := by
        intro b
        have hlen : (name ++ 0 :: left).length = n.length + 1 := by
          rw [List.length_append, List.length_cons, ← spaced_length n]
          omega
        rw [← hlen, ← List.cons_append, ← List.append_assoc, List.drop_left]
      rw [hname]
      dsimp only
      rw [hsame]
      cases hdv : urlDecode (spaced v) with
      | none =>
          rw [hdv] at hvalue
          rw [hvalue]
      | some value =>
          rw [hdv] at hvalue
          obtain ⟨left', hleft', hvalue⟩ := hvalue
          rw [hvalue]
          dsimp only
          rw [cstr_append_nul (urlDecodeLoop_noNul (spaced_noNul hn0) hdn),
            cstr_append_nul (urlDecodeLoop_noNul (spaced_noNul hv0) hdv)]
          by_cases hlong : name.length ≥ PARAM_VALUE_LEN ∨ value.length ≥ PARAM_VALUE_LEN
          · rw [if_pos hlong, if_pos hlong]
          · rw [if_neg hlong, if_neg hlong]
            refine ⟨_, rfl, ?_⟩
            have htake : ((name ++ 0 :: (left ++ (spaced v ++ 0 :: post))).take
                (n.length + 1)).length = n.length + 1 := by
              rw [List.length_take, Nat.min_eq_left]
              rw [List.length_append, List.length_cons, List.length_append, ← spaced_length n]
              omega
            have hend : (value ++ 0 :: (left' ++ post)).drop (v.length + 1) = post := by
              have hlen : (value ++ 0 :: left').length = v.length + 1 := by
                rw [List.length_append, List.length_cons, ← spaced_length v]
                omega
              rw [← hlen, ← List.cons_append, ← List.append_assoc, List.drop_left]
            have hsum : (n ++ equals :: v).length + 1 = (n.length + 1) + (v.length + 1) := by
              rw [List.length_append, List.length_cons]
              omega
            rw [hsum, ← List.drop_drop, List.drop_left' htake, hend]

/-- **One pair**: what is read is what the part stands for, and the buffer behind
    the part is as it was. -/
theorem readPair_some {part post : Bytes} (h0 : (0 : Byte) ∉ part) {r : Bytes × Bytes × Bytes}
    (h : readPair (part ++ 0 :: post) = some r) :
    Means part (r.1, r.2.1) ∧ r.2.2.drop (part.length + 1) = post := by
  by_cases hmem : equals ∈ part
  · obtain ⟨n, v, rfl, heq⟩ := List.eq_append_cons_of_mem hmem
    have hn0 : (0 : Byte) ∉ n := fun hz => h0 (List.mem_append_left _ hz)
    have hv0 : (0 : Byte) ∉ v :=
      fun hz => h0 (List.mem_append_right _ (List.mem_cons_of_mem _ hz))
    by_cases hne : n = []
    · subst hne
      have hindex : strchrIndex equals ([] ++ equals :: v ++ 0 :: post) = some 0 := by
        rw [List.append_assoc]
        exact strchrIndex_found heq hn0 _
      rw [readPair, hindex] at h
      dsimp only at h
      rw [if_pos (.inr rfl)] at h
      exact nomatch h
    have hpair := readPair_split hne heq hn0 hv0 post
    cases hdn : urlDecode (spaced n) with
    | none =>
        rw [hdn] at hpair
        exact nomatch h.symm.trans hpair
    | some name =>
        cases hdv : urlDecode (spaced v) with
        | none =>
            rw [hdn, hdv] at hpair
            exact nomatch h.symm.trans hpair
        | some value =>
            rw [hdn, hdv] at hpair
            dsimp only at hpair
            split at hpair
            · exact nomatch h.symm.trans hpair
            · rename_i hfit
              obtain ⟨buf, hbuf, hpost⟩ := hpair
              obtain rfl := Option.some.inj (h.symm.trans hbuf)
              obtain ⟨hname, hvalue⟩ := not_or.mp hfit
              exact ⟨⟨⟨n, v, rfl, hne, heq, hdn, hdv⟩, Nat.lt_of_not_le hname,
                Nat.lt_of_not_le hvalue⟩, hpost⟩
  · rw [readPair, strchrIndex_missing hmem (by decide) h0] at h
    exact nomatch h

theorem readPair_means {part : Bytes} (h0 : (0 : Byte) ∉ part) {pair : Bytes × Bytes}
    (h : Means part pair) (post : Bytes) : ∃ buf, readPair (part ++ 0 :: post) = some (pair.1, pair.2, buf) := by
  obtain ⟨n, v, rfl, hne, heq, hdn, hdv⟩ := h.split
  have hpair := readPair_split hne heq (fun hz => h0 (List.mem_append_left _ hz))
    (fun hz => h0 (List.mem_append_right _ (List.mem_cons_of_mem _ hz))) post
  rw [hdn, hdv] at hpair
  dsimp only at hpair
  rw [if_neg (not_or.mpr ⟨Nat.not_le.mpr h.name_fits, Nat.not_le.mpr h.value_fits⟩)] at hpair
  obtain ⟨buf, hbuf, -⟩ := hpair
  exact ⟨buf, hbuf⟩

theorem copyBounded_eq {s : Bytes} (h : s.length < PARAM_VALUE_LEN) : copyBounded s = s :=
  List.take_of_length_le (Nat.le_sub_one_of_lt h)

/-! ## The loop -/

/-- The pair joins those that are there. -/
def push (p : RequestParams) (pair : Bytes × Bytes) : RequestParams :=
  { p with query := p.query ++ [pair] }

/-- A round whose ampersand, if there is one, ends the part. -/
theorem queryRound_iff {p p' : RequestParams} {cursor part : Bytes} {next : Option Bytes}
    (amp : Option Nat) (post : Bytes)
    (hbuf : (match amp with
      | none => cursor
      | some amp => cursor.set amp 0) = part ++ 0 :: post)
    (h0 : (0 : Byte) ∉ part) (hamp : strchrIndex ampersand cursor = amp)
    (hat : ∀ a, amp = some a → a = part.length) :
    queryRound p cursor = some (p', next) ↔
      ∃ pair, Means part pair ∧ p.query.length < QUERY_PARAM_MAX
        ∧ pair.1 ∉ p.query.map Prod.fst ∧ p' = push p pair ∧ next = amp.map fun _ => post := by
  rw [queryRound, hamp]
  dsimp only
  rw [hbuf]
  constructor
  · intro h
    split at h
    · exact nomatch h
    rename_i hroom
    split at h
    · exact nomatch h
    rename_i name value buf hread
    obtain ⟨hmeans, hbehind⟩ := readPair_some h0 hread
    split at h
    · exact nomatch h
    rename_i hnew
    obtain ⟨rfl, rfl⟩ := Prod.mk.inj (Option.some.inj h)
    refine ⟨(name, value), hmeans, Nat.lt_of_not_le hroom, hnew, ?_, ?_⟩
    · rw [copyBounded_eq hmeans.name_fits, copyBounded_eq hmeans.value_fits]
      rfl
    · cases amp with
      | none => rfl
      | some a =>
          obtain rfl := hat a rfl
          exact congrArg some hbehind
  · rintro ⟨pair, hmeans, hroom, hnew, rfl, rfl⟩
    obtain ⟨buf, hread⟩ := readPair_means h0 hmeans post
    rw [if_neg (Nat.not_le.mpr hroom), hread]
    dsimp only
    rw [if_neg hnew, copyBounded_eq hmeans.name_fits, copyBounded_eq hmeans.value_fits]
    cases amp with
    | none => rfl
    | some a =>
        obtain rfl := hat a rfl
        have hbehind := (readPair_some h0 hread).2
        dsimp only at hbehind
        rw [Option.map_some, Option.map_some, hbehind]
        rfl

/-- The query lists these pairs; an ampersand may stand behind the last one. -/
inductive Query : Bytes → List (Bytes × Bytes) → Prop
  | nil : Query [] []
  | last {part : Bytes} {pair : Bytes × Bytes} (hamp : ampersand ∉ part) (h : Means part pair) :
      Query part [pair]
  | more {part rest : Bytes} {pair : Bytes × Bytes} {pairs : List (Bytes × Bytes)}
      (hamp : ampersand ∉ part) (h : Means part pair) (hrest : Query rest pairs) :
      Query (part ++ ampersand :: rest) (pair :: pairs)

theorem Query.eq_nil {pairs : List (Bytes × Bytes)} (h : Query [] pairs) : pairs = [] := by
  generalize htext : ([] : Bytes) = text at h
  cases h with
  | nil => rfl
  | last _ h =>
      obtain ⟨n, v, rfl, -⟩ := h.split
      exact absurd htext.symm (by simp)
  | more _ _ _ => exact absurd htext.symm (by simp)

/-- The first of several separators is where the text is split. -/
theorem append_sep_inj {c : Byte} {a b a' b' : Bytes} (ha : c ∉ a) (ha' : c ∉ a')
    (h : a ++ c :: b = a' ++ c :: b') : a = a' ∧ b = b' := by
  have hidx := congrArg (List.idxOf c) h
  rw [List.idxOf_append, List.idxOf_append, if_neg ha, if_neg ha', List.idxOf_cons_self,
    List.idxOf_cons_self, Nat.zero_add, Nat.zero_add] at hidx
  obtain ⟨hl, hr⟩ := List.append_inj h hidx
  exact ⟨hl, (List.cons.inj hr).2⟩

/-- The first part of a query, and what follows its ampersand. -/
theorem query_cons_iff {part rest : Bytes} (hamp : ampersand ∉ part)
    {pairs : List (Bytes × Bytes)} :
    Query (part ++ ampersand :: rest) pairs ↔
      ∃ pair pairs', Means part pair ∧ Query rest pairs' ∧ pairs = pair :: pairs' := by
  constructor
  · intro h
    generalize htext : part ++ ampersand :: rest = text at h
    cases h with
    | nil => exact absurd htext (by simp)
    | last hno _ => exact absurd (htext ▸ List.mem_append_right _ List.mem_cons_self) hno
    | more hno h hrest =>
        obtain ⟨rfl, rfl⟩ := append_sep_inj hamp hno htext
        exact ⟨_, _, h, hrest, rfl⟩
  · rintro ⟨pair, pairs', h, hrest, rfl⟩
    exact .more hamp h hrest

/-- A query without an ampersand is one part. -/
theorem query_part_iff {part : Bytes} (hamp : ampersand ∉ part) (hne : part ≠ [])
    {pairs : List (Bytes × Bytes)} :
    Query part pairs ↔ ∃ pair, Means part pair ∧ pairs = [pair] := by
  constructor
  · intro h
    cases h with
    | nil => exact absurd rfl hne
    | last _ h => exact ⟨_, h, rfl⟩
    | more _ _ _ => exact absurd (List.mem_append_right _ List.mem_cons_self) hamp
  · rintro ⟨pair, h, rfl⟩
    exact .last hamp h

/-- What the loop makes of a query. -/
def Stores (p : RequestParams) (text : Bytes) (p' : RequestParams) : Prop :=
  ∃ pairs, Query text pairs ∧ p.query.length + pairs.length ≤ QUERY_PARAM_MAX
    ∧ ((p.query ++ pairs).map Prod.fst).Nodup ∧ p' = { p with query := p.query ++ pairs }

theorem nodup_push {names : List Bytes} {name : Bytes} {more : List Bytes} :
    (names ++ name :: more).Nodup → name ∉ names := by
  intro h hmem
  exact (List.nodup_append.mp h).2.2 name hmem name List.mem_cons_self rfl

/-- The names with a new one. -/
theorem nodup_pushed {p : RequestParams} {pair : Bytes × Bytes}
    (hnodup : (p.query.map Prod.fst).Nodup) (hnew : pair.1 ∉ p.query.map Prod.fst) :
    ((push p pair).query.map Prod.fst).Nodup := by
  rw [push, List.map_append, List.map_singleton]
  exact List.nodup_append.mpr ⟨hnodup, List.nodup_singleton _,
    fun a ha b hb hab => hnew (List.mem_singleton.mp hb ▸ hab ▸ ha)⟩

/-- A round pushes the one pair that its part means, or there is none that it
    could push. -/
theorem round_cases {p : RequestParams} {part text : Bytes} {next : Option Bytes}
    (hround : ∀ q n, queryRound p text = some (q, n) ↔
      ∃ pair, Means part pair ∧ p.query.length < QUERY_PARAM_MAX
        ∧ pair.1 ∉ p.query.map Prod.fst ∧ q = push p pair ∧ n = next) :
    (queryRound p text = none ∧ ∀ pair, Means part pair → p.query.length < QUERY_PARAM_MAX →
        pair.1 ∈ p.query.map Prod.fst)
      ∨ ∃ pair, queryRound p text = some (push p pair, next) ∧ Means part pair
        ∧ p.query.length < QUERY_PARAM_MAX ∧ pair.1 ∉ p.query.map Prod.fst
        ∧ ∀ other, Means part other → other.1 ∉ p.query.map Prod.fst → other = pair := by
  cases hrun : queryRound p text with
  | none =>
      refine .inl ⟨rfl, fun pair hmeans hroom => ?_⟩
      by_contra hnew
      have hsome := (hround (push p pair) next).mpr ⟨pair, hmeans, hroom, hnew, rfl, rfl⟩
      exact nomatch hrun.symm.trans hsome
  | some r =>
      obtain ⟨q, n⟩ := r
      obtain ⟨pair, hmeans, hroom, hnew, rfl, rfl⟩ := (hround q n).mp hrun
      refine .inr ⟨pair, rfl, hmeans, hroom, hnew, fun other hother hnew' => ?_⟩
      -- the round has one result, and the pushed pair can be read off it
      have hsame := (hround (push p other) n).mpr ⟨other, hother, hroom, hnew', rfl, rfl⟩
      have hpush := (Prod.mk.inj (Option.some.inj (hsame.symm.trans hrun))).1
      exact List.singleton_inj.mp (List.append_cancel_left (congrArg RequestParams.query hpush))

/-- **The loop** accepts the queries that list new pairs with distinct names, as
    many as fit. -/
theorem queryLoop_iff : ∀ (n : Nat) (p : RequestParams) {p' : RequestParams} {text : Bytes},
    (0 : Byte) ∉ text → p.query.length ≤ QUERY_PARAM_MAX → QUERY_PARAM_MAX < n + p.query.length →
    (p.query.map Prod.fst).Nodup →
    (queryLoop n p (text ++ [0]) = (0, p') ↔ Stores p text p') := by
  have hfail : ∀ q p' : RequestParams, ((-1 : Int), q) ≠ (0, p') :=
    fun q p' h => absurd (Prod.mk.inj h).1 (by decide)
  intro n
  induction n with
  | zero => intro p p' text _ hle hlt; omega
  | succ n ih =>
      intro p p' text h0 hle hlt hnodup
      by_cases htext : text = []
      · subst htext
        have hchar : charAt ([] ++ [0]) 0 = 0 := rfl
        rw [queryLoop, if_pos hchar, Prod.mk.injEq]
        constructor
        · rintro ⟨-, rfl⟩
          exact ⟨[], .nil, hle, by rwa [List.append_nil], by rw [List.append_nil]⟩
        · rintro ⟨pairs, hquery, -, -, rfl⟩
          obtain rfl := hquery.eq_nil
          exact ⟨rfl, by rw [List.append_nil]⟩
      have hchar : charAt (text ++ [0]) 0 ≠ 0 := by
        obtain ⟨c, s, rfl⟩ := List.exists_cons_of_ne_nil htext
        exact fun h => h0 (List.mem_cons.mpr (.inl h.symm))
      rw [queryLoop, if_neg hchar]
      by_cases hmem : ampersand ∈ text
      · -- the part in front of the first `&`, and the loop over the rest
        obtain ⟨part, rest, rfl, hamp⟩ := List.eq_append_cons_of_mem hmem
        have hp0 : (0 : Byte) ∉ part := fun hz => h0 (List.mem_append_left _ hz)
        have hr0 : (0 : Byte) ∉ rest :=
          fun hz => h0 (List.mem_append_right _ (List.mem_cons_of_mem _ hz))
        have hround : ∀ q next, queryRound p (part ++ ampersand :: rest ++ [0]) = some (q, next)
            ↔ ∃ pair, Means part pair ∧ p.query.length < QUERY_PARAM_MAX
              ∧ pair.1 ∉ p.query.map Prod.fst ∧ q = push p pair ∧ next = some (rest ++ [0]) := by
          intro q next
          refine queryRound_iff (some part.length) (rest ++ [0]) ?_ hp0 ?_
            (fun a ha => (Option.some.inj ha).symm)
          · dsimp only
            rw [List.append_assoc, List.set_append_right _ _ (Nat.le_refl _), Nat.sub_self]
            rfl
          · rw [List.append_assoc]
            exact strchrIndex_found hamp hp0 _
        rcases round_cases hround with ⟨hrun, hnone⟩ | ⟨pair, hrun, hmeans, hroom, hnew, honly⟩
        · rw [hrun]
          refine iff_of_false (hfail _ _) ?_
          rintro ⟨pairs, hquery, hlen, hnames, -⟩
          obtain ⟨pair, pairs', hmeans, -, rfl⟩ := (query_cons_iff hamp).mp hquery
          rw [List.length_cons] at hlen
          rw [List.map_append, List.map_cons] at hnames
          exact nodup_push hnames (hnone pair hmeans (by omega))
        · have hlen' : (push p pair).query.length = p.query.length + 1 := by
            rw [push, List.length_append, List.length_singleton]
          rw [hrun]
          dsimp only
          rw [ih (push p pair) hr0 (by omega) (by omega) (nodup_pushed hnodup hnew)]
          constructor
          · rintro ⟨pairs, hquery, hlen, hnames, rfl⟩
            refine ⟨pair :: pairs, .more hamp hmeans hquery, ?_, ?_, ?_⟩
            · rw [List.length_cons]
              omega
            · rwa [push, List.append_assoc] at hnames
            · rw [push, List.append_assoc]
              rfl
          · rintro ⟨pairs, hquery, hlen, hnames, rfl⟩
            obtain ⟨other, pairs', hother, hquery', rfl⟩ := (query_cons_iff hamp).mp hquery
            rw [List.length_cons] at hlen
            rw [List.map_append, List.map_cons] at hnames
            obtain rfl := honly other hother (nodup_push hnames)
            refine ⟨pairs', hquery', by omega, ?_, ?_⟩
            · rwa [push, List.append_assoc, List.map_append]
            · rw [push, List.append_assoc]
              rfl
      · -- the last part
        have hround : ∀ q next, queryRound p (text ++ [0]) = some (q, next)
            ↔ ∃ pair, Means text pair ∧ p.query.length < QUERY_PARAM_MAX
              ∧ pair.1 ∉ p.query.map Prod.fst ∧ q = push p pair ∧ next = none := by
          intro q next
          exact queryRound_iff none [] rfl h0
            (strchrIndex_missing hmem (by decide) h0 []) (fun a ha => nomatch ha)
        rcases round_cases hround with ⟨hrun, hnone⟩ | ⟨pair, hrun, hmeans, hroom, hnew, honly⟩
        · rw [hrun]
          refine iff_of_false (hfail _ _) ?_
          rintro ⟨pairs, hquery, hlen, hnames, -⟩
          obtain ⟨pair, hmeans, rfl⟩ := (query_part_iff hmem htext).mp hquery
          rw [List.length_singleton] at hlen
          rw [List.map_append, List.map_cons] at hnames
          exact nodup_push hnames (hnone pair hmeans (by omega))
        · rw [hrun]
          dsimp only
          rw [Prod.mk.injEq]
          constructor
          · rintro ⟨-, rfl⟩
            exact ⟨[pair], .last hmem hmeans, hroom, nodup_pushed hnodup hnew, rfl⟩
          · rintro ⟨pairs, hquery, hlen, hnames, rfl⟩
            obtain ⟨other, hother, rfl⟩ := (query_part_iff hmem htext).mp hquery
            rw [List.map_append, List.map_cons] at hnames
            obtain rfl := honly other hother (nodup_push hnames)
            exact ⟨rfl, rfl⟩

/-- **`query_parse`** accepts the queries that list at most twelve pairs with
    distinct names, and stores those pairs. -/
theorem queryParse_iff {p p' : RequestParams} {text : Bytes} (h0 : (0 : Byte) ∉ text) :
    queryParse p (some (text ++ [0])) = (0, p') ↔
      ∃ pairs, Query text pairs ∧ pairs.length ≤ QUERY_PARAM_MAX ∧ (pairs.map Prod.fst).Nodup
        ∧ p' = { p with query := pairs, invalid := false } := by
  have h := @queryLoop_iff (QUERY_PARAM_MAX + 1) { p with query := [], invalid := false } p' text
    h0 (Nat.zero_le _) (Nat.lt_succ_self _) List.nodup_nil
  simp only [Stores, List.nil_append, List.length_nil, Nat.zero_add] at h
  exact h

/-! ## What was stored -/

/-- Short of the bound on texts, `url_decode` decodes all of its text. -/
theorem urlDecodeLoop_decodes {s : Bytes} : ∀ {read : Nat} {p : Bytes},
    urlDecodeLoop read s = some p → read + 3 * p.length < RUNTIME_MAX_TEXT → Decodes s p := by
  induction s using percentDecode.induct with
  | case1 =>
      intro read p h hlen
      rw [urlDecodeLoop, if_neg (by omega)] at h
      exact Option.some.inj h ▸ .nil
  | case2 high low rest hi lo hl hh ih =>
      intro read p h hlen
      rw [urlDecodeLoop, if_neg (by omega), if_pos rfl] at h
      dsimp only at h
      rw [hh, hl] at h
      dsimp only at h
      split at h
      · cases h
      obtain ⟨q, hq, rfl⟩ := Option.map_eq_some_iff.mp h
      rw [List.length_cons] at hlen
      exact .escaped hh hl (ih hq (by omega))
  | case3 high low rest hno =>
      intro read p h hlen
      rw [urlDecodeLoop, if_neg (by omega), if_pos rfl] at h
      dsimp only at h
      split at h
      · rename_i hi lo hh hl
        exact absurd hl (hno hi lo hh)
      · cases h
  | case4 s hshort =>
      intro read p h hlen
      rw [urlDecodeLoop, if_neg (by omega), if_pos rfl] at h
      · cases h
      · exact hshort
  | case5 c s hc ih =>
      intro read p h hlen
      rw [urlDecodeLoop.eq_def] at h
      dsimp only at h
      rw [if_neg (by omega), if_neg hc] at h
      obtain ⟨q, hq, rfl⟩ := Option.map_eq_some_iff.mp h
      rw [List.length_cons] at hlen
      exact .literal hc (ih hq (by omega))

theorem urlDecode_whole {s p : Bytes} (h : urlDecode s = some p) (hlen : p.length < PARAM_VALUE_LEN) :
    percentDecode s = some p := by
  refine percentDecode_iff.mpr (urlDecodeLoop_decodes h ?_)
  have hcap : 3 * PARAM_VALUE_LEN < RUNTIME_MAX_TEXT := by decide
  omega

/-- A name and a value as they stand in a query. -/
def rawPart (raw : Bytes × Bytes) : Bytes := raw.1 ++ equals :: raw.2

/-- The stored pair is all of what the text says, and the name is not empty. -/
structure Whole (raw stored : Bytes × Bytes) : Prop where
  name_ne : raw.1 ≠ []
  name_noEquals : equals ∉ raw.1
  name_eq : percentDecode (spaced raw.1) = some stored.1
  value_eq : percentDecode (spaced raw.2) = some stored.2

theorem Means.whole {part : Bytes} {pair : Bytes × Bytes} (h : Means part pair) :
    ∃ raw, part = rawPart raw ∧ Whole raw pair := by
  obtain ⟨n, v, rfl, hne, heq, hdn, hdv⟩ := h.split
  exact ⟨(n, v), rfl, hne, heq, urlDecode_whole hdn h.name_fits, urlDecode_whole hdv h.value_fits⟩

/-- The parts with an ampersand between them. -/
def joined (parts : List Bytes) : Bytes := [ampersand].intercalate parts

theorem joined_cons (part : Bytes) {parts : List Bytes} (h : parts ≠ []) :
    joined (part :: parts) = part ++ ampersand :: joined parts := by
  rw [joined, List.intercalate_cons_of_ne_nil h, List.append_assoc]
  rfl

/-- The text a query was stored from. -/
theorem Query.raws {text : Bytes} {pairs : List (Bytes × Bytes)} (h : Query text pairs) :
    ∃ raws, List.Forall₂ Whole raws pairs
      ∧ (text = joined (raws.map rawPart)
        ∨ (raws ≠ [] ∧ text = joined (raws.map rawPart) ++ [ampersand])) := by
  induction h with
  | nil => exact ⟨[], .nil, .inl rfl⟩
  | last _ h =>
      obtain ⟨raw, rfl, hwhole⟩ := h.whole
      exact ⟨[raw], .cons hwhole .nil, .inl (by simp [joined])⟩
  | more _ h hrest ih =>
      obtain ⟨raw, rfl, hwhole⟩ := h.whole
      obtain ⟨raws, hraws, htext⟩ := ih
      refine ⟨raw :: raws, .cons hwhole hraws, ?_⟩
      by_cases hnil : raws = []
      · subst hnil
        rcases htext with rfl | ⟨hne, -⟩
        · exact .inr ⟨List.cons_ne_nil _ _, by simp [joined]⟩
        · exact absurd rfl hne
      · have hmap : raws.map rawPart ≠ [] := fun h => hnil (List.map_eq_nil_iff.mp h)
        rw [List.map_cons, joined_cons _ hmap]
        rcases htext with rfl | ⟨-, rfl⟩
        · exact .inl rfl
        · exact .inr ⟨List.cons_ne_nil _ _, by rw [List.append_assoc]; rfl⟩

/-! ## Looking up -/

theorem queryIndex_eq {p : RequestParams} (hlen : p.query.length ≤ QUERY_PARAM_MAX) (name : Bytes) :
    queryIndex p name = p.query.findIdx? (·.1 == name) := by
  rw [queryIndex, List.take_of_length_le hlen]

/-- `query_has` is asked for a name that was stored. -/
theorem queryHas_iff {p : RequestParams} (hlen : p.query.length ≤ QUERY_PARAM_MAX) (name : Bytes) :
    queryHas p name = true ↔ name ∈ p.query.map Prod.fst := by
  rw [queryHas, queryIndex_eq hlen, List.findIdx?_isSome, List.any_eq_true, List.mem_map]
  simp only [beq_iff_eq]

/-- `query_text` finds the one pair of the name. -/
theorem queryText_eq {p : RequestParams} (hlen : p.query.length ≤ QUERY_PARAM_MAX)
    (hnames : (p.query.map Prod.fst).Nodup) {pair : Bytes × Bytes} (hpair : pair ∈ p.query) :
    queryText p pair.1 = pair.2 := by
  rw [queryText, queryIndex_eq hlen]
  cases hfind : p.query.findIdx? (·.1 == pair.1) with
  | none => exact absurd (List.findIdx?_eq_none_iff.mp hfind pair hpair) (by simp)
  | some i =>
      obtain ⟨hi, hname, -⟩ := List.findIdx?_eq_some_iff_getElem.mp hfind
      have hsame : p.query[i] = pair :=
        List.inj_on_of_nodup_map hnames (List.getElem_mem hi) hpair (beq_iff_eq.mp hname)
      dsimp only
      rw [List.getD_eq_getElem?_getD, List.getElem?_eq_getElem hi, Option.getD_some, hsame]

/-! ## Form encoding -/

/-- The text is a form encoding of the value: a blank is a plus sign, a byte with
    a meaning of its own is escaped, and any byte can be. -/
inductive FormEncodes : Bytes → Bytes → Prop
  | nil : FormEncodes [] []
  | blank {value text : Bytes} (h : FormEncodes value text) :
      FormEncodes (space :: value) (plus :: text)
  | literal {c : Byte} {value text : Bytes} (hpercent : c ≠ percent) (hplus : c ≠ plus)
      (hamp : c ≠ ampersand) (hequals : c ≠ equals) (h : FormEncodes value text) :
      FormEncodes (c :: value) (c :: text)
  | escaped {c high low : Byte} {hi lo : Nat} {value text : Bytes}
      (hh : hexDigitValue high = some hi) (hl : hexDigitValue low = some lo)
      (hc : c.toNat = hi * 16 + lo) (h : FormEncodes value text) :
      FormEncodes (c :: value) (percent :: high :: low :: text)

/-- The part of a pair in a form. -/
def FormPart (pair : Bytes × Bytes) (part : Bytes) : Prop :=
  ∃ name value, FormEncodes pair.1 name ∧ FormEncodes pair.2 value
    ∧ part = name ++ equals :: value

theorem FormEncodes.length_le {value text : Bytes} (h : FormEncodes value text) :
    text.length ≤ 3 * value.length := by
  induction h with
  | nil => exact Nat.le_refl _
  | blank _ ih | literal _ _ _ _ _ ih | escaped _ _ _ _ ih =>
      simp only [List.length_cons]
      omega

theorem FormEncodes.ne_nil {value text : Bytes} (h : FormEncodes value text) (hne : value ≠ []) :
    text ≠ [] := by
  cases h with
  | nil => exact absurd rfl hne
  | blank _ | literal _ _ _ _ _ | escaped _ _ _ _ => exact List.cons_ne_nil _ _

/-- An encoding holds no separator and no NUL. -/
theorem FormEncodes.not_mem {value text : Bytes} (h : FormEncodes value text)
    (hprint : Printable value) : ampersand ∉ text ∧ equals ∉ text ∧ (0 : Byte) ∉ text := by
  induction h with
  | nil => exact ⟨List.not_mem_nil, List.not_mem_nil, List.not_mem_nil⟩
  | blank _ ih =>
      obtain ⟨ha, he, h0⟩ := ih (printable_cons.mp hprint).2
      simp only [List.mem_cons, not_or]
      exact ⟨⟨by decide, ha⟩, ⟨by decide, he⟩, by decide, h0⟩
  | literal _ _ hamp hequals _ ih =>
      obtain ⟨hc, hprint⟩ := printable_cons.mp hprint
      obtain ⟨ha, he, h0⟩ := ih hprint
      simp only [List.mem_cons, not_or]
      refine ⟨⟨hamp.symm, ha⟩, ⟨hequals.symm, he⟩, fun hz => ?_, h0⟩
      exact absurd (hz ▸ hc.1) (by decide)
  | escaped hh hl _ _ ih =>
      obtain ⟨ha, he, h0⟩ := ih (printable_cons.mp hprint).2
      have hdigit : ∀ {d c : Byte} {n : Nat}, hexDigitValue d = some n → hexDigitValue c = none →
          c ≠ d := fun hd hc => (RouteParams.hexDigit_ne hd hc).symm
      simp only [List.mem_cons, not_or]
      exact ⟨⟨by decide, hdigit hh rfl, hdigit hl rfl, ha⟩,
        ⟨by decide, hdigit hh rfl, hdigit hl rfl, he⟩,
        by decide, hdigit hh rfl, hdigit hl rfl, h0⟩

/-- Plus signs are blanks before escapes are bytes. -/
theorem FormEncodes.decodes {value text : Bytes} (h : FormEncodes value text)
    (hprint : Printable value) : Decodes (spaced text) value ∧ Printable (spaced text) := by
  have hkeep : ∀ {d : Byte} {n : Nat}, hexDigitValue d = some n →
      (if d = plus then space else d) = d ∧ 0x20 ≤ d ∧ d ≠ 0x7F := by
    intro d n hd
    refine ⟨if_neg (RouteParams.hexDigit_ne hd rfl), ?_, RouteParams.hexDigit_ne hd rfl⟩
    revert n
    cases d with
    | ofBitVec b =>
        revert b
        decide +kernel
  induction h with
  | nil => exact ⟨.nil, fun c hc => nomatch hc⟩
  | blank _ ih =>
      obtain ⟨hdec, htext⟩ := ih (printable_cons.mp hprint).2
      exact ⟨.literal (by decide) hdec, printable_cons.mpr ⟨by decide, htext⟩⟩
  | @literal c value text hpercent hplus _ _ _ ih =>
      obtain ⟨hc, hprint⟩ := printable_cons.mp hprint
      obtain ⟨hdec, htext⟩ := ih hprint
      have hs : spaced (c :: text) = c :: spaced text := by
        rw [spaced, List.map_cons, if_neg hplus]
        rfl
      rw [hs]
      exact ⟨.literal hpercent hdec, printable_cons.mpr ⟨hc, htext⟩⟩
  | @escaped c high low hi lo value text hh hl hc _ ih =>
      obtain ⟨hdec, htext⟩ := ih (printable_cons.mp hprint).2
      obtain ⟨hhigh, hhp⟩ := hkeep hh
      obtain ⟨hlow, hlp⟩ := hkeep hl
      have hs : spaced (percent :: high :: low :: text) = percent :: high :: low :: spaced text := by
        rw [spaced, List.map_cons, List.map_cons, List.map_cons, hhigh, hlow]
        rfl
      have hbyte : (hi * 16 + lo).toUInt8 = c := by
        rw [← hc]
        exact UInt8.toNat_inj.mp (by simp)
      rw [hs]
      refine ⟨hbyte ▸ .escaped hh hl hdec, ?_⟩
      exact printable_cons.mpr ⟨by decide, printable_cons.mpr
        ⟨hhp, printable_cons.mpr ⟨hlp, htext⟩⟩⟩

/-- A text that a parameter can hold. -/
structure Field (s : Bytes) : Prop where
  fits : s.length < PARAM_VALUE_LEN
  printable : Printable s

theorem FormEncodes.decode {value text : Bytes} (h : FormEncodes value text) (hv : Field value) :
    urlDecode (spaced text) = some value := by
  obtain ⟨hdec, hprint⟩ := h.decodes hv.printable
  have hlen := h.length_le
  have hfits := hv.fits
  have hcap : 3 * PARAM_VALUE_LEN < RUNTIME_MAX_TEXT := by decide
  refine (urlDecodeLoop_iff hprint ?_).mpr ⟨hdec, hv.printable⟩
  rw [spaced_length]
  omega

/-- A pair that a form can carry to the handler. -/
structure FieldPair (pair : Bytes × Bytes) : Prop where
  name_ne : pair.1 ≠ []
  name : Field pair.1
  value : Field pair.2

theorem FormPart.means {pair : Bytes × Bytes} {part : Bytes} (h : FormPart pair part)
    (hp : FieldPair pair) : Means part pair ∧ ampersand ∉ part ∧ (0 : Byte) ∉ part := by
  obtain ⟨name, value, hn, hv, rfl⟩ := h
  obtain ⟨hna, hne, hn0⟩ := hn.not_mem hp.name.printable
  obtain ⟨hva, -, hv0⟩ := hv.not_mem hp.value.printable
  refine ⟨⟨⟨name, value, rfl, hn.ne_nil hp.name_ne, hne, hn.decode hp.name, hv.decode hp.value⟩,
    hp.name.fits, hp.value.fits⟩, ?_, ?_⟩
  · simp only [List.mem_append, List.mem_cons, not_or]
    exact ⟨hna, by decide, hva⟩
  · simp only [List.mem_append, List.mem_cons, not_or]
    exact ⟨hn0, by decide, hv0⟩

/-- A form is a query of its pairs. -/
theorem query_joined {pairs : List (Bytes × Bytes)} {parts : List Bytes}
    (h : List.Forall₂ FormPart pairs parts) (hp : ∀ pair ∈ pairs, FieldPair pair) :
    Query (joined parts) pairs ∧ (0 : Byte) ∉ joined parts := by
  induction h with
  | nil => exact ⟨.nil, List.not_mem_nil⟩
  | @cons pair part pairs parts hpart hrest ih =>
      obtain ⟨hpair, hpairs⟩ := List.forall_mem_cons.mp hp
      obtain ⟨hmeans, hamp, h0⟩ := hpart.means hpair
      obtain ⟨hquery, hq0⟩ := ih hpairs
      by_cases hnil : parts = []
      · subst hnil
        cases hrest
        rw [joined, List.intercalate_singleton]
        exact ⟨.last hamp hmeans, h0⟩
      · rw [joined_cons part hnil]
        refine ⟨.more hamp hmeans hquery, ?_⟩
        simp only [List.mem_append, List.mem_cons, not_or]
        exact ⟨h0, by decide, hq0⟩

/-! ## The claim -/

/-- **Query strings round-trip.**  Any form encoding of at most twelve pairs with
    distinct names gives each value back and no other name; and what is stored of
    any text that is accepted is the whole of what it says. -/
theorem query_round_trip (p : RequestParams) :
    (∀ (pairs : List (Bytes × Bytes)) (parts : List Bytes), pairs.length ≤ QUERY_PARAM_MAX →
        (pairs.map Prod.fst).Nodup → (∀ pair ∈ pairs, FieldPair pair) →
        List.Forall₂ FormPart pairs parts →
        ∃ p', queryParse p (some (joined parts ++ [0])) = (0, p') ∧ p'.pathValue = p.pathValue
          ∧ (∀ pair ∈ pairs, queryText p' pair.1 = pair.2)
          ∧ ∀ name, queryHas p' name = true ↔ name ∈ pairs.map Prod.fst)
      ∧ ∀ (text : Bytes) (p' : RequestParams), (0 : Byte) ∉ text →
        queryParse p (some (text ++ [0])) = (0, p') →
        p'.pathValue = p.pathValue ∧ p'.query.length ≤ QUERY_PARAM_MAX
          ∧ (p'.query.map Prod.fst).Nodup
          ∧ ∃ raws, List.Forall₂ Whole raws p'.query
            ∧ (text = joined (raws.map rawPart)
              ∨ (raws ≠ [] ∧ text = joined (raws.map rawPart) ++ [ampersand])) := by
  constructor
  · intro pairs parts hlen hnames hfields hparts
    obtain ⟨hquery, h0⟩ := query_joined hparts hfields
    refine ⟨{ p with query := pairs, invalid := false },
      (queryParse_iff h0).mpr ⟨pairs, hquery, hlen, hnames, rfl⟩, rfl, ?_, ?_⟩
    · exact fun pair hpair => queryText_eq hlen hnames hpair
    · exact fun name => queryHas_iff hlen name
  · intro text p' h0 h
    obtain ⟨pairs, hquery, hlen, hnames, rfl⟩ := (queryParse_iff h0).mp h
    exact ⟨rfl, hlen, hnames, hquery.raws⟩

end QueryParse
