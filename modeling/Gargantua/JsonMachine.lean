import Gargantua.JsonTokens
import Mathlib.Logic.Relation

/-! # The frame machine over a derivation

    `json_parse` keeps a stack of frames and moves one step at a time.  In front
    of the text of a value it runs to the end of that value, leaves the stack as
    it was and appends the tokens of the value; the induction is over the
    derivation, with the elements of a container as its second case. -/

namespace JsonMachine

open CString JsonParse JsonGrammar JsonLexical JsonDecode

/-! ## Limits -/

/-- What the tokenizer asks of the names of one object. -/
structure NamesOk (ks : List Str) : Prop where
  count : ks.length ≤ JSON_MAX_OBJECT_KEYS
  short : ∀ k ∈ ks, k.render.length < JSON_MAX_KEY_BYTES
  distinct : (ks.map fun k => cstr k.decode).Nodup

theorem NamesOk.left {ks ks' : List Str} (h : NamesOk (ks ++ ks')) : NamesOk ks where
  count := by
    have hc := h.count
    rw [List.length_append] at hc
    omega
  short k hk := h.short k (List.mem_append_left ks' hk)
  distinct := by
    have hd := h.distinct
    rw [List.map_append] at hd
    exact (List.nodup_append.mp hd).1

theorem namesOk_nil : NamesOk [] where
  count := Nat.zero_le _
  short _ hk := nomatch hk
  distinct := List.nodup_nil

/-! ## White space -/

theorem isSpace_iff {c : Byte} : isSpace c = true ↔ IsWs c := by
  simp only [isSpace, IsWs, Bool.or_eq_true, beq_iff_eq]
  constructor
  · rintro (((h | h) | h) | h)
    · exact Or.inl h
    · exact Or.inr (Or.inl h)
    · exact Or.inr (Or.inr (Or.inr h))
    · exact Or.inr (Or.inr (Or.inl h))
  · rintro (h | h | h | h)
    · exact Or.inl (Or.inl (Or.inl h))
    · exact Or.inl (Or.inl (Or.inr h))
    · exact Or.inr h
    · exact Or.inl (Or.inr h)

theorem skip_ws (w : Ws) (rest : Bytes) :
    (w.bytes ++ rest).dropWhile isSpace = rest.dropWhile isSpace :=
  List.dropWhile_append_of_pos fun c hc => isSpace_iff.mpr (w.isWs c hc)

/-- White space splits off as a piece of the grammar. -/
theorem exists_ws (rest : Bytes) : ∃ w : Ws, rest = w.bytes ++ rest.dropWhile isSpace := by
  obtain ⟨w, heq, hw⟩ := Scan.dropWhile_split isSpace rest
  exact ⟨⟨w, fun c hc => isSpace_iff.mp (hw c hc)⟩, heq⟩

/-! ## First bytes -/

/-- A byte that a value starts with. -/
def Starts (c : Byte) : Prop :=
  isSpace c = false ∧ c ≠ RBRACKET ∧ c ≠ RBRACE ∧ c ≠ COMMA ∧ c ≠ COLON

instance (c : Byte) : Decidable (Starts c) := inferInstanceAs (Decidable (_ ∧ _))

theorem starts_digit {c : Byte} (h : c = 0x2D ∨ IsDigit c) :
    Starts c ∧ c ≠ QUOTE ∧ ¬ (c = LBRACE ∨ c = LBRACKET) := by
  revert h
  cases c with
  | ofBitVec b =>
      revert b
      decide +kernel

theorem Prim.render_cons (p : Prim) :
    ∃ (c : Byte) (t : Bytes), p.render = c :: t ∧ Starts c ∧ c ≠ QUOTE
      ∧ ¬ (c = LBRACE ∨ c = LBRACKET) := by
  cases p with
  | true_ => exact ⟨0x74, lit "rue", rfl, by decide⟩
  | false_ => exact ⟨0x66, lit "alse", rfl, by decide⟩
  | null => exact ⟨0x6E, lit "ull", rfl, by decide⟩
  | num n =>
      obtain ⟨c, t, heq, hc⟩ := Number.render_cons n
      exact ⟨c, t, heq, starts_digit hc⟩

theorem Kind.opening_starts (k : Kind) : Starts k.opening := by
  cases k <;> decide

theorem Kind.closing_not_space (k : Kind) : isSpace k.closing = false := by
  cases k <;> rfl

/-- The text of a value starts with a byte of a value. -/
theorem Json.render_cons (v : Json .value) :
    ∃ (c : Byte) (t : Bytes), v.render = c :: t ∧ Starts c := by
  cases v with
  | prim p =>
      obtain ⟨c, t, heq, hc, -⟩ := Prim.render_cons p
      exact ⟨c, t, heq, hc⟩
  | str s => exact ⟨QUOTE, _, rfl, by decide⟩
  | empty k w => exact ⟨_, _, rfl, Kind.opening_starts k⟩
  | full k es => exact ⟨_, _, rfl, Kind.opening_starts k⟩

theorem isDelimiter_ws (w : Ws) {rest : Bytes} (h : isDelimiter rest = true) :
    isDelimiter (w.bytes ++ rest) = true := by
  obtain ⟨bs, hbs⟩ := w
  cases bs with
  | nil => exact h
  | cons c bs =>
      have hc := isSpace_iff.mpr (hbs c List.mem_cons_self)
      show (isSpace c || c == COMMA || c == RBRACKET || c == RBRACE) = true
      rw [hc]
      rfl

theorem isDelimiter_closing (k : Kind) (rest : Bytes) :
    isDelimiter (k.closing :: rest) = true := by
  cases k <;> rfl

/-! ## Turns -/

/-- The state behind the white space. -/
def skipSpace (st : Scanner) : Scanner := { st with rest := st.rest.dropWhile isSpace }

section Machine

variable (js : Bytes) (max : Nat)

/-- One turn of the loop of `json_parse`. -/
def Turn (st st' : Scanner) : Prop :=
  (skipSpace st).rest ≠ [] ∧ scanStep js max (skipSpace st) = some st'

/-- Any number of turns. -/
def Reaches : Scanner → Scanner → Prop := Relation.ReflTransGen (Turn js max)

variable {js max}

theorem turn_of {rest rest' : Bytes} {c : Byte} {toks : List JsonToken} {stack : List Frame}
    {seen done : Bool} {st' : Scanner} (w : Ws) (hrest : rest = w.bytes ++ c :: rest')
    (hc : isSpace c = false)
    (h : scanStep js max ⟨c :: rest', toks, stack, seen, done⟩ = some st') :
    Turn js max ⟨rest, toks, stack, seen, done⟩ st' := by
  have hskip : rest.dropWhile isSpace = c :: rest' := by
    rw [hrest, skip_ws, List.dropWhile_cons_of_neg (by rw [hc]; exact Bool.false_ne_true)]
  have hst : skipSpace ⟨rest, toks, stack, seen, done⟩ = ⟨c :: rest', toks, stack, seen, done⟩ := by
    rw [skipSpace, hskip]
  refine ⟨?_, ?_⟩
  · rw [hst]
    exact List.cons_ne_nil c rest'
  · rw [hst]
    exact h

theorem offset_append (pre rest : Bytes) : offset (pre ++ rest) rest = pre.length := by
  rw [offset, List.length_append, Nat.add_sub_cancel]

theorem setEnd_append (a : List JsonToken) (t : JsonToken) (b : List JsonToken) (e : Int) :
    setEnd (a ++ t :: b) a.length e = a ++ { t with end_ := e } :: b := by
  induction a with
  | nil => rfl
  | cons u a ih =>
      show u :: setEnd (a ++ t :: b) a.length e = _
      rw [ih]
      rfl

/-! ## Tokens -/

/-- `token_string` over a string with its quotes. -/
theorem tokenString_complete (s : Str) {pre rest : Bytes} {toks : List JsonToken}
    {stack : List Frame} {seen done : Bool} {parent : Int}
    (hjs : js = pre ++ (s.quoted ++ rest)) (hroom : toks.length < max) :
    tokenString js max ⟨s.quoted ++ rest, toks, stack, seen, done⟩ parent
      = some ⟨rest, toks ++ (Json.str s).tokens pre.length toks.length parent, stack, seen,
          done⟩ := by
  have hoff : offset js (s.quoted ++ rest) = pre.length := by
    rw [hjs, offset_append]
  have htail : (s.quoted ++ rest).tail = s.render ++ QUOTE :: rest := by
    show (s.render ++ [QUOTE]) ++ rest = _
    rw [List.append_assoc]
    rfl
  have hquoted : s.quoted ++ rest = QUOTE :: (s.render ++ QUOTE :: rest) :=
    congrArg (QUOTE :: ·) htail
  have hoff' : offset js (QUOTE :: rest) = pre.length + 1 + s.render.length := by
    have hsplit : js = (pre ++ QUOTE :: s.render) ++ QUOTE :: rest := by
      rw [hjs, hquoted, List.append_assoc]
      rfl
    rw [hsplit, offset_append, List.length_append, List.length_cons]
    omega
  have hloop : stringLoop (s.quoted ++ rest).length (s.quoted ++ rest).tail
      = some (QUOTE :: rest) := by
    rw [htail]
    refine stringLoop_complete s rest ?_
    rw [hquoted, List.length_cons, List.length_append]
    omega
  rw [tokenString]
  dsimp only
  rw [tokenAlloc, if_neg (Nat.not_le.mpr hroom), hloop]
  dsimp only
  rw [setEnd_append, hoff, hoff']
  rfl

/-- `token_primitive` over a primitive in front of a delimiter. -/
theorem tokenPrimitive_complete (p : Prim) {pre rest : Bytes} {toks : List JsonToken}
    {stack : List Frame} {seen done : Bool} {parent : Int}
    (hjs : js = pre ++ (p.render ++ rest)) (hdelim : isDelimiter rest = true)
    (hroom : toks.length < max) :
    tokenPrimitive js max ⟨p.render ++ rest, toks, stack, seen, done⟩ parent
      = some ⟨rest, toks ++ (Json.prim p).tokens pre.length toks.length parent, stack, seen,
          done⟩ := by
  have hoff : offset js (p.render ++ rest) = pre.length := by
    rw [hjs, offset_append]
  have hoff' : offset js rest = pre.length + p.render.length := by
    rw [hjs, ← List.append_assoc, offset_append, List.length_append]
  rw [tokenPrimitive]
  dsimp only
  rw [scanPrimitive_complete p hdelim]
  dsimp only
  rw [if_pos hdelim, tokenAlloc, if_neg (Nat.not_le.mpr hroom), Option.map_some, setEnd_append,
    hoff, hoff']
  rfl

/-! ## Frames -/

/-- The states of a frame: behind the opening bracket, behind a comma and behind
    an element. -/
def Kind.first : Kind → FrameState
  | .arr => .arrValueOrEnd
  | .obj => .objKeyOrEnd

def Kind.required : Kind → FrameState
  | .arr => .arrValue
  | .obj => .objKey

def Kind.next : Kind → FrameState
  | .arr => .arrNext
  | .obj => .objNext

/-- The frame of an open container: its token stands behind `base`, and behind it
    are the tokens of the elements so far, whose names are `ks`. -/
structure Open (js : Bytes) (k : Kind) (f : Frame) (ks : List Str)
    (base : List JsonToken) (elems : List JsonToken) : Prop where
  token : f.token = base.length
  members : k = .obj → f.members = ks.length ∧ Members js f.token ks elems

theorem head_cons (c : Byte) (rest : Bytes) : (c :: rest).head? = some c := rfl

theorem head_ne {c d : Byte} (h : c ≠ d) (rest : Bytes) : ¬ (c :: rest).head? = some d :=
  fun heq => h (Option.some.inj heq)

/-- An opening bracket pushes a frame. -/
theorem scanValue_open (k : Kind) {pre rest : Bytes} {toks : List JsonToken}
    {stack : List Frame} {seen done : Bool} {parent : Int}
    (hjs : js = pre ++ k.opening :: rest) (hroom : toks.length < max)
    (hdepth : stack.length < JSON_MAX_DEPTH) :
    scanValue js max ⟨k.opening :: rest, toks, stack, seen, done⟩ parent
      = some ⟨rest,
          toks ++ [{ type := k.type, start := pre.length, end_ := -1, parent := parent }],
          { token := toks.length, type := k.type, state := Kind.first k, members := 0 }
            :: stack, seen, done⟩ := by
  have hoff : offset js (k.opening :: rest) = pre.length := by
    rw [hjs, offset_append]
  have hq : ¬ k.opening = QUOTE := by cases k <;> decide
  have hb : k.opening = LBRACE ∨ k.opening = LBRACKET := by
    cases k
    · exact Or.inr rfl
    · exact Or.inl rfl
  rw [scanValue]
  dsimp only
  rw [if_neg hq, if_pos hb, if_neg (Nat.not_le.mpr hdepth), tokenAlloc,
    if_neg (Nat.not_le.mpr hroom), Option.map_some, hoff]
  cases k <;> rfl

/-- A closing bracket pops the frame, behind an element or right behind the
    opening bracket. -/
theorem scanStep_close (k : Kind) {pre rest : Bytes} {base elems : List JsonToken}
    {opn : JsonToken} {f : Frame} {stack : List Frame} {seen done : Bool}
    (hjs : js = pre ++ k.closing :: rest)
    (hstate : f.state = Kind.first k ∨ f.state = Kind.next k) (htoken : f.token = base.length) :
    scanStep js max ⟨k.closing :: rest, base ++ opn :: elems, f :: stack, seen, done⟩
      = some ⟨rest, base ++ { opn with end_ := (pre.length + 1 : Nat) } :: elems, stack, seen,
          done || stack.isEmpty⟩ := by
  have hoff : offset js (k.closing :: rest) = pre.length := by
    rw [hjs, offset_append]
  have hclose : closeContainer js ⟨k.closing :: rest, base ++ opn :: elems, f :: stack, seen,
        done⟩ f
      = ⟨rest, base ++ { opn with end_ := (pre.length + 1 : Nat) } :: elems, stack, seen,
          done || stack.isEmpty⟩ := by
    rw [closeContainer]
    dsimp only
    rw [htoken, setEnd_append, hoff]
    rfl
  rw [← hclose]
  show scanFrame js max _ f = _
  rw [scanFrame]
  cases k with
  | arr =>
      rcases hstate with h | h
      · rw [h]
        show scanArrayElement js max _ f = _
        rw [scanArrayElement]
        dsimp only
        rw [if_pos (show (Kind.arr.closing :: rest).head? = some RBRACKET from rfl), if_neg (by rw [h]; decide)]
      · rw [h]
        show scanSeparator js _ f RBRACKET .arrValue = _
        rw [scanSeparator]
        dsimp only
        rw [if_neg (head_ne (by decide) rest), if_neg (fun h => h (head_cons _ rest))]
  | obj =>
      rcases hstate with h | h
      · rw [h]
        show scanObjectKey js max _ f = _
        rw [scanObjectKey]
        dsimp only
        rw [if_pos (show (Kind.obj.closing :: rest).head? = some RBRACE from rfl), if_neg (by rw [h]; decide)]
      · rw [h]
        show scanSeparator js _ f RBRACE .objKey = _
        rw [scanSeparator]
        dsimp only
        rw [if_neg (head_ne (by decide) rest), if_neg (fun h => h (head_cons _ rest))]

/-- A comma asks for another element. -/
theorem scanStep_comma (k : Kind) {rest : Bytes} {toks : List JsonToken} {f : Frame}
    {stack : List Frame} {seen done : Bool} (hstate : f.state = Kind.next k) :
    scanStep js max ⟨COMMA :: rest, toks, f :: stack, seen, done⟩
      = some ⟨rest, toks, { f with state := Kind.required k } :: stack, seen, done⟩ := by
  show scanFrame js max _ f = _
  rw [scanFrame, hstate]
  cases k with
  | arr =>
      show scanSeparator js _ f RBRACKET .arrValue = _
      rw [scanSeparator]
      dsimp only
      rw [if_pos (head_cons _ rest)]
      rfl
  | obj =>
      show scanSeparator js _ f RBRACE .objKey = _
      rw [scanSeparator]
      dsimp only
      rw [if_pos (head_cons _ rest)]
      rfl

/-- The duplicate test on a new name. -/
theorem duplicateKey_iff {f : Frame} {ks : List Str} {base elems : List JsonToken}
    {opn t : JsonToken} {key : Str} (hopen : Open js .obj f ks base elems)
    (hspans : Spans js t key.render) (htype : t.type = .str)
    (hlen : ∀ k ∈ ks, k.render.length < JSON_MAX_KEY_BYTES)
    (hkey : key.render.length < JSON_MAX_KEY_BYTES) :
    duplicateKey js (base ++ opn :: elems ++ [t]) f.token (base ++ opn :: elems).length = true
      ↔ ∃ k ∈ ks, cstr k.decode = cstr key.decode := by
  have hget : (base ++ opn :: elems ++ [t])[(base ++ opn :: elems).length]? = some t :=
    List.getElem?_concat_length
  have hbetween : ((base ++ opn :: elems ++ [t]).take (base ++ opn :: elems).length).drop
      (f.token + 1) = elems := by
    rw [List.take_left, hopen.token, ← List.drop_drop, List.drop_left]
    rfl
  rw [duplicateKey, hget]
  dsimp only
  rw [hbetween, hspans.jsonCopyStr htype hkey]
  exact duplicateLoop_iff (hopen.members rfl).2 hlen rfl

/-- `scan_object_key` in front of a name. -/
theorem scanStep_key (key : Str) {pre rest : Bytes} {base elems : List JsonToken}
    {opn : JsonToken} {f : Frame} {stack : List Frame} {ks : List Str} {seen done : Bool}
    (hjs : js = pre ++ (key.quoted ++ rest))
    (hstate : f.state = .objKeyOrEnd ∨ f.state = .objKey) (hopen : Open js .obj f ks base elems)
    (hnames : NamesOk (ks ++ [key])) (hroom : (base ++ opn :: elems).length < max) :
    scanStep js max ⟨key.quoted ++ rest, base ++ opn :: elems, f :: stack, seen, done⟩
      = some ⟨rest, base ++ opn :: elems
            ++ (Json.str key).tokens pre.length (base ++ opn :: elems).length f.token,
          { f with state := .objColon, members := f.members + 1 } :: stack, seen, done⟩ := by
  obtain ⟨t, ht, hspans, htype⟩ : ∃ t : JsonToken,
      (Json.str key).tokens pre.length (base ++ opn :: elems).length f.token = [t]
        ∧ Spans js t key.render ∧ t.type = .str := by
    refine ⟨_, rfl, ⟨pre ++ [QUOTE], QUOTE :: rest, ?_, ?_, ?_⟩, rfl⟩
    · rw [hjs, List.append_assoc]
      show _ = pre ++ QUOTE :: (key.render ++ QUOTE :: rest)
      show pre ++ QUOTE :: (key.render ++ [QUOTE] ++ rest) = _
      rw [List.append_assoc]
      rfl
    · rw [List.length_append]
      rfl
    · rw [List.length_append]
      rfl
  have hkey : key.render.length < JSON_MAX_KEY_BYTES :=
    hnames.short key (List.mem_append_right ks List.mem_cons_self)
  have hmembers : ¬ f.members ≥ JSON_MAX_OBJECT_KEYS := by
    have hc := hnames.count
    rw [(hopen.members rfl).1]
    rw [List.length_append, List.length_singleton] at hc
    omega
  have hdup : ¬ duplicateKey js (base ++ opn :: elems ++ [t]) f.token
      (base ++ opn :: elems).length = true := by
    rw [duplicateKey_iff hopen hspans htype hnames.left.short hkey]
    rintro ⟨k, hk, heq⟩
    have hd := hnames.distinct
    rw [List.map_append, List.nodup_append] at hd
    exact hd.2.2 _ (List.mem_map_of_mem hk) _ List.mem_cons_self heq
  have hlen : ¬ (t.end_ - t.start < 0 ∨ t.end_ - t.start ≥ JSON_MAX_KEY_BYTES) := by
    obtain ⟨p, q, -, hs, he⟩ := hspans
    rw [hs, he]
    omega
  have hhead : (key.quoted ++ rest).head? = some QUOTE := rfl
  have hget : (base ++ opn :: elems ++ [t])[(base ++ opn :: elems).length]? = some t :=
    List.getElem?_concat_length
  have hmain : scanObjectKey js max
      ⟨key.quoted ++ rest, base ++ opn :: elems, f :: stack, seen, done⟩ f
      = some ⟨rest, base ++ opn :: elems ++ [t],
          { f with state := .objColon, members := f.members + 1 } :: stack, seen, done⟩ := by
    rw [scanObjectKey]
    dsimp only
    rw [if_neg (by rw [hhead]; decide), if_neg (fun h => h hhead),
      tokenString_complete key hjs hroom, ht]
    dsimp only
    rw [if_neg hmembers, hget]
    dsimp only
    rw [if_neg hlen, if_neg hdup]
    rfl
  rw [ht, ← hmain]
  show scanFrame js max _ f = _
  rw [scanFrame]
  rcases hstate with h | h
  · rw [h]
  · rw [h]

end Machine

end JsonMachine
