import Gargantua.Lib.Truncation
import Gargantua.UnescapeInPlace

/-! # Copying a string into a short buffer (`json_copy_str` of `src/http/json.c`)

    The copy stops when the output is full, so that of a long string only the
    start is there.  But a `\u` escape whose encoding does not fit ends nothing:
    `utf8_encode` writes no byte and returns `0`, and the loop goes on behind it.
    A shorter character then takes the room that was left.

    The copy is followed store by store: into which byte of the output, and how
    far the text was read.  `truncated_copy_iff` says for which strings and sizes
    the copy is a truncation. -/

namespace TruncatedCopy

open CString JsonParse JsonGrammar JsonDecode Truncation

/-! ## The source -/

/-- `out[position] = byte`, when `i` was `read`. -/
structure Store where
  read : Nat
  position : Nat
  byte : Byte
  deriving Repr, DecidableEq

/-- The stores of one round, from `out + o` on. -/
def storesAt (i : Nat) : Nat → Bytes → List Store
  | _, [] => []
  | o, b :: bs => ⟨i, o, b⟩ :: storesAt i (o + 1) bs

/-- What the loop of `json_copy_str` has stored, and its `o` behind it. -/
structure Copied where
  stores : List Store
  o : Nat
  deriving Repr, DecidableEq

/-- A round, and what the others did. -/
def Copied.after (first : List Store) (r : Copied) : Copied := ⟨first ++ r.stores, r.o⟩

/-- The loop of `json_copy_str`: the bytes from `i` up to the end of the token
    are left. -/
def copyInto (isStr : Bool) (outsz : Nat) : Nat → Nat → Nat → Bytes → Copied
  | 0, _, o, _ => ⟨[], o⟩
  | _ + 1, _, o, [] => ⟨[], o⟩
  | fuel + 1, i, o, c :: js =>
      if o + 1 < outsz then
        if !isStr || c != BACKSLASH then
          (copyInto isStr outsz fuel (i + 1) (o + 1) js).after (storesAt (i + 1) o [c])
        else
          match copyEscape (outsz - o - 1) js with
          | none => ⟨[], o⟩
          | some (out, rest) =>
              -- `out` is empty where `utf8_encode` returns `0`
              (copyInto isStr outsz fuel (i + 1 + (js.length - rest.length)) (o + out.length)
                rest).after (storesAt (i + 1 + (js.length - rest.length)) o out)
      else ⟨[], o⟩

/-- `json_copy_str`: the stores, and the index of the terminating NUL; `none`
    where it returns before it writes. -/
def jsonCopyStrInto (js : Bytes) (t : JsonToken) (outsz : Nat) : Option Copied :=
  if outsz = 0 then none
  else if t.end_ < t.start then some ⟨[], 0⟩
  else some (copyInto (t.type == .str) outsz (slice js t).length t.start 0 (slice js t))

def Store.apply (out : Bytes) (w : Store) : Bytes := out.set w.position w.byte

/-- The output behind the stores and `out[o] = '\0'`. -/
def Copied.memory (r : Copied) (out : Bytes) : Bytes := (r.stores.foldl Store.apply out).set r.o 0

/-- What was stored while the text was read from `i` to `j`. -/
def Copied.during (r : Copied) (i j : Nat) : Bytes :=
  (r.stores.filter fun w => decide (i < w.read ∧ w.read ≤ j)).map Store.byte

/-- The bytes are those of `jsonCopyStr`. -/
theorem copyInto_bytes (isStr : Bool) (outsz fuel : Nat) : ∀ (i o : Nat) (js : Bytes),
    (copyInto isStr outsz fuel i o js).stores.map Store.byte = copyLoop isStr outsz fuel o js := by
  have hround : ∀ (i o : Nat) (bs : Bytes), (storesAt i o bs).map Store.byte = bs := by
    intro i o bs
    induction bs generalizing o with
    | nil => rfl
    | cons b bs ih => exact congrArg (b :: ·) (ih (o + 1))
  induction fuel with
  | zero => exact fun i o js => rfl
  | succ fuel ih =>
      intro i o js
      cases js with
      | nil => rfl
      | cons c js =>
          rw [copyInto, copyLoop]
          by_cases hroom : o + 1 < outsz
          swap
          · rw [if_neg hroom, if_neg hroom]
            rfl
          rw [if_pos hroom, if_pos hroom]
          by_cases hplain : (!isStr || c != BACKSLASH) = true
          · rw [if_pos hplain, if_pos hplain, Copied.after, List.map_append, hround, ih]
            rfl
          · rw [if_neg hplain, if_neg hplain]
            cases copyEscape (outsz - o - 1) js with
            | none => rfl
            | some r =>
                show List.map Store.byte (storesAt _ o r.1 ++ _) = _
                rw [List.map_append, hround, ih]

theorem jsonCopyStrInto_bytes (js : Bytes) (t : JsonToken) {outsz : Nat} {r : Copied}
    (h : jsonCopyStrInto js t outsz = some r) :
    r.stores.map Store.byte = jsonCopyStr js t outsz := by
  rw [jsonCopyStrInto] at h
  rw [jsonCopyStr]
  split_ifs at h with hzero hspan
  · rw [if_pos (.inr hspan), ← Option.some.inj h]
    rfl
  · rw [if_neg (not_or.mpr ⟨hzero, hspan⟩), ← Option.some.inj h]
    exact copyInto_bytes _ _ _ _ _ _

/-! ## Truncations -/

/-- A `\u` escape: `utf8_encode` writes it. -/
def coded : Chr → Bool
  | .scalar _ _ => false
  | .escape _ => false
  | .unicode _ _ _ => true
  | .pair _ _ _ _ => true

/-- The copy of `s`, whose text starts at `start`, into `out` of size `outsz` is a
    truncation: it is inside of the output and terminated, what is in front of
    the terminator is the start of the decoded string, all of it when there is
    room, and no character that is not there in full has a later one behind it. -/
structure Truncates (s : Str) (start outsz : Nat) (out : Bytes) (r : Copied) : Prop where
  inside : (∀ w ∈ r.stores, w.position < outsz) ∧ r.o < outsz
  frame : (r.memory out).length = out.length ∧ (r.memory out).drop outsz = out.drop outsz
  terminated : (r.memory out)[r.o]? = some 0
  front : (r.memory out).take r.o <+: s.decode
  all : s.decode.length < outsz → (r.memory out).take r.o = s.decode
  noSkip : ∀ pre ch post, s = pre ++ ch :: post →
    (∃ w ∈ r.stores, start + (Str.render (pre ++ [ch])).length < w.read) →
    r.during (start + (Str.render pre).length) (start + (Str.render (pre ++ [ch])).length)
      = ch.decode

/-! ## Stores of a part of the text -/

/-- These stores put `bs` at `o`, while the text is read from `i` to `j`. -/
structure Made (i j o : Nat) (bs : Bytes) (stores : List Store) : Prop where
  bytes : stores.map Store.byte = bs
  positions : stores.map Store.position = List.range' o bs.length
  reads : ∀ w ∈ stores, i < w.read ∧ w.read ≤ j

theorem Made.nil (i j o : Nat) : Made i j o [] [] :=
  ⟨rfl, rfl, fun _ hw => absurd hw List.not_mem_nil⟩

theorem Made.length {i j o : Nat} {bs : Bytes} {stores : List Store} (h : Made i j o bs stores) :
    stores.length = bs.length := by
  rw [← h.bytes, List.length_map]

theorem made_storesAt {i j : Nat} (h : i < j) (o : Nat) (bs : Bytes) :
    Made i j o bs (storesAt j o bs) := by
  induction bs generalizing o with
  | nil => exact Made.nil i j o
  | cons b bs ih =>
      have hrest := ih (o + 1)
      constructor
      · exact congrArg (b :: ·) hrest.bytes
      · exact congrArg (o :: ·) hrest.positions
      · intro w hw
        rcases List.mem_cons.mp hw with rfl | hw
        · exact ⟨h, Nat.le_refl j⟩
        · exact hrest.reads w hw

/-- Stores, and those of the text behind. -/
theorem Made.append {i j k o : Nat} {bs cs : Bytes} {stores stores' : List Store}
    (h : Made i j o bs stores) (h' : Made j k (o + bs.length) cs stores') (hij : i ≤ j)
    (hjk : j ≤ k) : Made i k o (bs ++ cs) (stores ++ stores') where
  bytes := by rw [List.map_append, h.bytes, h'.bytes]
  positions := by
    rw [List.map_append, h.positions, h'.positions, List.length_append, List.range'_append_1]
  reads := by
    intro w hw
    rcases List.mem_append.mp hw with hw | hw
    · have hr := h.reads w hw
      omega
    · have hr := h'.reads w hw
      omega

/-- **Stores one behind the other write over a part of the memory.** -/
theorem Made.apply {i j : Nat} {stores : List Store} : ∀ {o : Nat} {bs front back : Bytes},
    Made i j o bs stores → front.length = o → bs.length ≤ back.length →
    stores.foldl Store.apply (front ++ back) = front ++ (bs ++ back.drop bs.length) := by
  induction stores with
  | nil =>
      intro o bs front back h _ _
      obtain rfl : [] = bs := h.bytes
      rfl
  | cons w stores ih =>
      intro o bs front back h hfront hback
      obtain ⟨hbytes, hpositions, hreads⟩ := h
      cases bs with
      | nil => cases hbytes
      | cons b bs =>
          cases back with
          | nil => cases hback
          | cons d back =>
              rw [List.map_cons, List.cons.injEq] at hbytes
              rw [List.map_cons, List.length_cons, List.range'_succ, List.cons.injEq] at hpositions
              -- the first store appends its byte to the part in front
              have hone : Store.apply (front ++ d :: back) w = (front ++ [b]) ++ back := by
                rw [Store.apply, hpositions.1, hbytes.1, ← hfront, List.set_append_right _ _
                  (Nat.le_refl _), Nat.sub_self, List.set_cons_zero, ← List.append_cons]
              have hrest : Made i j (o + 1) bs stores :=
                ⟨hbytes.2, hpositions.2, fun v hv => hreads v (List.mem_cons_of_mem w hv)⟩
              have hlen : (front ++ [b]).length = o + 1 := by
                rw [List.length_append, hfront]
                rfl
              rw [List.foldl_cons, hone, ih hrest hlen (Nat.le_of_succ_le_succ hback),
                ← List.append_cons]
              rfl

/-! ## The loop, character by character -/

/-- The stores of a string: of each character as much as fits. -/
inductive Over (room : Nat) : Nat → Nat → Str → List Store → Prop where
  | nil (i o : Nat) : Over room i o [] []
  | cons {i o : Nat} {ch : Chr} {s : Str} {first rest : List Store} :
      Made i (i + ch.render.length) o (fit Chr.decode coded (room - o) ch) first →
      Over room (i + ch.render.length) (o + (fit Chr.decode coded (room - o) ch).length) s rest →
      Over room i o (ch :: s) (first ++ rest)

/-- The loop ends where the output is full. -/
theorem copyInto_full (room fuel i : Nat) (js : Bytes) :
    copyInto true (room + 1) fuel i room js = ⟨[], room⟩ := by
  cases fuel with
  | zero => rfl
  | succ fuel =>
      cases js with
      | nil => rfl
      | cons c js =>
          rw [copyInto, if_neg (Nat.lt_irrefl _)]

/-- A character of which the loop stores as much as fits, `fuel` being enough for
    the text behind it. -/
def Reads (room fuel i o : Nat) (ch : Chr) (js : Bytes) : Prop :=
  ∃ (fuel' : Nat) (first : List Store), js.length ≤ fuel' ∧
    Made i (i + ch.render.length) o (fit Chr.decode coded (room - o) ch) first ∧
    copyInto true (room + 1) fuel i o (ch.render ++ js)
      = (copyInto true (room + 1) fuel' (i + ch.render.length)
          (o + (fit Chr.decode coded (room - o) ch).length) js).after first

theorem reads_full {room fuel i : Nat} (ch : Chr) {js : Bytes} (hfuel : js.length ≤ fuel) :
    Reads room fuel i room ch js := by
  have hnone : fit Chr.decode coded (room - room) ch = [] := by rw [Nat.sub_self, fit_zero]
  refine ⟨fuel, [], hfuel, ?_, ?_⟩
  · rw [hnone]
    exact Made.nil _ _ _
  · rw [hnone, copyInto_full]
    exact (congrArg (Copied.after []) (copyInto_full room fuel _ js)).symm

/-- Bytes that are no backslash are stored until the output is full. -/
theorem copyInto_plain {room : Nat} {bs : Bytes} (hbs : ∀ c ∈ bs, c ≠ BACKSLASH) (js : Bytes) :
    ∀ {fuel i o : Nat}, o ≤ room →
      ∃ first, Made i (i + bs.length) o (bs.take (room - o)) first ∧
        copyInto true (room + 1) (bs.length + fuel) i o (bs ++ js)
          = (copyInto true (room + 1) fuel (i + bs.length) (o + (bs.take (room - o)).length)
              js).after first := by
  induction bs with
  | nil =>
      intro fuel i o _
      refine ⟨[], ?_, ?_⟩
      · rw [List.take_nil]
        exact Made.nil _ _ _
      · rw [List.take_nil, List.length_nil, Nat.zero_add, Nat.add_zero, Nat.add_zero]
        rfl
  | cons c bs ih =>
      intro fuel i o ho
      -- the output is full already, or it takes this byte
      rcases Nat.eq_or_lt_of_le ho with rfl | hlt
      · refine ⟨[], ?_, ?_⟩
        · rw [Nat.sub_self, List.take_zero]
          exact Made.nil _ _ _
        · rw [Nat.sub_self, List.take_zero, copyInto_full]
          exact (congrArg (Copied.after []) (copyInto_full o fuel _ js)).symm
      · obtain ⟨first, hmade, hrun⟩ :=
          @ih (fun d hd => hbs d (List.mem_cons_of_mem c hd)) fuel (i + 1) _ hlt
        have htake : (c :: bs).take (room - o) = c :: bs.take (room - (o + 1)) := by
          rw [show room - o = room - (o + 1) + 1 by omega, List.take_succ_cons]
        have hi : i + (c :: bs).length = i + 1 + bs.length := by
          rw [List.length_cons]
          omega
        have hfuel : (c :: bs).length + fuel = (bs.length + fuel) + 1 := by
          rw [List.length_cons]
          omega
        have hc : (!true || c != BACKSLASH) = true := by
          rw [Bool.or_eq_true]
          exact .inr (bne_iff_ne.mpr (hbs c List.mem_cons_self))
        refine ⟨storesAt (i + 1) o [c] ++ first, ?_, ?_⟩
        · rw [htake, hi]
          exact (made_storesAt (Nat.lt_succ_self i) o [c]).append hmade (Nat.le_succ i)
            (Nat.le_add_right _ _)
        · rw [hfuel, List.cons_append, copyInto, if_pos (Nat.succ_lt_succ hlt), if_pos hc, hrun, hi,
            htake, List.length_cons, Nat.add_comm (List.length _) 1, ← Nat.add_assoc, Copied.after,
            Copied.after, Copied.after, List.append_assoc]

/-- An escape is one round. -/
theorem reads_escape {room fuel i o : Nat} {ch : Chr} {esc js out : Bytes} (ho : o < room)
    (hrender : ch.render = BACKSLASH :: esc) (hfuel : ch.render.length + js.length ≤ fuel)
    (hesc : copyEscape (room - o) (esc ++ js) = some (out, js))
    (hout : fit Chr.decode coded (room - o) ch = out) : Reads room fuel i o ch js := by
  have hlen : ch.render.length = esc.length + 1 := by rw [hrender, List.length_cons]
  obtain ⟨k, rfl⟩ := Nat.exists_eq_add_of_le' (show 1 ≤ fuel by omega)
  -- what `copyEscape` has left tells how far it has read
  have hi : i + 1 + ((esc ++ js).length - js.length) = i + ch.render.length := by
    rw [List.length_append, hlen]
    omega
  have hcap : room + 1 - o - 1 = room - o := by omega
  refine ⟨k, storesAt (i + ch.render.length) o out, by omega, ?_, ?_⟩
  · rw [hout]
    exact made_storesAt (by omega) o out
  · rw [hout, hrender, List.cons_append, copyInto, if_pos (Nat.succ_lt_succ ho), if_neg (by decide),
      hcap, hesc]
    dsimp only
    rw [hi, hrender]

/-- What `utf8_encode` writes of a character is what fits of it. -/
theorem utf8Encode_fit {ch : Chr} {c : Char} (hdecode : ch.decode = String.utf8EncodeChar c)
    (hcoded : coded ch = true) (cap : Nat) :
    fit Chr.decode coded cap ch = utf8Encode c.toNat cap := by
  by_cases h : (String.utf8EncodeChar c).length ≤ cap
  · rw [utf8Encode_eq c h, fit_fits (by rw [hdecode]; exact h), hdecode]
  · have hlt := Nat.not_le.mp h
    rw [utf8Encode_nil c hlt, fit_whole (by rw [hdecode]; exact hlt) hcoded]

/-- **Of every character the loop stores as much as fits**: the bytes of a scalar
    value until the output is full, and of an escape all or nothing. -/
theorem reads_char (ch : Chr) (js : Bytes) {room fuel i o : Nat} (ho : o ≤ room)
    (hfuel : ch.render.length + js.length ≤ fuel) : Reads room fuel i o ch js := by
  rcases Nat.eq_or_lt_of_le ho with rfl | hlt
  · exact reads_full ch (by omega)
  cases ch with
  | scalar c h =>
      obtain ⟨k, rfl⟩ := Nat.exists_eq_add_of_le (Nat.le_trans (Nat.le_add_right _ _) hfuel)
      have hfit : fit Chr.decode coded (room - o) (.scalar c h)
          = (String.utf8EncodeChar c).take (room - o) := fit_take rfl
      obtain ⟨first, hmade, hrun⟩ :=
        @copyInto_plain _ _ (scalar_no_backslash h.2.2) js k i _ ho
      rw [← hfit] at hmade hrun
      exact ⟨k, first, by omega, hmade, hrun⟩
  | escape e =>
      exact reads_escape hlt rfl hfuel (copyEscape_letter e _ js)
        (fit_fits (show 1 ≤ room - o by omega))
  | unicode u h1 h2 =>
      exact reads_escape hlt rfl hfuel (copyEscape_unicode h1 h2 _ js)
        (utf8Encode_fit rfl rfl _)
  | pair hi lo h1 h2 =>
      exact reads_escape hlt rfl hfuel (copyEscape_pair h1 h2 _ js) (utf8Encode_fit rfl rfl _)

/-- The loop over the text of a string. -/
theorem copyInto_over {room : Nat} (s : Str) : ∀ {fuel i o : Nat}, o ≤ room →
    s.render.length ≤ fuel →
    ∃ stores, copyInto true (room + 1) fuel i o s.render = ⟨stores, o + stores.length⟩
      ∧ Over room i o s stores := by
  induction s with
  | nil =>
      intro fuel i o _ _
      refine ⟨[], ?_, Over.nil i o⟩
      cases fuel <;> rfl
  | cons ch s ih =>
      intro fuel i o ho hfuel
      have hlen : (Str.render (ch :: s)).length = ch.render.length + (Str.render s).length :=
        List.length_append
      have hfit := @fit_length _ _ Chr.decode coded (room - o) ch
      rw [hlen] at hfuel
      obtain ⟨fuel', first, hf, hmade, hrun⟩ := @reads_char ch (Str.render s) _ _ i _ ho hfuel
      obtain ⟨rest, hrest, hover⟩ := @ih fuel' (i + ch.render.length)
        (o + (fit Chr.decode coded (room - o) ch).length) (by omega) hf
      refine ⟨first ++ rest, ?_, Over.cons hmade hover⟩
      show copyInto true (room + 1) fuel i o (ch.render ++ Str.render s) = _
      rw [hrun, hrest, Copied.after, List.length_append, hmade.length, Nat.add_assoc]

theorem render_append (s t : Str) : Str.render (s ++ t) = s.render ++ t.render := List.flatMap_append

/-- The stores of a string put what fits of it. -/
theorem Over.made {room i o : Nat} {s : Str} {stores : List Store} (h : Over room i o s stores) :
    Made i (i + s.render.length) o (fits Chr.decode coded (room - o) s) stores := by
  induction h with
  | nil i o => exact Made.nil _ _ _
  | @cons i o ch s first rest hfirst hrest ih =>
      have hlen : (Str.render (ch :: s)).length = ch.render.length + (Str.render s).length :=
        List.length_append
      rw [Nat.sub_add_eq, Nat.add_assoc] at ih
      rw [hlen, fits]
      exact hfirst.append ih (Nat.le_add_right _ _) (by omega)

/-- The stores of two parts of a string. -/
theorem Over.split {room : Nat} {pre post : Str} : ∀ {i o : Nat} {stores : List Store},
    Over room i o (pre ++ post) stores →
    ∃ front back, stores = front ++ back ∧ Over room i o pre front
      ∧ Over room (i + pre.render.length) (o + (fits Chr.decode coded (room - o) pre).length)
          post back := by
  induction pre with
  | nil =>
      intro i o stores h
      exact ⟨[], stores, rfl, Over.nil i o, h⟩
  | cons ch pre ih =>
      intro i o stores h
      cases h with
      | @cons _ _ _ _ first rest hfirst hrest =>
          obtain ⟨front, back, rfl, hfront, hback⟩ := ih hrest
          refine ⟨first ++ front, back, (List.append_assoc _ _ _).symm, Over.cons hfirst hfront, ?_⟩
          have hlen : (Str.render (ch :: pre)).length = ch.render.length + (Str.render pre).length :=
            List.length_append
          rw [hlen, fits, List.length_append, ← Nat.add_assoc, ← Nat.add_assoc, ← Nat.sub_add_eq]
          exact hback

/-! ## Skipping -/

/-- Of three parts of the stores, the middle one is what was stored in between,
    and the last one what was stored later. -/
theorem during_middle {r : Copied} {i i₁ i₂ j o o₁ o₂ : Nat} {bs mid bs' : Bytes}
    {a b c : List Store} (hr : r.stores = a ++ (b ++ c)) (ha : Made i i₁ o bs a)
    (hb : Made i₁ i₂ o₁ mid b) (hc : Made i₂ j o₂ bs' c) (hi : i₁ ≤ i₂) :
    r.during i₁ i₂ = mid ∧ ((∃ w ∈ r.stores, i₂ < w.read) ↔ bs' ≠ []) := by
  constructor
  · have hfront : a.filter (fun w => decide (i₁ < w.read ∧ w.read ≤ i₂)) = [] := by
      rw [List.filter_eq_nil_iff]
      intro w hw
      have hread := ha.reads w hw
      simp
      omega
    have hmid : b.filter (fun w => decide (i₁ < w.read ∧ w.read ≤ i₂)) = b := by
      rw [List.filter_eq_self]
      intro w hw
      simpa using hb.reads w hw
    have hback : c.filter (fun w => decide (i₁ < w.read ∧ w.read ≤ i₂)) = [] := by
      rw [List.filter_eq_nil_iff]
      intro w hw
      have hread := hc.reads w hw
      simp
      omega
    rw [Copied.during, hr, List.filter_append, List.filter_append, hfront, hmid, hback,
      List.append_nil, List.nil_append, hb.bytes]
  · rw [hr]
    constructor
    · rintro ⟨w, hw, hlt⟩ hnil
      obtain rfl : c = [] := List.eq_nil_of_length_eq_zero (by rw [hc.length, hnil]; rfl)
      rw [List.append_nil] at hw
      rcases List.mem_append.mp hw with hw | hw
      · have hread := ha.reads w hw
        omega
      · have hread := hb.reads w hw
        omega
    · intro hne
      cases c with
      | nil => exact absurd hc.bytes.symm hne
      | cons w c =>
          exact ⟨w, List.mem_append_right a (List.mem_append_right b List.mem_cons_self),
            (hc.reads w List.mem_cons_self).1⟩

/-- **A character is skipped exactly where the text has a gap.** -/
theorem noSkip_iff {room start : Nat} {s : Str} {r : Copied} (h : Over room start 0 s r.stores) :
    (∀ pre ch post, s = pre ++ ch :: post →
      (∃ w ∈ r.stores, start + (Str.render (pre ++ [ch])).length < w.read) →
      r.during (start + (Str.render pre).length) (start + (Str.render (pre ++ [ch])).length)
        = ch.decode) ↔ NoGap Chr.decode coded room s := by
  have hparts : ∀ pre ch post, s = pre ++ ch :: post →
      r.during (start + (Str.render pre).length) (start + (Str.render (pre ++ [ch])).length)
          = fit Chr.decode coded (room - (fits Chr.decode coded room pre).length) ch
        ∧ ((∃ w ∈ r.stores, start + (Str.render (pre ++ [ch])).length < w.read)
          ↔ fits Chr.decode coded (room - (fits Chr.decode coded room (pre ++ [ch])).length) post
            ≠ []) := by
    rintro pre ch post rfl
    obtain ⟨a, back, hstores, ha, hback⟩ := h.split
    -- the stores are those of `pre`, of `ch` and of `post`
    cases hback with
    | @cons _ _ _ _ b c hb hc =>
        have hlen : (Str.render (pre ++ [ch])).length
            = (Str.render pre).length + ch.render.length := by
          rw [render_append, List.length_append]
          exact congrArg _ (congrArg List.length (List.append_nil ch.render))
        have hupto : (fits Chr.decode coded room (pre ++ [ch])).length
            = (fits Chr.decode coded room pre).length
              + (fit Chr.decode coded (room - (fits Chr.decode coded room pre).length) ch).length := by
          rw [fits_append, List.length_append, fits, fits, List.append_nil]
        have hmade := hc.made
        rw [Nat.sub_zero, Nat.zero_add] at hb hmade
        rw [hlen, hupto, ← Nat.add_assoc]
        exact during_middle hstores ha.made hb hmade (Nat.le_add_right _ _)
  constructor
  · intro hskip pre ch post hs hpost
    obtain ⟨hduring, hlater⟩ := hparts pre ch post hs
    rw [← hduring]
    exact hskip pre ch post hs (hlater.mpr hpost)
  · intro hgap pre ch post hs hlater
    obtain ⟨hduring, hiff⟩ := hparts pre ch post hs
    rw [hduring]
    exact hgap pre ch post hs (hiff.mp hlater)

/-! ## The claim of the copy -/

theorem decode_ne_nil (ch : Chr) : ch.decode ≠ [] := by
  have henc : ∀ c : Char, String.utf8EncodeChar c ≠ [] :=
    fun c => List.ne_nil_of_length_pos (encode_length c).1
  cases ch with
  | scalar c h => exact henc c
  | escape e => exact List.cons_ne_nil _ _
  | unicode u h1 h2 => exact henc (Utf8.scalar u.value (unicode_valid h1 h2))
  | pair hi lo h1 h2 => exact henc (Utf8.scalar (pairValue hi lo) (pair_valid h1 h2))

/-- The output behind a copy. -/
theorem memory_eq {room start : Nat} {s : Str} {r : Copied} {out : Bytes}
    (h : Over room start 0 s r.stores) (ho : r.o = r.stores.length) (hout : room < out.length) :
    r.o = (fits Chr.decode coded room s).length
      ∧ r.memory out = fits Chr.decode coded room s ++ 0 :: out.drop (r.o + 1) := by
  have hmade := h.made
  have hlen := @fits_length _ _ Chr.decode coded room s
  have hro : r.o = (fits Chr.decode coded room s).length := by
    rw [ho, hmade.length, Nat.sub_zero]
  rw [Nat.sub_zero] at hmade
  have happly := @Made.apply _ _ _ _ _ [] out hmade rfl (by omega)
  refine ⟨hro, ?_⟩
  rw [List.nil_append, List.nil_append] at happly
  rw [Copied.memory, happly, hro, List.set_append_right _ _ (Nat.le_refl _), Nat.sub_self,
    List.drop_eq_getElem_cons (by omega), List.set_cons_zero]

/-- **A copy is a truncation exactly when the string is sealed.** -/
theorem truncates_iff {room start : Nat} {s : Str} {r : Copied} {out : Bytes}
    (h : Over room start 0 s r.stores) (ho : r.o = r.stores.length) (hout : room < out.length) :
    Truncates s start (room + 1) out r ↔ Sealed Chr.decode coded room s := by
  obtain ⟨hro, hmemory⟩ := memory_eq h ho hout
  have hlen := @fits_length _ _ Chr.decode coded room s
  have hfront : (r.memory out).take r.o = fits Chr.decode coded room s := by
    rw [hmemory, hro, List.take_left]
  constructor
  · intro ht
    exact NoGap.isSealed decode_ne_nil ((noSkip_iff h).mp ht.noSkip)
  · intro hsealed
    constructor
    · refine ⟨fun w hw => ?_, by omega⟩
      have hmem : w.position ∈ r.stores.map Store.position := List.mem_map_of_mem hw
      have hmade := h.made
      rw [hmade.positions, List.mem_range'_1, Nat.sub_zero] at hmem
      omega
    · have hsize : (r.memory out).length = out.length := by
        rw [hmemory, List.length_append, List.length_cons, List.length_drop, ← hro]
        omega
      have hnul : (fits Chr.decode coded room s ++ [0]).length = r.o + 1 := by
        rw [List.length_append, ← hro]
        rfl
      refine ⟨hsize, ?_⟩
      rw [hmemory, List.append_cons, List.drop_append, List.drop_of_length_le (by omega), hnul,
        List.drop_drop, List.nil_append]
      exact congrArg (List.drop · out) (by omega)
    · rw [hmemory, hro, List.getElem?_append_right (Nat.le_refl _), Nat.sub_self]
      rfl
    · rw [hfront]
      exact fits_front decode_ne_nil hsealed
    · intro hfits
      rw [hfront]
      exact fits_all (Nat.le_of_lt_succ hfits)
    · exact (noSkip_iff h).mpr (hsealed.noGap decode_ne_nil)

/-- **Truncated copies**: for every string token of an accepted text and every
    output of at least one byte, the copy is a truncation if and only if no
    character fits behind the first `\u` escape that does not. -/
theorem truncated_copy_iff {js : Bytes} {max : Nat} {toks : List JsonToken} {t : JsonToken}
    (hparse : jsonParse js max = some toks) (ht : t ∈ toks) (htype : t.type = .str) :
    (∃ s : Str, Spans js t s.render) ∧
    ∀ s : Str, Spans js t s.render → ∀ (outsz : Nat) (out : Bytes), 1 ≤ outsz →
      outsz ≤ out.length → ∃ r, jsonCopyStrInto js t outsz = some r
        ∧ (Truncates s t.start outsz out r ↔ Sealed Chr.decode coded (outsz - 1) s) := by
  constructor
  · obtain ⟨k, hk⟩ := List.mem_iff_getElem?.mp ht
    obtain ⟨s, hs, -⟩ := (UnescapeInPlace.leaf_spans hparse hk).1 htype
    exact ⟨s, hs⟩
  · intro s hs outsz out hone hout
    obtain ⟨room, rfl⟩ := Nat.exists_eq_add_of_le' hone
    have hslice := hs.slice
    obtain ⟨pre, post, -, hstart, hend⟩ := hs
    have hspan : ¬ t.end_ < t.start := by
      rw [hstart, hend]
      omega
    obtain ⟨stores, hrun, hover⟩ :=
      @copyInto_over _ s _ t.start 0 (Nat.zero_le room) (Nat.le_refl _)
    refine ⟨⟨stores, 0 + stores.length⟩, ?_, truncates_iff hover (Nat.zero_add _) hout⟩
    rw [jsonCopyStrInto, if_neg (Nat.succ_ne_zero room), if_neg hspan, hslice, htype]
    exact congrArg some hrun

/-- The string `\u00e9a`: two bytes of output take the escape. -/
theorem exists_acute : ∃ s : Str, s.render = lit "\\u00e9a" ∧ s.decode = [0xC3, 0xA9, 0x61]
    ∧ Sealed Chr.decode coded 2 s := by
  have h0 : (0x30 : Byte) ≤ 0x30 ∧ (0x30 : Byte) ≤ 0x39 := by decide
  have h9 : (0x30 : Byte) ≤ 0x39 ∧ (0x39 : Byte) ≤ 0x39 := by decide
  have he : (0x61 : Byte) ≤ 0x65 ∧ (0x65 : Byte) ≤ 0x66 := by decide
  have ha : 0x20 ≤ 'a'.toNat ∧ 'a'.toNat ≠ 0x22 ∧ 'a'.toNat ≠ 0x5C := by decide
  obtain ⟨u, hu, hvalue⟩ : ∃ u : Hex4, u.render = lit "00e9" ∧ u.value = 0xE9 :=
    ⟨⟨⟨0x30, .inl h0⟩, ⟨0x30, .inl h0⟩, ⟨0x65, .inr (.inr he)⟩, ⟨0x39, .inl h9⟩⟩, rfl,
      by simp [Hex4.value, HexDigit.value]⟩
  have hhigh : ¬ IsHighSurrogate u.value := by
    rw [hvalue]
    decide
  have hlow : ¬ IsLowSurrogate u.value := by
    rw [hvalue]
    decide
  have hdecode : (Chr.unicode u hhigh hlow).decode = [0xC3, 0xA9] := by
    rw [Chr.decode, Utf8.encode_two, Utf8.scalar_toNat, hvalue]
    · rfl
    · rw [Utf8.scalar_toNat, hvalue]
      decide
    · rw [Utf8.scalar_toNat, hvalue]
      decide
  refine ⟨[.unicode u hhigh hlow, .scalar 'a' ha], ?_, ?_, ?_⟩
  · show BACKSLASH :: 0x75 :: (u.render ++ _) = _
    rw [hu]
    rfl
  · show (Chr.unicode u hhigh hlow).decode ++ _ = _
    rw [hdecode]
    rfl
  · intro pre ch post hs hcoded _ hpast
    cases pre with
    | nil =>
        obtain ⟨rfl, -⟩ := List.cons.inj hs
        -- the escape fits
        rw [hdecode] at hpast
        exact absurd hpast (by decide)
    | cons c pre =>
        obtain ⟨-, hs⟩ := List.cons.inj hs
        cases pre with
        | nil =>
            obtain ⟨rfl, -⟩ := List.cons.inj hs
            -- the letter is no escape
            cases hcoded
        | cons d pre =>
            obtain ⟨-, hs⟩ := List.cons.inj hs
            exact absurd hs.symm (List.append_ne_nil_of_right_ne_nil pre (List.cons_ne_nil ch post))

/-- An output of three bytes: the escape is there, the letter is not. -/
theorem truncated_copy_small :
    ∃ s r, Str.render s = lit "\\u00e9a"
      ∧ jsonCopyStrInto (lit "\"\\u00e9a\"") ⟨.str, 1, 8, -1⟩ 3 = some r
      ∧ Truncates s 1 3 [7, 7, 7, 7] r := by
  obtain ⟨s, hs, -, hsealed⟩ := exists_acute
  have hspans : Spans (lit "\"\\u00e9a\"") ⟨.str, 1, 8, -1⟩ s.render :=
    ⟨[0x22], [0x22], by rw [hs]; rfl, rfl, by rw [hs]; rfl⟩
  obtain ⟨-, hcopy⟩ := @truncated_copy_iff (lit "\"\\u00e9a\"") 4 [⟨.str, 1, 8, -1⟩] ⟨.str, 1, 8, -1⟩
    (by decide +kernel) List.mem_cons_self rfl
  obtain ⟨r, hr, hiff⟩ := hcopy s hspans 3 [7, 7, 7, 7] (by decide) (by decide)
  exact ⟨s, r, hs, hr, hiff.mpr hsealed⟩

/-- An output of two bytes: the escape is skipped, and the letter is there. -/
theorem truncated_copy_skips :
    ¬ ∀ (js : Bytes) (max : Nat) (toks : List JsonToken) (t : JsonToken) (s : Str) (outsz : Nat)
        (out : Bytes) (r : Copied), jsonParse js max = some toks → t ∈ toks → t.type = .str →
      Spans js t s.render → 1 ≤ outsz → outsz ≤ out.length → jsonCopyStrInto js t outsz = some r →
      Truncates s t.start outsz out r := by
  intro h
  obtain ⟨s, hs, hdecode, -⟩ := exists_acute
  have hspans : Spans (lit "\"\\u00e9a\"") ⟨.str, 1, 8, -1⟩ s.render :=
    ⟨[0x22], [0x22], by rw [hs]; rfl, rfl, by rw [hs]; rfl⟩
  have ht := h (lit "\"\\u00e9a\"") 4 [⟨.str, 1, 8, -1⟩] ⟨.str, 1, 8, -1⟩ s 2 [7, 7]
    ⟨[⟨8, 0, 0x61⟩], 1⟩ (by decide +kernel) List.mem_cons_self rfl hspans (by decide) (by decide)
    (by decide +kernel)
  have hfront := ht.front
  rw [hdecode] at hfront
  exact absurd hfront (by decide)

end TruncatedCopy
