import Gargantua.JsonGrammar
import Mathlib.Data.List.Basic

/-! # JSON values, and programs that print them

    A `Value` is what a JSON text says, white space and escapes aside.  A
    derivation of the grammar has one (`Json.meaning`), and a program that
    writes JSON prints one, without white space and with an escape for each
    byte of a string.

    Printing is correct exactly where the strings are UTF-8: then the grammar
    derives the text with the value that was printed (`document_iff`). -/

namespace JsonValue

open CString JsonGrammar

/-! ## Values -/

/-- The name of an element, in an object. -/
inductive Name : Kind → Type where
  | item : Name .arr
  | member (text : Bytes) : Name .obj

def Name.texts : {k : Kind} → Name k → List Bytes
  | _, .item => []
  | _, .member text => [text]

/-- Values, and the elements of a container.  A primitive is its text. -/
inductive Tree : Cat → Type where
  | prim (text : Bytes) : Tree .value
  | str (text : Bytes) : Tree .value
  | container (k : Kind) (es : Tree (.elements k)) : Tree .value
  | nil (k : Kind) : Tree (.elements k)
  | cons {k : Kind} (n : Name k) (v : Tree .value) (es : Tree (.elements k)) : Tree (.elements k)

abbrev Value : Type := Tree .value

def members : List (Bytes × Value) → Tree (.elements .obj)
  | [] => .nil .obj
  | (name, v) :: ms => .cons (.member name) v (members ms)

def items : List Value → Tree (.elements .arr)
  | [] => .nil .arr
  | v :: vs => .cons .item v (items vs)

/-- An object of these members, and an array of these items. -/
def object (ms : List (Bytes × Value)) : Value := .container .obj (members ms)

def array (vs : List Value) : Value := .container .arr (items vs)

namespace Tree

/-- The names of the elements. -/
def names : {c : Cat} → Tree c → List Bytes
  | _, .prim _ => []
  | _, .str _ => []
  | _, .container _ _ => []
  | _, .nil _ => []
  | _, .cons n _ es => n.texts ++ es.names

/-- Every primitive, every string and the names of every container satisfy
    these predicates. -/
def Every (prim str : Bytes → Prop) (names : List Bytes → Prop) : {c : Cat} → Tree c → Prop
  | _, .prim text => prim text
  | _, .str text => str text
  | _, .container _ es => names es.names ∧ es.Every prim str names
  | _, .nil _ => True
  | _, .cons _ v es => v.Every prim str names ∧ es.Every prim str names

variable {prim str : Bytes → Prop} {ns : List Bytes → Prop}

theorem names_members : ∀ ms : List (Bytes × Value), (members ms).names = ms.map Prod.fst
  | [] => rfl
  | (name, _) :: ms => congrArg (name :: ·) (names_members ms)

theorem names_items : ∀ vs : List Value, (items vs).names = []
  | [] => rfl
  | _ :: vs => names_items vs

theorem every_members : ∀ ms : List (Bytes × Value),
    (members ms).Every prim str ns ↔ ∀ m ∈ ms, m.2.Every prim str ns
  | [] => iff_of_true trivial (fun _ h => nomatch h)
  | (name, v) :: ms => by
      rw [members, Every, every_members ms, List.forall_mem_cons]

theorem every_items : ∀ vs : List Value,
    (items vs).Every prim str ns ↔ ∀ v ∈ vs, v.Every prim str ns
  | [] => iff_of_true trivial (fun _ h => nomatch h)
  | v :: vs => by
      rw [items, Every, every_items vs, List.forall_mem_cons]

theorem every_object (ms : List (Bytes × Value)) :
    (object ms).Every prim str ns ↔ ns (ms.map Prod.fst) ∧ ∀ m ∈ ms, m.2.Every prim str ns := by
  rw [object, Every, names_members, every_members]

theorem every_array (vs : List Value) :
    (array vs).Every prim str ns ↔ ns [] ∧ ∀ v ∈ vs, v.Every prim str ns := by
  rw [array, Every, names_items, every_items]

theorem Every.imp {prim' str' : Bytes → Prop} {ns' : List Bytes → Prop}
    (hprim : ∀ t, prim t → prim' t) (hstr : ∀ t, str t → str' t) (hns : ∀ l, ns l → ns' l) :
    ∀ {c : Cat} {t : Tree c}, t.Every prim str ns → t.Every prim' str' ns' := by
  intro c t
  induction t with
  | prim text => exact hprim text
  | str text => exact hstr text
  | container k es ih => exact fun h => ⟨hns _ h.1, ih h.2⟩
  | nil k => exact id
  | cons n v es ihv ihes => exact fun h => ⟨ihv h.1, ihes h.2⟩

theorem Every.and {prim' str' : Bytes → Prop} {ns' : List Bytes → Prop} :
    ∀ {c : Cat} {t : Tree c}, t.Every prim str ns → t.Every prim' str' ns' →
      t.Every (fun x => prim x ∧ prim' x) (fun x => str x ∧ str' x) (fun l => ns l ∧ ns' l) := by
  intro c t
  induction t with
  | prim text => exact And.intro
  | str text => exact And.intro
  | container k es ih => exact fun h h' => ⟨⟨h.1, h'.1⟩, ih h.2 h'.2⟩
  | nil k => exact fun _ _ => trivial
  | cons n v es ihv ihes => exact fun h h' => ⟨ihv h.1 h'.1, ihes h.2 h'.2⟩

end Tree

/-! ## The value of a derivation -/

/-- The name in a label. -/
def Label.name : {k : Kind} → Label k → Name k
  | _, .item _ => .item
  | _, .member _ key _ _ => .member key.decode

/-- What a derivation says. -/
def Json.meaning : {c : Cat} → Json c → Tree c
  | _, .prim p => .prim p.render
  | _, .str s => .str s.decode
  | _, .empty k _ => .container k (.nil k)
  | _, .full k es => .container k (Json.meaning es)
  | _, .last k l v _ => .cons (Label.name l) (Json.meaning v) (.nil k)
  | _, .more _ l v _ es => .cons (Label.name l) (Json.meaning v) (Json.meaning es)

/-- The text is one JSON text that says `v`. -/
def Says (text : Bytes) (v : Value) : Prop :=
  ∃ d : Document, d.render = text ∧ Json.meaning d.value = v

/-! ## Derivations are UTF-8 -/

open Utf8 (WellFormed wellFormed_cons wellFormed_flatMap)

theorem Ws.wellFormed (w : Ws) : WellFormed w.bytes := by
  refine Utf8.wellFormed_of_ascii fun c hc => ?_
  rcases w.isWs c hc with rfl | rfl | rfl | rfl <;> decide

theorem Digits.wellFormed (ds : Digits) : WellFormed ds.bytes := by
  refine Utf8.wellFormed_of_ascii fun c hc => ?_
  exact UInt8.lt_of_le_of_lt (ds.isDigit c hc).2 (by decide)

theorem Number.wellFormed (n : Number) : WellFormed n.render := by
  have hminus : WellFormed (renderMinus n.minus) := by
    refine Utf8.wellFormed_of_ascii ?_
    cases n.minus <;> decide
  have hfrac : WellFormed (renderFrac n.frac) := by
    cases n.frac with
    | none => exact Utf8.wellFormed_nil
    | some ds => exact wellFormed_cons (by decide) (Digits.wellFormed ds)
  have hexp : WellFormed (renderExp n.exp) := by
    cases n.exp with
    | none => exact Utf8.wellFormed_nil
    | some e =>
        have hsign : WellFormed (renderSign e.minus) := by
          refine Utf8.wellFormed_of_ascii ?_
          rcases e.minus with _ | _ | _ <;> decide
        have hletter : (if e.upper then 0x45 else 0x65 : Byte) < 0x80 := by
          cases e.upper <;> decide
        exact wellFormed_cons hletter (hsign.append (Digits.wellFormed e.digits))
  exact hminus.append ((Digits.wellFormed n.int).append (hfrac.append hexp))

theorem Prim.wellFormed (p : Prim) : WellFormed p.render := by
  cases p with
  | true_ => exact Utf8.wellFormed_of_ascii (by decide)
  | false_ => exact Utf8.wellFormed_of_ascii (by decide)
  | null => exact Utf8.wellFormed_of_ascii (by decide)
  | num n => exact Number.wellFormed n

theorem Hex4.ascii (u : Hex4) : ∀ b ∈ u.render, b < 0x80 := by
  have hdigit : ∀ h : HexDigit, h.byte < 0x80 := by
    intro h
    rcases h.isHex with ⟨-, h2⟩ | ⟨-, h2⟩ | ⟨-, h2⟩
    · exact UInt8.lt_of_le_of_lt h2 (by decide)
    · exact UInt8.lt_of_le_of_lt h2 (by decide)
    · exact UInt8.lt_of_le_of_lt h2 (by decide)
  intro b hb
  simp only [Hex4.render, List.mem_cons, List.not_mem_nil, or_false] at hb
  rcases hb with rfl | rfl | rfl | rfl
  · exact hdigit u.a
  · exact hdigit u.b
  · exact hdigit u.c
  · exact hdigit u.d

theorem Chr.wellFormed (ch : Chr) : WellFormed ch.render := by
  have hhex : ∀ (u : Hex4) {s : Bytes}, WellFormed s → WellFormed (0x5C :: 0x75 :: (u.render ++ s)) :=
    fun u _ hs => wellFormed_cons (by decide) (wellFormed_cons (by decide)
      ((Utf8.wellFormed_of_ascii (Hex4.ascii u)).append hs))
  cases ch with
  | scalar c h => exact Utf8.wellFormed_encode c
  | escape e =>
      refine Utf8.wellFormed_of_ascii ?_
      cases e <;> decide
  | unicode u h1 h2 =>
      have h := hhex u Utf8.wellFormed_nil
      rw [List.append_nil] at h
      exact h
  | pair hi lo h1 h2 =>
      have h := hhex lo Utf8.wellFormed_nil
      rw [List.append_nil] at h
      exact hhex hi h

theorem Str.wellFormed (s : Str) : WellFormed s.quoted := by
  have hs : WellFormed s.render := wellFormed_flatMap fun ch _ => Chr.wellFormed ch
  exact wellFormed_cons (by decide) (hs.append (Utf8.wellFormed_ascii (by decide)))

theorem Label.wellFormed {k : Kind} (l : Label k) : WellFormed l.render := by
  cases l with
  | item w => exact Ws.wellFormed w
  | member w key w1 w2 =>
      exact (Ws.wellFormed w).append ((Str.wellFormed key).append
        ((Ws.wellFormed w1).append (wellFormed_cons (by decide) (Ws.wellFormed w2))))

theorem closing_ascii (k : Kind) : k.closing < 0x80 := by
  cases k <;> decide

theorem opening_ascii (k : Kind) : k.opening < 0x80 := by
  cases k <;> decide

theorem Json.wellFormed {c : Cat} (t : Json c) : WellFormed t.render := by
  induction t with
  | prim p => exact Prim.wellFormed p
  | str s => exact Str.wellFormed s
  | empty k w =>
      exact wellFormed_cons (opening_ascii k)
        ((Ws.wellFormed w).append (Utf8.wellFormed_ascii (closing_ascii k)))
  | full k es ih => exact wellFormed_cons (opening_ascii k) ih
  | last k l v w ih =>
      exact (Label.wellFormed l).append (ih.append
        ((Ws.wellFormed w).append (Utf8.wellFormed_ascii (closing_ascii k))))
  | more k l v w es ihv ihes =>
      exact (Label.wellFormed l).append (ihv.append
        ((Ws.wellFormed w).append (wellFormed_cons (by decide) ihes)))

theorem Document.wellFormed (d : Document) : WellFormed d.render :=
  (Ws.wellFormed d.before).append ((Json.wellFormed d.value).append (Ws.wellFormed d.after))

/-! ## Printing -/

section Print

variable (escape : Byte → Bytes)

/-- A string, every byte of it as `escape` writes it. -/
def quote (text : Bytes) : Bytes := 0x22 :: (text.flatMap escape ++ [0x22])

def Name.print : {k : Kind} → Name k → Bytes
  | _, .item => []
  | _, .member text => quote escape text ++ [0x3A]

/-- The text of a value without white space.  Every element has its comma in
    front, and a container leaves the first comma out. -/
def Tree.print : {c : Cat} → Tree c → Bytes
  | _, .prim text => text
  | _, .str text => quote escape text
  | _, .container k es => k.opening :: (es.print.tail ++ [k.closing])
  | _, .nil _ => []
  | _, .cons n v es => 0x2C :: (n.print escape ++ (v.print ++ es.print))

/-- A byte that a string may hold as it is. -/
def IsPlain (c : Byte) : Prop := 0x20 ≤ c ∧ c ≠ 0x22 ∧ c ≠ 0x5C

instance (c : Byte) : Decidable (IsPlain c) := inferInstanceAs (Decidable (_ ∧ _))

/-- The escapes are JSON's: plain bytes stay, and every other byte becomes a
    character that stands for it. -/
structure Escapes : Prop where
  plain : ∀ c, IsPlain c → escape c = [c]
  special : ∀ c, ¬ IsPlain c → ∃ ch : Chr, ch.render = escape c ∧ ch.decode = [c]
  ascii : ∀ c, ¬ IsPlain c → ∀ b ∈ escape c, b < 0x80

variable {escape}

theorem special_ascii {c : Byte} (h : ¬ IsPlain c) : c < 0x80 := by
  revert h
  cases c with
  | ofBitVec b =>
      revert b
      decide +kernel

theorem Escapes.ne_nil (he : Escapes escape) {c : Byte} (h : ¬ IsPlain c) : escape c ≠ [] := by
  obtain ⟨ch, hrender, -⟩ := he.special c h
  rw [← hrender]
  cases ch with
  | scalar c h => exact String.utf8EncodeChar_ne_nil
  | escape e => exact List.cons_ne_nil _ _
  | unicode u h1 h2 => exact List.cons_ne_nil _ _
  | pair hi lo h1 h2 => exact List.cons_ne_nil _ _

/-- Plain text stays. -/
theorem Escapes.flatMap_plain (he : Escapes escape) {text : Bytes} (h : ∀ b ∈ text, IsPlain b) :
    text.flatMap escape = text := by
  calc text.flatMap escape
      = text.flatMap fun b => [b] := List.flatMap_congr fun b hb => he.plain b (h b hb)
    _ = text := List.flatMap_singleton' _

/-- One character of UTF-8 is written as characters of JSON. -/
theorem Escapes.character (he : Escapes escape) (c : Char) :
    ∃ ch : Chr, ch.render = (String.utf8EncodeChar c).flatMap escape
      ∧ ch.decode = String.utf8EncodeChar c := by
  by_cases hall : ∀ b ∈ String.utf8EncodeChar c, IsPlain b
  · have hunescaped : 0x20 ≤ c.toNat ∧ c.toNat ≠ 0x22 ∧ c.toNat ≠ 0x5C := by
      obtain ⟨b, hb⟩ := List.exists_mem_of_ne_nil _ (@String.utf8EncodeChar_ne_nil c)
      rcases Utf8.encode_bytes hb with ⟨-, hnat, -⟩ | ⟨h80, -⟩
      · have hplain := hall b hb
        rw [IsPlain, UInt8.le_iff_toNat_le, hnat, ne_eq, ne_eq, ← UInt8.toNat_inj,
          ← UInt8.toNat_inj, hnat] at hplain
        exact hplain
      · omega
    exact ⟨.scalar c hunescaped, (he.flatMap_plain hall).symm, rfl⟩
  · obtain ⟨b, hb, hspecial⟩ : ∃ b ∈ String.utf8EncodeChar c, ¬ IsPlain b := by
      by_contra h
      exact hall fun b hb => Decidable.byContradiction fun hn => h ⟨b, hb, hn⟩
    rcases Utf8.encode_bytes hb with ⟨hone, -, -⟩ | ⟨-, h80⟩
    · obtain ⟨ch, hrender, hdecode⟩ := he.special b hspecial
      rw [hone, List.flatMap_singleton]
      exact ⟨ch, hrender, hdecode⟩
    · exact absurd (special_ascii hspecial) (UInt8.not_lt.mpr h80)

/-- Text in UTF-8 is written as a string that stands for it. -/
theorem Escapes.string (he : Escapes escape) {text : Bytes} (h : WellFormed text) :
    ∃ s : Str, s.render = text.flatMap escape ∧ s.decode = text := by
  obtain ⟨cs, rfl⟩ := h
  induction cs with
  | nil => exact ⟨[], rfl, rfl⟩
  | cons c cs ih =>
      obtain ⟨ch, hrender, hdecode⟩ := he.character c
      obtain ⟨s, hs, hd⟩ := ih
      refine ⟨ch :: s, ?_, ?_⟩
      · rw [List.flatMap_cons, List.flatMap_append, ← hrender, ← hs]
        rfl
      · rw [List.flatMap_cons]
        exact congr (congrArg HAppend.hAppend hdecode) hd

/-- Nothing but UTF-8 is written as UTF-8. -/
theorem Escapes.wellFormed (he : Escapes escape) : ∀ {text front : Bytes},
    WellFormed (front ++ text.flatMap escape) → WellFormed (front ++ text) := by
  intro text
  induction text with
  | nil => exact id
  | cons c text ih =>
      intro front h
      rw [List.flatMap_cons] at h
      by_cases hc : IsPlain c
      · rw [he.plain c hc, ← List.append_assoc] at h
        have hih := ih h
        rw [List.append_assoc] at hih
        exact hih
      · obtain ⟨b, bs, hesc⟩ := List.exists_cons_of_ne_nil (he.ne_nil hc)
        have hascii := he.ascii c hc
        rw [hesc] at h hascii
        obtain ⟨hfront, hrest⟩ := h.split (hascii b List.mem_cons_self)
        have htext : WellFormed (text.flatMap escape) := by
          -- the rest of the escape goes byte by byte
          have hdrop : ∀ {bs : Bytes}, (∀ b ∈ bs, b < 0x80) →
              WellFormed (bs ++ text.flatMap escape) → WellFormed (text.flatMap escape) := by
            intro bs
            induction bs with
            | nil => exact fun _ h => h
            | cons b bs ihb =>
                intro hbs h
                exact ihb (fun d hd => hbs d (List.mem_cons_of_mem b hd))
                  (WellFormed.tail (hbs b List.mem_cons_self) h)
          exact hdrop (fun d hd => hascii d (List.mem_cons_of_mem b hd)) hrest
        exact hfront.append (wellFormed_cons (special_ascii hc) (@ih [] htext))

/-- The texts that are primitives. -/
def Primitive (text : Bytes) : Prop := ∃ p : Prim, p.render = text

/-- A list of names is UTF-8. -/
def NamesWellFormed (names : List Bytes) : Prop := ∀ n ∈ names, WellFormed n

theorem Escapes.label (he : Escapes escape) {k : Kind} {n : Name k}
    (h : NamesWellFormed n.texts) :
    ∃ l : Label k, l.render = n.print escape ∧ Label.name l = n := by
  have hws : ∀ c ∈ ([] : Bytes), IsWs c := fun _ hc => nomatch hc
  cases n with
  | item => exact ⟨.item ⟨[], hws⟩, rfl, rfl⟩
  | member text =>
      obtain ⟨s, hs, hd⟩ := he.string (h text List.mem_cons_self)
      refine ⟨.member ⟨[], hws⟩ s ⟨[], hws⟩ ⟨[], hws⟩, ?_, congrArg Name.member hd⟩
      rw [Name.print, quote, ← hs]
      rfl

/-- A derivation that says what was printed: of the value itself, or of the
    elements up to the closing bracket. -/
def Derived : {c : Cat} → Tree c → Prop
  | .value, t => ∃ j : Json .value, j.render = t.print escape ∧ Json.meaning j = t
  | .elements k, t => t = .nil k ∨ ∃ j : Json (.elements k),
      0x2C :: j.render = t.print escape ++ [k.closing] ∧ Json.meaning j = t

theorem Escapes.derived (he : Escapes escape) {c : Cat} (t : Tree c) :
    t.Every Primitive WellFormed NamesWellFormed → NamesWellFormed t.names →
      @Derived escape c t := by
  have hws : ∀ c ∈ ([] : Bytes), IsWs c := fun _ hc => nomatch hc
  induction t with
  | prim text =>
      rintro ⟨p, rfl⟩ -
      exact ⟨.prim p, rfl, rfl⟩
  | str text =>
      intro h _
      obtain ⟨s, hs, hd⟩ := he.string h
      refine ⟨.str s, ?_, congrArg Tree.str hd⟩
      rw [Tree.print, quote, ← hs]
      rfl
  | container k es ih =>
      rintro ⟨hn, hes⟩ -
      rcases ih hes hn with rfl | ⟨j, hj, hmean⟩
      · exact ⟨.empty k ⟨[], hws⟩, rfl, rfl⟩
      · refine ⟨.full k j, ?_, congrArg (Tree.container k) hmean⟩
        cases es with
        | nil => exact absurd (List.cons.inj hj).1 (by cases k <;> decide)
        | cons n v es => exact congrArg (k.opening :: ·) (List.cons.inj hj).2
  | nil k => exact fun _ _ => .inl rfl
  | @cons k n v es ihv ihes =>
      rintro ⟨hv, hes⟩ hn
      obtain ⟨l, hl, hname⟩ := he.label fun m hm => hn m (List.mem_append_left _ hm)
      obtain ⟨j, hj, hmean⟩ := ihv hv (fun m hm => by cases v <;> exact nomatch hm)
      refine .inr ?_
      rcases ihes hes fun m hm => hn m (List.mem_append_right _ hm) with rfl | ⟨js, hjs, hmeans⟩
      · refine ⟨.last k l j ⟨[], hws⟩, ?_, ?_⟩
        · rw [Json.render, hl, hj, Tree.print, Tree.print, List.append_nil, List.cons_append,
            List.append_assoc]
          rfl
        · rw [Json.meaning, hname, hmean]
      · refine ⟨.more k l j ⟨[], hws⟩ js, ?_, ?_⟩
        · rw [Json.render, hl, hj, List.nil_append, hjs, Tree.print, List.cons_append,
            List.append_assoc, List.append_assoc]
        · rw [Json.meaning, hname, hmean, hmeans]

/-- The strings of what is written as UTF-8 are UTF-8. -/
theorem Escapes.every (he : Escapes escape) {c : Cat} (t : Tree c) : ∀ {back : Bytes},
    WellFormed (t.print escape ++ back) → (∀ b t, back = b :: t → b < 0x80) →
      t.Every (fun _ => True) WellFormed NamesWellFormed ∧ NamesWellFormed t.names := by
  have hquote : ∀ {text back : Bytes}, WellFormed (quote escape text ++ back) →
      WellFormed text := by
    intro text back h
    rw [quote, List.cons_append, List.append_assoc] at h
    have h1 := WellFormed.tail (by decide) h
    exact @Escapes.wellFormed _ he text [] (h1.split (by decide)).1
  have hnone : NamesWellFormed [] := fun _ h => nomatch h
  induction t with
  | prim text => exact fun _ _ => ⟨trivial, hnone⟩
  | str text => exact fun h _ => ⟨hquote h, hnone⟩
  | container k es ih =>
      intro back h _
      rw [Tree.print, List.cons_append, List.append_assoc] at h
      have h1 := WellFormed.tail (opening_ascii k) h
      have hprint : WellFormed (es.print escape) := by
        have htail := (h1.split (closing_ascii k)).1
        cases es with
        | nil => exact Utf8.wellFormed_nil
        | cons n v es => exact wellFormed_cons (by decide) htail
      have hes := @ih [] (by rw [List.append_nil]; exact hprint) fun _ _ h => nomatch h
      exact ⟨⟨hes.2, hes.1⟩, hnone⟩
  | nil k => exact fun _ _ => ⟨trivial, hnone⟩
  | @cons k n v es ihv ihes =>
      intro back h hback
      rw [Tree.print, List.cons_append, List.append_assoc, List.append_assoc] at h
      have h1 := WellFormed.tail (by decide) h
      have hn : NamesWellFormed n.texts ∧ WellFormed (v.print escape ++ (es.print escape ++ back)) := by
        cases n with
        | item => exact ⟨hnone, h1⟩
        | member text =>
            rw [Name.print, List.append_assoc] at h1
            have hcolon := (h1.split (show (0x3A : Byte) < 0x80 by decide)).2
            exact ⟨fun m hm => List.mem_singleton.mp hm ▸ hquote h1, hcolon⟩
      have hcomma : ∀ b t, es.print escape ++ back = b :: t → b < 0x80 := by
        intro b t hbt
        cases es with
        | nil => exact hback b t hbt
        | cons n' v' es' =>
            obtain ⟨rfl, -⟩ := List.cons.inj hbt
            decide
      have hv := ihv hn.2 hcomma
      have hes : WellFormed (es.print escape ++ back) := by
        cases hc : es.print escape ++ back with
        | nil => exact Utf8.wellFormed_nil
        | cons b t =>
            have hb := hcomma b t hc
            have hsplit := hn.2
            rw [hc] at hsplit
            exact wellFormed_cons hb (hsplit.split hb).2
      have hrest := ihes hes hback
      refine ⟨⟨hv.1, hrest.1⟩, fun m hm => ?_⟩
      rcases List.mem_append.mp hm with hm | hm
      · exact hn.1 m hm
      · exact hrest.2 m hm

theorem Tree.names_value (v : Value) : v.names = [] := by
  cases v <;> rfl

/-- **What is printed says the value exactly where its strings are UTF-8.** -/
theorem Escapes.document_iff (he : Escapes escape) {v : Value}
    (hprim : v.Every Primitive (fun _ => True) (fun _ => True)) :
    Says (v.print escape) v ↔ v.Every (fun _ => True) WellFormed NamesWellFormed := by
  constructor
  · rintro ⟨d, hd, -⟩
    have h := Document.wellFormed d
    rw [hd, ← List.append_nil (v.print escape)] at h
    exact (he.every v h fun _ _ h => nomatch h).1
  · intro h
    have hboth : v.Every Primitive WellFormed NamesWellFormed :=
      (hprim.and h).imp (fun _ h => h.1) (fun _ h => h.2) fun _ h => h.2
    have hnames : NamesWellFormed v.names := by
      rw [Tree.names_value]
      exact fun _ h => nomatch h
    have hws : ∀ c ∈ ([] : Bytes), IsWs c := fun _ hc => nomatch hc
    obtain ⟨j, hj, hmean⟩ := he.derived v hboth hnames
    refine ⟨⟨⟨[], hws⟩, j, ⟨[], hws⟩⟩, ?_, hmean⟩
    rw [Document.render, List.nil_append, List.append_nil]
    exact hj

end Print

end JsonValue
