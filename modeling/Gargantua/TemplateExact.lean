import Gargantua.TemplateSafe

/-! # What a page should be

    The reference page has every row of the list, and every placeholder is filled by its
    name: with the whole text of the field, with a number, or with nothing.  The page is
    that one where nothing is lost in the buffers (`rendering_exact`): a value that
    does not fit in its buffer is left out, a name is cut to its buffer and may then
    be another name, rows behind the first `PAGE_MAX` are not shown, and a NUL ends the page. -/

namespace TemplateExact

open CString Decimal GeneratorText GeneratorSource RuntimeTypes RuntimeObject ObjectFields Memory Bounded
  Entities Placeholders TemplateRender TemplatePage TemplateSafe

/-- All rows of the list. -/
def allRows (rows : RowList) : List Nat :=
  if rows.type.isSome ∧ rows.items.isSome then List.range rows.count.toNat else []

/-- The row of a piece is one of the first `PAGE_MAX`. -/
def Shown (slot : Slot) : Prop := ∀ i, slot.1 = some i → i < PAGE_MAX

instance (slot : Slot) : Decidable (Shown slot) :=
  match slot with
  | (none, _) => .isTrue (by intro i h; cases h)
  | (some i, _) =>
      if h : i < PAGE_MAX then .isTrue (by intro j hj; cases hj; exact h)
      else .isFalse (by intro hs; exact h (hs i rfl))

section Page

variable {abi : Abi} (nl : NullableLayout abi) (json : Bytes) (printG17 : LongDouble → Bytes)

/-- What a piece should be written as. -/
def wanted (rows : RowList) (slot : Slot) : Bytes :=
  (partOf id rows.type rows.count slot).written (fieldValueText nl json printG17 rows)

/-- The page that should be rendered. -/
def reference {source : Bytes} (t : Template source) (rows : RowList) : Bytes :=
  (t.slots (allRows rows)).flatMap (wanted nl json printG17 rows)

/-- What is written for a piece, nothing in a row that is not shown. -/
def written (rows : RowList) (slot : Slot) : Bytes :=
  if Shown slot then slotText nl json printG17 rows slot else []

variable {source : Bytes} (t : Template source) (rows : RowList)

/-- A name that is cut stands for the text that the whole name stands for. -/
def Resolved : Prop :=
  ∀ slot ∈ t.slots (allRows rows), Shown slot → ∀ name, slot.2 = .placeholder name → keyOf name ≠ name →
    slotText nl json printG17 rows slot = wanted nl json printG17 rows slot

/-- Nothing is written shorter than it should be. -/
def NothingMissing : Prop :=
  ∀ slot ∈ t.slots (allRows rows),
    (wanted nl json printG17 rows slot).length ≤ (written nl json printG17 rows slot).length

/-- Nothing is lost: the rows that are not shown have nothing to write, no NUL is in the text of
    the template, names are not cut to others, and values fit in their buffer. -/
structure Complete : Prop where
  shown : ∀ slot ∈ t.slots (allRows rows), ¬ Shown slot → wanted nl json printG17 rows slot = []
  nul : ∀ slot ∈ t.slots (allRows rows), ∀ s, slot.2 = .literal s → 0 ∉ s
  names : Resolved nl json printG17 t rows
  values : ∀ slot ∈ t.slots (allRows rows), Shown slot → ∀ name, slot.2 = .placeholder name →
    keyOf name = name → ∀ row, partOf id rows.type rows.count slot = .field row name →
    (fieldValueText nl json printG17 rows row name).length < TEMPLATE_MAX_VALUE

/-! ## Piece by piece -/

/-- The rows that are shown are the first ones. -/
theorem flatMap_shown {f : Nat → Bytes} :
    (shownRows rows).flatMap f = (allRows rows).flatMap fun i => if i < PAGE_MAX then f i else [] := by
  rw [shownRows, allRows]
  split
  · have hall : ∀ n, (List.range (min n PAGE_MAX)).flatMap f
        = (List.range n).flatMap fun i => if i < PAGE_MAX then f i else [] := by
      intro n
      induction n with
      | zero => rfl
      | succ n ih =>
          rw [List.range_succ, List.flatMap_append, ← ih, List.flatMap_singleton]
          by_cases hn : n < PAGE_MAX
          · rw [if_pos hn, min_eq_left (by omega), min_eq_left (by omega), List.range_succ,
              List.flatMap_append, List.flatMap_singleton]
          · rw [if_neg hn, min_eq_right (by omega), min_eq_right (by omega), List.append_nil]
    exact hall _
  · rfl

/-- The page is what is written for the pieces of all rows. -/
theorem pageText_written :
    pageText nl json printG17 rows t = (t.slots (allRows rows)).flatMap (written nl json printG17 rows) := by
  have hnone : ∀ seg : Segment Byte, written nl json printG17 rows (none, seg)
      = slotText nl json printG17 rows (none, seg) :=
    fun seg => if_pos (by intro i hi; cases hi)
  have hsome : ∀ (i : Nat) (seg : Segment Byte), written nl json printG17 rows (some i, seg)
      = if i < PAGE_MAX then slotText nl json printG17 rows (some i, seg) else [] := by
    intro i seg
    rw [written]
    refine if_congr ?_ rfl rfl
    constructor
    · exact fun h => h i rfl
    · rintro h j hj
      cases hj
      exact h
  have hrow : ∀ i, (t.block.flatMap fun seg => written nl json printG17 rows (some i, seg))
      = if i < PAGE_MAX then t.block.flatMap (fun seg => slotText nl json printG17 rows (some i, seg))
        else [] := by
    intro i
    simp only [hsome]
    split <;> simp
  rw [pageText, Template.slots, Template.slots]
  simp only [List.flatMap_append, List.flatMap_map, List.flatMap_assoc, hnone, hrow]
  rw [flatMap_shown]

/-- What is written for a piece that is shown is what should be written, or nothing. -/
theorem written_literal {slot : Slot} {s : Bytes} (h : slot.2 = .literal s) (hs : Shown slot) :
    written nl json printG17 rows slot = s ∧ wanted nl json printG17 rows slot = s := by
  obtain ⟨row, seg⟩ := slot
  obtain rfl : seg = .literal s := h
  rw [written, if_pos hs]
  exact ⟨rfl, rfl⟩

/-- A name that is not cut. -/
theorem written_same {row : Option Nat} {name : Bytes} (hkey : keyOf name = name) :
    slotText nl json printG17 rows (row, .placeholder name)
      = (partOf id rows.type rows.count (row, .placeholder name)).written
          (givenText nl json printG17 rows) := by
  rw [slotText, partOf, partOf, hkey, id]

/-- A placeholder that stands for no field has a number, or nothing. -/
theorem placeholder_text {key : Bytes → Bytes} {row : Option Nat} {name s : Bytes}
    (h : partOf key rows.type rows.count (row, .placeholder name) = .text s) : 0 ∉ s := by
  rw [partOf, placeholderPart.eq_def] at h
  split at h
  · obtain rfl := Part.text.inj h
    exact printInt_noNul _
  · split at h
    · obtain rfl := Part.text.inj h
      exact printInt_noNul _
    · cases row with
      | none =>
          obtain rfl := Part.text.inj h
          exact List.not_mem_nil
      | some j =>
          dsimp only at h
          split at h
          · cases h
          · obtain rfl := Part.text.inj h
            exact List.not_mem_nil

/-- A part for a field is for the one of that name. -/
theorem field_name {row : Option Nat} {name : Bytes} {i : Nat} {field : Bytes}
    (h : partOf id rows.type rows.count (row, .placeholder name) = .field i field) : field = name := by
  rw [partOf, placeholderPart.eq_def, id] at h
  split at h
  · cases h
  · split at h
    · cases h
    · cases row with
      | none => cases h
      | some j =>
          dsimp only at h
          split at h
          · exact (Part.field.inj h).2.symm
          · cases h

/-- Where names are not cut to others, nothing is written longer than it should be. -/
theorem written_le (hnames : Resolved nl json printG17 t rows) :
    ∀ slot ∈ t.slots (allRows rows),
      (written nl json printG17 rows slot).length ≤ (wanted nl json printG17 rows slot).length := by
  rintro ⟨row, seg⟩ hslot
  by_cases hs : Shown (row, seg)
  · cases seg with
    | literal s =>
        obtain ⟨hw, hr⟩ := written_literal nl json printG17 rows rfl hs
        rw [hw, hr]
    | placeholder name =>
        rw [written, if_pos hs]
        by_cases hkey : keyOf name = name
        · rw [written_same nl json printG17 rows hkey, wanted]
          exact written_given_le nl json printG17 rows _
        · exact le_of_eq (congrArg _ (hnames _ hslot hs name rfl hkey))
  · rw [written, if_neg hs]
    exact Nat.zero_le _

/-- Nothing is lost just if every piece is written as it should be, and no NUL is among them. -/
theorem complete_iff : Complete nl json printG17 t rows ↔
    (∀ slot ∈ t.slots (allRows rows), ∀ s, slot.2 = .literal s → 0 ∉ s)
      ∧ ∀ slot ∈ t.slots (allRows rows), written nl json printG17 rows slot
          = wanted nl json printG17 rows slot := by
  constructor
  · intro h
    refine ⟨h.nul, ?_⟩
    rintro ⟨row, seg⟩ hslot
    by_cases hs : Shown (row, seg)
    · cases seg with
      | literal s =>
          obtain ⟨hw, hr⟩ := written_literal nl json printG17 rows rfl hs
          rw [hw, hr]
      | placeholder name =>
          rw [written, if_pos hs]
          by_cases hkey : keyOf name = name
          · rw [written_same nl json printG17 rows hkey, wanted]
            cases hpart : partOf id rows.type rows.count (row, .placeholder name) with
            | text s => rfl
            | field i field =>
                obtain rfl := field_name rows hpart
                exact (written_given_iff nl json printG17 rows i field).mpr
                  (h.values _ hslot hs field rfl hkey i hpart)
          · exact h.names _ hslot hs name rfl hkey
    · rw [written, if_neg hs, h.shown _ hslot hs]
  · rintro ⟨hnul, heq⟩
    refine ⟨?_, hnul, ?_, ?_⟩
    · intro slot hslot hs
      rw [← heq slot hslot, written, if_neg hs]
    · intro slot hslot hs name _ _
      rw [← heq slot hslot, written, if_pos hs]
    · rintro ⟨row, seg⟩ hslot hs name rfl hkey i hpart
      have h := heq _ hslot
      rw [written, if_pos hs, written_same nl json printG17 rows hkey, wanted, hpart] at h
      exact (written_given_iff nl json printG17 rows i name).mp h

theorem written_noNul (hnul : ∀ slot ∈ t.slots (allRows rows), ∀ s, slot.2 = .literal s → 0 ∉ s) :
    0 ∉ (t.slots (allRows rows)).flatMap (written nl json printG17 rows) := by
  intro hmem
  obtain ⟨⟨row, seg⟩, hslot, hmem⟩ := List.mem_flatMap.mp hmem
  rw [written] at hmem
  split at hmem
  · cases seg with
    | literal s => exact hnul _ hslot s rfl hmem
    | placeholder name =>
        rw [slotText] at hmem
        cases hpart : partOf keyOf rows.type rows.count (row, .placeholder name) with
        | field i field =>
            rw [hpart] at hmem
            exact escape_noNul (givenText_noNul nl json printG17 rows i field) hmem
        | text s =>
            rw [hpart] at hmem
            exact placeholder_text rows hpart hmem
  · cases hmem

/-- **Rendering is exact where nothing is lost.**  A page is not rendered, with a failure
    of the request, or it is the reference page if nothing is lost; and it is not, if something
    is, unless texts that are too much stand where texts are missing. -/
theorem rendering_exact {files : Files} {root : Bytes} {memory : Bool} {name : Bytes}
    (hload : loadTemplate files root name TEMPLATE_MAX_BYTES = some source) :
    (∃ message, renderTemplate nl json printG17 files root memory (some name) rows = .error message)
    ∨ ∃ page, renderTemplate nl json printG17 files root memory (some name) rows = .ok page
      ∧ (Complete nl json printG17 t rows → page = reference nl json printG17 t rows)
      ∧ (Resolved nl json printG17 t rows ∨ NothingMissing nl json printG17 t rows →
          page = reference nl json printG17 t rows → Complete nl json printG17 t rows) := by
  cases hpage : renderTemplate nl json printG17 files root memory (some name) rows with
  | error message => exact .inl ⟨message, rfl⟩
  | ok page =>
      refine .inr ⟨page, rfl, ?_⟩
      have heq := rendered nl json printG17 t hload hpage
      rw [pageText_written] at heq
      rw [complete_iff]
      constructor
      · rintro ⟨hnul, hwritten⟩
        rw [heq, cstr_eq_self (written_noNul nl json printG17 t rows hnul), reference]
        exact List.flatMap_congr hwritten
      · intro hsided href
        have hnul : ∀ slot ∈ t.slots (allRows rows), ∀ s, slot.2 = .literal s → 0 ∉ s := by
          rintro ⟨row, seg⟩ hslot s rfl h0
          have hmem : 0 ∈ reference nl json printG17 t rows := List.mem_flatMap.mpr ⟨_, hslot, h0⟩
          rw [← href, heq] at hmem
          exact cstr_no_nul _ hmem
        refine ⟨hnul, ?_⟩
        rw [heq, cstr_eq_self (written_noNul nl json printG17 t rows hnul), reference] at href
        rcases hsided with hnames | hmissing
        · exact (flatMap_eq_iff (written_le nl json printG17 t rows hnames)).mp href
        · intro slot hslot
          exact ((flatMap_eq_iff hmissing).mp href.symm slot hslot).symm

end Page

/-- What the page of one row should be. -/
def smallReference (text : Bytes) : Bytes :=
  reference smallLayout [] (fun _ => []) smallTemplate (smallRows text)

theorem smallSlots (text : Bytes) : smallTemplate.slots (allRows (smallRows text))
    = [(none, .literal (lit "<p>")), (some 0, .literal []), (some 0, .placeholder [0x6E]), (some 0, .literal []),
        (none, .literal (lit "</p>"))] := rfl

theorem small_complete {text value : Bytes} (hvalue : smallValue text 0 [0x6E] = value)
    (hfits : value.length < TEMPLATE_MAX_VALUE) :
    Complete smallLayout [] (fun _ => []) smallTemplate (smallRows text) := by
  have hshown : ∀ slot ∈ smallTemplate.slots (allRows (smallRows text)), Shown slot := by
    rw [smallSlots]
    decide
  constructor
  · exact fun slot hslot hs => absurd (hshown slot hslot) hs
  · rw [smallSlots]
    rintro slot hslot s hs
    simp only [List.mem_cons, List.not_mem_nil, or_false] at hslot
    rcases hslot with rfl | rfl | rfl | rfl | rfl <;> cases hs <;> decide
  · rw [Resolved, smallSlots]
    rintro slot hslot - name hname hkey
    simp only [List.mem_cons, List.not_mem_nil, or_false] at hslot
    rcases hslot with rfl | rfl | rfl | rfl | rfl <;> cases hname
    exact absurd (by decide) hkey
  · rw [smallSlots]
    rintro slot hslot - name hname - row hpart
    simp only [List.mem_cons, List.not_mem_nil, or_false] at hslot
    rcases hslot with rfl | rfl | rfl | rfl | rfl <;> cases hname
    obtain ⟨rfl, -⟩ := Part.field.inj (show Part.field 0 [0x6E] = Part.field row [0x6E] from hpart)
    show (smallValue text 0 [0x6E]).length < TEMPLATE_MAX_VALUE
    rw [hvalue]
    exact hfits

/-- A tag in a text. -/
theorem rendering_exact_small : smallPage (lit "</p>") = .ok (smallReference (lit "</p>")) := by
  rcases @rendering_exact smallAbi smallLayout [] (fun _ => []) smallSource smallTemplate (smallRows (lit "</p>"))
    smallFiles (lit "/t") true (lit "p") rfl with ⟨message, h⟩ | ⟨page, h, hcomplete, -⟩
  · cases h
  · rw [smallPage, h, hcomplete (small_complete rfl (by decide)), smallReference]

set_option maxRecDepth 8000 in
/-- A text of as many bytes as the buffer has is lost, without a failure. -/
theorem text_lost :
    ¬ ((∃ message, smallPage (List.replicate 1024 0x61) = .error message)
      ∨ smallPage (List.replicate 1024 0x61) = .ok (smallReference (List.replicate 1024 0x61))) := by
  have hpage : smallPage (List.replicate 1024 0x61) = .ok (lit "<p></p>") := rfl
  rw [hpage]
  rintro (⟨message, h⟩ | h)
  · cases h
  · have hvalue : smallValue (List.replicate 1024 0x61) 0 [0x6E] = List.replicate 1024 0x61 := rfl
    have hlen := congrArg List.length (Except.ok.inj h)
    have hmem : (escape html (List.replicate 1024 0x61)).length
        ≤ (smallReference (List.replicate 1024 0x61)).length := by
      have hpiece : wanted smallLayout [] (fun _ => []) (smallRows (List.replicate 1024 0x61))
          (some 0, .placeholder [0x6E]) = escape html (List.replicate 1024 0x61) := by
        rw [← hvalue]
        rfl
      rw [smallReference, reference, smallSlots, ← hpiece]
      simp only [List.flatMap_cons, List.length_append]
      omega
    have hlong := escape_length html (List.replicate 1024 (0x61 : Byte))
    rw [List.length_replicate] at hlong
    have hshort : (lit "<p></p>").length = 7 := by decide
    omega

end TemplateExact
