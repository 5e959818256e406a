import Gargantua.TemplatePage

/-! # Pages are escaped

    The pieces of a page and the places for texts of the rows are those of the template,
    whatever the rows hold.  What is written for a text of a row is safe, and is
    read back as the text that `field_text` gave.  That is the text of the field
    if it is shorter than its buffer; a longer one is left out (`page_escaped_iff`). -/

namespace TemplateSafe

open CString Decimal GeneratorText GeneratorSource RuntimeTypes RuntimeObject ObjectFields Memory Bounded
  Entities Placeholders TemplateRender TemplatePage

/-- What a page of the template consists of, for row lists of that type and length. -/
def pageParts {source : Bytes} (t : Template source) (rows : RowList) : List Part :=
  (t.slots (shownRows rows)).map (partOf keyOf rows.type rows.count)

/-- A page in that form: the literal pieces, and safe texts that are read back as the
    values. -/
inductive Filled (value : Nat → Bytes → Bytes) : List Part → Bytes → Prop
  | nil : Filled value [] []
  | text {s : Bytes} {parts : List Part} {page : Bytes} (h : Filled value parts page) :
      Filled value (.text s :: parts) (s ++ page)
  | field {row : Nat} {name text : Bytes} {parts : List Part} {page : Bytes} (hsafe : Safe html text)
      (hvalue : unescape html text = value row name) (h : Filled value parts page) :
      Filled value (.field row name :: parts) (text ++ page)

theorem filled_iff {value : Nat → Bytes → Bytes} {parts : List Part} {page : Bytes} :
    Filled value parts page ↔ page = parts.flatMap (Part.written value) := by
  constructor
  · intro h
    induction h with
    | nil => rfl
    | text _ ih => rw [List.flatMap_cons, Part.written, ih]
    | field hsafe hvalue _ ih =>
        rw [List.flatMap_cons, Part.written, ← hvalue, hsafe.escape_unescape, ih]
  · rintro rfl
    induction parts with
    | nil => exact .nil
    | cons p parts ih =>
        cases p with
        | text s => exact .text ih
        | field row name => exact .field (escape_safe html _) (unescape_escape html _) ih

/-- The literal pieces that are written hold no NUL. -/
def NulFree (parts : List Part) : Prop := ∀ s, .text s ∈ parts → 0 ∉ s

/-- The values that are asked for fit in their buffer. -/
def Fits (value : Nat → Bytes → Bytes) (parts : List Part) : Prop :=
  ∀ row name, .field row name ∈ parts → (value row name).length < TEMPLATE_MAX_VALUE

section Page

variable {abi : Abi} (nl : NullableLayout abi) (json : Bytes) (printG17 : LongDouble → Bytes)

theorem pageText_eq {source : Bytes} (t : Template source) (rows : RowList) :
    pageText nl json printG17 rows t
      = (pageParts t rows).flatMap (Part.written (givenText nl json printG17 rows)) := by
  rw [pageParts, List.flatMap_map]
  rfl

/-- Rows of one type and length have one form. -/
theorem pageParts_congr {source : Bytes} (t : Template source) {rows rows' : RowList}
    (htype : rows.type = rows'.type) (hcount : rows.count = rows'.count)
    (hitems : rows.items.isSome = rows'.items.isSome) : pageParts t rows = pageParts t rows' := by
  rw [pageParts, pageParts, shownRows, shownRows, htype, hcount, hitems]

/-- A page that is rendered. -/
theorem rendered {files : Files} {root : Bytes} {memory : Bool} {name : Bytes} {rows : RowList}
    {source page : Bytes} (t : Template source)
    (hload : loadTemplate files root name TEMPLATE_MAX_BYTES = some source)
    (hpage : renderTemplate nl json printG17 files root memory (some name) rows = .ok page) :
    page = cstr (pageText nl json printG17 rows t) := by
  rw [renderTemplate, hload] at hpage
  dsimp only at hpage
  split at hpage
  · cases hpage
  · rw [renderSource_eq nl json printG17 rows t] at hpage
    split at hpage
    · exact (Except.ok.inj hpage).symm
    · cases hpage

/-- Every page has the form, with the texts that `field_text` gave. -/
theorem filled_given {source : Bytes} (t : Template source) (rows : RowList) :
    Filled (givenText nl json printG17 rows) (pageParts t rows) (pageText nl json printG17 rows t) :=
  filled_iff.mpr (pageText_eq nl json printG17 t rows)

/-- The text that is given is never longer. -/
theorem written_given_le (rows : RowList) (p : Part) :
    (p.written (givenText nl json printG17 rows)).length
      ≤ (p.written (fieldValueText nl json printG17 rows)).length := by
  cases p with
  | text s => exact Nat.le_refl _
  | field row name =>
      rw [Part.written, Part.written, givenText]
      split
      · exact Nat.le_refl _
      · exact Nat.zero_le _

/-- A text that fits is given. -/
theorem written_given_iff (rows : RowList) (row : Nat) (name : Bytes) :
    (Part.field row name).written (givenText nl json printG17 rows)
        = (Part.field row name).written (fieldValueText nl json printG17 rows)
      ↔ (fieldValueText nl json printG17 rows row name).length < TEMPLATE_MAX_VALUE := by
  rw [Part.written, Part.written, givenText]
  constructor
  · intro heq
    by_contra hlong
    rw [if_neg hlong] at heq
    have hnil := escape_eq_nil.mp heq.symm
    rw [hnil] at hlong
    exact hlong (by decide)
  · intro hfits
    rw [if_pos hfits]

theorem written_noNul {value : Nat → Bytes → Bytes} (hvalue : ∀ row name, 0 ∉ value row name)
    {parts : List Part} (h : NulFree parts) : 0 ∉ parts.flatMap (Part.written value) := by
  intro hmem
  obtain ⟨p, hp, hmem⟩ := List.mem_flatMap.mp hmem
  cases p with
  | text s => exact h s hp hmem
  | field row name => exact escape_noNul (hvalue row name) hmem

/-- The page has the form, with the texts of the fields, just if they fit. -/
theorem filled_value_iff {source : Bytes} (t : Template source) (rows : RowList) :
    Filled (fieldValueText nl json printG17 rows) (pageParts t rows) (cstr (pageText nl json printG17 rows t))
      ↔ NulFree (pageParts t rows) ∧ Fits (fieldValueText nl json printG17 rows) (pageParts t rows) := by
  have hiff := @flatMap_eq_iff _ _ _ _ (pageParts t rows)
    (fun p _ => written_given_le nl json printG17 rows p)
  rw [filled_iff]
  constructor
  · intro heq
    have hnul : NulFree (pageParts t rows) := by
      intro s hs h0
      have hmem : 0 ∈ (pageParts t rows).flatMap (Part.written (fieldValueText nl json printG17 rows)) :=
        List.mem_flatMap.mpr ⟨_, hs, h0⟩
      rw [← heq] at hmem
      exact cstr_no_nul _ hmem
    rw [pageText_eq, cstr_eq_self (written_noNul (givenText_noNul nl json printG17 rows) hnul)] at heq
    exact ⟨hnul, fun row name hmem => (written_given_iff nl json printG17 rows row name).mp
      (hiff.mp heq _ hmem)⟩
  · rintro ⟨hnul, hfits⟩
    rw [pageText_eq, cstr_eq_self (written_noNul (givenText_noNul nl json printG17 rows) hnul)]
    refine hiff.mpr fun p hp => ?_
    cases p with
    | text s => rfl
    | field row name => exact (written_given_iff nl json printG17 rows row name).mpr (hfits row name hp)

/-- **Pages are escaped.**  Two pages of a template, for row lists of one type and
    length, have one form: safe texts in the places that the template has for them, which are
    read back as the texts that `field_text` gave.  They are read back as the texts of
    the fields just if none of these is too long for its buffer and no literal piece ends
    the page with a NUL. -/
theorem page_escaped_iff {files : Files} {root : Bytes} {memory : Bool} {name : Bytes}
    {rows rows' : RowList} {source page page' : Bytes} (t : Template source)
    (htype : rows.type = rows'.type) (hcount : rows.count = rows'.count)
    (hitems : rows.items.isSome = rows'.items.isSome)
    (hload : loadTemplate files root name TEMPLATE_MAX_BYTES = some source)
    (hpage : renderTemplate nl json printG17 files root memory (some name) rows = .ok page)
    (hpage' : renderTemplate nl json printG17 files root memory (some name) rows' = .ok page') :
    ((∃ text text', page = cstr text ∧ page' = cstr text'
        ∧ Filled (givenText nl json printG17 rows) (pageParts t rows) text
        ∧ Filled (givenText nl json printG17 rows') (pageParts t rows) text')
      ∧ (Filled (fieldValueText nl json printG17 rows) (pageParts t rows) page
          ∧ Filled (fieldValueText nl json printG17 rows') (pageParts t rows) page'
        ↔ NulFree (pageParts t rows)
          ∧ Fits (fieldValueText nl json printG17 rows) (pageParts t rows)
          ∧ Fits (fieldValueText nl json printG17 rows') (pageParts t rows))) := by
  have hparts := pageParts_congr t htype hcount hitems
  have heq := rendered nl json printG17 t hload hpage
  have heq' := rendered nl json printG17 t hload hpage'
  have hgiven' := filled_given nl json printG17 t rows'
  have hvalue' := filled_value_iff nl json printG17 t rows'
  rw [← hparts] at hgiven' hvalue'
  refine ⟨⟨_, _, heq, heq', filled_given nl json printG17 t rows, hgiven'⟩, ?_⟩
  rw [heq, heq', filled_value_iff nl json printG17 t rows, hvalue']
  constructor
  · rintro ⟨⟨hnul, hfits⟩, -, hfits'⟩
    exact ⟨hnul, hfits, hfits'⟩
  · rintro ⟨hnul, hfits, hfits'⟩
    exact ⟨⟨hnul, hfits⟩, hnul, hfits'⟩

end Page

/-! ## A template with one placeholder -/

/-- What is found with as much in front is the first place. -/
theorem first_of_find {needle front rest : Bytes} (hne : needle ≠ [])
    (h : findBytes (front ++ (needle ++ rest)) needle = some front.length) : First needle front rest := by
  obtain ⟨front', rest', heq, hfirst, hlen⟩ := findBytes_some hne h
  obtain ⟨rfl, htail⟩ := List.append_inj heq hlen.symm
  rwa [List.append_cancel_left htail]

/-- Pointers and numbers of eight bytes, a flag in front of a nullable one. -/
def smallAbi : Abi := ⟨fun _ => 8, fun _ => 16, fun _ => by decide, fun _ => by decide⟩

def smallLayout : NullableLayout smallAbi :=
  ⟨fun _ => 8, fun _ _ _ => Nat.le_refl 8, fun _ _ _ => Nat.le_refl 16⟩

/-- One row, with one text. -/
def smallRows (text : Bytes) : RowList :=
  ⟨some ⟨lit "T", 8, [{ name := lit "n", kind := .str, offset := 0, size := 8 }]⟩,
    some (store zeroed 0 8 (.str (.elsewhere text))), 1⟩

/-- `<p>{{#each}}{{n}}{{/each}}</p>`. -/
def smallSource : Bytes := lit "<p>" ++ (EACH_OPEN ++ ((OPEN ++ ([0x6E] ++ CLOSE)) ++ (EACH_CLOSE ++ lit "</p>")))

def smallFiles : Files := ⟨some, fun _ => some ⟨true, smallSource.length, smallSource⟩⟩

def smallTemplate : Template smallSource where
  head := [.literal (lit "<p>")]
  block := [.literal [], .placeholder [0x6E], .literal []]
  tail := [.literal (lit "</p>")]
  parses := .each ⟨rfl, first_of_find (by decide) (by decide), first_of_find (by decide) (by decide)⟩
    (.plain (by decide)) (@Cut.placeholder _ OPEN CLOSE [] [0x6E] [] _ First.nil
      (first_of_find (by decide) (by decide)) (.plain (by decide))) (.plain (by decide))

/-- The row of the template as `render_template` shows it. -/
def smallPage (text : Bytes) : Except Bytes Bytes :=
  renderTemplate smallLayout [] (fun _ => []) smallFiles (lit "/t") true (some (lit "p")) (smallRows text)

def smallValue (text : Bytes) : Nat → Bytes → Bytes :=
  fieldValueText smallLayout [] (fun _ => []) (smallRows text)

theorem smallParts (text : Bytes) : pageParts smallTemplate (smallRows text)
    = [.text (lit "<p>"), .text [], .field 0 [0x6E], .text [], .text (lit "</p>")] := rfl

theorem small_nulFree (text : Bytes) : NulFree (pageParts smallTemplate (smallRows text)) := by
  rw [smallParts]
  intro s hs
  simp only [List.mem_cons, Part.text.injEq, reduceCtorEq, List.not_mem_nil, or_false, false_or] at hs
  rcases hs with rfl | rfl | rfl | rfl <;> decide

theorem small_fits {text value : Bytes} (hvalue : smallValue text 0 [0x6E] = value) :
    Fits (smallValue text) (pageParts smallTemplate (smallRows text)) ↔ value.length < TEMPLATE_MAX_VALUE := by
  rw [smallParts]
  constructor
  · intro h
    have h0 := h 0 [0x6E] (by simp)
    rwa [hvalue] at h0
  · intro h row name hmem
    simp only [List.mem_cons, Part.field.injEq, reduceCtorEq, List.not_mem_nil, or_false, false_or] at hmem
    obtain ⟨rfl, rfl⟩ := hmem
    rwa [hvalue]

/-- A tag, and an ampersand. -/
theorem page_escaped_small :
    Filled (smallValue (lit "</p>")) (pageParts smallTemplate (smallRows (lit "</p>"))) (lit "<p>&lt;/p&gt;</p>")
      ∧ Filled (smallValue (lit "&")) (pageParts smallTemplate (smallRows (lit "&"))) (lit "<p>&amp;</p>") := by
  have h := @page_escaped_iff smallAbi smallLayout [] (fun _ => []) smallFiles (lit "/t") true (lit "p")
    (smallRows (lit "</p>")) (smallRows (lit "&")) smallSource (lit "<p>&lt;/p&gt;</p>") (lit "<p>&amp;</p>")
    smallTemplate rfl rfl rfl rfl rfl rfl
  refine h.2.mpr ⟨small_nulFree _, (small_fits rfl).mpr (by decide), ?_⟩
  exact (small_fits rfl).mpr (by decide)

set_option maxRecDepth 8000 in
/-- A text of as many bytes as the buffer has is left out: nothing is in its place. -/
theorem text_left_out :
    smallPage (List.replicate 1024 0x61) = .ok (lit "<p></p>") ∧ smallPage (lit "b") = .ok (lit "<p>b</p>")
      ∧ ¬ (Filled (smallValue (List.replicate 1024 0x61)) (pageParts smallTemplate (smallRows (lit "b")))
            (lit "<p></p>")
          ∧ Filled (smallValue (lit "b")) (pageParts smallTemplate (smallRows (lit "b"))) (lit "<p>b</p>")) := by
  refine ⟨rfl, rfl, ?_⟩
  rintro ⟨h, -⟩
  have hvalue : smallValue (List.replicate 1024 0x61) 0 [0x6E] = List.replicate 1024 0x61 := rfl
  have hlen := congrArg List.length (filled_iff.mp h)
  rw [smallParts] at hlen
  simp only [List.flatMap_cons, List.flatMap_nil, Part.written, hvalue, List.length_append] at hlen
  have hlong := escape_length html (List.replicate 1024 0x61)
  rw [List.length_replicate] at hlong
  have hshort : (lit "<p></p>").length = 7 := by decide
  have hopen : (lit "<p>").length = 3 := by decide
  omega

end TemplateSafe
