import Gargantua.RuntimeObject
import Gargantua.Lib.Separated

/-! # The grammar of an email address (`src/runtime/runtime_ddl.c`)

    An address is a local part, one `@` and a domain.  The local part has no `.` at
    its ends and no two of them side by side; the domain is labels with dots
    between them, two at least.  `email_valid` goes over both parts once and keeps no
    more than the last byte and the length of the label, and accepts just these. -/

namespace EmailGrammar

open CString RouteGenerator RuntimeTypes RuntimeObject

/-- `.`, `-` and `@`. -/
abbrev DOT : Byte := 0x2E
abbrev HYPHEN : Byte := 0x2D
abbrev AT : Byte := 0x40

/-- A letter or a digit. -/
def IsLetterOrDigit (c : Byte) : Prop :=
  (0x41 ≤ c ∧ c ≤ 0x5A) ∨ (0x61 ≤ c ∧ c ≤ 0x7A) ∨ (0x30 ≤ c ∧ c ≤ 0x39)

/-- What stands in front of the `@`. -/
structure LocalPart (s : Bytes) : Prop where
  length : 1 ≤ s.length ∧ s.length ≤ 64
  chars : ∀ c ∈ s, IsLetterOrDigit c ∨ c ∈ lit ".!#$%&'*+-/=?^_\x60\x7b|\x7d~"
  first : s.head? ≠ some DOT
  last : s.getLast? ≠ some DOT
  single : ¬ [DOT, DOT] <:+: s

/-- A label of the domain. -/
structure Label (s : Bytes) : Prop where
  length : 1 ≤ s.length ∧ s.length ≤ 63
  chars : ∀ c ∈ s, IsLetterOrDigit c ∨ c = HYPHEN
  first : s.head? ≠ some HYPHEN
  last : s.getLast? ≠ some HYPHEN

/-- Labels with dots between them. -/
def Domain (s : Bytes) : Prop :=
  ∃ labels : List Bytes, 2 ≤ labels.length ∧ (∀ label ∈ labels, Label label) ∧ s = [DOT].intercalate labels

/-- An address. -/
structure Email (text : Bytes) : Prop where
  length : text.length ≤ 254
  one : text.count AT = 1
  parts : ∃ localPart domain, text = localPart ++ AT :: domain ∧ LocalPart localPart ∧ Domain domain

theorem isAlnum_iff {c : Byte} : isAlnum c = true ↔ IsLetterOrDigit c := by
  simp only [isAlnum, isAlpha, IsLetterOrDigit, Bool.or_eq_true, Bool.and_eq_true, decide_eq_true_eq, or_assoc]

/-! ## The local part -/

/-- **The loop over the local part**: its characters, and no two dots side by side. -/
theorem localPartValid_iff : ∀ {s : Bytes}, 0 ∉ s →
    (localPartValid s = true
      ↔ (∀ c ∈ s, IsLetterOrDigit c ∨ c ∈ emailPunctuation) ∧ ¬ [DOT, DOT] <:+: s) := by
  intro s
  induction s with
  | nil => simp [localPartValid]
  | cons c s ih =>
      intro hnul
      obtain ⟨hc, hs⟩ := not_or.mp (List.mem_cons.not.mp hnul)
      have hchar : (isAlnum c || strchr emailPunctuation c) = true
          ↔ IsLetterOrDigit c ∨ c ∈ emailPunctuation := by
        rw [Bool.or_eq_true, isAlnum_iff, strchr, Bool.or_eq_true, beq_iff_eq, List.contains_iff_mem]
        exact or_congr_right (or_iff_right (Ne.symm hc))
      -- two dots side by side are these two bytes, or stand behind
      have hpair : [DOT, DOT] <:+: c :: s ↔ (c = DOT ∧ s.head? = some DOT) ∨ [DOT, DOT] <:+: s := by
        rw [List.infix_cons_iff]
        refine or_congr_left ?_
        cases s with
        | nil => simp
        | cons d s => simp [eq_comm]
      rw [localPartValid, hpair, List.forall_mem_cons, not_or, ← hchar]
      cases isAlnum c || strchr emailPunctuation c with
      | false =>
          constructor
          · intro h
            cases h
          · rintro ⟨⟨h, -⟩, -⟩
            cases h
      | true =>
          have hdots : (c == 0x2E && s.head? == some 0x2E) = true ↔ c = DOT ∧ s.head? = some DOT := by
            rw [Bool.and_eq_true, beq_iff_eq, beq_iff_eq]
          rw [if_neg (by simp), ← hdots]
          cases c == 0x2E && s.head? == some 0x2E with
          | true => simp
          | false =>
              rw [if_neg Bool.false_ne_true, ih hs]
              simp

/-! ## The domain -/

/-- What may be the start of a label. -/
structure Begun (s : Bytes) : Prop where
  length : s.length ≤ 63
  chars : ∀ c ∈ s, IsLetterOrDigit c ∨ c = HYPHEN
  first : s.head? ≠ some HYPHEN

theorem label_iff {s : Bytes} : Label s ↔ Begun s ∧ s ≠ [] ∧ s.getLast? ≠ some HYPHEN := by
  constructor
  · intro h
    refine ⟨⟨h.length.2, h.chars, h.first⟩, ?_, h.last⟩
    rintro rfl
    exact absurd h.length.1 (by simp)
  · rintro ⟨h, hne, hlast⟩
    exact ⟨⟨List.length_pos_of_ne_nil hne, h.length⟩, h.chars, h.first, hlast⟩

theorem begun_nil : Begun [] := ⟨by simp, by simp, by simp⟩

/-- The start of what may be the start of a label. -/
theorem Begun.front {s t : Bytes} (h : Begun (s ++ t)) : Begun s := by
  refine ⟨?_, fun c hc => h.chars c (List.mem_append_left t hc), fun hhead => h.first ?_⟩
  · have hlen := h.length
    rw [List.length_append] at hlen
    omega
  · rw [List.head?_append, hhead]
    rfl

/-- One byte more. -/
theorem begun_concat {s : Bytes} (h : Begun s) {c : Byte} :
    Begun (s ++ [c]) ↔ (IsLetterOrDigit c ∨ c = HYPHEN) ∧ ¬ (s = [] ∧ c = HYPHEN) ∧ s.length + 1 ≤ 63 := by
  constructor
  · intro hc
    refine ⟨hc.chars c (by simp), ?_, ?_⟩
    · rintro ⟨rfl, rfl⟩
      exact hc.first rfl
    · have hlen := hc.length
      rw [List.length_append] at hlen
      exact hlen
  · rintro ⟨hchar, hfirst, hlen⟩
    refine ⟨?_, ?_, ?_⟩
    · rw [List.length_append]
      exact hlen
    · intro d hd
      rcases List.mem_append.mp hd with hd | hd
      · exact h.chars d hd
      · rw [List.mem_singleton.mp hd]
        exact hchar
    · cases s with
      | nil => simpa using fun hc : c = HYPHEN => hfirst ⟨rfl, hc⟩
      | cons d s => exact h.first

/-- There is no dot in a label. -/
theorem Begun.noDot {s : Bytes} (h : Begun s) : DOT ∉ s := by
  intro hdot
  rcases h.chars DOT hdot with hc | hc
  · revert hc
    unfold IsLetterOrDigit
    decide
  · cases hc

/-- The label ends here. -/
theorem begun_ends {label : Bytes} {last : Byte} (h : Begun label)
    (hlast : label ≠ [] → label.getLast? = some last) :
    Label label ↔ ¬ (label.length = 0 ∨ last = HYPHEN) := by
  rw [label_iff, not_or, List.length_eq_zero_iff]
  constructor
  · rintro ⟨-, hne, hend⟩
    refine ⟨hne, ?_⟩
    rintro rfl
    exact hend (hlast hne)
  · rintro ⟨hne, hend⟩
    refine ⟨h, hne, ?_⟩
    rw [hlast hne]
    exact fun hh => hend (Option.some.inj hh)

/-- **The loop over the domain**, `label` being the label so far: all labels are good, and there
    is a dot somewhere. -/
theorem domainValid_iff : ∀ (s : Bytes) {label : Bytes} {last : Byte} {dot : Bool}, Begun label →
    (label ≠ [] → label.getLast? = some last) →
    (domainValid last label.length dot s = true
      ↔ (∀ piece ∈ (label ++ s).splitOn DOT, Label piece) ∧ (dot = true ∨ DOT ∈ s)) := by
  intro s
  induction s with
  | nil =>
      intro label last dot hbegun hlast
      have hends := begun_ends hbegun hlast
      rw [List.append_nil, List.splitOn_eq_singleton hbegun.noDot, domainValid, List.forall_mem_singleton,
        hends, Bool.and_eq_true, Bool.and_eq_true, bne_iff_ne, bne_iff_ne, not_or]
      simp only [List.not_mem_nil, or_false]
      tauto
  | cons c s ih =>
      intro label last dot hbegun hlast
      rw [domainValid]
      by_cases hdot : c = DOT
      · -- the label ends, and the next one is empty so far
        subst hdot
        have hends := begun_ends hbegun hlast
        have hrest := @ih [] DOT true begun_nil fun h => absurd rfl h
        rw [if_pos rfl, List.splitOn_append_cons_self_of_not_mem hbegun.noDot, List.forall_mem_cons, hends]
        by_cases hbad : label.length = 0 ∨ last = HYPHEN
        · rw [if_pos (by simpa using hbad)]
          constructor
          · intro h
            cases h
          · rintro ⟨⟨h, -⟩, -⟩
            exact absurd hbad h
        · rw [if_neg (by simpa using hbad)]
          refine hrest.trans ?_
          rw [and_iff_right hbad]
          simp
      · -- the byte belongs to the label
        have hnoDot : ∀ d ∈ label ++ [c], (d != DOT) = true := by
          intro d hd
          rw [bne_iff_ne]
          rcases List.mem_append.mp hd with hd | hd
          · rintro rfl
            exact hbegun.noDot hd
          · rw [List.mem_singleton.mp hd]
            exact hdot
        have hassoc : label ++ c :: s = (label ++ [c]) ++ s := by simp
        have hbad : (!(isAlnum c || c == 0x2D) || (label.length = 0 && c == 0x2D) || label.length + 1 > 63) = true
            ↔ ¬ Begun (label ++ [c]) := by
          have hlen : 63 < label.length + 1 ↔ ¬ label.length + 1 ≤ 63 := Nat.not_le.symm
          rw [begun_concat hbegun, ← isAlnum_iff, not_and_or, not_and_or, not_not, not_or, Bool.or_eq_true,
            Bool.or_eq_true, or_assoc]
          simp [hlen]
        rw [if_neg hdot, hassoc]
        by_cases hgo : Begun (label ++ [c])
        · have hrest := @ih (label ++ [c]) c dot hgo fun _ => by simp
          rw [List.length_append] at hrest
          rw [if_neg (fun h => hbad.mp h hgo)]
          refine hrest.trans ?_
          rw [List.mem_cons, or_iff_right (Ne.symm hdot)]
        · rw [if_pos (hbad.mpr hgo)]
          constructor
          · intro h
            cases h
          · rintro ⟨h, -⟩
            -- whatever comes behind, the first piece begins with what no label begins with
            have hfirst := h ((label ++ [c]) ++ s.takeWhile (· != DOT)) (by
              rw [Separated.splitOn_step, List.takeWhile_append_of_pos hnoDot]
              exact List.mem_cons_self)
            exact absurd (label_iff.mp hfirst).1.front hgo

/-- Good labels with a dot between two of them. -/
theorem domain_iff {s : Bytes} : Domain s ↔ (∀ piece ∈ s.splitOn DOT, Label piece) ∧ DOT ∈ s := by
  constructor
  · rintro ⟨labels, htwo, hlabels, rfl⟩
    have hne : labels ≠ [] := by
      rintro rfl
      cases htwo
    have hsplit := List.splitOn_intercalate DOT (fun l hl => (label_iff.mp (hlabels l hl)).1.noDot) hne
    rw [hsplit]
    refine ⟨hlabels, ?_⟩
    by_contra hdot
    rw [List.splitOn_eq_singleton hdot] at hsplit
    rw [← hsplit] at htwo
    simp at htwo
  · rintro ⟨hlabels, hdot⟩
    refine ⟨s.splitOn DOT, ?_, hlabels, (List.intercalate_splitOn DOT).symm⟩
    obtain ⟨front, back, rfl, hfront⟩ := List.eq_append_cons_of_mem hdot
    rw [List.splitOn_append_cons_self_of_not_mem hfront, List.length_cons]
    exact Nat.succ_le_succ (List.length_pos_of_ne_nil (List.splitOn_ne_nil DOT back))

/-! ## The address -/

/-- There is no `@` in a local part. -/
theorem LocalPart.noAt {s : Bytes} (h : LocalPart s) : AT ∉ s := by
  intro hat
  rcases h.chars AT hat with hc | hc
  · revert hc
    unfold IsLetterOrDigit
    decide
  · revert hc
    decide

/-- An address is cut at its first `@`. -/
theorem email_split {localPart domain : Bytes} (hat : AT ∉ localPart) :
    Email (localPart ++ AT :: domain)
      ↔ (localPart ++ AT :: domain).length ≤ 254 ∧ AT ∉ domain ∧ LocalPart localPart ∧ Domain domain := by
  have hcount : (localPart ++ AT :: domain).count AT = 1 ↔ AT ∉ domain := by
    rw [List.count_append, List.count_cons_self, List.count_eq_zero_of_not_mem hat, ← List.count_eq_zero]
    omega
  constructor
  · rintro ⟨hlen, hone, l, d, hsplit, hl, hd⟩
    obtain ⟨rfl, -, rfl⟩ := (List.append_cons_inj_of_notMem hat (hcount.mp hone)).mp hsplit
    exact ⟨hlen, hcount.mp hone, hl, hd⟩
  · rintro ⟨hlen, hno, hl, hd⟩
    exact ⟨hlen, hcount.mpr hno, _, _, rfl, hl, hd⟩

/-- `email_valid` accepts just the addresses. -/
theorem emailValid_iff {text : Bytes} (hnul : 0 ∉ text) : emailValid text = true ↔ Email text := by
  by_cases hat : AT ∈ text
  · obtain ⟨l, d, rfl, hl⟩ := List.eq_append_cons_of_mem hat
    have hbefore : ∀ c ∈ l, (c != AT) = true := by
      intro c hc
      rw [bne_iff_ne]
      rintro rfl
      exact hl hc
    have htake : (l ++ AT :: d).takeWhile (· != 0x40) = l := by
      rw [List.takeWhile_append_of_pos hbefore]
      simp
    have hdrop : ((l ++ AT :: d).dropWhile (· != 0x40)).tail = d := by
      rw [List.dropWhile_append_of_pos hbefore]
      simp
    have hnul' : 0 ∉ l := fun h => hnul (List.mem_append_left _ h)
    have hlocal := localPartValid_iff hnul'
    have hdomain := @domainValid_iff d [] 0 false begun_nil fun h => absurd rfl h
    rw [email_split hl, domain_iff]
    unfold emailValid
    dsimp only
    rw [htake, hdrop]
    -- the returns in front of the two loops, one after another
    by_cases hlen : (l ++ AT :: d).length > 254
    · rw [if_pos hlen]
      constructor
      · intro h
        cases h
      · rintro ⟨h, -⟩
        exact absurd h (Nat.not_le_of_gt hlen)
    rw [if_neg hlen]
    by_cases hsizes : l = [] ∨ l.length > 64 ∨ AT ∈ d
    · rw [if_pos (by simpa [or_assoc] using hsizes)]
      constructor
      · intro h
        cases h
      · rintro ⟨-, hno, hpart, -⟩
        rcases hsizes with rfl | h | h
        · exact absurd hpart.length.1 (by simp)
        · exact absurd hpart.length.2 (Nat.not_le_of_gt h)
        · exact absurd h hno
    rw [if_neg (by simpa [or_assoc] using hsizes)]
    obtain ⟨hne, hlong, hno⟩ := not_or.mp hsizes |>.imp id not_or.mp
    by_cases hends : l.head? = some DOT ∨ l.getLast? = some DOT
    · rw [if_pos (by simpa using hends)]
      constructor
      · intro h
        cases h
      · rintro ⟨-, -, hpart, -⟩
        rcases hends with h | h
        · exact absurd h hpart.first
        · exact absurd h hpart.last
    rw [if_neg (by simpa using hends)]
    obtain ⟨hfirst, hlast⟩ := not_or.mp hends
    rw [Bool.and_eq_true, hlocal]
    constructor
    · rintro ⟨⟨hchars, hsingle⟩, hvalid⟩
      obtain ⟨hlabels, hdot⟩ := hdomain.mp hvalid
      exact ⟨Nat.le_of_not_gt hlen, hno,
        ⟨⟨List.length_pos_of_ne_nil hne, Nat.le_of_not_gt hlong⟩, hchars, hfirst, hlast, hsingle⟩, hlabels,
        hdot.resolve_left Bool.false_ne_true⟩
    · rintro ⟨-, -, hpart, hlabels, hdot⟩
      exact ⟨⟨hpart.chars, hpart.single⟩, hdomain.mpr ⟨hlabels, .inr hdot⟩⟩
  · constructor
    · intro h
      rw [emailValid] at h
      split at h
      · cases h
      · -- `strchr` finds no `@`
        have hcontains : text.contains 0x40 = false := by simpa using hat
        dsimp only at h
        rw [hcontains, if_pos (by simp)] at h
        cases h
    · rintro ⟨-, -, l, d, rfl, -⟩
      exact absurd (by simp) hat

/-- **`email_valid` accepts just the addresses**, and so does the rule of a field that
    asks for one and for nothing else. -/
theorem email_valid_iff {text : Bytes} (hnul : 0 ∉ text) :
    (emailValid text = true ↔ Email text)
      ∧ ∀ r : FieldRules, r.flags.email = true → r.flags.size = false →
          (stringRules r text = none ↔ Email text) := by
  refine ⟨emailValid_iff hnul, fun r hemail hsize => ?_⟩
  rw [← emailValid_iff hnul, stringRules, hemail, hsize, if_neg (by simp)]
  cases emailValid text <;> simp

/-- An address with two labels. -/
theorem email_valid_small : Email (lit "a.b@c.d-e") := by
  have hnul : 0 ∉ lit "a.b@c.d-e" := by decide
  exact (email_valid_iff hnul).1.mp (by decide)

end EmailGrammar
