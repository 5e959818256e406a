import Mathlib.Data.List.Basic

/-! # Ordered forests listed in preorder

    A forest is a node with its children and the nodes behind it, or nothing.
    `listing` writes it down in preorder, each node with the index of its
    parent; an `Entry` is a node with its index and its children.

    Where each node has an extent, and the children of a node have theirs in
    order inside it (`Nested`), the extents of two nodes are apart or one node
    is below the other (`Entry.laminar`).  So the parent is the narrowest node
    around, and siblings come one behind the other. -/

namespace Preorder

variable {α : Type}

/-- A node with its children, and the nodes behind it. -/
inductive Forest (α : Type) where
  | nil
  | node (a : α) (children rest : Forest α)

namespace Forest

def size : Forest α → Nat
  | nil => 0
  | node _ children rest => children.size + rest.size + 1

/-- The nodes in preorder, from `index` on, each with the index of its parent. -/
def listing : Forest α → Nat → Int → List (α × Int)
  | nil, _, _ => []
  | node a children rest, index, parent =>
      (a, parent) :: (children.listing (index + 1) index
        ++ rest.listing (index + 1 + children.size) parent)

/-- The indices of the roots. -/
def roots : Forest α → Nat → List Nat
  | nil, _ => []
  | node _ children rest, index => index :: rest.roots (index + 1 + children.size)

/-- Every node satisfies `P` together with its children. -/
def Everywhere (P : α → Forest α → Prop) : Forest α → Prop
  | nil => True
  | node a children rest => P a children ∧ children.Everywhere P ∧ rest.Everywhere P

theorem listing_length (F : Forest α) : ∀ (index : Nat) (parent : Int),
    (F.listing index parent).length = F.size := by
  induction F with
  | nil => exact fun _ _ => rfl
  | node a children rest ihc ihr =>
      intro index parent
      rw [listing, List.length_cons, List.length_append, ihc, ihr]
      rfl

end Forest

open Forest

/-- The node `a` has the index `j`, the parent `q` and the children `cs`. -/
inductive Entry : Forest α → Nat → Int → Nat → α → Int → Forest α → Prop
  | here {a : α} {cs rest : Forest α} {index : Nat} {parent : Int} :
      Entry (node a cs rest) index parent index a parent cs
  | inside {a b : α} {cs rest ds : Forest α} {index j : Nat} {parent q : Int}
      (h : Entry cs (index + 1) index j b q ds) :
      Entry (node a cs rest) index parent j b q ds
  | after {a b : α} {cs rest ds : Forest α} {index j : Nat} {parent q : Int}
      (h : Entry rest (index + 1 + cs.size) parent j b q ds) :
      Entry (node a cs rest) index parent j b q ds

/-- The entries are what is listed. -/
theorem exists_entry {F : Forest α} : ∀ {index n : Nat} {parent q : Int} {a : α},
    (F.listing index parent)[n]? = some (a, q) → ∃ cs, Entry F index parent (index + n) a q cs := by
  induction F with
  | nil => exact fun h => nomatch h
  | node b children rest ihc ihr =>
      intro index n parent q a h
      cases n with
      | zero =>
          obtain ⟨rfl, rfl⟩ := Prod.mk.inj (Option.some.inj h)
          exact ⟨children, .here⟩
      | succ n =>
          rw [listing, List.getElem?_cons_succ] at h
          by_cases hn : n < children.size
          · rw [List.getElem?_append_left (by rwa [listing_length])] at h
            obtain ⟨cs, hcs⟩ := ihc h
            rw [Nat.add_right_comm] at hcs
            exact ⟨cs, .inside hcs⟩
          · rw [List.getElem?_append_right (by rw [listing_length]; omega), listing_length] at h
            obtain ⟨cs, hcs⟩ := ihr h
            have hidx : index + 1 + children.size + (n - children.size) = index + (n + 1) := by
              omega
            rw [hidx] at hcs
            exact ⟨cs, .after hcs⟩

namespace Entry

variable {F : Forest α} {index j k : Nat} {parent q r : Int} {a b : α} {cs ds : Forest α}

theorem bounds (h : Entry F index parent j a q cs) : index ≤ j ∧ j < index + F.size := by
  induction h with
  | here =>
      rw [size]
      omega
  | inside _ ih | after _ ih =>
      rw [size]
      omega

theorem listed (h : Entry F index parent j a q cs) :
    (F.listing index parent)[j - index]? = some (a, q) := by
  induction h with
  | here =>
      rw [Nat.sub_self]
      rfl
  | @inside a b cs rest ds index j parent q h ih =>
      have hb := h.bounds
      have hj : j - index = j - (index + 1) + 1 := by omega
      rw [listing, hj, List.getElem?_cons_succ,
        List.getElem?_append_left (by rw [listing_length]; omega), ih]
  | @after a b cs rest ds index j parent q h ih =>
      have hb := h.bounds
      have hj : j - index = (j - (index + 1 + cs.size) + cs.size) + 1 := by omega
      rw [listing, hj, List.getElem?_cons_succ,
        List.getElem?_append_right (by rw [listing_length]; omega), listing_length,
        Nat.add_sub_cancel, ih]

theorem everywhere {P : α → Forest α → Prop} (h : Entry F index parent j a q cs)
    (hP : F.Everywhere P) : P a cs := by
  induction h with
  | here => exact hP.1
  | inside _ ih => exact ih hP.2.1
  | after _ ih => exact ih hP.2.2

/-- The parent comes first, and is a node with children. -/
theorem parent_cases (h : Entry F index parent k b r ds) :
    r = parent ∨ ∃ m c q es, r = (m : Nat) ∧ Entry F index parent m c q es ∧ m < k ∧ es ≠ nil := by
  induction h with
  | here => exact .inl rfl
  | @inside a b cs rest ds index j parent q h ih =>
      right
      rcases ih with rfl | ⟨m, c, q', es, rfl, hm, hlt, hes⟩
      · refine ⟨index, a, parent, cs, rfl, .here, ?_, ?_⟩
        · have hb := h.bounds
          omega
        · rintro rfl
          exact nomatch h
      · exact ⟨m, c, q', es, rfl, .inside hm, hlt, hes⟩
  | after _ ih =>
      rcases ih with rfl | ⟨m, c, q', es, rfl, hm, hlt, hes⟩
      · exact .inl rfl
      · exact .inr ⟨m, c, q', es, rfl, .after hm, hlt, hes⟩

/-- What stands below an entry stands below the whole. -/
theorem trans (h : Entry F index parent j a q cs) (h' : Entry cs (j + 1) j k b r ds) :
    Entry F index parent k b r ds := by
  induction h with
  | here => exact .inside h'
  | inside _ ih => exact .inside (ih h')
  | after _ ih => exact .after (ih h')

/-- An entry is known by its index. -/
theorem unique (h : Entry F index parent j a q cs) (h' : Entry F index parent j b r ds) :
    a = b ∧ q = r ∧ cs = ds := by
  induction h with
  | here =>
      cases h' with
      | here => exact ⟨rfl, rfl, rfl⟩
      | inside h' => exact absurd h'.bounds (by omega)
      | after h' => exact absurd h'.bounds (by omega)
  | inside h ih =>
      have hb := h.bounds
      cases h' with
      | here => omega
      | inside h' => exact ih h'
      | after h' => exact absurd h'.bounds (by omega)
  | after h ih =>
      have hb := h.bounds
      cases h' with
      | here => omega
      | inside h' => exact absurd h'.bounds (by omega)
      | after h' => exact ih h'

end Entry

/-! ## Extents -/

section Extents

variable (first last : α → Nat)

/-- The extents of the roots come in order between `lo` and `hi`, and those of
    the children of a node behind its first place. -/
def Nested : Nat → Nat → Forest α → Prop
  | _, _, nil => True
  | lo, hi, node a children rest =>
      lo ≤ first a ∧ first a < last a ∧ last a ≤ hi
        ∧ Nested (first a + 1) (last a) children ∧ Nested (last a) hi rest

variable {first last} {F : Forest α} {index j k lo hi : Nat} {parent q r : Int} {a b : α}
  {cs ds : Forest α}

theorem Nested.mono (h : Nested first last lo hi F) {lo' hi' : Nat} (hlo : lo' ≤ lo)
    (hhi : hi ≤ hi') : Nested first last lo' hi' F := by
  induction F generalizing lo hi lo' hi' with
  | nil => trivial
  | node a children rest _ ihr =>
      obtain ⟨h1, h2, h3, h4, h5⟩ := h
      exact ⟨Nat.le_trans hlo h1, h2, Nat.le_trans h3 hhi, h4, ihr h5 (Nat.le_refl _) hhi⟩

/-- No node leaves the extent of the whole. -/
theorem Entry.within (h : Entry F index parent j a q cs) (hF : Nested first last lo hi F) :
    lo ≤ first a ∧ first a < last a ∧ last a ≤ hi := by
  induction h generalizing lo hi with
  | here => exact ⟨hF.1, hF.2.1, hF.2.2.1⟩
  | inside _ ih =>
      obtain ⟨h1, h2, h3, h4, -⟩ := hF
      obtain ⟨i1, i2, i3⟩ := ih h4
      exact ⟨by omega, i2, by omega⟩
  | after _ ih =>
      obtain ⟨h1, h2, h3, -, h5⟩ := hF
      obtain ⟨i1, i2, i3⟩ := ih h5
      exact ⟨by omega, i2, i3⟩

/-- The parent reaches around its child. -/
theorem Entry.parent_around (h : Entry F index parent k b r ds) (hF : Nested first last lo hi F)
    (hparent : parent < index) (hroot : r ≠ parent) :
    ∃ m c q es, r = (m : Nat) ∧ Entry F index parent m c q es ∧ m < k ∧ es ≠ nil
      ∧ first c < first b ∧ last b ≤ last c := by
  induction h generalizing lo hi with
  | here => exact absurd rfl hroot
  | @inside a b cs rest ds index j parent q h ih =>
      obtain ⟨h1, h2, h3, h4, -⟩ := hF
      have hb := h.bounds
      by_cases htop : q = index
      · obtain ⟨i1, -, i3⟩ := h.within h4
        refine ⟨index, a, parent, cs, htop, .here, by omega, ?_, by omega, i3⟩
        rintro rfl
        exact nomatch h
      · obtain ⟨m, c, q', es, hr, hm, hlt, hes, hf, hl⟩ := ih h4 (by omega) htop
        exact ⟨m, c, q', es, hr, .inside hm, hlt, hes, hf, hl⟩
  | after h ih =>
      obtain ⟨h1, h2, h3, -, h5⟩ := hF
      obtain ⟨m, c, q', es, hr, hm, hlt, hes, hf, hl⟩ := ih h5 (by omega) hroot
      exact ⟨m, c, q', es, hr, .after hm, hlt, hes, hf, hl⟩

/-- **Two extents are apart, or one node is below the other**, and then so is
    the parent of the second. -/
theorem Entry.laminar (hF : Nested first last lo hi F) (hparent : parent < index)
    (h : Entry F index parent j a q cs) (h' : Entry F index parent k b r ds) (hjk : j < k) :
    last a ≤ first b ∨ (cs ≠ nil ∧ first a < first b ∧ last b ≤ last a
      ∧ ∃ m c q' es, r = (m : Nat) ∧ j ≤ m ∧ Entry F index parent m c q' es
        ∧ first a ≤ first c ∧ last c ≤ last a) := by
  induction h generalizing lo hi with
  | @here a cs rest index parent =>
      obtain ⟨h1, h2, h3, h4, h5⟩ := hF
      cases h' with
      | here => omega
      | inside h' =>
          right
          obtain ⟨i1, i2, i3⟩ := h'.within h4
          refine ⟨?_, by omega, i3, ?_⟩
          · rintro rfl
            exact nomatch h'
          by_cases htop : r = index
          · exact ⟨index, a, parent, cs, htop, Nat.le_refl _, .here, Nat.le_refl _, Nat.le_refl _⟩
          · obtain ⟨m, c, q', es, rfl, hm, -⟩ := h'.parent_around h4 (by omega) htop
            obtain ⟨m1, -, m3⟩ := hm.within h4
            have hb := hm.bounds
            exact ⟨m, c, q', es, rfl, by omega, .inside hm, by omega, m3⟩
      | after h' =>
          left
          exact (h'.within h5).1
  | @inside a' a cs' rest cs index j parent q h ih =>
      obtain ⟨h1, h2, h3, h4, h5⟩ := hF
      have hb := h.bounds
      cases h' with
      | here => omega
      | inside h' =>
          rcases ih h4 (by omega) h' hjk with hleft | ⟨hne, hf, hl, m, c, q', es, rfl, hm, hc, hs⟩
          · exact .inl hleft
          · exact .inr ⟨hne, hf, hl, m, c, q', es, rfl, hm, .inside hc, hs⟩
      | after h' =>
          left
          have hw := (h.within h4).2.2
          have hw' := (h'.within h5).1
          omega
  | @after a' a cs' rest cs index j parent q h ih =>
      obtain ⟨h1, h2, h3, h4, h5⟩ := hF
      have hb := h.bounds
      cases h' with
      | here => omega
      | inside h' => exact absurd h'.bounds (by omega)
      | after h' =>
          rcases ih h5 (by omega) h' hjk with hleft | ⟨hne, hf, hl, m, c, q', es, rfl, hm, hc, hs⟩
          · exact .inl hleft
          · exact .inr ⟨hne, hf, hl, m, c, q', es, rfl, hm, .after hc, hs⟩

/-- Siblings come one behind the other. -/
theorem Entry.siblings (hF : Nested first last lo hi F) (hparent : parent < index)
    (h : Entry F index parent j a q cs) (h' : Entry F index parent k b q ds) (hjk : j < k) :
    last a ≤ first b := by
  rcases Entry.laminar hF hparent h h' hjk with hleft | ⟨-, -, -, m, -, -, -, rfl, hm, -⟩
  · exact hleft
  · -- the common parent would be `j` or below it
    rcases h.parent_cases with htop | ⟨m', c, q', es, heq, -, hlt, -⟩
    · have hb := h.bounds
      omega
    · omega

end Extents

/-! ## Children -/

/-- The indices, from `index` on, of the entries with this parent. -/
def childrenFrom (parents : List Int) (index : Nat) (parent : Int) : List Nat :=
  match parents with
  | [] => []
  | q :: parents =>
      if q = parent then index :: childrenFrom parents (index + 1) parent
      else childrenFrom parents (index + 1) parent

theorem childrenFrom_append (ps qs : List Int) (index : Nat) (parent : Int) :
    childrenFrom (ps ++ qs) index parent
      = childrenFrom ps index parent ++ childrenFrom qs (index + ps.length) parent := by
  induction ps generalizing index with
  | nil => rfl
  | cons p ps ih =>
      have hidx : index + 1 + ps.length = index + (p :: ps).length := by
        rw [List.length_cons]
        omega
      rw [List.cons_append, childrenFrom, childrenFrom, ih, hidx]
      split <;> rfl

theorem childrenFrom_none {ps : List Int} {parent : Int} (h : ∀ q ∈ ps, q ≠ parent) :
    ∀ index, childrenFrom ps index parent = [] := by
  induction ps with
  | nil => exact fun _ => rfl
  | cons p ps ih =>
      intro index
      obtain ⟨hp, hps⟩ := List.forall_mem_cons.mp h
      rw [childrenFrom, if_neg hp, ih hps]

/-- The parents, as they are listed. -/
def parents (F : Forest α) (index : Nat) (parent : Int) : List Int :=
  (F.listing index parent).map Prod.snd

theorem parents_node (a : α) (children rest : Forest α) (index : Nat) (parent : Int) :
    parents (node a children rest) index parent
      = parent :: (parents children (index + 1) index
        ++ parents rest (index + 1 + children.size) parent) := by
  rw [parents, listing, List.map_cons, List.map_append]
  rfl

theorem parents_length (F : Forest α) (index : Nat) (parent : Int) :
    (parents F index parent).length = F.size := by
  rw [parents, List.length_map, listing_length]

/-- A parent that is listed is that of the roots or one of the entries. -/
theorem mem_parents {F : Forest α} {index : Nat} {parent : Int} :
    ∀ q ∈ parents F index parent, q = parent ∨ ((index : Int) ≤ q ∧ q < (index + F.size : Nat)) := by
  intro q hq
  obtain ⟨⟨a, q'⟩, hmem, rfl⟩ := List.mem_map.mp hq
  obtain ⟨n, hn⟩ := List.mem_iff_getElem?.mp hmem
  obtain ⟨cs, h⟩ := exists_entry hn
  rcases h.parent_cases with hroot | ⟨m, c, q, es, hm, hentry, -⟩
  · exact .inl hroot
  · have hb := hentry.bounds
    dsimp only
    omega

/-- The roots are the entries at the top. -/
theorem childrenFrom_roots (F : Forest α) : ∀ {index : Nat} {parent : Int}, parent < index →
    childrenFrom (parents F index parent) index parent = F.roots index := by
  induction F with
  | nil => exact fun _ => rfl
  | node a children rest _ ihr =>
      intro index parent hlt
      rw [parents_node, childrenFrom, if_pos rfl, childrenFrom_append, parents_length,
        childrenFrom_none fun q hq => ?_, List.nil_append, ihr (by omega)]
      · rfl
      · rcases mem_parents q hq with h | h <;> omega

/-- **The children of an entry** stand behind it, where its forest says. -/
theorem Entry.children {F : Forest α} {index j : Nat} {parent q : Int} {a : α} {cs : Forest α}
    (hlt : parent < index) (h : Entry F index parent j a q cs) :
    childrenFrom (parents F index parent) index j = cs.roots (j + 1) := by
  induction h with
  | @here a cs rest index parent =>
      rw [parents_node, childrenFrom, if_neg (by omega), childrenFrom_append,
        childrenFrom_roots cs (by omega), childrenFrom_none fun q hq => ?_, List.append_nil]
      rcases mem_parents q hq with h | h <;> omega
  | @inside a b cs rest ds index j parent q h ih =>
      have hb := h.bounds
      rw [parents_node, childrenFrom, if_neg (by omega), childrenFrom_append,
        ih (by omega), childrenFrom_none fun q hq => ?_, List.append_nil]
      rcases mem_parents q hq with h | h <;> omega
  | @after a b cs rest ds index j parent q h ih =>
      have hb := h.bounds
      rw [parents_node, childrenFrom, if_neg (by omega), childrenFrom_append, parents_length,
        childrenFrom_none fun q hq => ?_, List.nil_append, ih (by omega)]
      rcases mem_parents q hq with h | h <;> omega

end Preorder
