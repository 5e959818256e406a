import Mathlib.Data.List.Nodup

/-! # Keyed lists

    A list that is written by key: an entry takes the place of the one with its
    key, or goes to the end if there is none.  What a sequence of writes leaves is
    a map that remembers the order of the first writes: each key once, in that
    order, with the last entry written under it (`Leaves`). -/

namespace Upsert

variable {α κ : Type} [DecidableEq κ] (key : α → κ)

/-- Write over the entry of that key, or add one behind the others. -/
def put (l : List α) (a : α) : List α :=
  match l.findIdx? fun b => key b = key a with
  | some i => l.set i a
  | none => l ++ [a]

/-- What the writes `ws` leave: each key once, in the order of the first writes,
    under each the last entry. -/
structure Leaves (ws l : List α) : Prop where
  keys : l.map key = (ws.map key).eraseDups
  nodup : (l.map key).Nodup
  last : ∀ a ∈ l, ∃ before after, ws = before ++ a :: after ∧ ∀ b ∈ after, key b ≠ key a

variable {key}

theorem leaves_nil : Leaves key [] [] where
  keys := rfl
  nodup := List.nodup_nil
  last := fun _ ha => nomatch ha

/-- An entry of the key is found, or the key is new. -/
theorem put_cases (l : List α) (a : α) :
    (∃ i, ∃ h : i < l.length, key (l[i]) = key a ∧ put key l a = l.set i a)
      ∨ (key a ∉ l.map key ∧ put key l a = l ++ [a]) := by
  rw [put]
  cases hfind : l.findIdx? fun b => key b = key a with
  | some i =>
      obtain ⟨hi, hkey, _⟩ := List.findIdx?_eq_some_iff_getElem.mp hfind
      exact .inl ⟨i, hi, of_decide_eq_true hkey, rfl⟩
  | none =>
      refine .inr ⟨fun hmem => ?_, rfl⟩
      obtain ⟨b, hb, hkey⟩ := List.mem_map.mp hmem
      exact absurd hkey (of_decide_eq_false (List.findIdx?_eq_none_iff.mp hfind b hb))

theorem eraseDups_snoc {ks : List κ} {k : κ} :
    (ks ++ [k]).eraseDups = if k ∈ ks then ks.eraseDups else ks.eraseDups ++ [k] := by
  rw [List.eraseDups_append]
  by_cases hk : k ∈ ks
  · have hnone : [k].removeAll ks = [] := by simp [List.removeAll, hk]
    rw [if_pos hk, hnone, List.eraseDups_nil, List.append_nil]
  · have hself : [k].removeAll ks = [k] := by simp [List.removeAll, hk]
    rw [if_neg hk, hself]
    rfl

omit [DecidableEq κ] in
/-- The entries of other keys are still the last ones behind one more write. -/
theorem last_snoc {ws : List α} {a b : α} (hne : key b ≠ key a)
    (h : ∃ before after, ws = before ++ b :: after ∧ ∀ c ∈ after, key c ≠ key b) :
    ∃ before after, ws ++ [a] = before ++ b :: after ∧ ∀ c ∈ after, key c ≠ key b := by
  obtain ⟨before, after, rfl, hafter⟩ := h
  refine ⟨before, after ++ [a], by rw [List.append_assoc, List.cons_append], fun c hc => ?_⟩
  rcases List.mem_append.mp hc with hc | hc
  · exact hafter c hc
  · rw [List.mem_singleton.mp hc]
    exact hne.symm

/-- **One write.** -/
theorem Leaves.put {ws l : List α} (h : Leaves key ws l) (a : α) :
    Leaves key (ws ++ [a]) (put key l a) := by
  have hlast : ∃ before after, ws ++ [a] = before ++ a :: after ∧ ∀ c ∈ after, key c ≠ key a :=
    ⟨ws, [], rfl, fun _ hc => nomatch hc⟩
  have hkeys : (ws ++ [a]).map key = ws.map key ++ [key a] := List.map_append
  have hmem : key a ∈ l.map key ↔ key a ∈ ws.map key := by
    rw [h.keys, List.mem_eraseDups]
  rcases @put_cases _ _ _ key l a with ⟨i, hi, hkey, heq⟩ | ⟨hnew, heq⟩
  · have hsame : (l.set i a).map key = l.map key := by
      rw [List.map_set, ← hkey, ← List.getElem_map key (h := by rwa [List.length_map]),
        List.set_getElem_self]
    have hheld : key a ∈ l.map key := hkey ▸ List.mem_map_of_mem (List.getElem_mem hi)
    rw [heq]
    refine ⟨?_, hsame ▸ h.nodup, fun b hb => ?_⟩
    · rw [hsame, hkeys, eraseDups_snoc, if_pos (hmem.mp hheld), h.keys]
    · by_cases hba : key b = key a
      · have hput : a ∈ l.set i a := List.mem_set hi a
        obtain rfl := List.inj_on_of_nodup_map (hsame ▸ h.nodup) hb hput hba
        exact hlast
      · rcases List.mem_or_eq_of_mem_set hb with hb | rfl
        · exact last_snoc hba (h.last b hb)
        · exact absurd rfl hba
  · rw [heq]
    have hadd : (l ++ [a]).map key = l.map key ++ [key a] := List.map_append
    refine ⟨?_, ?_, fun b hb => ?_⟩
    · rw [hadd, hkeys, eraseDups_snoc, if_neg fun hin => hnew (hmem.mpr hin), h.keys]
    · rw [hadd]
      exact List.nodup_append.mpr ⟨h.nodup, List.nodup_singleton _, fun x hx y hy hxy =>
        hnew (List.mem_singleton.mp hy ▸ hxy ▸ hx)⟩
    · rcases List.mem_append.mp hb with hb | hb
      · exact last_snoc (fun hba => hnew (hba ▸ List.mem_map_of_mem hb)) (h.last b hb)
      · rw [List.mem_singleton.mp hb]
        exact hlast

omit [DecidableEq κ] in
/-- Keys that differ are met once. -/
theorem filter_key_length [BEq κ] [LawfulBEq κ] {l : List α} (h : (l.map key).Nodup) (k : κ) :
    (l.filter fun a => key a == k).length ≤ 1 := by
  have hcount := List.nodup_iff_count_le_one.mp h k
  rwa [List.count, List.countP_map, List.countP_eq_length_filter] at hcount

end Upsert
