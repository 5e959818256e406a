import Gargantua.GeneratorTypes

/-! # The types of an accepted model, after validation

    `resolve_picks` fills in what `$pick` names, and `validate_types` lets a
    model through only if every nested type is declared and the chains of nested
    types end.  What is left is a list of types in which each field has a kind,
    and a depth for each type that falls along nested fields. -/

namespace GeneratorAccepted

open RouteGenerator hiding ParsedRoute
open CString GeneratorText GeneratorSource GeneratorFields GeneratorFile GeneratorValidate
open GeneratorAuth GeneratorTypes

/-- A type as the generator writes it out. -/
structure TypeAccepted (t : ParsedType) : Prop where
  name : isSafeIdentifier t.name = true
  length : t.fields.length ≤ GENERATOR_MAX_FIELDS
  nonempty : t.fields ≠ []
  distinct : t.fields.Pairwise Compatible
  field : ∀ f ∈ t.fields, FieldShape f

/-! ## `$pick` is filled in -/

theorem resolveField_name (t source : ParsedType) (f : ParsedField) :
    (resolveField t source f).1.name = f.name := by
  rw [resolveField]
  split
  · rename_i g hg
    have hname := List.find?_some hg
    exact of_decide_eq_true hname
  · rfl

/-- What a picked field leaves behind is the key. -/
theorem resolveField_id (t source : ParsedType) (f : ParsedField)
    (h : (resolveField t source f).1.flags.id = true) : f.flags.id = true := by
  rw [resolveField] at h
  split at h
  · exact nomatch h
  · exact h

theorem compatible_resolve {t source : ParsedType} {f g : ParsedField} (h : Compatible f g) :
    Compatible (resolveField t source f).1 g :=
  ⟨(resolveField_name t source f).symm ▸ h.1, fun hc => h.2 ⟨resolveField_id t source f hc.1, hc.2⟩⟩

theorem compatible_symm {f g : ParsedField} (h : Compatible f g) : Compatible g f :=
  ⟨h.1.symm, fun hc => h.2 hc.symm⟩

theorem pickedField_shape {f : ParsedField} (h : FieldShape f) : FieldShape (pickedField f) :=
  ⟨h.name, h.kind, h.object, h.nullable, fun hc => (nomatch hc), h.rules⟩

theorem resolveField_shape {t source : ParsedType} {f : ParsedField}
    (hsource : ∀ g ∈ source.fields, FieldShape g) (h : (resolveField t source f).2 = []) :
    FieldShape (resolveField t source f).1 := by
  rw [resolveField] at h ⊢
  split at h
  · exact pickedField_shape (hsource _ (List.mem_of_find?_eq_some ‹_›))
  · exact nomatch h

/-- A type whose picks are resolved without an error. -/
theorem resolvePick_ok {types : List ParsedType} (hok : ModelOk types) {i : Nat} {t : ParsedType}
    (ht : types[i]? = some t) (h : (resolvePick types i t).2 = []) :
    TypeAccepted (resolvePick types i t).1 := by
  have hshape := hok.shape t (List.mem_of_getElem? ht)
  have hnonempty : t.fields ≠ [] := hok.closed i t ht (by intro h; cases h)
  rw [resolvePick] at h ⊢
  split at h
  · rename_i hcount
    rw [if_pos hcount]
    refine ⟨hshape.name, hshape.length, hnonempty, hshape.distinct, fun f hf => ?_⟩
    exact hshape.own f (by rw [hcount]; exact hf)
  rename_i hcount
  rw [if_neg hcount]
  split at h
  · cases h
  split at h
  · cases h
  rename_i j _ source hsource
  split at h
  · cases h
  rename_i htable
  rw [if_neg htable]
  have hfields : ∀ g ∈ source.fields, FieldShape g := by
    have hs := hok.shape source (List.mem_of_getElem? hsource)
    intro g hg
    exact hs.own g (by rw [hs.table (Bool.not_eq_true _ ▸ htable)]; exact hg)
  have hpicks := (List.append_eq_nil_iff.mp h).2
  rw [List.flatMap_map, List.flatMap_eq_nil_iff] at hpicks
  dsimp only
  rw [List.map_map]
  have hsplit := hshape.distinct
  rw [← List.take_append_drop t.pickCount t.fields] at hsplit
  obtain ⟨htake, hdrop, hcross⟩ := List.pairwise_append.mp hsplit
  refine ⟨hshape.name, ?_, ?_, ?_, ?_⟩
  · refine le_of_eq_of_le ?_ hshape.length
    simp
    have := hshape.pickCount
    omega
  · intro hnil
    obtain ⟨hfirst, hrest⟩ := List.append_eq_nil_iff.mp hnil
    have := List.take_append_drop t.pickCount t.fields
    rw [List.map_eq_nil_iff.mp hfirst, hrest] at this
    exact hnonempty this.symm
  · refine List.pairwise_append.mpr ⟨List.pairwise_map.mpr (htake.imp fun hfg => ?_), hdrop, ?_⟩
    · exact compatible_symm (compatible_resolve (compatible_symm (compatible_resolve hfg)))
    · intro f hf g hg
      obtain ⟨f', hf', rfl⟩ := List.mem_map.mp hf
      exact compatible_resolve (hcross f' hf' g hg)
  · intro f hf
    rcases List.mem_append.mp hf with hf | hf
    · obtain ⟨f', hf', rfl⟩ := List.mem_map.mp hf
      exact resolveField_shape hfields (hpicks f' hf')
    · exact hshape.own f hf

/-! ## Depths -/

theorem typeIndex_lt {types : List ParsedType} {name : Bytes} {k : Nat}
    (h : typeIndex types name = some k) : k < types.length :=
  (List.findIdx?_eq_some_iff_getElem.mp h).1

/-- What is known of the depths after any number of steps: a type that has one
    lies above its nested types. -/
structure DepthsOk (types : List ParsedType) (depth : List Nat) : Prop where
  length : depth.length = types.length
  nested : ∀ i t, types[i]? = some t → depth.getD i 0 ≠ 0 → ∀ f ∈ t.fields, isObject f = true →
    ∃ k, typeIndex types f.cType = some k ∧ depth.getD k 0 ≠ 0
      ∧ depth.getD k 0 + 1 ≤ depth.getD i 0

/-- A value that is not `0` lies above all nested types. -/
theorem nestingValue_spec (types : List ParsedType) (depth : List Nat) (fields : List ParsedField) :
    ∀ {value : Nat}, nestingValue types depth value fields ≠ 0 →
      value ≤ nestingValue types depth value fields
        ∧ ∀ f ∈ fields, isObject f = true → ∃ k, typeIndex types f.cType = some k
          ∧ depth.getD k 0 ≠ 0 ∧ depth.getD k 0 + 1 ≤ nestingValue types depth value fields := by
  induction fields with
  | nil => exact fun _ => ⟨Nat.le_refl _, fun f hf => (nomatch hf)⟩
  | cons f fields ih =>
      intro value h
      rw [nestingValue] at h ⊢
      by_cases hobject : isObject f = true
      · rw [if_pos hobject] at h ⊢
        split at h
        · exact absurd rfl h
        rename_i k hk
        by_cases hzero : depth.getD k 0 = 0
        · exact absurd (if_pos hzero) h
        rw [if_neg hzero] at h ⊢
        obtain ⟨hle, hrest⟩ := ih h
        refine ⟨(Nat.le_max_left _ _).trans hle, fun g hg hgo => ?_⟩
        rcases List.mem_cons.mp hg with rfl | hg
        · exact ⟨k, hk, hzero, (Nat.le_max_right _ _).trans hle⟩
        · exact hrest g hg hgo
      · rw [if_neg hobject] at h ⊢
        obtain ⟨hle, hrest⟩ := ih h
        refine ⟨hle, fun g hg hgo => ?_⟩
        rcases List.mem_cons.mp hg with rfl | hg
        · exact absurd hgo hobject
        · exact hrest g hg hgo

theorem getD_set (depth : List Nat) (i j v : Nat) (hi : i < depth.length) :
    (depth.set i v).getD j 0 = if i = j then v else depth.getD j 0 := by
  rw [List.getD_eq_getElem?_getD, List.getElem?_set, List.getD_eq_getElem?_getD]
  by_cases hij : i = j
  · rw [if_pos hij, if_pos hij, if_pos hi]
    rfl
  · rw [if_neg hij, if_neg hij]

/-- One type in a pass. -/
theorem DepthsOk.step {types : List ParsedType} {depth : List Nat} (h : DepthsOk types depth)
    (i : Nat) : DepthsOk types (depthStep types depth i) := by
  rw [depthStep]
  split
  · exact h
  rename_i hfresh
  have hzero : depth.getD i 0 = 0 := not_not.mp hfresh
  split
  · exact h
  rename_i t ht
  have hi : i < depth.length := h.length ▸ (List.getElem?_eq_some_iff.mp ht).1
  refine ⟨by rw [List.length_set]; exact h.length, ?_⟩
  -- a nested type that has a depth is not the one at `i`, and keeps its depth
  have hkeep : ∀ k, depth.getD k 0 ≠ 0 →
      (depth.set i (nestingValue types depth 1 t.fields)).getD k 0 = depth.getD k 0 := by
    intro k hk
    rw [getD_set _ _ _ _ hi, if_neg]
    rintro rfl
    exact hk hzero
  intro j s hs hj f hf hobject
  rw [getD_set _ _ _ _ hi] at hj ⊢
  by_cases hij : i = j
  · obtain rfl := hij
    obtain rfl := Option.some.inj (ht.symm.trans hs)
    rw [if_pos rfl] at hj ⊢
    obtain ⟨k, hk, hdepth, hlt⟩ := (nestingValue_spec types depth t.fields hj).2 f hf hobject
    exact ⟨k, hk, hkeep k hdepth ▸ hdepth, hkeep k hdepth ▸ hlt⟩
  · rw [if_neg hij] at hj ⊢
    obtain ⟨k, hk, hdepth, hlt⟩ := h.nested j s hs hj f hf hobject
    exact ⟨k, hk, hkeep k hdepth ▸ hdepth, hkeep k hdepth ▸ hlt⟩

theorem DepthsOk.pass {types : List ParsedType} (is : List Nat) :
    ∀ {depth : List Nat}, DepthsOk types depth → DepthsOk types (is.foldl (depthStep types) depth) := by
  induction is with
  | nil => exact fun h => h
  | cons i is ih => exact fun h => ih (h.step i)

theorem DepthsOk.passes {types : List ParsedType} (rounds : List Nat) :
    ∀ {depth : List Nat}, DepthsOk types depth →
      DepthsOk types (rounds.foldl (fun depth _ => depthPass types depth) depth) := by
  induction rounds with
  | nil => exact fun h => h
  | cons round rounds ih => exact fun h => ih (h.pass _)

theorem nestingDepth_ok (types : List ParsedType) : DepthsOk types (nestingDepth types) := by
  refine DepthsOk.passes _ ⟨List.length_replicate, fun i t _ hi => absurd ?_ hi⟩
  rw [List.getD_eq_getElem?_getD, List.getElem?_replicate]
  split <;> rfl

/-- The check of the depths lets through those from `1` to `8`. -/
theorem validateNestingDepth_nil {types : List ParsedType} (h : validateNestingDepth types = [])
    {i : Nat} {t : ParsedType} (hi : types[i]? = some t) :
    1 ≤ (nestingDepth types).getD i 0 ∧ (nestingDepth types).getD i 0 ≤ 8 := by
  have hlt : i < (nestingDepth types).length :=
    (nestingDepth_ok types).length ▸ (List.getElem?_eq_some_iff.mp hi).1
  have hmem : (t, (nestingDepth types).getD i 0) ∈ types.zip (nestingDepth types) := by
    refine List.mem_of_getElem? (i := i) ?_
    rw [List.getElem?_zip_eq_some]
    refine ⟨hi, ?_⟩
    rw [List.getD_eq_getElem?_getD, List.getElem?_eq_getElem hlt]
    rfl
  have hchecked := List.flatMap_eq_nil_iff.mp h _ hmem
  dsimp only at hchecked
  split at hchecked
  · exact nomatch hchecked
  · omega

/-! ## The whole model -/

/-- The types of an accepted model. -/
structure TypesAccepted (types : List ParsedType) : Prop where
  names : (types.map (·.name)).Nodup
  type : ∀ t ∈ types, TypeAccepted t
  depth : ∃ depth : Nat → Nat, ∀ i t, types[i]? = some t →
    1 ≤ depth i ∧ depth i ≤ 8 ∧ ∀ f ∈ t.fields, isObject f = true →
      ∃ k, typeIndex types f.cType = some k ∧ depth k + 1 ≤ depth i

/-- Validation changes nothing of a field but the name of the key it refers to. -/
theorem validateField_eq (types : List ParsedType) (t : ParsedType) (slot : Nat) (f : ParsedField) :
    ∃ key, (validateField types t slot f).1 = { f with referenceKey := key } := by
  unfold validateField
  dsimp only
  split
  · exact ⟨f.referenceKey, rfl⟩
  · split
    · exact ⟨_, rfl⟩
    · exact ⟨f.referenceKey, rfl⟩

theorem validateTypeFields_ok {types : List ParsedType} {slot : Nat} {t : ParsedType}
    (h : TypeAccepted t) : TypeAccepted (validateTypeFields types slot t).1 := by
  have hfields : (validateTypeFields types slot t).1.fields
      = t.fields.map fun f => (validateField types t slot f).1 := List.map_map
  refine ⟨h.name, ?_, ?_, ?_, ?_⟩
  · rw [hfields, List.length_map]
    exact h.length
  · rw [hfields]
    exact fun hc => h.nonempty (List.map_eq_nil_iff.mp hc)
  · rw [hfields]
    refine List.pairwise_map.mpr (h.distinct.imp fun {f g} hfg => ?_)
    obtain ⟨key, hf⟩ := validateField_eq types t slot f
    obtain ⟨key', hg⟩ := validateField_eq types t slot g
    rw [hf, hg]
    exact ⟨hfg.1, hfg.2⟩
  · rw [hfields]
    intro f hf
    obtain ⟨g, hg, rfl⟩ := List.mem_map.mp hf
    obtain ⟨key, heq⟩ := validateField_eq types t slot g
    have hshape := h.field g hg
    rw [heq]
    exact ⟨hshape.name, hshape.kind, hshape.object, hshape.nullable, hshape.id, hshape.rules⟩

/-- What is checked one by one, with the place of each. -/
theorem getElem?_checked {α : Type} (check : Nat → ParsedType → ParsedType × List α)
    (types : List ParsedType) {i : Nat} {t : ParsedType}
    (h : ((types.mapIdx check).map (·.1))[i]? = some t) :
    ∃ s, types[i]? = some s ∧ t = (check i s).1 := by
  rw [List.getElem?_map, List.getElem?_mapIdx, Option.map_map] at h
  obtain ⟨s, hs, rfl⟩ := Option.map_eq_some_iff.mp h
  exact ⟨s, hs, rfl⟩

theorem checked_nil {α : Type} {check : Nat → ParsedType → ParsedType × List α}
    {types : List ParsedType} (h : (types.mapIdx check).flatMap (·.2) = []) {i : Nat}
    {s : ParsedType} (hs : types[i]? = some s) : (check i s).2 = [] := by
  refine List.flatMap_eq_nil_iff.mp h (check i s) (List.mem_of_getElem? (i := i) ?_)
  rw [List.getElem?_mapIdx, hs]
  rfl

theorem checked_names {α : Type} {check : Nat → ParsedType → ParsedType × List α}
    (hname : ∀ i t, (check i t).1.name = t.name) (types : List ParsedType) :
    ((types.mapIdx check).map (·.1)).map (·.name) = types.map (·.name) := by
  apply List.ext_getElem?
  intro i
  rw [List.map_map, List.getElem?_map, List.getElem?_mapIdx, List.getElem?_map, Option.map_map]
  cases types[i]? with
  | none => rfl
  | some t => exact congrArg some (hname i t)

theorem resolvePick_name (types : List ParsedType) (i : Nat) (t : ParsedType) :
    (resolvePick types i t).1.name = t.name := by
  rw [resolvePick]
  repeat' split
  all_goals rfl

/-- **The types of an accepted model** are well shaped, and nested types end. -/
theorem typesAccepted (strtold : Strtold) (files : List File)
    (h : (runGenerator strtold files).errors = []) :
    TypesAccepted (runGenerator strtold files).types := by
  rw [runGenerator, generatorValidateModel] at h ⊢
  obtain ⟨hvalid, -⟩ := List.append_eq_nil_iff.mp h
  rw [validateTypes] at hvalid ⊢
  obtain ⟨hchecked, hdepth⟩ := List.append_eq_nil_iff.mp hvalid
  obtain ⟨hresolve, hfields⟩ := List.append_eq_nil_iff.mp hchecked
  rw [resolvePicks] at hresolve
  obtain ⟨hparsed, hpicks⟩ := List.append_eq_nil_iff.mp hresolve
  have hok : ModelOk (parseFiles strtold files).types :=
    parseFiles_ok strtold files {} modelOk_nil hparsed
  have hresolved : ∀ t ∈ (resolvePicks (parseFiles strtold files)).types, TypeAccepted t := by
    intro t ht
    obtain ⟨i, hi⟩ := List.mem_iff_getElem?.mp ht
    obtain ⟨s, hs, rfl⟩ := getElem?_checked _ _ hi
    exact resolvePick_ok hok hs (checked_nil hpicks hs)
  generalize hmodel : resolvePicks (parseFiles strtold files) = ctx at hresolved hfields hdepth ⊢
  refine ⟨?_, ?_, fun i => (nestingDepth
    ((ctx.types.mapIdx fun i t => validateTypeFields ctx.types i t).map (·.1))).getD i 0, ?_⟩
  · rw [checked_names (fun _ _ => rfl) ctx.types, ← hmodel, resolvePicks,
      checked_names (resolvePick_name _)]
    exact hok.names
  · intro t ht
    obtain ⟨i, hi⟩ := List.mem_iff_getElem?.mp ht
    obtain ⟨s, hs, rfl⟩ := getElem?_checked _ _ hi
    exact validateTypeFields_ok (hresolved s (List.mem_of_getElem? hs))
  · dsimp only at hdepth ⊢
    generalize (ctx.types.mapIdx fun i t => validateTypeFields ctx.types i t).map (·.1) = types
      at hdepth ⊢
    intro i t hi
    obtain ⟨hpos, hle⟩ := validateNestingDepth_nil hdepth hi
    refine ⟨hpos, hle, fun f hf hobject => ?_⟩
    obtain ⟨k, hk, -, hlt⟩ :=
      (nestingDepth_ok types).nested i t hi (Nat.pos_iff_ne_zero.mp hpos) f hf hobject
    exact ⟨k, hk, hlt⟩

end GeneratorAccepted
