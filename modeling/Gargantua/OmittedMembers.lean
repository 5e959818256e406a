import Gargantua.BodyExact

/-! # Members that may be left out (`src/runtime/runtime_body.c`, `src/runtime/runtime_ddl.c`)

    A field is required in three places: the reader asks for the fields that are
    `$not_null`, every value that is there keeps its rules, and the validation of
    the whole struct then judges the zeroes of what is not there.  So a member may
    be left out of an accepted body exactly if its field is not `$not_null` and
    the zero of every leaf in it keeps the rules (`omit_exact`): a number with
    `$min(1)` is required without being `$not_null`. -/

namespace OmittedMembers

open CString JsonParse JsonGrammar JsonDecode JsonMachine JsonAccess GeneratorText GeneratorSource RuntimeTypes RuntimeError
  RuntimeObject RuntimeBody BodyTree ObjectFields BodyBinding BodyRead BodyLeaves BodyExact PatchKey
  Memory

/-- The value `v'` is `v` without the member at the path. -/
inductive Without : List Bytes → Json .value → Json .value → Prop
  | member {name : Bytes} {v v' : Json .value} {ps : List (Str × Json .value)} :
      objectPairs v = some ps →
      objectPairs v' = some (ps.filter fun p => cstr p.1.decode != name) → Without [name] v v'
  | inside {key : Str} {path : List Bytes} {v v' w w' : Json .value}
      {pre post : List (Str × Json .value)} :
      (∀ p ∈ pre, cstr p.1.decode ≠ cstr key.decode) →
      objectPairs v = some (pre ++ (key, w) :: post) →
      objectPairs v' = some (pre ++ (key, w') :: post) →
      Without path w w' → Without (cstr key.decode :: path) v v'

/-- The field that a path names. -/
def fieldAt (ds : Descriptors) : Nat → Option Nat → List Bytes → Option FieldInfo
  | 0, _, _ => none
  | _, _, [] => none
  | levels + 1, type, name :: path =>
      (deref ds type).bind fun info =>
        (info.fields.find? fun f => f.name == name).bind fun f =>
          if path = [] then some f
          else if f.kind = .object then fieldAt ds levels f.nested path
          else none

section Find

variable {ps pre post : List (Str × Json .value)} {name other : Bytes} {key : Str}
  {w w' : Json .value}

theorem find_filter_self : find (ps.filter fun p => cstr p.1.decode != name) name = none := by
  rw [find, List.find?_eq_none.mpr]
  · rfl
  · intro p hp
    have hne := (List.mem_filter.mp hp).2
    rw [bne_iff_ne] at hne
    rw [beq_iff_eq]
    exact hne

theorem find_filter_other (h : other ≠ name) :
    find (ps.filter fun p => cstr p.1.decode != name) other = find ps other := by
  induction ps with
  | nil => rfl
  | cons p ps ih =>
      rw [find] at ih
      rw [find, find, List.filter_cons]
      by_cases hp : cstr p.1.decode = name
      · rw [if_neg (by rw [hp, bne_self_eq_false]; exact Bool.false_ne_true), ih,
          List.find?_cons_of_neg (by rw [beq_iff_eq, hp]; exact h.symm), find]
      · rw [if_pos (bne_iff_ne.mpr hp), List.find?_cons, List.find?_cons]
        cases cstr p.1.decode == other with
        | true => rfl
        | false => exact ih

theorem find_inside (h : ∀ p ∈ pre, cstr p.1.decode ≠ cstr key.decode) :
    find (pre ++ (key, w) :: post) (cstr key.decode) = some w := by
  rw [find, List.find?_append, List.find?_eq_none.mpr fun p hp => by
    rw [beq_iff_eq]
    exact h p hp, Option.none_or, List.find?_cons, beq_self_eq_true]
  rfl

theorem find_outside (h : other ≠ cstr key.decode) :
    find (pre ++ (key, w) :: post) other = find (pre ++ (key, w') :: post) other := by
  rw [find, find, List.find?_append, List.find?_append,
    List.find?_cons_of_neg (by rw [beq_iff_eq]; exact h.symm),
    List.find?_cons_of_neg (by rw [beq_iff_eq]; exact h.symm)]

end Find

section Values

/-- What has lost a member is an object. -/
theorem Without.object {path : List Bytes} {v v' : Json .value} (h : Without path v v') :
    ∃ ps, objectPairs v = some ps := by
  cases h with
  | member hv _ => exact ⟨_, hv⟩
  | inside _ hv _ _ => exact ⟨_, hv⟩

/-- Behind the member there is nothing left. -/
theorem Without.gone {path : List Bytes} {v v' : Json .value} (h : Without path v v') :
    ∀ rest, bodyValue (path ++ rest) v' = none := by
  induction h with
  | member _ hv' =>
      intro rest
      rw [List.singleton_append, bodyValue, child, hv', Option.bind_some, find_filter_self]
      rfl
  | inside hpre _ hv' _ ih =>
      intro rest
      rw [List.cons_append, bodyValue, child, hv', Option.bind_some, find_inside hpre]
      exact ih rest

/-- Elsewhere the values are the same, but for the objects on the way. -/
theorem Without.kept {path : List Bytes} {v v' : Json .value} (h : Without path v v') :
    ∀ other : List Bytes, ¬ path <+: other →
      bodyValue other v' = bodyValue other v
        ∨ ∃ w ps, bodyValue other v = some w ∧ objectPairs w = some ps := by
  induction h with
  | member hv hv' =>
      rename_i name v v' ps
      intro other hother
      cases other with
      | nil => exact Or.inr ⟨v, ps, rfl, hv⟩
      | cons next other =>
          have hne : next ≠ name := by
            rintro rfl
            exact hother ⟨other, rfl⟩
          left
          rw [bodyValue, bodyValue, child, child, hv, hv', Option.bind_some, Option.bind_some,
            find_filter_other hne]
  | inside hpre hv hv' hw ih =>
      rename_i key path v v' w w' pre post
      intro other hother
      cases other with
      | nil => exact Or.inr ⟨v, _, rfl, hv⟩
      | cons next other =>
          rw [bodyValue, bodyValue, child, child, hv, hv', Option.bind_some, Option.bind_some]
          by_cases hne : next = cstr key.decode
          · subst hne
            rw [find_inside hpre, find_inside hpre]
            exact ih other fun hprefix => hother (List.cons_prefix_cons.mpr ⟨rfl, hprefix⟩)
          · left
            rw [find_outside hne]

end Values

section Rules

variable {abi : Abi} {strtod : Strtod} {printLg : LongDouble → Bytes} {ds : Descriptors}

/-- The rules of an object, said of its names and its fields. -/
theorem objectOk_iff {levels : Nat} {type : Option Nat} {path : Bytes} {v : Json .value}
    {info : TypeInfo} {ps : List (Str × Json .value)} (hinfo : deref ds type = some info)
    (hps : objectPairs v = some ps) {isPartial : Bool} :
    objectOk strtod printLg ds isPartial (levels + 1) type path v = true ↔
      (∀ p ∈ ps, knownKey info p.1 = true)
        ∧ ∀ f ∈ info.fields, (joinPath path f.name).length < FIELD_PATH_LEN
          ∧ fieldOk strtod printLg isPartial (objectOk strtod printLg ds isPartial levels) path f
              (find ps f.name) = true := by
  rw [objectOk, hinfo, hps]
  dsimp only
  rw [Bool.and_eq_true, List.all_eq_true, List.all_eq_true]
  refine and_congr_right fun _ => forall₂_congr fun f _ => ?_
  rw [Bool.and_eq_true, decide_eq_true_eq]

/-- The field of a name, in a struct whose names are distinct. -/
theorem find_field {info : TypeInfo} (hnames : (info.fields.map (·.name)).Nodup) {f : FieldInfo}
    (hf : f ∈ info.fields) : info.fields.find? (fun g => g.name == f.name) = some f := by
  cases hfind : info.fields.find? fun g => g.name == f.name with
  | none =>
      have hnone := List.find?_eq_none.mp hfind f hf
      rw [beq_self_eq_true] at hnone
      exact absurd rfl hnone
  | some g =>
      have hhit := List.find?_some hfind
      exact congrArg some (List.inj_on_of_nodup_map hnames (List.mem_of_find?_eq_some hfind) hf
        (eq_of_beq hhit))

/-- **The reader lets a member go exactly if its field is not `$not_null`.** -/
theorem objectOk_without {path : List Bytes} {v v' : Json .value} (h : Without path v v') :
    ∀ {levels : Nat} {type : Option Nat} {prefix_ : Bytes},
      EveryStruct ds (Struct abi ds) levels type →
      objectOk strtod printLg ds false levels type prefix_ v = true →
      (objectOk strtod printLg ds false levels type prefix_ v' = true ↔
        ∀ f, fieldAt ds levels type path = some f → f.flags.notNull = false) := by
  induction h with
  | member hv hv' =>
      rename_i name v v' ps
      intro levels type prefix_ hstruct hok
      cases levels with
      | zero => exact hstruct.elim
      | succ levels =>
          obtain ⟨info, hinfo, hs, -⟩ := hstruct
          obtain ⟨hknown, hfields⟩ := (objectOk_iff hinfo hv).mp hok
          rw [objectOk_iff hinfo hv']
          have hat : ∀ f, fieldAt ds (levels + 1) type [name] = some f
              ↔ info.fields.find? (fun g => g.name == name) = some f := by
            intro f
            rw [fieldAt, hinfo, Option.bind_some]
            cases info.fields.find? fun g => g.name == name with
            | none => rfl
            | some g => rw [Option.bind_some, if_pos rfl]
          constructor
          · rintro ⟨-, hall⟩ f hf
            have hfind := (hat f).mp hf
            have hhit := List.find?_some hfind
            have hfield := (hall f (List.mem_of_find?_eq_some hfind)).2
            rw [eq_of_beq hhit, find_filter_self, fieldOk, Bool.false_or,
              Bool.not_eq_true'] at hfield
            exact hfield
          · intro hnot
            refine ⟨fun p hp => hknown p (List.mem_filter.mp hp).1, fun f hf => ?_⟩
            obtain ⟨hlen, hfield⟩ := hfields f hf
            refine ⟨hlen, ?_⟩
            by_cases hname : f.name = name
            · have hfind := hnot f ((hat f).mpr (hname ▸ find_field hs.laid.names hf))
              rw [hname, find_filter_self, fieldOk, hfind]
              rfl
            · rw [find_filter_other hname]
              exact hfield
  | inside hpre hv hv' hw ih =>
      rename_i key path v v' w w' pre post
      intro levels type prefix_ hstruct hok
      cases levels with
      | zero => exact hstruct.elim
      | succ levels =>
          obtain ⟨info, hinfo, hs, hnested⟩ := hstruct
          obtain ⟨hknown, hfields⟩ := (objectOk_iff hinfo hv).mp hok
          rw [objectOk_iff hinfo hv']
          -- the name of the inner object is that of a field
          have hkey := hknown (key, w) (List.mem_append_right _ List.mem_cons_self)
          rw [knownKey, Bool.and_eq_true, Bool.not_eq_true', ← Bool.not_eq_true,
            List.contains_iff_mem, List.any_eq_true] at hkey
          obtain ⟨hnul, f, hf, hname⟩ := hkey
          have hfname : f.name = cstr key.decode := by
            rw [cstr_eq_self hnul]
            exact eq_of_beq hname
          obtain ⟨hlen, hfield⟩ := hfields f hf
          rw [hfname, find_inside hpre, fieldOk] at hfield
          have hkind : f.kind = .object := by
            by_contra hkind
            rw [if_neg hkind] at hfield
            obtain ⟨ps, hps⟩ := hw.object
            rw [leafOk_pairs hfield] at hps
            cases hps
          rw [if_pos hkind] at hfield
          have hinner := ih (hnested f hf hkind) hfield
          have hpath : path ≠ [] := by
            rintro rfl
            cases hw
          have hat : fieldAt ds (levels + 1) type (cstr key.decode :: path)
              = fieldAt ds levels f.nested path := by
            rw [fieldAt, hinfo, Option.bind_some, ← hfname, find_field hs.laid.names hf,
              Option.bind_some, if_neg hpath, if_pos hkind]
          rw [hat, ← hinner]
          constructor
          · rintro ⟨-, hall⟩
            have hf' := (hall f hf).2
            rw [hfname, find_inside hpre, fieldOk, if_pos hkind] at hf'
            exact hf'
          · intro hok'
            refine ⟨fun p hp => ?_, fun g hg => ?_⟩
            · rcases List.mem_append.mp hp with hp | hp
              · exact hknown p (List.mem_append_left _ hp)
              · rcases List.mem_cons.mp hp with rfl | hp
                · exact hknown (key, w) (List.mem_append_right _ List.mem_cons_self)
                · exact hknown p (List.mem_append_right _ (List.mem_cons_of_mem _ hp))
            · obtain ⟨hlen', hfield'⟩ := hfields g hg
              refine ⟨hlen', ?_⟩
              by_cases hg' : g.name = cstr key.decode
              · obtain rfl : g = f := List.inj_on_of_nodup_map hs.laid.names hg hf
                  (hg'.trans hfname.symm)
                rw [hg', find_inside hpre, fieldOk, if_pos hkind]
                exact hok'
              · rw [← find_outside hg']
                exact hfield'

end Rules

section Omit

variable {abi : Abi} {nl : NullableLayout abi} {strtod : Strtod} {printLg : LongDouble → Bytes}
  {ds : Descriptors} {type : Option Nat} {json json' : Bytes} {fail fail' : Failure}
  {d d' : Document} {path : List Bytes}

/-- A text of the grammar is taken exactly if its value keeps the rules. -/
theorem read_iff (hlaid : LaidOut ds) (hvalid : typeValid abi ds type = true)
    (hsize : json.length ≤ JsonParse.INT_MAX) (hd : Accepted json JSON_MAX_TOKENS d) :
    (jsonReadMode nl strtod printLg ds type zeroed json false fail).failed = false ↔
      objectOk strtod printLg ds false NEST_DEPTH_MAX type [] d.value = true
        ∧ LeavesPass printLg ds type (leafValue strtod d.value) := by
  have hstruct := struct_of_valid hlaid hvalid
  obtain ⟨hyes, hno⟩ := @readMode_accepted abi nl strtod printLg ds type false zeroed json fail d
    hlaid hvalid hsize hd
  constructor
  · intro hdone
    have hok : objectOk strtod printLg ds false NEST_DEPTH_MAX type [] d.value = true := by
      refine Bool.eq_true_of_not_eq_false fun hok => ?_
      rw [hno hok] at hdone
      cases hdone
    refine ⟨hok, ?_⟩
    rw [hyes hok] at hdone
    exact (validateStruct_leaves hstruct hvalid fun l hl => left_leaf hstruct hd hok hl).2 hdone
  · rintro ⟨hok, hpass⟩
    exact (read_exact hlaid).2 hvalid hsize ⟨d, hd, hok, fun _ => hpass⟩

/-- The field that a path names asks for no value, and the leaves in it pass as
    they are in a cleared struct. -/
def Optional (printLg : LongDouble → Bytes) (ds : Descriptors) (type : Option Nat)
    (path : List Bytes) : Prop :=
  (∀ f, fieldAt ds NEST_DEPTH_MAX type path = some f → f.flags.notNull = false)
    ∧ ∀ l ∈ leaves ds NEST_DEPTH_MAX type 0, path <+: l.path →
      valueCheck printLg l.field [] (zeroValue l.field) = none

/-- **A member may be left out of an accepted body exactly if it is optional.** -/
theorem omit_exact (hlaid : LaidOut ds) (hsize : json'.length ≤ JsonParse.INT_MAX)
    (hd : Accepted json JSON_MAX_TOKENS d) (hd' : Accepted json' JSON_MAX_TOKENS d')
    (hread : (jsonReadMode nl strtod printLg ds type zeroed json false fail).failed = false)
    (hwithout : Without path d.value d'.value) :
    (jsonReadMode nl strtod printLg ds type zeroed json' false fail').failed = false ↔
      Optional printLg ds type path := by
  obtain ⟨hvalid, hsize₀, -⟩ := readMode_done hread
  have hstruct := struct_of_valid hlaid hvalid
  obtain ⟨hok, hpass⟩ := (read_iff hlaid hvalid hsize₀ hd).mp hread
  have hrules := @objectOk_without abi strtod printLg ds _ _ _ hwithout _ type [] hstruct hok
  have hvalue : ∀ l ∈ leaves ds NEST_DEPTH_MAX type 0, leafValue strtod d'.value l
      = if path <+: l.path then zeroValue l.field else leafValue strtod d.value l := by
    intro l hl
    by_cases hprefix : path <+: l.path
    · obtain ⟨rest, hrest⟩ := hprefix
      rw [if_pos ⟨rest, hrest⟩, leafValue, ← hrest, hwithout.gone rest]
    · rw [if_neg hprefix, leafValue, leafValue]
      rcases hwithout.kept l.path hprefix with h | ⟨w, ps, hw, hps⟩
      · rw [h]
      · -- a leaf has no object for its value
        rw [leafOk_pairs (objectOk_leaf hok l hl w hw)] at hps
        cases hps
  rw [read_iff hlaid hvalid hsize hd', hrules, Optional]
  refine and_congr_right fun _ => ?_
  constructor
  · intro hpass' l hl hprefix
    have h := (hpass' l hl).2
    rw [hvalue l hl, if_pos hprefix] at h
    exact h
  · intro hzero l hl
    refine ⟨(hpass l hl).1, ?_⟩
    rw [hvalue l hl]
    split_ifs with hprefix
    · exact hzero l hl hprefix
    · exact (hpass l hl).2

end Omit

/-! ## A pin without its tag -/

theorem blank_isWs : ∀ c ∈ ([] : Bytes), IsWs c := List.forall_mem_nil _

theorem a_plain : 0x20 ≤ 'a'.toNat ∧ 'a'.toNat ≠ 0x22 ∧ 'a'.toNat ≠ 0x5C := by decide

theorem g_plain : 0x20 ≤ 'g'.toNat ∧ 'g'.toNat ≠ 0x22 ∧ 'g'.toNat ≠ 0x5C := by decide

theorem t_plain : 0x20 ≤ 't'.toNat ∧ 't'.toNat ≠ 0x22 ∧ 't'.toNat ≠ 0x5C := by decide

def blank : Ws := ⟨[], blank_isWs⟩

/-- `at` and `tag`. -/
def atKey : Str := [.scalar 'a' a_plain, .scalar 't' t_plain]
def tagKey : Str := [.scalar 't' t_plain, .scalar 'a' a_plain, .scalar 'g' g_plain]

/-- `{"at":{},"tag":""}` -/
def tagged : Document where
  before := blank
  value := .full .obj (.more .obj (.member blank atKey blank blank) (.empty .obj blank) blank
    (.last .obj (.member blank tagKey blank blank) (.str []) blank))
  after := blank

/-- `{"at":{}}` -/
def untagged : Document where
  before := blank
  value := .full .obj (.last .obj (.member blank atKey blank blank) (.empty .obj blank) blank)
  after := blank

theorem tagged_accepted : Accepted tagged.render JSON_MAX_TOKENS tagged :=
  ⟨rfl, by decide, by decide, ⟨by decide, by decide, by decide⟩, trivial, trivial⟩

theorem untagged_accepted : Accepted untagged.render JSON_MAX_TOKENS untagged :=
  ⟨rfl, by decide, by decide, ⟨by decide, by decide, by decide⟩, trivial⟩

/-- The tag of a pin may be left out if it is optional, and else not. -/
theorem omit_exact_tag :
    (jsonReadMode lp64Nullable noDouble (fun _ => []) pinTypes (some 1) zeroed untagged.render false
        {}).failed = false
      ↔ Optional (fun _ => []) pinTypes (some 1) [lit "tag"] :=
  omit_exact pin_laid (by decide) tagged_accepted untagged_accepted
    (show (jsonReadMode lp64Nullable noDouble (fun _ => []) pinTypes (some 1) zeroed tagged.render
      false {}).failed = false by decide) (.member rfl rfl)

end OmittedMembers
