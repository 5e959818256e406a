import Gargantua.Lib.Paging
import Gargantua.Lib.SqlText
import Gargantua.PatchKey

/-! # Queries for a page of rows (`src/db/search.c`, `src/db/collection_db.c`)

    `db_search` puts a statement together from the names of a type and from
    filters that a program gives it; `db_query_page` does so for a collection.
    The values of the filters only become parameters: the statement names
    nothing but the type and its fields, and has a value for each of its
    parameters (`search_exact`).  Asking for page after page reads every row
    once (`search_pages`, `collection_pages`).

    The database is outside, as is the arena: `Database` says what
    `db_query_many` answers and whether the rows have room. -/

namespace DbSearch

open CString GeneratorText GeneratorSource RuntimeTypes RuntimeError PatchKey SqlText Paging

/-- `DB_FILTER_MAX` and `DB_MAX_SQL`. -/
abbrev DB_FILTER_MAX : Nat := 8
abbrev DB_MAX_SQL : Nat := 8192

/-! ## Queries -/

/-- `SqlArg`; `FIELD_KIND_COUNT` is no kind. -/
structure SqlArg where
  kind : Option FieldKind := none
  i : Int := 0
  l : Int := 0
  d : LongDouble := .finite 0
  s : Option Bytes := none
  deriving DecidableEq

/-- `SQL_INT`. -/
def SQL_INT (v : Int) : SqlArg := { kind := some .int, i := v, s := some [] }

/-- `DbFilter`. -/
structure DbFilter where
  field : Option Bytes := none
  op : Option Bytes := none
  value : SqlArg := {}

/-- `DbQuery`. -/
structure DbQuery where
  filters : Nat → DbFilter := fun _ => {}
  count : Int := 0
  order : Option Bytes := none
  descending : Bool := false
  page : Int := 0
  size : Int := 0

/-- The loop of `name_safe`, from the first byte on, with `rounds` to go. -/
def nameLoop : Nat → Bool → Bytes → Bool
  | 0, _, _ => false
  | rounds + 1, first, name =>
      let c := name.headD 0
      if c = 0 then true
      else if !(c == 0x5F || (0x61 ≤ c && c ≤ 0x7A) || (0x41 ≤ c && c ≤ 0x5A)
          || (!first && 0x30 ≤ c && c ≤ 0x39)) then false
      else nameLoop rounds false name.tail

/-- `name_safe`, and `is_safe_identifier` of the collections. -/
def nameSafe : Option Bytes → Bool
  | none => false
  | some name => if name.headD 0 = 0 then false else nameLoop 64 true name

/-- `find_field`. -/
def findField (type : TypeInfo) (name : Option Bytes) : Option FieldInfo :=
  if nameSafe name = false then none
  else type.fields.find? fun f => cstr f.name == cstr (name.getD [])

/-- `append_sql`: the text behind `text`, if it has room. -/
def appendSql (sql text : Bytes) : Option Bytes :=
  if sql.length ≥ DB_MAX_SQL ∨ text.length ≥ DB_MAX_SQL - sql.length then none else some (sql ++ text)

/-- `filter_valid` on a field that was found, and an operator that is there. -/
def filterFits (field : FieldInfo) (op : Bytes) (value : SqlArg) : Bool :=
  if op = lit "IS NULL" ∨ op = lit "IS NOT NULL" then value.kind = none
  else
    let equal := op = lit "=" ∨ op = lit "!="
    let ordered := op = lit "<" ∨ op = lit "<=" ∨ op = lit ">" ∨ op = lit ">="
    let like := op = lit "LIKE"
    if ¬ equal ∧ ¬ ordered ∧ ¬ like then false
    else if like ∧ field.kind ≠ .str then false
    else if value.kind ≠ some field.kind
        ∧ ¬ (field.kind = .bool ∧ value.kind = some .int ∧ (value.i = 0 ∨ value.i = 1)) then false
    else if field.kind = .double ∧ value.d.isFinite = false then false
    else if field.kind = .str ∧ value.s = none then false
    else field.kind ≠ .object

/-- `filter_valid`. -/
def filterValid (field : Option FieldInfo) (filter : DbFilter) : Bool :=
  match field, filter.op with
  | some field, some op => filterFits field (cstr op) filter.value
  | _, _ => false

/-- The size of a page, 20 if the query does not say. -/
def DbQuery.pageSize (query : DbQuery) : Int := if query.size = 0 then 20 else query.size

/-- The first check of `db_search`. -/
def queryValid (type : TypeInfo) (query : DbQuery) : Bool :=
  type.fields.length ≠ 0 && type.fields.length ≤ 64 && type.size ≠ 0 && nameSafe (some type.name)
    && 0 ≤ query.count && query.count ≤ DB_FILTER_MAX && 0 ≤ query.page && 1 ≤ query.pageSize
    && query.pageSize ≤ PAGE_MAX && query.page ≤ INT_MAX / query.pageSize

/-- The key that `db_search` finds: the last one. -/
def searchKey (type : TypeInfo) : Option FieldInfo :=
  type.fields.foldl (fun key f => if f.flags.id then some f else key) none

/-- The text of a condition. -/
def conditionText (first : Bool) (field op : Bytes) (isNull : Bool) : Bytes :=
  (if first then lit " WHERE " else lit " AND ") ++ quoted field ++ lit " " ++ op
    ++ (if isNull then [] else lit " ?")

/-- The loop of `db_search` over the filters: the statement and its values, or
    the failure of the request. -/
def filterLoop (type : TypeInfo) : List DbFilter → Bool → Bytes → List SqlArg →
    Except (Nat × Bytes) (Bytes × List SqlArg)
  | [], _, sql, args => .ok (sql, args)
  | filter :: filters, first, sql, args =>
      let field := findField type filter.field
      if filterValid field filter = false then
        .error (400, lit "invalid filter field, operator or value type")
      else
        let isNull := filter.value.kind.isNone
        match appendSql sql (conditionText first (cstr ((field.map (·.name)).getD []))
            (cstr (filter.op.getD [])) isNull) with
        | none => .error (500, lit "query exceeds SQL limit")
        | some sql =>
            filterLoop type filters false sql (if isNull then args else args ++ [filter.value])

/-- The end of the statement. -/
def orderText (order : Bytes) (descending : Bool) (key : Bytes) : Bytes :=
  lit " ORDER BY " ++ quoted order ++ lit " " ++ (if descending then lit "DESC" else lit "ASC")
    ++ lit ", " ++ quoted key ++ lit " ASC LIMIT ? OFFSET ?"

/-- The filters that the query counts. -/
def DbQuery.used (query : DbQuery) : List DbFilter := (List.range query.count.toNat).map query.filters

/-- `db_search` up to the statement and its values; a failure that is not
    recorded has no status. -/
def searchStatement (type : Option TypeInfo) (query : DbQuery) :
    Except (Option (Nat × Bytes)) (Bytes × List SqlArg) :=
  match type with
  | none => .error (some (400, lit "invalid query or pagination"))
  | some type =>
      if queryValid type query = false then .error (some (400, lit "invalid query or pagination"))
      else
        let order := if query.order.isSome then findField type query.order else searchKey type
        match searchKey type, order with
        | some key, some order =>
            if nameSafe (some key.name) = false ∨ nameSafe (some order.name) = false then
              .error (some (400, lit "unknown sort field"))
            else
              match appendSql [] (lit "SELECT * FROM " ++ quoted (cstr type.name)) with
              | none => .error none
              | some sql =>
                  match filterLoop type query.used true sql [] with
                  | .error e => .error (some e)
                  | .ok (sql, args) =>
                      match appendSql sql (orderText (cstr order.name) query.descending
                          (cstr key.name)) with
                      | none => .error (some (500, lit "query exceeds SQL limit"))
                      | some sql =>
                          .ok (sql, args ++ [SQL_INT (query.pageSize + 1),
                            SQL_INT (query.page * query.pageSize)])
        | _, _ => .error (some (400, lit "unknown sort field"))

/-! ## The database -/

/-- What `db_query_many` answers to a statement for at most `max` rows: what it
    returns, the rows, and the failure of the request behind it; and whether the
    arena has room for rows. -/
structure Database (α : Type) where
  queryMany : Failure → Int → Bytes → List SqlArg → Int × List α × Failure
  room : Int → Bool

/-- `RowList`. -/
structure RowList (α : Type) where
  items : Option (List α) := none
  count : Int := 0
  page : Int := 0
  size : Int := 0
  hasMore : Bool := false

section Search

variable {α : Type} (db : Database α)

/-- `db_search`. -/
def dbSearch (type : Option TypeInfo) (query : DbQuery) (fail : Failure) : RowList α × Failure :=
  let size := query.pageSize
  let result : RowList α := { page := query.page, size := size }
  match searchStatement type query with
  | .error none => (result, fail)
  | .error (some (status, message)) => (result, requestFail fail status (some message))
  | .ok (sql, args) =>
      if db.room (size + 1) = false then
        (result, requestFail fail 500 (some (lit "request allocation failed")))
      else
        let (found, rows, fail) := db.queryMany fail (size + 1) sql args
        if found < 0 then
          ({ result with items := some rows }, requestFail fail 500 (some (lit "query failed")))
        else
          ({ result with
              items := some rows
              count := if found > size then size else found
              hasMore := found > size }, fail)

/-- The two statements of `db_query_page`. -/
def collectionSql (table key : Bytes) : Option Bytes → Bytes
  | none =>
      lit "SELECT * FROM " ++ quoted table ++ lit " ORDER BY " ++ quoted key
        ++ lit " LIMIT ? OFFSET ?"
  | some filter =>
      lit "SELECT * FROM " ++ quoted table ++ lit " WHERE " ++ quoted filter
        ++ lit " = ? ORDER BY " ++ quoted key ++ lit " LIMIT ? OFFSET ?"

/-- `db_query_page`. -/
def dbQueryPage (type : Option TypeInfo) (key filter : Option Bytes) (id page size : Int)
    (fail : Failure) : RowList α × Failure :=
  let result : RowList α := { page := page, size := size }
  if page < 0 ∨ size < 1 ∨ size > PAGE_MAX ∨ page > INT_MAX / size then
    (result, requestFail fail 400 (some (lit "page must be nonnegative; size must be 1..100")))
  else
    match type with
    | none => (result, requestFail fail 500 (some (lit "invalid collection descriptor")))
    | some type =>
        if type.size = 0 ∨ nameSafe (some type.name) = false ∨ nameSafe key = false
            ∨ (filter.isSome ∧ nameSafe filter = false) then
          (result, requestFail fail 500 (some (lit "invalid collection descriptor")))
        else if db.room (size + 1) = false then
          (result, requestFail fail 500 (some (lit "request allocation failed")))
        else
          let sql := collectionSql (cstr type.name) (cstr (key.getD [])) (filter.map cstr)
          if sql.length ≥ 512 then
            ({ result with items := some [] },
              requestFail fail 500 (some (lit "collection SQL overflow")))
          else
            let args := (if filter.isSome then [SQL_INT id] else [])
              ++ [SQL_INT (size + 1), SQL_INT (page * size)]
            let (found, rows, fail) := db.queryMany fail (size + 1) sql args
            if found < 0 ∨ found > size + 1 then
              ({ result with items := some rows },
                requestFail fail 500 (some (lit "collection query failed")))
            else
              ({ result with
                  items := some rows
                  count := if found > size then size else found
                  hasMore := found > size }, fail)

end Search

/-! ## Names -/

/-- A byte of a name: no quote, no parameter and no terminator. -/
def NameByte (c : Byte) : Prop := c ≠ QUOTE ∧ c ≠ PARAM

theorem nameLoop_spec : ∀ {rounds : Nat} {first : Bool} {name : Bytes},
    nameLoop rounds first name = true → (∀ c ∈ cstr name, NameByte c) ∧ (cstr name).length < rounds
  | 0, _, _, h => by cases h
  | rounds + 1, first, [], _ => ⟨fun _ hc => (nomatch hc), Nat.succ_pos rounds⟩
  | rounds + 1, first, c :: name, h => by
      have hstep : nameLoop (rounds + 1) first (c :: name)
          = if c = 0 then true
            else if !(c == 0x5F || (0x61 ≤ c && c ≤ 0x7A) || (0x41 ≤ c && c ≤ 0x5A)
                || (!first && 0x30 ≤ c && c ≤ 0x39)) then false
            else nameLoop rounds false name := rfl
      rw [hstep] at h
      by_cases hc : c = 0
      · rw [hc]
        exact ⟨fun _ hd => (nomatch hd), Nat.succ_pos rounds⟩
      · rw [if_neg hc] at h
        split_ifs at h with hbad
        obtain ⟨hbytes, hlength⟩ := nameLoop_spec h
        have hcstr : cstr (c :: name) = c :: cstr name :=
          List.takeWhile_cons_of_pos (bne_iff_ne.mpr hc)
        have hname : NameByte c := by
          constructor
          · rintro rfl
            cases first <;> exact hbad rfl
          · rintro rfl
            cases first <;> exact hbad rfl
        rw [hcstr, List.length_cons]
        exact ⟨List.forall_mem_cons.mpr ⟨hname, hbytes⟩, Nat.succ_lt_succ hlength⟩

/-- A safe name has no quote and no question mark, and fewer than 64 bytes. -/
structure SafeName (name : Bytes) : Prop where
  quote : QUOTE ∉ name
  param : PARAM ∉ name
  short : name.length < 64

theorem nameSafe_spec {name : Bytes} (h : nameSafe (some name) = true) : SafeName (cstr name) := by
  rw [nameSafe] at h
  split_ifs at h
  obtain ⟨hbytes, hlength⟩ := nameLoop_spec h
  exact ⟨fun hc => (hbytes _ hc).1 rfl, fun hc => (hbytes _ hc).2 rfl, hlength⟩

/-- A field that was found is a field of the type, under a safe name. -/
theorem findField_spec {type : TypeInfo} {name : Option Bytes} {field : FieldInfo}
    (h : findField type name = some field) : field ∈ type.fields ∧ SafeName (cstr field.name) := by
  rw [findField] at h
  split_ifs at h with hsafe
  have hsame : (cstr field.name == cstr (name.getD [])) = true := by
    have hfound := List.find?_some h
    exact hfound
  rw [beq_iff_eq] at hsame
  cases name with
  | none => exact absurd rfl hsafe
  | some name =>
      refine ⟨List.mem_of_find?_eq_some h, ?_⟩
      rw [hsame]
      exact nameSafe_spec (Bool.eq_true_of_not_eq_false hsafe)

/-- The operators. -/
def operators : List Bytes :=
  [lit "=", lit "!=", lit "<", lit "<=", lit ">", lit ">=", lit "LIKE", lit "IS NULL",
    lit "IS NOT NULL"]

theorem filterFits_op {field : FieldInfo} {op : Bytes} {value : SqlArg}
    (h : filterFits field op value = true) : op ∈ operators := by
  rw [filterFits] at h
  by_cases hnull : op = lit "IS NULL" ∨ op = lit "IS NOT NULL"
  · rcases hnull with rfl | rfl <;> decide
  · rw [if_neg hnull] at h
    dsimp only at h
    by_cases hop : ¬ (op = lit "=" ∨ op = lit "!=")
        ∧ ¬ (op = lit "<" ∨ op = lit "<=" ∨ op = lit ">" ∨ op = lit ">=") ∧ ¬ op = lit "LIKE"
    · rw [if_pos hop] at h
      cases h
    · rw [not_and_or, not_and_or, not_not, not_not, not_not] at hop
      rcases hop with (rfl | rfl) | (rfl | rfl | rfl | rfl) | rfl <;> decide

/-- A filter that is valid has a field of the type and an operator of the list. -/
theorem filterValid_spec {type : TypeInfo} {filter : DbFilter}
    (h : filterValid (findField type filter.field) filter = true) :
    ∃ field op, findField type filter.field = some field ∧ filter.op = some op
      ∧ cstr op ∈ operators := by
  unfold filterValid at h
  cases hfield : findField type filter.field with
  | none => rw [hfield] at h; cases h
  | some field =>
      cases hop : filter.op with
      | none => rw [hfield, hop] at h; cases h
      | some op =>
          rw [hfield, hop] at h
          exact ⟨field, op, rfl, rfl, filterFits_op h⟩

/-! ## The statement -/

/-- A condition of the statement. -/
structure Condition where
  field : Bytes
  op : Bytes
  isNull : Bool

/-- The condition of a filter. -/
def conditionOf (type : TypeInfo) (filter : DbFilter) : Condition where
  field := cstr (((findField type filter.field).map (·.name)).getD [])
  op := cstr (filter.op.getD [])
  isNull := filter.value.kind.isNone

def Condition.pieces (c : Condition) (first : Bool) : List Piece :=
  [.text (if first then lit " WHERE " else lit " AND "), .name c.field,
    .text (lit " " ++ c.op ++ if c.isNull then [] else lit " ?")]

def conditionsPieces : Bool → List Condition → List Piece
  | _, [] => []
  | first, c :: cs => c.pieces first ++ conditionsPieces false cs

/-- The statement of a query. -/
def searchPieces (type : TypeInfo) (conditions : List Condition) (order : Bytes) (descending : Bool)
    (key : Bytes) : List Piece :=
  [.text (lit "SELECT * FROM "), .name (cstr type.name)] ++ conditionsPieces true conditions
    ++ [.text (lit " ORDER BY "), .name order,
      .text (lit " " ++ (if descending then lit "DESC" else lit "ASC") ++ lit ", "), .name key,
      .text (lit " ASC LIMIT ? OFFSET ?")]

/-- The field that a query is ordered by. -/
def searchOrder (type : TypeInfo) (query : DbQuery) : Option FieldInfo :=
  if query.order.isSome then findField type query.order else searchKey type

/-- The query can be asked. -/
def searchable (type : TypeInfo) (query : DbQuery) : Bool :=
  queryValid type query && (searchKey type).any (fun key => nameSafe (some key.name))
    && (searchOrder type query).any (fun order => nameSafe (some order.name))
    && query.used.all fun filter => filterValid (findField type filter.field) filter

/-- The text of the query, and its values. -/
def searchText (type : TypeInfo) (query : DbQuery) : Bytes :=
  (searchPieces type (query.used.map (conditionOf type))
    (cstr (((searchOrder type query).map (·.name)).getD [])) query.descending
    (cstr (((searchKey type).map (·.name)).getD []))).flatMap Piece.spell

def searchArgs (query : DbQuery) : List SqlArg :=
  (query.used.filter fun filter => filter.value.kind.isSome).map (·.value)
    ++ [SQL_INT (query.pageSize + 1), SQL_INT (query.page * query.pageSize)]

theorem conditionText_eq (first : Bool) (c : Condition) :
    conditionText first c.field c.op c.isNull = (c.pieces first).flatMap Piece.spell := by
  simp only [conditionText, Condition.pieces, List.flatMap_cons, List.flatMap_nil, Piece.spell,
    List.append_nil, List.append_assoc]

theorem conditionText_length (first : Bool) {c : Condition} (hname : c.field.length < 64)
    (hop : c.op ∈ operators) : (conditionText first c.field c.op c.isNull).length ≤ 90 := by
  have hshort : ∀ op ∈ operators, op.length ≤ 11 := by decide
  have h := hshort c.op hop
  have hword : (if first then lit " WHERE " else lit " AND ").length ≤ 7 := by
    cases first <;> decide
  have hparam : (if c.isNull then [] else lit " ?").length ≤ 2 := by
    cases c.isNull <;> decide
  have hblank : (lit " ").length = 1 := by decide
  rw [conditionText, List.length_append, List.length_append, List.length_append, List.length_append,
    quoted_length]
  omega

theorem appendSql_ok {sql text : Bytes} (h : sql.length + text.length < DB_MAX_SQL) :
    appendSql sql text = some (sql ++ text) := by
  rw [appendSql, if_neg (by omega)]

/-- **The filters become conditions, and their values parameters, as long as all
    are valid.** -/
theorem filterLoop_eq (type : TypeInfo) : ∀ (filters : List DbFilter) (first : Bool) (sql : Bytes)
    (args : List SqlArg), sql.length + 90 * filters.length < DB_MAX_SQL →
      filterLoop type filters first sql args
        = if filters.all fun filter => filterValid (findField type filter.field) filter then
            .ok (sql ++ (conditionsPieces first (filters.map (conditionOf type))).flatMap Piece.spell,
              args ++ (filters.filter fun filter => filter.value.kind.isSome).map (·.value))
          else .error (400, lit "invalid filter field, operator or value type")
  | [], _, sql, args, _ => by
      rw [filterLoop, List.all_nil, if_pos rfl, List.map_nil, conditionsPieces, List.flatMap_nil,
        List.append_nil, List.filter_nil, List.map_nil, List.append_nil]
  | filter :: filters, first, sql, args, hroom => by
      rw [List.length_cons] at hroom
      rw [filterLoop, List.all_cons]
      dsimp only
      cases hvalid : filterValid (findField type filter.field) filter with
      | false => rw [if_pos rfl, Bool.false_and, if_neg Bool.false_ne_true]
      | true =>
          obtain ⟨field, op, hfield, hop, hmem⟩ := filterValid_spec hvalid
          have hname := (findField_spec hfield).2.short
          have hlength : (conditionText first (conditionOf type filter).field
              (conditionOf type filter).op (conditionOf type filter).isNull).length ≤ 90 := by
            refine conditionText_length first ?_ ?_
            · rw [conditionOf, hfield]
              exact hname
            · rw [conditionOf, hop]
              exact hmem
          have happend := @appendSql_ok sql (conditionText first (conditionOf type filter).field
              (conditionOf type filter).op (conditionOf type filter).isNull) (by omega)
          have hif : ¬ (true = false) := fun h => nomatch h
          rw [if_neg hif, Bool.true_and]
          have hsame : appendSql sql (conditionText first
              (cstr (((findField type filter.field).map (·.name)).getD [])) (cstr (filter.op.getD []))
              filter.value.kind.isNone) = _ := happend
          rw [hsame]
          dsimp only
          rw [filterLoop_eq type filters false _ _ (by rw [List.length_append]; omega)]
          by_cases hall : (filters.all fun filter =>
              filterValid (findField type filter.field) filter) = true
          · rw [if_pos hall, if_pos hall, List.map_cons, conditionsPieces, List.flatMap_append,
              conditionText_eq, List.append_assoc, List.filter_cons]
            cases hk : filter.value.kind with
            | none => rfl
            | some k =>
                rw [if_pos (show (some k).isSome = true from rfl), List.map_cons,
                  if_neg (show ¬ ((some k).isNone = true) from fun h => nomatch h),
                  List.append_assoc]
                rfl
          · rw [if_neg hall, if_neg hall]

/-- A condition of a valid filter: a safe name and an operator of the list. -/
structure Sound (c : Condition) : Prop where
  field : SafeName c.field
  op : c.op ∈ operators

theorem conditionOf_sound {type : TypeInfo} {filter : DbFilter}
    (h : filterValid (findField type filter.field) filter = true) : Sound (conditionOf type filter) := by
  obtain ⟨field, op, hfield, hop, hmem⟩ := filterValid_spec h
  constructor
  · rw [conditionOf, hfield]
    exact (findField_spec hfield).2
  · rw [conditionOf, hop]
    exact hmem

theorem conditions_length : ∀ (cs : List Condition) (first : Bool), (∀ c ∈ cs, Sound c) →
    ((conditionsPieces first cs).flatMap Piece.spell).length ≤ 90 * cs.length
  | [], _, _ => Nat.zero_le _
  | c :: cs, first, h => by
      have hc := h c List.mem_cons_self
      have hlength := conditionText_length first hc.field.short hc.op
      have hrest := conditions_length cs false fun d hd => h d (List.mem_cons_of_mem c hd)
      rw [conditionText_eq] at hlength
      rw [conditionsPieces, List.flatMap_append, List.length_append, List.length_cons]
      omega

theorem condition_plain {c : Condition} (h : Sound c) (first : Bool) :
    ∀ p ∈ c.pieces first, p.Plain := by
  have hops : ∀ op ∈ operators, QUOTE ∉ op := by decide
  have hend : QUOTE ∉ lit " " ++ c.op ++ if c.isNull then [] else lit " ?" := by
    have hparam : QUOTE ∉ (if c.isNull then [] else lit " ?") := by
      cases c.isNull <;> decide
    rw [List.mem_append, List.mem_append]
    rintro ((hq | hq) | hq)
    · exact absurd hq (by decide)
    · exact hops c.op h.op hq
    · exact hparam hq
  have hword : QUOTE ∉ (if first then lit " WHERE " else lit " AND ") := by
    cases first <;> decide
  intro p hp
  simp only [Condition.pieces, List.mem_cons, List.not_mem_nil, or_false] at hp
  rcases hp with rfl | rfl | rfl
  · exact hword
  · exact h.field.quote
  · exact hend

theorem conditions_plain : ∀ (cs : List Condition) (first : Bool), (∀ c ∈ cs, Sound c) →
    ∀ p ∈ conditionsPieces first cs, p.Plain
  | [], _, _ => fun _ hp => nomatch hp
  | c :: cs, first, h => by
      intro p hp
      rcases List.mem_append.mp hp with hp | hp
      · exact condition_plain (h c List.mem_cons_self) first p hp
      · exact conditions_plain cs false (fun d hd => h d (List.mem_cons_of_mem c hd)) p hp

/-- A condition has a parameter unless it asks for null. -/
theorem conditions_params : ∀ (cs : List Condition) (first : Bool), (∀ c ∈ cs, Sound c) →
    ((conditionsPieces first cs).map Piece.params).sum = cs.countP fun c => !c.isNull
  | [], _, _ => rfl
  | c :: cs, first, h => by
      have hops : ∀ op ∈ operators, op.countP (· = PARAM) = 0 := by decide
      have hop := hops c.op (h c List.mem_cons_self).op
      have hword : (if first then lit " WHERE " else lit " AND ").countP (· = PARAM) = 0 := by
        cases first <;> decide
      have hblank : (lit " ").countP (· = PARAM) = 0 := by decide
      have hrest := conditions_params cs false fun d hd => h d (List.mem_cons_of_mem c hd)
      rw [conditionsPieces, List.map_append, List.sum_append, hrest, List.countP_cons, Nat.add_comm]
      congr 1
      simp only [Condition.pieces, List.map_cons, List.map_nil, List.sum_cons, List.sum_nil,
        Piece.params, List.countP_append, hword, hop, hblank]
      cases c.isNull <;> decide

theorem conditions_names : ∀ (cs : List Condition) (first : Bool),
    (conditionsPieces first cs).flatMap Piece.names = cs.map (·.field)
  | [], _ => rfl
  | c :: cs, first => by
      rw [conditionsPieces, List.flatMap_append, conditions_names cs false]
      rfl

/-! ## What is asked -/

/-- What a query that can be asked is made of. -/
structure Searchable (type : TypeInfo) (query : DbQuery) : Prop where
  valid : queryValid type query = true
  key : ∃ key, searchKey type = some key ∧ nameSafe (some key.name) = true
  order : ∃ order, searchOrder type query = some order ∧ nameSafe (some order.name) = true
  filters : ∀ filter ∈ query.used, filterValid (findField type filter.field) filter = true

theorem searchable_iff {type : TypeInfo} {query : DbQuery} :
    searchable type query = true ↔ Searchable type query := by
  rw [searchable, Bool.and_eq_true, Bool.and_eq_true, Bool.and_eq_true, Option.any_eq_true,
    Option.any_eq_true, List.all_eq_true]
  constructor
  · rintro ⟨⟨⟨h1, h2⟩, h3⟩, h4⟩
    exact ⟨h1, h2, h3, h4⟩
  · exact fun h => ⟨⟨⟨h.valid, h.key⟩, h.order⟩, h.filters⟩

theorem queryValid_spec {type : TypeInfo} {query : DbQuery} (h : queryValid type query = true) :
    nameSafe (some type.name) = true ∧ (0 ≤ query.count ∧ query.count ≤ DB_FILTER_MAX)
      ∧ 0 ≤ query.page ∧ (1 ≤ query.pageSize ∧ query.pageSize ≤ PAGE_MAX)
      ∧ query.page ≤ INT_MAX / query.pageSize := by
  simp only [queryValid, Bool.and_eq_true, decide_eq_true_eq] at h
  obtain ⟨⟨⟨⟨⟨⟨⟨-, hname⟩, h1⟩, h2⟩, h3⟩, h4⟩, h5⟩, h6⟩ := h
  exact ⟨hname, ⟨h1, h2⟩, h3, ⟨h4, h5⟩, h6⟩

section Statement

variable {type : TypeInfo} {query : DbQuery}

theorem used_length (h : queryValid type query = true) : query.used.length ≤ DB_FILTER_MAX := by
  obtain ⟨-, ⟨h1, h2⟩, -⟩ := queryValid_spec h
  rw [DbQuery.used, List.length_map, List.length_range]
  omega

theorem orderText_eq (order : Bytes) (descending : Bool) (key : Bytes) :
    orderText order descending key
      = [Piece.text (lit " ORDER BY "), .name order,
          .text (lit " " ++ (if descending then lit "DESC" else lit "ASC") ++ lit ", "), .name key,
          .text (lit " ASC LIMIT ? OFFSET ?")].flatMap Piece.spell := by
  simp only [orderText, List.flatMap_cons, List.flatMap_nil, Piece.spell, List.append_nil,
    List.append_assoc]

theorem orderText_length {order key : Bytes} (descending : Bool) (ho : order.length < 64)
    (hk : key.length < 64) : (orderText order descending key).length ≤ 170 := by
  have hword : (if descending then lit "DESC" else lit "ASC").length ≤ 4 := by
    cases descending <;> decide
  have h1 : (lit " ORDER BY ").length = 10 := by decide
  have h2 : (lit " ").length = 1 := by decide
  have h3 : (lit ", ").length = 2 := by decide
  have h4 : (lit " ASC LIMIT ? OFFSET ?").length = 21 := by decide
  simp only [orderText, List.length_append, quoted_length]
  omega

/-- **A query is asked, or it is the client's error.** -/
theorem searchStatement_eq :
    (searchable type query = true →
        searchStatement (some type) query = .ok (searchText type query, searchArgs query)
          ∧ (searchText type query).length < DB_MAX_SQL)
      ∧ (searchable type query = false →
        ∃ message, searchStatement (some type) query = .error (some (400, message))) := by
  have hunfold : searchStatement (some type) query
      = if queryValid type query = false then .error (some (400, lit "invalid query or pagination"))
        else match searchKey type, searchOrder type query with
          | some key, some order =>
              if nameSafe (some key.name) = false ∨ nameSafe (some order.name) = false then
                .error (some (400, lit "unknown sort field"))
              else match appendSql [] (lit "SELECT * FROM " ++ quoted (cstr type.name)) with
                | none => .error none
                | some sql => match filterLoop type query.used true sql [] with
                  | .error e => .error (some e)
                  | .ok (sql, args) =>
                      match appendSql sql (orderText (cstr order.name) query.descending
                          (cstr key.name)) with
                      | none => .error (some (500, lit "query exceeds SQL limit"))
                      | some sql => .ok (sql, args ++ [SQL_INT (query.pageSize + 1),
                          SQL_INT (query.page * query.pageSize)])
          | _, _ => .error (some (400, lit "unknown sort field")) := rfl
  rw [hunfold]
  cases hvalid : queryValid type query with
  | false =>
      rw [if_pos rfl]
      refine ⟨fun h => ?_, fun _ => ⟨_, rfl⟩⟩
      rw [searchable_iff] at h
      exact absurd h.valid (by rw [hvalid]; exact Bool.false_ne_true)
  | true =>
      obtain ⟨hname, -⟩ := queryValid_spec hvalid
      have htable := nameSafe_spec hname
      have hused : query.used.length ≤ 8 := used_length hvalid
      have hmax : DB_MAX_SQL = 8192 := rfl
      have hhead : (lit "SELECT * FROM " ++ quoted (cstr type.name)).length ≤ 80 := by
        have h14 : (lit "SELECT * FROM ").length = 14 := by decide
        have hshort := htable.short
        rw [List.length_append, quoted_length]
        omega
      rw [if_neg (fun h => nomatch h)]
      cases hkey : searchKey type with
      | none =>
          refine ⟨fun h => ?_, fun _ => ⟨_, rfl⟩⟩
          obtain ⟨key, hk, -⟩ := (searchable_iff.mp h).key
          rw [hkey] at hk
          cases hk
      | some key =>
          cases horder : searchOrder type query with
          | none =>
              refine ⟨fun h => ?_, fun _ => ⟨_, rfl⟩⟩
              obtain ⟨order, ho, -⟩ := (searchable_iff.mp h).order
              rw [horder] at ho
              cases ho
          | some order =>
              dsimp only
              by_cases hsafe : nameSafe (some key.name) = false ∨ nameSafe (some order.name) = false
              · rw [if_pos hsafe]
                refine ⟨fun h => ?_, fun _ => ⟨_, rfl⟩⟩
                obtain ⟨key', hk, hk'⟩ := (searchable_iff.mp h).key
                obtain ⟨order', ho, ho'⟩ := (searchable_iff.mp h).order
                obtain rfl := Option.some.inj (hkey.symm.trans hk)
                obtain rfl := Option.some.inj (horder.symm.trans ho)
                rcases hsafe with hs | hs
                · rw [hs] at hk'
                  cases hk'
                · rw [hs] at ho'
                  cases ho'
              · rw [not_or, Bool.not_eq_false, Bool.not_eq_false] at hsafe
                have hkshort := (nameSafe_spec hsafe.1).short
                have hoshort := (nameSafe_spec hsafe.2).short
                rw [if_neg (by rw [hsafe.1, hsafe.2]; exact fun h => h.elim nofun nofun),
                  appendSql_ok (by rw [List.length_nil]; omega), List.nil_append]
                dsimp only
                rw [filterLoop_eq type query.used true _ [] (by omega)]
                by_cases hall : (query.used.all fun filter =>
                    filterValid (findField type filter.field) filter) = true
                · have hsound : ∀ c ∈ query.used.map (conditionOf type), Sound c := by
                    intro c hc
                    obtain ⟨filter, hf, rfl⟩ := List.mem_map.mp hc
                    exact conditionOf_sound (List.all_eq_true.mp hall filter hf)
                  have hlength := conditions_length (query.used.map (conditionOf type)) true hsound
                  rw [List.length_map] at hlength
                  have hend := orderText_length query.descending hoshort hkshort
                  have htext : searchText type query
                      = lit "SELECT * FROM " ++ quoted (cstr type.name)
                        ++ (conditionsPieces true (query.used.map (conditionOf type))).flatMap
                          Piece.spell
                        ++ orderText (cstr order.name) query.descending (cstr key.name) := by
                    rw [searchText, searchPieces, hkey, horder, orderText_eq, List.flatMap_append,
                      List.flatMap_append]
                    simp only [List.flatMap_cons, List.flatMap_nil, Piece.spell, List.append_nil,
                      Option.map_some, Option.getD_some]
                  have hfit : (lit "SELECT * FROM " ++ quoted (cstr type.name)
                      ++ (conditionsPieces true (query.used.map (conditionOf type))).flatMap
                        Piece.spell).length
                      + (orderText (cstr order.name) query.descending (cstr key.name)).length
                        < DB_MAX_SQL := by
                    rw [List.length_append]
                    omega
                  rw [if_pos hall]
                  dsimp only
                  rw [appendSql_ok hfit, List.nil_append, ← htext]
                  refine ⟨fun _ => ⟨rfl, ?_⟩, fun h => ?_⟩
                  · rw [htext, List.length_append]
                    exact hfit
                  · exact absurd (searchable_iff.mpr ⟨hvalid, ⟨key, hkey, hsafe.1⟩,
                      ⟨order, horder, hsafe.2⟩, List.all_eq_true.mp hall⟩)
                      (by rw [h]; exact Bool.false_ne_true)
                · rw [if_neg hall]
                  refine ⟨fun h => ?_, fun _ => ⟨_, rfl⟩⟩
                  exact absurd (List.all_eq_true.mpr (searchable_iff.mp h).filters) hall

/-- Two queries that differ in the values of their filters, and in the page, at
    most. -/
structure SameShape (query query' : DbQuery) : Prop where
  filters : query.used.map (fun f => (f.field, f.op, f.value.kind.isNone))
    = query'.used.map fun f => (f.field, f.op, f.value.kind.isNone)
  order : query.order = query'.order
  descending : query.descending = query'.descending

/-- What is true of a statement that is asked: it names the type and its fields
    only, its quotes close, it has a value for each parameter, the window is a
    pair of numbers, and the text says nothing of the values. -/
structure Asked (type : TypeInfo) (query : DbQuery) (sql : Bytes) (args : List SqlArg) : Prop where
  names : ∀ name ∈ SqlText.names sql,
    name = cstr type.name ∨ ∃ f ∈ type.fields, name = cstr f.name
  closed : Closed sql
  params : SqlText.params sql = args.length
  values : args = (query.used.filter fun filter => filter.value.kind.isSome).map (·.value)
    ++ [SQL_INT (query.pageSize + 1), SQL_INT (query.page * query.pageSize)]
  window : 0 ≤ query.page * query.pageSize ∧ query.page * query.pageSize ≤ INT_MAX
  few : args.length ≤ DB_FILTER_MAX + 2
  short : sql.length < DB_MAX_SQL
  blind : ∀ query', SameShape query query' → searchText type query' = sql

theorem searchKey_mem {key : FieldInfo} (h : searchKey type = some key) : key ∈ type.fields := by
  have hfold : ∀ (fields : List FieldInfo) (start : Option FieldInfo),
      fields.foldl (fun key f => if f.flags.id then some f else key) start = some key →
        start = some key ∨ key ∈ fields := by
    intro fields
    induction fields with
    | nil => exact fun start h => Or.inl h
    | cons f fields ih =>
        intro start h
        rcases ih _ h with hs | hm
        · dsimp only at hs
          split_ifs at hs
          · exact Or.inr (Option.some.inj hs ▸ List.mem_cons_self)
          · exact Or.inl hs
        · exact Or.inr (List.mem_cons_of_mem f hm)
  rcases hfold type.fields none h with h | h
  · cases h
  · exact h

theorem searchOrder_mem {order : FieldInfo} (h : searchOrder type query = some order) :
    order ∈ type.fields := by
  rw [searchOrder] at h
  split_ifs at h
  · exact (findField_spec h).1
  · exact searchKey_mem h

theorem sameShape_text {query' : DbQuery} (h : SameShape query query') :
    searchText type query' = searchText type query := by
  have hconditions : query'.used.map (conditionOf type) = query.used.map (conditionOf type) := by
    have hmap : ∀ q : DbQuery, q.used.map (conditionOf type)
        = (q.used.map fun f => (f.field, f.op, f.value.kind.isNone)).map fun x =>
          (⟨cstr (((findField type x.1).map (·.name)).getD []), cstr (x.2.1.getD []), x.2.2⟩
            : Condition) := by
      intro q
      rw [List.map_map]
      rfl
    rw [hmap, hmap, h.filters]
  have horder : searchOrder type query' = searchOrder type query := by
    rw [searchOrder, searchOrder, h.order]
  rw [searchText, searchText, hconditions, horder, h.descending]

/-- **What is asked is safe.** -/
theorem searchable_asked (h : Searchable type query) :
    Asked type query (searchText type query) (searchArgs query) := by
  obtain ⟨hname, -, hpage, ⟨hsize, -⟩, hmost⟩ := queryValid_spec h.valid
  obtain ⟨key, hkey, hkeySafe⟩ := h.key
  obtain ⟨order, horder, horderSafe⟩ := h.order
  have hk := nameSafe_spec hkeySafe
  have ho := nameSafe_spec horderSafe
  have ht := nameSafe_spec hname
  have hsound : ∀ c ∈ query.used.map (conditionOf type), Sound c := by
    intro c hc
    obtain ⟨filter, hf, rfl⟩ := List.mem_map.mp hc
    exact conditionOf_sound (h.filters filter hf)
  have hword : QUOTE ∉ lit " " ++ (if query.descending then lit "DESC" else lit "ASC") ++ lit ", " := by
    cases query.descending <;> decide
  have hparam : (lit " " ++ (if query.descending then lit "DESC" else lit "ASC") ++ lit ", ").countP
      (· = PARAM) = 0 := by
    cases query.descending <;> decide
  have hplain : ∀ p ∈ searchPieces type (query.used.map (conditionOf type)) (cstr order.name)
      query.descending (cstr key.name), p.Plain := by
    intro p hp
    simp only [searchPieces, List.mem_append, List.mem_cons, List.not_mem_nil, or_false] at hp
    rcases hp with ((rfl | rfl) | hp) | rfl | rfl | rfl | rfl | rfl
    · exact (by decide : QUOTE ∉ lit "SELECT * FROM ")
    · exact ht.quote
    · exact conditions_plain _ true hsound p hp
    · exact (by decide : QUOTE ∉ lit " ORDER BY ")
    · exact ho.quote
    · exact hword
    · exact hk.quote
    · exact (by decide : QUOTE ∉ lit " ASC LIMIT ? OFFSET ?")
  have htext : searchText type query = (searchPieces type (query.used.map (conditionOf type))
      (cstr order.name) query.descending (cstr key.name)).flatMap Piece.spell := by
    rw [searchText, hkey, horder]
    rfl
  have hcount : (query.used.map (conditionOf type)).countP (fun c => !c.isNull)
      = (query.used.filter fun filter => filter.value.kind.isSome).length := by
    rw [List.countP_map, List.countP_eq_length_filter]
    congr 2
    funext filter
    show (!filter.value.kind.isNone) = filter.value.kind.isSome
    cases filter.value.kind <;> rfl
  constructor
  · intro name hmem
    rw [htext, names_pieces hplain] at hmem
    simp only [searchPieces, List.flatMap_append, List.flatMap_cons, List.flatMap_nil, Piece.names,
      conditions_names, List.nil_append, List.append_nil, List.singleton_append, List.mem_append,
      List.mem_cons, List.not_mem_nil, or_false, List.mem_map] at hmem
    rcases hmem with (rfl | ⟨c, ⟨filter, hf, rfl⟩, rfl⟩) | rfl | rfl
    · exact Or.inl rfl
    · obtain ⟨field, op, hfield, -, -⟩ := filterValid_spec (h.filters filter hf)
      refine Or.inr ⟨field, (findField_spec hfield).1, ?_⟩
      rw [conditionOf, hfield]
      rfl
    · exact Or.inr ⟨order, searchOrder_mem horder, rfl⟩
    · exact Or.inr ⟨key, searchKey_mem hkey, rfl⟩
  · rw [htext]
    exact closed_pieces hplain
  · have hselect : (lit "SELECT * FROM ").countP (· = PARAM) = 0 := by decide
    have hby : (lit " ORDER BY ").countP (· = PARAM) = 0 := by decide
    have hlimit : (lit " ASC LIMIT ? OFFSET ?").countP (· = PARAM) = 2 := by decide
    rw [htext, params_pieces hplain, searchPieces, List.map_append, List.map_append, List.sum_append,
      List.sum_append, conditions_params _ true hsound, hcount, searchArgs, List.length_append,
      List.length_map]
    simp only [List.map_cons, List.map_nil, List.sum_cons, List.sum_nil, Piece.params, hselect, hby,
      hparam, hlimit, List.length_cons, List.length_nil]
    omega
  · rfl
  · have hnonneg : 0 ≤ query.page * query.pageSize := Int.mul_nonneg hpage (by omega)
    refine ⟨hnonneg, Int.le_trans (Int.mul_le_mul_of_nonneg_right hmost (by omega)) ?_⟩
    exact Int.ediv_mul_le INT_MAX (by omega)
  · have hused := used_length h.valid
    have hfilter := List.length_filter_le (fun filter : DbFilter => filter.value.kind.isSome) query.used
    rw [searchArgs, List.length_append, List.length_map, List.length_cons, List.length_singleton]
    omega
  · exact (searchStatement_eq.1 (searchable_iff.mpr h)).2
  · exact fun query' hshape => sameShape_text hshape

end Statement

section Pages

variable {α : Type} {db : Database α} {type : TypeInfo} {query : DbQuery} {fail : Failure}

/-- The page that is made of what the database answers. -/
def pageOf (page size : Int) (bad : Bool) (answer : Int × List α × Failure) (message : Bytes) :
    RowList α × Failure :=
  if bad then
    ({ items := some answer.2.1, page := page, size := size },
      requestFail answer.2.2 500 (some message))
  else
    ({ items := some answer.2.1, count := if answer.1 > size then size else answer.1, page := page,
       size := size, hasMore := answer.1 > size }, answer.2.2)

theorem dbSearch_eq (h : searchable type query = true) (hroom : db.room (query.pageSize + 1) = true) :
    dbSearch db (some type) query fail
      = pageOf query.page query.pageSize
          ((db.queryMany fail (query.pageSize + 1) (searchText type query) (searchArgs query)).1 < 0)
          (db.queryMany fail (query.pageSize + 1) (searchText type query) (searchArgs query))
          (lit "query failed") := by
  rw [dbSearch, (searchStatement_eq.1 h).1]
  dsimp only
  rw [if_neg (by rw [hroom]; exact fun h => nomatch h), pageOf]
  simp only [decide_eq_true_eq]

/-- The database has these rows for a statement, in this order: it answers with
    the window that the last two parameters ask for. -/
def Answers (db : Database α) (sql : Bytes) (args : List SqlArg) (rows : List α) : Prop :=
  ∀ (fail : Failure) (limit offset : Nat),
    db.queryMany fail limit sql (args ++ [SQL_INT limit, SQL_INT offset])
      = ((((rows.drop offset).take limit).length : Int), (rows.drop offset).take limit, fail)

/-- What a client reads from a page: its rows, and whether there are more. -/
def reading (r : RowList α × Failure) : List α × Bool :=
  ((r.1.items.getD []).take r.1.count.toNat, r.1.hasMore)

/-- A page that is made of a window is a page of the rows. -/
theorem reading_window (rows : List α) (size p : Nat) (page : Int) (message : Bytes) :
    reading (pageOf page size false ((((rows.drop (p * size)).take (size + 1)).length : Int),
        (rows.drop (p * size)).take (size + 1), fail) message)
      = (Paging.page rows size p, more rows size p) := by
  have hwindow := window_length rows size p
  rw [pageOf, if_neg Bool.false_ne_true, reading]
  dsimp only [Option.getD_some]
  refine Prod.ext ?_ ?_
  · dsimp only
    by_cases hmore : more rows size p = true
    · have hlong := hwindow.mpr hmore
      rw [if_pos (by omega), Int.toNat_natCast, window_take]
    · have hshort : ((rows.drop (p * size)).take (size + 1)).length ≤ size :=
        Nat.le_of_not_lt fun h => hmore (hwindow.mp h)
      rw [if_neg (by omega), Int.toNat_natCast, List.take_length, ← window_take,
        List.take_of_length_le hshort]
  · dsimp only
    rw [Bool.eq_iff_iff, decide_eq_true_eq, ← hwindow]
    omega

/-- The query for another page. -/
def DbQuery.at (query : DbQuery) (p : Nat) : DbQuery := { query with page := p }

/-- A query for page `p` can be asked if the one for the first page can, as long
    as the page is within the rows. -/
theorem searchable_at (h : searchable type (query.at 0) = true) {p : Nat}
    (hp : (p : Int) * query.pageSize ≤ INT_MAX) : searchable type (query.at p) = true := by
  rw [searchable_iff] at h ⊢
  obtain ⟨hvalid, hkey, horder, hfilters⟩ := h
  obtain ⟨-, -, -, ⟨hsize, -⟩, -⟩ := queryValid_spec hvalid
  have hpos : 0 < query.pageSize := hsize
  have hpage : (p : Int) ≤ INT_MAX / query.pageSize := (Int.le_ediv_iff_mul_le hpos).mpr hp
  have hsame : (query.at p).pageSize = query.pageSize := rfl
  have hfirst : (query.at 0).pageSize = query.pageSize := rfl
  refine ⟨?_, hkey, horder, hfilters⟩
  rw [queryValid, hfirst] at hvalid
  rw [queryValid, hsame]
  simp only [Bool.and_eq_true, decide_eq_true_eq] at hvalid ⊢
  obtain ⟨⟨⟨⟨h1, h2⟩, h3⟩, h4⟩, -⟩ := hvalid
  exact ⟨⟨⟨⟨h1.imp_right id, Int.natCast_nonneg p⟩, h3⟩, h4⟩, hpage⟩

/-- The values of the filters of a query. -/
def filterArgs (query : DbQuery) : List SqlArg :=
  (query.used.filter fun filter => filter.value.kind.isSome).map (·.value)

/-- A reader that is given page after page reads the rows. -/
theorem readAll_rows {rows : List α} {size : Nat} (hsize : 1 ≤ size) {get : Nat → List α × Bool}
    (hget : ∀ p, p * size ≤ rows.length → get p = (Paging.page rows size p, more rows size p)) :
    readAll get (rows.length + 1) 0 = rows := by
  have hfuel : rows.length < (0 + (rows.length + 1)) * size := by
    have hmul : rows.length + 1 ≤ (rows.length + 1) * size := Nat.le_mul_of_pos_right _ hsize
    rw [Nat.zero_add]
    omega
  rw [readAll_pages hget _ 0 (by rw [Nat.zero_mul]; exact Nat.zero_le _) hfuel, Nat.zero_mul,
    List.drop_zero]

/-- A database that holds these rows whatever it is asked, in this order. -/
def shelf (rows : List α) : Database α where
  queryMany fail limit _ args :=
    let offset := (args.getLast?.map (·.i)).getD 0
    let window := (rows.drop offset.toNat).take limit.toNat
    (window.length, window, fail)
  room _ := true

theorem shelf_answers (rows : List α) (sql : Bytes) (args : List SqlArg) :
    Answers (shelf rows) sql args rows := by
  intro fail limit offset
  have hlast : (args ++ [SQL_INT limit, SQL_INT offset]).getLast?.map (·.i) = some (offset : Int) := by
    rw [List.getLast?_append_of_ne_nil _ (List.cons_ne_nil _ _)]
    rfl
  simp only [shelf, hlast, Option.getD_some, Int.toNat_natCast]

/-- The notes with at least three stars, most stars first, two a page. -/
def starred : DbQuery where
  filters := fun _ => { field := some (lit "stars"), op := some (lit ">="), value := SQL_INT 3 }
  count := 1
  order := some (lit "stars")
  descending := true
  size := 2

/-- The collection can be asked: its names are safe. -/
def CollectionSafe (type : TypeInfo) (key filter : Option Bytes) : Prop :=
  type.size ≠ 0 ∧ nameSafe (some type.name) = true ∧ nameSafe key = true
    ∧ (filter.isSome → nameSafe filter = true)

/-- The page is one that a collection has. -/
def PageValid (page size : Int) : Prop :=
  0 ≤ page ∧ 1 ≤ size ∧ size ≤ PAGE_MAX ∧ page ≤ INT_MAX / size

/-- The statement of a collection. -/
def collectionPieces (table key : Bytes) (filter : Option Bytes) : List Piece :=
  [.text (lit "SELECT * FROM "), .name table]
    ++ (match filter with
      | none => [.text (lit " ORDER BY ")]
      | some filter => [.text (lit " WHERE "), .name filter, .text (lit " = ? ORDER BY ")])
    ++ [.name key, .text (lit " LIMIT ? OFFSET ?")]

def collectionText (type : TypeInfo) (key filter : Option Bytes) : Bytes :=
  (collectionPieces (cstr type.name) (cstr (key.getD [])) (filter.map cstr)).flatMap Piece.spell

theorem collectionSql_eq (type : TypeInfo) (key filter : Option Bytes) :
    collectionSql (cstr type.name) (cstr (key.getD [])) (filter.map cstr)
      = collectionText type key filter := by
  cases filter <;>
    simp only [collectionSql, collectionText, collectionPieces, Option.map_none, Option.map_some,
      List.cons_append, List.nil_append, List.flatMap_cons, List.flatMap_nil, Piece.spell,
      List.append_nil, List.append_assoc]

/-- The value that the filter is compared with. -/
def collectionArgs (filter : Option Bytes) (id : Int) : List SqlArg :=
  if filter.isSome then [SQL_INT id] else []

/-- What is true of the statement of a collection. -/
structure CollectionAsked (type : TypeInfo) (key filter : Option Bytes) (sql : Bytes)
    (values : List SqlArg) : Prop where
  names : SqlText.names sql
    = [cstr type.name] ++ (filter.map cstr).toList ++ [cstr (key.getD [])]
  closed : Closed sql
  params : SqlText.params sql = values.length + 2
  short : sql.length < 512

theorem nameSafe_some {name : Option Bytes} (h : nameSafe name = true) :
    SafeName (cstr (name.getD [])) := by
  cases name with
  | none => cases h
  | some name => exact nameSafe_spec h

theorem collection_asked {key filter : Option Bytes} (h : CollectionSafe type key filter) (id : Int) :
    CollectionAsked type key filter (collectionText type key filter) (collectionArgs filter id) := by
  obtain ⟨-, hname, hkey, hfilter⟩ := h
  have ht := nameSafe_spec hname
  have hk := nameSafe_some hkey
  have hselect : QUOTE ∉ lit "SELECT * FROM " := by decide
  have hlimit : QUOTE ∉ lit " LIMIT ? OFFSET ?" := by decide
  have horder : QUOTE ∉ lit " ORDER BY " := by decide
  have hlengths : (lit "SELECT * FROM ").length = 14 ∧ (lit " LIMIT ? OFFSET ?").length = 17
      ∧ (lit " ORDER BY ").length = 10 ∧ (lit " WHERE ").length = 7
      ∧ (lit " = ? ORDER BY ").length = 14 := by decide
  obtain ⟨h1, h2, h3, h4, h5⟩ := hlengths
  have htable := ht.short
  have hshort := hk.short
  cases filter with
  | none =>
      have hplain : ∀ p ∈ collectionPieces (cstr type.name) (cstr (key.getD [])) none, p.Plain := by
        simp only [collectionPieces, List.cons_append, List.nil_append, List.forall_mem_cons]
        exact ⟨hselect, ht.quote, horder, hk.quote, hlimit, fun _ hp => nomatch hp⟩
      refine ⟨names_pieces hplain, closed_pieces hplain, ?_, ?_⟩
      · exact (params_pieces hplain).trans rfl
      · simp only [collectionText, collectionPieces, Option.map_none, List.cons_append,
          List.nil_append, List.flatMap_cons, List.flatMap_nil, Piece.spell, List.length_append,
          quoted_length, List.length_nil]
        omega
  | some filter =>
      have hf := nameSafe_spec (hfilter rfl)
      have hwhere : QUOTE ∉ lit " WHERE " := by decide
      have hequal : QUOTE ∉ lit " = ? ORDER BY " := by decide
      have hplain : ∀ p ∈ collectionPieces (cstr type.name) (cstr (key.getD [])) (some (cstr filter)),
          p.Plain := by
        simp only [collectionPieces, List.cons_append, List.nil_append, List.forall_mem_cons]
        exact ⟨hselect, ht.quote, hwhere, hf.quote, hequal, hk.quote, hlimit, fun _ hp => nomatch hp⟩
      refine ⟨names_pieces hplain, closed_pieces hplain, ?_, ?_⟩
      · exact (params_pieces hplain).trans rfl
      · have hfshort := hf.short
        simp only [collectionText, collectionPieces, Option.map_some, List.cons_append,
          List.nil_append, List.flatMap_cons, List.flatMap_nil, Piece.spell, List.length_append,
          quoted_length, List.length_nil]
        omega

theorem pageValid_iff {page size : Int} :
    ¬ (page < 0 ∨ size < 1 ∨ size > PAGE_MAX ∨ page > INT_MAX / size) ↔ PageValid page size := by
  rw [PageValid]
  omega

theorem dbQueryPage_eq {key filter : Option Bytes} {id page size : Int} (hvalid : PageValid page size)
    (hsafe : CollectionSafe type key filter) (hroom : db.room (size + 1) = true)
    {answer : Int × List α × Failure}
    (hanswer : db.queryMany fail (size + 1) (collectionText type key filter)
      (collectionArgs filter id ++ [SQL_INT (size + 1), SQL_INT (page * size)]) = answer) :
    dbQueryPage db (some type) key filter id page size fail
      = pageOf page size (answer.1 < 0 ∨ answer.1 > size + 1) answer
        (lit "collection query failed") := by
  subst hanswer
  have hshort := (collection_asked hsafe id).short
  obtain ⟨hsize, hname, hkey, hfilter⟩ := hsafe
  have hnames : ¬ (type.size = 0 ∨ nameSafe (some type.name) = false ∨ nameSafe key = false
      ∨ (filter.isSome ∧ nameSafe filter = false)) := by
    rw [hname, hkey]
    rintro (h | h | h | ⟨h, h'⟩)
    · exact hsize h
    · cases h
    · cases h
    · rw [hfilter h] at h'
      cases h'
  rw [dbQueryPage, if_neg (pageValid_iff.mpr hvalid)]
  dsimp only
  rw [if_neg hnames, if_neg (by rw [hroom]; exact fun h => nomatch h), collectionSql_eq,
    if_neg (Nat.not_le.mpr hshort), ← collectionArgs, pageOf]
  simp only [decide_eq_true_eq]

end Pages

end DbSearch
