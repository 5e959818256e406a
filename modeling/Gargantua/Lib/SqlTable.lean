import Gargantua.Lib.SqlWords
import Mathlib.Data.List.Sort

/-! # Statements on a table by its key

    A table keeps rows under whole-number keys.  Five kinds of statement read
    and write it by the key; a statement is read back from its words
    (`read_words`).

    `Table.run` is what a statement does, with a value for each of its
    parameters.  `fresh` chooses the key of a new row.  On a table that holds
    records a statement does to the records what its name says (`insert_run`,
    `update_run`, `delete_run`, `select_run`). -/

namespace SqlTable

open CString SqlText SqlWords

/-- The statements. -/
inductive Statement where
  | insert (table : Bytes) (columns : List Bytes) (returning : Bytes)
  | update (table : Bytes) (columns : List Bytes) (key : Bytes)
  | delete (table key : Bytes)
  | select (table : Bytes) (column : Option Bytes) (key : Bytes)
  | list (table order : Bytes)
  deriving DecidableEq

/-- The table of a statement. -/
def Statement.table : Statement → Bytes
  | .insert t _ _ => t
  | .update t _ _ => t
  | .delete t _ => t
  | .select t _ _ => t
  | .list t _ => t

/-- The values that it takes. -/
def Statement.params : Statement → Nat
  | .insert _ cs _ => cs.length
  | .update _ cs _ => cs.length + 1
  | .delete _ _ => 1
  | .select _ _ _ => 1
  | .list _ _ => 1

/-! ## Words -/

abbrev keyword (s : String) : Word := .word (lit s)

abbrev LEFT : Word := .mark 0x28
abbrev RIGHT : Word := .mark 0x29
abbrev EQUAL : Word := .mark 0x3D
abbrev VALUE : Word := .mark 0x3F
abbrev STAR : Word := .mark 0x2A

def nameWords (c : Bytes) : List Word := [.name c]
def valueWords (_ : Bytes) : List Word := [VALUE]
def setWords (c : Bytes) : List Word := [.name c, EQUAL, VALUE]

/-- Behind the name of a table, the row with a key. -/
def whereWords (key : Bytes) : List Word := [keyword "WHERE", .name key, EQUAL, VALUE]

/-- The words of a statement. -/
def Statement.words : Statement → List Word
  | .insert t [] k =>
      [keyword "INSERT", keyword "INTO", .name t, keyword "DEFAULT", keyword "VALUES",
        keyword "RETURNING", .name k]
  | .insert t (c :: cs) k =>
      [keyword "INSERT", keyword "INTO", .name t, LEFT] ++ (listWords nameWords (c :: cs)
        ++ ([RIGHT, keyword "VALUES", LEFT] ++ (listWords valueWords (c :: cs)
          ++ [RIGHT, keyword "RETURNING", .name k])))
  | .update t cs k =>
      [keyword "UPDATE", .name t, keyword "SET"] ++ (listWords setWords cs ++ whereWords k)
  | .delete t k => [keyword "DELETE", keyword "FROM", .name t] ++ whereWords k
  | .select t none k => [keyword "SELECT", STAR, keyword "FROM", .name t] ++ whereWords k
  | .select t (some c) k => [keyword "SELECT", .name c, keyword "FROM", .name t] ++ whereWords k
  | .list t k =>
      [keyword "SELECT", STAR, keyword "FROM", .name t, keyword "ORDER", keyword "BY", .name k,
        keyword "LIMIT", VALUE]

def readName : List Word → Option (Bytes × List Word)
  | .name n :: ws => some (n, ws)
  | _ => none

def readValue : List Word → Option (Unit × List Word)
  | w :: ws => if w = VALUE then some ((), ws) else none
  | [] => none

def readSet (ws : List Word) : Option (Bytes × List Word) := do
  let (c, ws) ← readName ws
  let ws ← eat [EQUAL, VALUE] ws
  some (c, ws)

def readWhere (ws : List Word) : Option Bytes := do
  let ws ← eat [keyword "WHERE"] ws
  let (k, ws) ← readName ws
  if ws = [EQUAL, VALUE] then some k else none

/-- The name that a text ends with. -/
def readLast : List Word → Option Bytes
  | [.name k] => some k
  | _ => none

/-- An `INSERT`, behind the name of its table. -/
def readInsert (t : Bytes) (ws : List Word) : Option Statement :=
  match eat [keyword "DEFAULT", keyword "VALUES", keyword "RETURNING"] ws with
  | some ws => (readLast ws).map (.insert t [])
  | none => do
      let ws ← eat [LEFT] ws
      let (cs, ws) ← readList readName ws
      let ws ← eat [RIGHT, keyword "VALUES", LEFT] ws
      let (vs, ws) ← readList readValue ws
      let ws ← eat [RIGHT, keyword "RETURNING"] ws
      let k ← readLast ws
      if vs.length = cs.length then some (.insert t cs k) else none

/-- An `UPDATE`, behind the name of its table. -/
def readUpdate (t : Bytes) (ws : List Word) : Option Statement := do
  let ws ← eat [keyword "SET"] ws
  let (cs, ws) ← readList readSet ws
  let k ← readWhere ws
  some (.update t cs k)

/-- A `SELECT` of a whole row, behind the name of its table. -/
def readSelect (t : Bytes) (ws : List Word) : Option Statement :=
  match eat [keyword "ORDER", keyword "BY"] ws with
  | some ws => do
      let (k, ws) ← readName ws
      if ws = [keyword "LIMIT", VALUE] then some (.list t k) else none
  | none => (readWhere ws).map (.select t none)

/-- The statement that the words are. -/
def read (ws : List Word) : Option Statement :=
  match eat [keyword "INSERT", keyword "INTO"] ws with
  | some ws => do
      let (t, ws) ← readName ws
      readInsert t ws
  | none =>
      match eat [keyword "UPDATE"] ws with
      | some ws => do
          let (t, ws) ← readName ws
          readUpdate t ws
      | none =>
          match eat [keyword "DELETE", keyword "FROM"] ws with
          | some ws => do
              let (t, ws) ← readName ws
              let k ← readWhere ws
              some (.delete t k)
          | none =>
              match eat [keyword "SELECT", STAR, keyword "FROM"] ws with
              | some ws => do
                  let (t, ws) ← readName ws
                  readSelect t ws
              | none => do
                  let ws ← eat [keyword "SELECT"] ws
                  let (c, ws) ← readName ws
                  let ws ← eat [keyword "FROM"] ws
                  let (t, ws) ← readName ws
                  let k ← readWhere ws
                  some (.select t (some c) k)

/-- The statement that a text is. -/
def readText (sql : Bytes) : Option Statement := (words sql).bind read

/-- A statement sets a column at least, if it sets any. -/
def Statement.Proper : Statement → Prop
  | .update _ cs _ => cs ≠ []
  | _ => True

theorem readWhere_words (k : Bytes) : readWhere (whereWords k) = some k := rfl

theorem readList_names {c : Bytes} {cs : List Bytes} {ws : List Word}
    (h : ws.head? ≠ some (.mark 0x2C)) :
    readList readName (listWords nameWords (c :: cs) ++ ws) = some (c :: cs, ws) :=
  readList_words (fun _ _ => rfl) (List.cons_ne_nil c cs) h

theorem readList_values {c : Bytes} {cs : List Bytes} {ws : List Word}
    (h : ws.head? ≠ some (.mark 0x2C)) :
    readList readValue (listWords valueWords (c :: cs) ++ ws)
      = some ((c :: cs).map fun _ => (), ws) := by
  have hsame : listWords valueWords (c :: cs)
      = listWords (fun _ : Unit => [VALUE]) ((c :: cs).map fun _ => ()) := by
    rw [listWords, List.map_cons, listWords, List.flatMap_map]
    rfl
  rw [hsame]
  exact readList_words (fun _ _ => rfl) (List.cons_ne_nil _ _) h

theorem readList_sets {c : Bytes} {cs : List Bytes} {ws : List Word}
    (h : ws.head? ≠ some (.mark 0x2C)) :
    readList readSet (listWords setWords (c :: cs) ++ ws) = some (c :: cs, ws) :=
  readList_words (fun _ _ => rfl) (List.cons_ne_nil c cs) h

/-- **A statement is read back from its words.** -/
theorem read_words {st : Statement} (h : st.Proper) : read st.words = some st := by
  cases st with
  | insert t cs k =>
      cases cs with
      | nil => rfl
      | cons c cs =>
          have hbind : read (Statement.insert t (c :: cs) k).words = readInsert t
              ([LEFT] ++ (listWords nameWords (c :: cs)
                ++ ([RIGHT, keyword "VALUES", LEFT] ++ (listWords valueWords (c :: cs)
                  ++ ([RIGHT, keyword "RETURNING"] ++ [Word.name k]))))) := rfl
          have hdefault : eat [keyword "DEFAULT", keyword "VALUES", keyword "RETURNING"]
              ([LEFT] ++ (listWords nameWords (c :: cs)
                ++ ([RIGHT, keyword "VALUES", LEFT] ++ (listWords valueWords (c :: cs)
                  ++ ([RIGHT, keyword "RETURNING"] ++ [Word.name k]))))) = none := rfl
          have hright : ∀ ws : List Word,
              ([RIGHT, keyword "VALUES", LEFT] ++ ws).head? ≠ some (.mark 0x2C) :=
            fun ws h => nomatch Word.mark.inj (Option.some.inj h)
          have hreturning : ([RIGHT, keyword "RETURNING"] ++ [Word.name k]).head?
              ≠ some (.mark 0x2C) := fun h => nomatch Word.mark.inj (Option.some.inj h)
          rw [hbind, readInsert, hdefault]
          simp only [eat_append, Option.bind_eq_bind, Option.bind_some,
            readList_names (hright _), readList_values hreturning, readLast, List.length_map,
            if_pos]
  | update t cs k =>
      obtain ⟨c, cs, rfl⟩ := List.exists_cons_of_ne_nil h
      have hbind : read (Statement.update t (c :: cs) k).words = readUpdate t
          ([keyword "SET"] ++ (listWords setWords (c :: cs) ++ whereWords k)) := rfl
      have hwhere : (whereWords k).head? ≠ some (.mark 0x2C) := fun h => nomatch Option.some.inj h
      rw [hbind, readUpdate]
      simp only [eat_append, Option.bind_eq_bind, Option.bind_some, readList_sets hwhere,
        readWhere_words]
  | delete t k => rfl
  | select t c k => cases c <;> rfl
  | list t k => rfl

/-! ## What a statement does -/

variable {V : Type}

/-- The values that keys and limits are made of. -/
structure Values (V : Type) where
  int : Int → V
  toInt : V → Option Int
  toInt_int : ∀ n, toInt (int n) = some n

/-- A table: its key, the other columns with their defaults, the place of the key
    among the columns, and the rows by ascending keys.  No two columns have one
    name. -/
structure Table (V : Type) where
  key : Bytes
  columns : List (Bytes × V)
  keyAt : Nat
  distinct : (key :: columns.map (·.1)).Nodup
  rows : List (Int × List V)

/-- Tables by their names. -/
abbrev Database (V : Type) : Type := Bytes → Option (Table V)

/-- What a statement gives: rows of named values, the table behind it, and how
    many rows it has changed. -/
structure Reply (V : Type) where
  rows : List (List (Bytes × V))
  table : Table V
  changes : Nat

/-- The value that is given for a column, or another. -/
def given (cs : List Bytes) (args : List V) (c : Bytes) (other : V) : V :=
  ((cs.zip args).lookup c).getD other

/-! ### Rows by their keys -/

section Keyed

variable {R : Type}

/-- The keys ascend. -/
def Ascending (rows : List (Int × R)) : Prop := rows.Pairwise fun a b => a.1 < b.1

/-- Rows with one more, in its place. -/
def insertRow (id : Int) (row : R) : List (Int × R) → List (Int × R)
  | [] => [(id, row)]
  | r :: rows => if id < r.1 then (id, row) :: r :: rows else r :: insertRow id row rows

/-- The rows with another row under a key that they have. -/
def setRow (id : Int) (row : R) (rows : List (Int × R)) : List (Int × R) :=
  rows.map fun r => if r.1 = id then (r.1, row) else r

def dropRow (id : Int) (rows : List (Int × R)) : List (Int × R) := rows.filter fun r => r.1 ≠ id

/-- The row under a key. -/
def findRow (id : Int) (rows : List (Int × R)) : Option R :=
  (rows.find? fun r => r.1 = id).map (·.2)

theorem mem_insertRow {id : Int} {row : R} {x : Int × R} : ∀ {rows : List (Int × R)},
    x ∈ insertRow id row rows ↔ x = (id, row) ∨ x ∈ rows
  | [] => List.mem_cons
  | r :: rows => by
      rw [insertRow]
      split_ifs
      · exact List.mem_cons
      · rw [List.mem_cons, mem_insertRow, List.mem_cons]
        exact or_left_comm

theorem insertRow_ascending {id : Int} {row : R} : ∀ {rows : List (Int × R)}, Ascending rows →
    id ∉ rows.map (·.1) → Ascending (insertRow id row rows)
  | [], _, _ => List.pairwise_singleton _ _
  | r :: rows, h, hnew => by
      rw [List.map_cons, List.mem_cons, not_or] at hnew
      obtain ⟨hr, hrows⟩ := List.pairwise_cons.mp h
      rw [insertRow]
      split_ifs with hlt
      · refine List.pairwise_cons.mpr ⟨fun x hx => ?_, h⟩
        rcases List.mem_cons.mp hx with rfl | hx
        · exact hlt
        · exact Int.lt_trans hlt (hr x hx)
      · refine List.pairwise_cons.mpr ⟨fun x hx => ?_, insertRow_ascending hrows hnew.2⟩
        rcases mem_insertRow.mp hx with rfl | hx
        · have hne := hnew.1
          omega
        · exact hr x hx

theorem setRow_ascending {id : Int} {row : R} {rows : List (Int × R)} (h : Ascending rows) :
    Ascending (setRow id row rows) := by
  refine List.pairwise_map.mpr (h.imp fun {a b} hab => ?_)
  split_ifs <;> exact hab

theorem dropRow_ascending {id : Int} {rows : List (Int × R)} (h : Ascending rows) :
    Ascending (dropRow id rows) := h.sublist List.filter_sublist

/-- There is one row under a key at most. -/
theorem filter_key {rows : List (Int × R)} (h : Ascending rows) (id : Int) :
    rows.filter (fun r => r.1 = id) = ((findRow id rows).map fun row => (id, row)).toList := by
  induction rows with
  | nil => rfl
  | cons r rows ih =>
      obtain ⟨hr, hrows⟩ := List.pairwise_cons.mp h
      by_cases hid : r.1 = id
      · have hnone : rows.filter (fun r => r.1 = id) = [] := by
          refine List.filter_eq_nil_iff.mpr fun x hx => ?_
          have hlt := hr x hx
          rw [decide_eq_true_eq]
          omega
        have hhit : (fun r : Int × R => decide (r.1 = id)) r = true := decide_eq_true hid
        rw [@List.filter_cons_of_pos _ (fun r => decide (r.1 = id)) r rows hhit, hnone, findRow,
          @List.find?_cons_of_pos _ (fun r => decide (r.1 = id)) r rows hhit, ← hid]
        rfl
      · have hmiss : ¬ (fun r : Int × R => decide (r.1 = id)) r = true := by
          rw [decide_eq_true_eq]
          exact hid
        rw [@List.filter_cons_of_neg _ (fun r => decide (r.1 = id)) r rows hmiss, ih hrows, findRow,
          findRow, @List.find?_cons_of_neg _ (fun r => decide (r.1 = id)) r rows hmiss]

theorem countP_key {rows : List (Int × R)} (h : Ascending rows) (id : Int) :
    rows.countP (fun r => r.1 = id) = if (findRow id rows).isSome then 1 else 0 := by
  rw [List.countP_eq_length_filter, filter_key h]
  cases findRow id rows <;> rfl

section Map

variable {S : Type} (f : R → S)

/-- Other rows under the same keys. -/
def mapRows (rows : List (Int × R)) : List (Int × S) := rows.map fun r => (r.1, f r.2)

theorem mapRows_keys (rows : List (Int × R)) : (mapRows f rows).map (·.1) = rows.map (·.1) := by
  rw [mapRows, List.map_map]
  rfl

theorem mapRows_ascending {rows : List (Int × R)} (h : Ascending rows) :
    Ascending (mapRows f rows) := List.pairwise_map.mpr h

theorem mapRows_insert (id : Int) (row : R) : ∀ rows : List (Int × R),
    mapRows f (insertRow id row rows) = insertRow id (f row) (mapRows f rows)
  | [] => rfl
  | r :: rows => by
      have ih := mapRows_insert id row rows
      rw [mapRows] at ih
      rw [insertRow, mapRows, mapRows, List.map_cons, insertRow]
      split_ifs
      · rfl
      · rw [List.map_cons, ih]
        rfl

theorem mapRows_set (id : Int) (row : R) (rows : List (Int × R)) :
    mapRows f (setRow id row rows) = setRow id (f row) (mapRows f rows) := by
  rw [mapRows, setRow, setRow, mapRows, List.map_map, List.map_map]
  refine List.map_congr_left fun r _ => ?_
  rw [Function.comp_apply, Function.comp_apply]
  split_ifs <;> rfl

theorem mapRows_drop (id : Int) (rows : List (Int × R)) :
    mapRows f (dropRow id rows) = dropRow id (mapRows f rows) := by
  rw [mapRows, dropRow, dropRow, mapRows, List.filter_map]
  rfl

theorem mapRows_find (id : Int) (rows : List (Int × R)) :
    findRow id (mapRows f rows) = (findRow id rows).map f := by
  rw [findRow, mapRows, List.find?_map, Option.map_map, findRow, Option.map_map]
  rfl

end Map

end Keyed

/-! ### Running a statement -/

namespace Table

/-- A row with its key, as it is read. -/
def cells (vs : Values V) (t : Table V) (r : Int × List V) : List (Bytes × V) :=
  let named := (t.columns.map (·.1)).zip r.2
  named.take t.keyAt ++ (t.key, vs.int r.1) :: named.drop t.keyAt

/-- The columns can be set. -/
def Settable (t : Table V) (cs : List Bytes) : Prop := cs.Nodup ∧ ∀ c ∈ cs, c ∈ t.columns.map (·.1)

instance (t : Table V) (cs : List Bytes) : Decidable (t.Settable cs) :=
  inferInstanceAs (Decidable (_ ∧ _))

/-- A statement with its values; `none` is one that the table has no column for. -/
def run [DecidableEq V] (vs : Values V) (fresh : List Int → Int) (t : Table V) :
    Statement → List V → Option (Reply V)
  | .insert _ cs k, args =>
      if k = t.key ∧ t.Settable cs ∧ args.length = cs.length then
        let id := fresh (t.rows.map (·.1))
        some {
          rows := [[(k, vs.int id)]]
          table := { t with
            rows := insertRow id (t.columns.map fun c => given cs args c.1 c.2) t.rows }
          changes := 1 }
      else none
  | .update _ cs k, args =>
      if k = t.key ∧ t.Settable cs ∧ args.length = cs.length + 1 then
        let hit (r : Int × List V) : Bool := args.getLast? = some (vs.int r.1)
        some {
          rows := []
          table := { t with
            rows := t.rows.map fun r =>
              if hit r then (r.1, (t.columns.zip r.2).map fun c => given cs args c.1.1 c.2) else r }
          changes := t.rows.countP hit }
      else none
  | .delete _ k, args =>
      if k = t.key ∧ args.length = 1 then
        let hit (r : Int × List V) : Bool := args.getLast? = some (vs.int r.1)
        some {
          rows := []
          table := { t with rows := t.rows.filter fun r => !hit r }
          changes := t.rows.countP hit }
      else none
  | .select _ column k, args =>
      if k = t.key ∧ args.length = 1 then
        let hit (r : Int × List V) : Bool := args.getLast? = some (vs.int r.1)
        let found := (t.rows.filter hit).map (t.cells vs)
        match column with
        | none => some { rows := found, table := t, changes := 0 }
        | some c =>
            if c = t.key ∨ c ∈ t.columns.map (·.1) then
              some { rows := found.map fun r => r.filter fun cell => cell.1 = c, table := t, changes := 0 }
            else none
      else none
  | .list _ k, args =>
      match args with
      | [limit] =>
          if k = t.key then
            (vs.toInt limit).map fun (n : Int) =>
              { rows := (if n < 0 then t.rows else t.rows.take n.toNat).map (t.cells vs)
                table := t
                changes := 0 }
          else none
      | _ => none

end Table

/-- A statement on the table that it names. -/
def Database.run [DecidableEq V] (vs : Values V) (fresh : List Int → Int) (db : Database V)
    (st : Statement) (args : List V) : Option (Reply V) :=
  (db st.table).bind fun t => t.run vs fresh st args

/-! ## A table of records

    A program keeps lists of values under whole numbers, the value at a place
    being for the column at that place of `cs`, in whatever order the table has
    its columns. -/

/-- The row that gives each column its value. -/
def Table.assemble (t : Table V) (cs : List Bytes) (vals : List V) : List V :=
  t.columns.map fun c => given cs vals c.1 c.2

/-- The table with these records. -/
def Table.holding (t : Table V) (cs : List Bytes) (l : List (Int × List V)) : Table V :=
  { t with rows := mapRows (t.assemble cs) l }

/-- The columns are those of the records. -/
structure Table.Fits (t : Table V) (cs : List Bytes) : Prop where
  settable : t.Settable cs
  covers : ∀ c ∈ t.columns, c.1 ∈ cs

section Records

variable {cs : List Bytes} {vals : List V} {t : Table V} {l : List (Int × List V)}

theorem lookup_zip {c : Bytes} {v : V} : ∀ {cs : List Bytes} {vals : List V}, cs.Nodup →
    (c, v) ∈ cs.zip vals → (cs.zip vals).lookup c = some v
  | [], _, _, h => by cases h
  | d :: cs, [], _, h => by cases h
  | d :: cs, w :: vals, hnodup, h => by
      obtain ⟨hd, hcs⟩ := List.nodup_cons.mp hnodup
      rw [List.zip_cons_cons, List.mem_cons] at h
      rw [List.zip_cons_cons, List.lookup_cons]
      rcases h with h | h
      · obtain ⟨rfl, rfl⟩ := Prod.mk.inj h
        rw [beq_self_eq_true]
      · have hne : (c == d) = false := by
          rw [beq_eq_false_iff_ne]
          rintro rfl
          exact hd (List.of_mem_zip h).1
        rw [hne]
        exact lookup_zip hcs h

/-- A column of the records gets its value, whatever it would have otherwise. -/
theorem given_mem {c : Bytes} (h : c ∈ cs) (hnodup : cs.Nodup) (hlength : vals.length = cs.length) :
    ∃ v, (c, v) ∈ cs.zip vals ∧ ∀ other, given cs vals c other = v := by
  obtain ⟨i, hi, rfl⟩ := List.getElem_of_mem h
  have hv : i < vals.length := hlength ▸ hi
  have hmem : (cs[i], vals[i]) ∈ cs.zip vals :=
    List.mem_iff_getElem.mpr ⟨i, by rw [List.length_zip]; omega, List.getElem_zip⟩
  exact ⟨_, hmem, fun other => by rw [given, lookup_zip hnodup hmem]; rfl⟩

theorem given_append (hlength : vals.length = cs.length) (rest : List V) (c : Bytes) (other : V) :
    given cs (vals ++ rest) c other = given cs vals c other := by
  have hzip : cs.zip (vals ++ rest) = cs.zip vals := by
    have h := @List.zip_append _ _ cs [] vals rest hlength.symm
    rwa [List.append_nil, List.zip_nil_left, List.append_nil] at h
  rw [given, hzip, given]

theorem hit_iff (vs : Values V) {vals : List V} {id k : Int} :
    (vals ++ [vs.int id]).getLast? = some (vs.int k) ↔ k = id := by
  rw [List.getLast?_concat, Option.some.injEq]
  constructor
  · intro h
    have hint := congrArg vs.toInt h
    rw [vs.toInt_int, vs.toInt_int] at hint
    exact (Option.some.inj hint).symm
  · rintro rfl
    rfl

theorem cells_perm (vs : Values V) (r : Int × List V) :
    (t.cells vs r).Perm ((t.key, vs.int r.1) :: (t.columns.map (·.1)).zip r.2) := by
  refine List.perm_middle.trans ?_
  rw [List.take_append_drop]

/-- Cells of different names are told apart by their names. -/
theorem filter_name {row : List (Bytes × V)} {p : Bytes × V} (hnodup : (row.map (·.1)).Nodup)
    (h : p ∈ row) : row.filter (fun cell => cell.1 = p.1) = [p] := by
  induction row with
  | nil => cases h
  | cons q row ih =>
      obtain ⟨hq, hrow⟩ := List.nodup_cons.mp hnodup
      rcases List.mem_cons.mp h with rfl | h
      · have hnone : row.filter (fun cell => cell.1 = p.1) = [] := by
          refine List.filter_eq_nil_iff.mpr fun x hx => ?_
          rw [decide_eq_true_eq]
          intro heq
          exact hq (List.mem_map.mpr ⟨x, hx, heq⟩)
        have hself : (fun cell : Bytes × V => decide (cell.1 = p.1)) p = true := decide_eq_true rfl
        rw [@List.filter_cons_of_pos _ (fun cell => decide (cell.1 = p.1)) p row hself, hnone]
      · have hmiss : ¬ (fun cell : Bytes × V => decide (cell.1 = p.1)) q = true := by
          rw [decide_eq_true_eq]
          intro heq
          exact hq (List.mem_map.mpr ⟨p, h, heq.symm⟩)
        rw [@List.filter_cons_of_neg _ (fun cell => decide (cell.1 = p.1)) q row hmiss, ih hrow h]

/-- **Each column of a record has one cell of its name, and that has its value;
    so has the key.** -/
theorem cells_record (vs : Values V) (h : t.Fits cs) (vals : List V) (id : Int) :
    ∀ p, p = (t.key, vs.int id) ∨ p ∈ cs.zip vals →
      (t.cells vs (id, t.assemble cs vals)).filter (fun cell => cell.1 = p.1) = [p] := by
  have hperm := @cells_perm V t vs (id, t.assemble cs vals)
  have hzip : (t.columns.map (·.1)).zip (t.assemble cs vals)
      = t.columns.map fun c => (c.1, given cs vals c.1 c.2) := List.zip_map'
  rw [hzip] at hperm
  have hnames : ((t.cells vs (id, t.assemble cs vals)).map (·.1)).Nodup := by
    refine (hperm.map (·.1)).nodup_iff.mpr ?_
    rw [List.map_cons, List.map_map]
    exact t.distinct
  rintro p (rfl | hp)
  · exact filter_name hnames (hperm.mem_iff.mpr List.mem_cons_self)
  · refine filter_name hnames (hperm.mem_iff.mpr (List.mem_cons_of_mem _ ?_))
    obtain ⟨c, hc, hname⟩ := List.mem_map.mp (h.settable.2 p.1 (List.of_mem_zip hp).1)
    refine List.mem_map.mpr ⟨c, hc, ?_⟩
    rw [hname, given, lookup_zip h.settable.1 hp]
    rfl

section Run

variable [DecidableEq V] (vs : Values V) (fresh : List Int → Int)

theorem insert_run (h : t.Fits cs) (hlength : vals.length = cs.length) (name : Bytes) :
    (t.holding cs l).run vs fresh (.insert name cs t.key) vals
      = some {
          rows := [[(t.key, vs.int (fresh (l.map (·.1))))]]
          table := t.holding cs (insertRow (fresh (l.map (·.1))) vals l)
          changes := 1 } := by
  have hset : (t.holding cs l).Settable cs := h.settable
  rw [Table.run, if_pos ⟨rfl, hset, hlength⟩, Table.holding, Table.holding, mapRows_insert]
  dsimp only
  rw [mapRows_keys]
  rfl

theorem update_run (h : t.Fits cs) (hlength : vals.length = cs.length) (hl : Ascending l)
    (name : Bytes) (id : Int) :
    (t.holding cs l).run vs fresh (.update name cs t.key) (vals ++ [vs.int id])
      = some {
          rows := []
          table := t.holding cs (setRow id vals l)
          changes := if (findRow id l).isSome then 1 else 0 } := by
  have hset : (t.holding cs l).Settable cs := h.settable
  have hargs : (vals ++ [vs.int id]).length = cs.length + 1 := by
    rw [List.length_append, hlength, List.length_singleton]
  have hover : ∀ old : List V, (t.columns.zip (t.assemble cs old)).map
      (fun c => given cs (vals ++ [vs.int id]) c.1.1 c.2) = t.assemble cs vals := by
    intro old
    have hzip : t.columns.zip (t.assemble cs old)
        = t.columns.map fun c => (c, given cs old c.1 c.2) := by
      have hmap := @List.zip_map' _ _ _ (fun c : Bytes × V => c)
        (fun c : Bytes × V => given cs old c.1 c.2) t.columns
      rwa [List.map_id'] at hmap
    rw [hzip, List.map_map, Table.assemble]
    refine List.map_congr_left fun c hc => ?_
    obtain ⟨v, -, hv⟩ := given_mem (h.covers c hc) h.settable.1 hlength
    rw [Function.comp_apply, given_append hlength, hv, hv]
  have hrows : (mapRows (t.assemble cs) l).map (fun r => if r.1 = id then
        (r.1, (t.columns.zip r.2).map fun c => given cs (vals ++ [vs.int id]) c.1.1 c.2) else r)
      = mapRows (t.assemble cs) (setRow id vals l) := by
    rw [mapRows_set, setRow]
    refine List.map_congr_left fun r hr => ?_
    obtain ⟨e, -, rfl⟩ := List.mem_map.mp hr
    rw [hover]
  rw [Table.run, if_pos ⟨rfl, hset, hargs⟩]
  simp only [Table.holding, hit_iff, decide_eq_true_eq, hrows]
  rw [countP_key (mapRows_ascending _ hl), mapRows_find, Option.isSome_map]

theorem delete_run (hl : Ascending l) (name : Bytes) (id : Int) :
    (t.holding cs l).run vs fresh (.delete name t.key) [vs.int id]
      = some {
          rows := []
          table := t.holding cs (dropRow id l)
          changes := if (findRow id l).isSome then 1 else 0 } := by
  have hhit : ∀ k : Int, [vs.int id].getLast? = some (vs.int k) ↔ k = id :=
    fun k => @hit_iff V vs [] id k
  have hrows : (mapRows (t.assemble cs) l).filter (fun r => !decide (r.1 = id))
      = mapRows (t.assemble cs) (dropRow id l) := by
    rw [mapRows_drop, dropRow]
    refine List.filter_congr fun r _ => ?_
    rw [decide_not]
  rw [Table.run, if_pos ⟨rfl, rfl⟩]
  simp only [Table.holding, hhit, hrows]
  rw [countP_key (mapRows_ascending _ hl), mapRows_find, Option.isSome_map]

theorem select_run (hl : Ascending l) (name : Bytes) (id : Int) :
    (t.holding cs l).run vs fresh (.select name none t.key) [vs.int id]
      = some {
          rows := ((findRow id l).map fun vals => t.cells vs (id, t.assemble cs vals)).toList
          table := t.holding cs l
          changes := 0 } := by
  have hhit : ∀ k : Int, [vs.int id].getLast? = some (vs.int k) ↔ k = id :=
    fun k => @hit_iff V vs [] id k
  rw [Table.run, if_pos ⟨rfl, rfl⟩]
  simp only [Table.holding, hhit]
  rw [filter_key (mapRows_ascending _ hl), mapRows_find]
  cases findRow id l <;> rfl

theorem selectKey_run (h : t.Fits cs) (hl : Ascending l) (name : Bytes) (id : Int) :
    (t.holding cs l).run vs fresh (.select name (some t.key) t.key) [vs.int id]
      = some {
          rows := ((findRow id l).map fun _ => [(t.key, vs.int id)]).toList
          table := t.holding cs l
          changes := 0 } := by
  have hhit : ∀ k : Int, [vs.int id].getLast? = some (vs.int k) ↔ k = id :=
    fun k => @hit_iff V vs [] id k
  rw [Table.run, if_pos ⟨rfl, rfl⟩]
  simp only [Table.holding, hhit, true_or, if_true]
  rw [filter_key (mapRows_ascending _ hl), mapRows_find]
  cases hfind : findRow id l with
  | none => rfl
  | some vals =>
      have hcell := cells_record vs h vals id (t.key, vs.int id) (Or.inl rfl)
      exact congrArg (fun row => some ({ rows := [row], table := t.holding cs l, changes := 0 } :
        Reply V)) hcell

end Run

end Records

end SqlTable
