import Gargantua.Lib.CString
import Gargantua.Lib.Segments

/-! # File trees with symbolic links

    A tree of files, directories and links, the walk that resolves a path in it,
    and `openat` with the flags that forbid links and ask for a directory.  A
    place is the list of names on the way from the top to a node, so a
    descriptor is a place. -/

namespace FileTree

open CString

/-- A node of the tree: a regular file, a directory, a symbolic link, or anything
    else (a pipe, a device). -/
inductive Node where
  | file (content : Bytes)
  | directory (entries : List (Bytes × Node))
  | link (target : Bytes)
  | special

/-- The entry of a directory. -/
def Node.entry : Node → Bytes → Option Node
  | .directory entries, name => (entries.find? fun e => e.1 == name).map (·.2)
  | _, _ => none

def Node.isDirectory : Node → Bool
  | .directory _ => true
  | _ => false

/-- The names on the way from the top of the tree. -/
abbrev Place := List Bytes

/-- The node at a place below a node; links are not followed. -/
def nodeAt : Node → Place → Option Node
  | n, [] => some n
  | n, name :: place => (n.entry name).bind fun child => nodeAt child place

theorem nodeAt_append (n : Node) (p q : Place) :
    nodeAt n (p ++ q) = (nodeAt n p).bind fun m => nodeAt m q := by
  induction p generalizing n with
  | nil => rfl
  | cons name p ih =>
      rw [List.cons_append, nodeAt, nodeAt]
      cases n.entry name with
      | none => rfl
      | some child => exact ih child

theorem isDirectory_of_entry {n m : Node} {name : Bytes} (h : n.entry name = some m) :
    n.isDirectory = true := by
  cases n with
  | directory entries => rfl
  | file content => exact nomatch h
  | link target => exact nomatch h
  | special => exact nomatch h

/-- What stands below another node stands in a directory. -/
theorem isDirectory_above {n m : Node} {p q : Place} (h : nodeAt n (p ++ q) = some m)
    (hq : q ≠ []) : ∃ d, nodeAt n p = some d ∧ d.isDirectory = true := by
  rw [nodeAt_append] at h
  obtain ⟨d, hd, hrest⟩ := Option.bind_eq_some_iff.mp h
  obtain ⟨name, q, rfl⟩ := List.exists_cons_of_ne_nil hq
  rw [nodeAt] at hrest
  obtain ⟨child, hchild, -⟩ := Option.bind_eq_some_iff.mp hrest
  exact ⟨d, hd, isDirectory_of_entry hchild⟩

/-! ## Paths -/

abbrev SLASH : Byte := 0x2F
abbrev DOT : Byte := 0x2E

/-- How many links a walk follows. -/
abbrev SYMLOOP_MAX : Nat := 40

/-- The components of a path. -/
def components (path : Bytes) : List Bytes := Segments.segments SLASH path

/-- Where a path starts, `cwd` being where a relative one does. -/
def origin (path : Bytes) (cwd : Place) : Place := if path.head? = some SLASH then [] else cwd

section Walk

variable (fs : Node) (follow : Bool)

/-- The walk over the components of a path from a place on, with the walk that
    goes on behind a link. -/
def walkFrom (jump : Place → List Bytes → Option Place) : Place → List Bytes → Option Place
  | place, [] => some place
  | place, name :: names =>
      if ((nodeAt fs place).any Node.isDirectory) = false then none
      else if name = [] ∨ name = [DOT] then walkFrom jump place names
      else if name = [DOT, DOT] then walkFrom jump place.dropLast names
      else
        match nodeAt fs (place ++ [name]) with
        | none => none
        | some (.link target) =>
            if names = [] ∧ follow = false then some (place ++ [name])
            else jump (origin target place) (components target ++ names)
        | some _ => walkFrom jump (place ++ [name]) names

/-- The walk, following so many links. -/
def walk : Nat → Place → List Bytes → Option Place
  | 0 => walkFrom fs follow fun _ _ => none
  | links + 1 => walkFrom fs follow (walk links)

end Walk

/-- The flags of `openat` that matter in a tree. -/
structure OpenFlags where
  directory : Bool := false
  noFollow : Bool := false

/-- `openat`. -/
def openat (fs : Node) (cwd : Place) (path : Bytes) (flags : OpenFlags) : Option Place :=
  let trailing := path.getLast? == some SLASH
  if path = [] then none
  else
    match walk fs (!flags.noFollow || trailing) SYMLOOP_MAX (origin path cwd) (components path) with
    | none => none
    | some place =>
        match nodeAt fs place with
        | some (.directory _) => some place
        | some (.file _) => if flags.directory || trailing then none else some place
        | some .special => if flags.directory || trailing then none else some place
        | some (.link _) => none
        | none => none

/-- `stat`. -/
def stat (fs : Node) (cwd : Place) (path : Bytes) : Option Node :=
  if path = [] then none
  else (walk fs true SYMLOOP_MAX (origin path cwd) (components path)).bind (nodeAt fs)

/-- The path of a place from the top. -/
def absolute (place : Place) : Bytes :=
  if place = [] then [SLASH] else Segments.slashed SLASH place

def Node.isLink : Node → Bool
  | .link _ => true
  | _ => false

/-- `realpath`: the path of something that is there and is no link. -/
def realpath (fs : Node) (cwd : Place) (pathMax : Nat) (path : Bytes) : Option Bytes :=
  if path = [] then none
  else
    match walk fs true SYMLOOP_MAX (origin path cwd) (components path) with
    | none => none
    | some place =>
        match nodeAt fs place with
        | none => none
        | some n =>
            if n.isLink ∨ (absolute place).length ≥ pathMax then none else some (absolute place)

/-! ## One component -/

/-- A name that a directory can have for an entry. -/
structure Proper (name : Bytes) : Prop where
  nonempty : name ≠ []
  noSlash : SLASH ∉ name
  noDot : name ≠ [DOT]
  noDotDot : name ≠ [DOT, DOT]

section Open

variable {fs : Node} {cwd place : Place} {path name : Bytes} {flags : OpenFlags}

/-- What is opened is there, is no link, and is a directory if one is asked for. -/
theorem openat_node (h : openat fs cwd path flags = some place) :
    ∃ n, nodeAt fs place = some n ∧ (∀ target, n ≠ .link target)
      ∧ (flags.directory = true → n.isDirectory = true) := by
  by_cases hne : path = []
  · rw [openat, if_pos hne] at h
    exact nomatch h
  rw [openat, if_neg hne] at h
  cases hwalk : walk fs (!flags.noFollow || path.getLast? == some SLASH) SYMLOOP_MAX
      (origin path cwd) (components path) with
  | none =>
      rw [hwalk] at h
      exact nomatch h
  | some p =>
      rw [hwalk] at h
      dsimp only at h
      cases hnode : nodeAt fs p with
      | none =>
          rw [hnode] at h
          exact nomatch h
      | some n =>
          rw [hnode] at h
          cases n with
          | directory entries =>
              obtain rfl := Option.some.inj h
              exact ⟨_, hnode, fun _ => Node.noConfusion, fun _ => rfl⟩
          | file content =>
              dsimp only at h
              split_ifs at h with hd
              obtain rfl := Option.some.inj h
              exact ⟨_, hnode, fun _ => Node.noConfusion,
                fun hdir => absurd (by rw [hdir]; rfl) hd⟩
          | special =>
              dsimp only at h
              split_ifs at h with hd
              obtain rfl := Option.some.inj h
              exact ⟨_, hnode, fun _ => Node.noConfusion,
                fun hdir => absurd (by rw [hdir]; rfl) hd⟩
          | link target => exact nomatch h

theorem components_proper (h : Proper name) : components name = [name] := by
  have hsegments := Segments.segments_append_slashed h.nonempty h.noSlash []
  rw [Segments.slashed_nil, List.append_nil] at hsegments
  exact hsegments

theorem getLast_proper (h : Proper name) : (name.getLast? == some SLASH) = false := by
  refine beq_eq_false_iff_ne.mpr fun hlast => h.noSlash ?_
  exact List.mem_of_getLast? hlast

theorem origin_proper (h : Proper name) : origin name cwd = cwd := by
  rw [origin, if_neg]
  intro hhead
  exact h.noSlash (List.mem_of_head? hhead)

/-- **A proper name opens the entry of the directory, and no link.** -/
theorem openat_entry (hname : Proper name) (hflags : flags.noFollow = true)
    (h : openat fs cwd name flags = some place) : place = cwd ++ [name] := by
  have hnolink := openat_node h
  rw [openat] at h
  rw [if_neg hname.nonempty, getLast_proper hname, origin_proper hname, components_proper hname,
    hflags, Bool.not_true, Bool.or_false] at h
  cases hwalk : walk fs false SYMLOOP_MAX cwd [name] with
  | none =>
      rw [hwalk] at h
      exact nomatch h
  | some p =>
      rw [hwalk] at h
      have hplace : place = p := by
        dsimp only at h
        split at h
        · exact (Option.some.inj h).symm
        · split_ifs at h
          exact (Option.some.inj h).symm
        · split_ifs at h
          exact (Option.some.inj h).symm
        · exact nomatch h
        · exact nomatch h
      by_cases hdir : ((nodeAt fs cwd).any Node.isDirectory) = false
      · rw [walk, walkFrom, if_pos hdir] at hwalk
        exact nomatch hwalk
      rw [walk, walkFrom, if_neg hdir, if_neg (not_or.mpr ⟨hname.nonempty, hname.noDot⟩),
        if_neg hname.noDotDot] at hwalk
      rw [hplace]
      split at hwalk
      · exact nomatch hwalk
      · rw [if_pos ⟨rfl, rfl⟩] at hwalk
        exact (Option.some.inj hwalk).symm
      · rw [walkFrom] at hwalk
        exact (Option.some.inj hwalk).symm

end Open

/-! ## Places from the top -/

section Absolute

variable {fs : Node}

/-- The walk reaches proper places only. -/
theorem walkFrom_proper {follow : Bool} {jump : Place → List Bytes → Option Place}
    (hjump : ∀ {p : Place} {names : List Bytes} {q : Place}, (∀ n ∈ p, Proper n) →
      (∀ n ∈ names, SLASH ∉ n) → jump p names = some q → ∀ n ∈ q, Proper n) :
    ∀ {names : List Bytes} {place q : Place}, (∀ n ∈ place, Proper n) →
      (∀ n ∈ names, SLASH ∉ n) → walkFrom fs follow jump place names = some q →
        ∀ n ∈ q, Proper n := by
  intro names
  induction names with
  | nil =>
      intro place q hplace _ h
      rw [← Option.some.inj h]
      exact hplace
  | cons name names ih =>
      intro place q hplace hnames h
      obtain ⟨hname, hrest⟩ := List.forall_mem_cons.mp hnames
      by_cases hdir : ((nodeAt fs place).any Node.isDirectory) = false
      · rw [walkFrom, if_pos hdir] at h
        exact nomatch h
      by_cases hdot : name = [] ∨ name = [DOT]
      · rw [walkFrom, if_neg hdir, if_pos hdot] at h
        exact ih hplace hrest h
      by_cases hdots : name = [DOT, DOT]
      · rw [walkFrom, if_neg hdir, if_neg hdot, if_pos hdots] at h
        exact ih (fun n hn => hplace n (List.dropLast_subset place hn)) hrest h
      have hmore : ∀ n ∈ place ++ [name], Proper n := by
        intro n hn
        rcases List.mem_append.mp hn with hn | hn
        · exact hplace n hn
        · rw [List.mem_singleton.mp hn]
          exact ⟨fun he => hdot (Or.inl he), hname, fun he => hdot (Or.inr he), hdots⟩
      rw [walkFrom, if_neg hdir, if_neg hdot, if_neg hdots] at h
      split at h
      · exact nomatch h
      · split_ifs at h with hlast
        · rw [← Option.some.inj h]
          exact hmore
        · refine hjump ?_ ?_ h
          · rw [origin]
            split_ifs
            · exact fun n hn => (nomatch hn)
            · exact hplace
          · intro n hn
            rcases List.mem_append.mp hn with hn | hn
            · exact Segments.sep_not_mem hn
            · exact hrest n hn
      · exact ih hmore hrest h

theorem walk_proper {follow : Bool} : ∀ {links : Nat} {place q : Place} {names : List Bytes},
    (∀ n ∈ place, Proper n) → (∀ n ∈ names, SLASH ∉ n) →
      walk fs follow links place names = some q → ∀ n ∈ q, Proper n := by
  intro links
  induction links with
  | zero =>
      intro place q names hplace hnames h
      refine walkFrom_proper ?_ hplace hnames h
      intro _ _ _ _ _ hnone
      exact nomatch hnone
  | succ links ih => exact fun hplace hnames h => walkFrom_proper ih hplace hnames h

theorem isDirectory_not_link {n : Node} (h : n.isDirectory = true) : n.isLink = false := by
  cases n with
  | directory entries => rfl
  | file content => rfl
  | special => rfl
  | link target => exact nomatch h

/-- Walking to a node by its own names, no link on the way. -/
theorem walkFrom_straight {follow : Bool} {jump : Place → List Bytes → Option Place} {d : Node}
    (hd : d.isLink = false) : ∀ (names : List Bytes) (place : Place),
      (∀ n ∈ names, Proper n) → nodeAt fs (place ++ names) = some d →
        walkFrom fs follow jump place names = some (place ++ names)
  | [], place, _, _ => by rw [walkFrom, List.append_nil]
  | name :: names, place, hnames, h => by
      obtain ⟨hname, hrest⟩ := List.forall_mem_cons.mp hnames
      obtain ⟨above, habove, hdir⟩ := isDirectory_above h (List.cons_ne_nil name names)
      have hsplit : place ++ name :: names = (place ++ [name]) ++ names := by
        rw [List.append_assoc, List.singleton_append]
      rw [hsplit] at h
      have hnext : ∃ m, nodeAt fs (place ++ [name]) = some m ∧ m.isLink = false := by
        by_cases hlast : names = []
        · rw [hlast, List.append_nil] at h
          exact ⟨d, h, hd⟩
        · obtain ⟨m, hm, hmdir⟩ := isDirectory_above h hlast
          exact ⟨m, hm, isDirectory_not_link hmdir⟩
      obtain ⟨m, hm, hlink⟩ := hnext
      have hnot : ¬ ((nodeAt fs place).any Node.isDirectory) = false := by
        rw [habove, Option.any_some, hdir]
        exact Bool.noConfusion
      have ih := @walkFrom_straight follow jump d hd names (place ++ [name]) hrest h
      rw [walkFrom, if_neg hnot, if_neg (not_or.mpr ⟨hname.nonempty, hname.noDot⟩),
        if_neg hname.noDotDot, hm, hsplit]
      cases m with
      | link target => exact nomatch hlink
      | directory entries => exact ih
      | file content => exact ih
      | special => exact ih

theorem slashed_getLast {place : Place} (hplace : ∀ n ∈ place, Proper n) (hne : place ≠ []) :
    ((Segments.slashed SLASH place).getLast? == some SLASH) = false := by
  obtain ⟨front, last, rfl⟩ : ∃ front last, place = front ++ [last] :=
    ⟨_, _, (List.dropLast_concat_getLast hne).symm⟩
  have hlast := hplace last (List.mem_append_right front List.mem_cons_self)
  have hslashed : Segments.slashed SLASH (front ++ [last])
      = (Segments.slashed SLASH front ++ [SLASH]) ++ last := by
    rw [Segments.slashed, List.flatMap_append, List.flatMap_singleton, List.append_assoc]
    rfl
  refine beq_eq_false_iff_ne.mpr fun hslash => hlast.noSlash ?_
  rw [hslashed, List.getLast?_append, List.getLast?_eq_some_getLast hlast.nonempty,
    Option.some_or] at hslash
  rw [← Option.some.inj hslash]
  exact List.getLast_mem hlast.nonempty

/-- Walking along the path of a place from the top leads to it. -/
theorem walk_absolute {place : Place} {d : Node} {follow : Bool} {links : Nat}
    (hplace : ∀ n ∈ place, Proper n) (htop : fs.isDirectory = true)
    (hd : nodeAt fs place = some d) (hlink : d.isLink = false) :
    walk fs follow links [] (components (absolute place)) = some place := by
  have hwalk : ∀ jump, walkFrom fs follow jump [] (components (absolute place)) = some place := by
    intro jump
    have hroot : ¬ ((nodeAt fs []).any Node.isDirectory) = false := by
      rw [nodeAt, Option.any_some, htop]
      exact Bool.noConfusion
    -- the path starts with a slash, so its first component is empty
    have hcomponents : components (absolute place) = [] :: place := by
      by_cases hne : place = []
      · subst hne
        rfl
      · obtain ⟨name, rest, rfl⟩ := List.exists_cons_of_ne_nil hne
        rw [absolute, if_neg hne, components, Segments.slashed_cons, Segments.segments_sep]
        exact congrArg ([] :: ·) (@Segments.segments_slashed _ SLASH _ _
          (fun n hn => (hplace n hn).nonempty) fun n hn => (hplace n hn).noSlash)
    rw [hcomponents, walkFrom, if_neg hroot, if_pos (Or.inl rfl)]
    exact walkFrom_straight hlink place [] hplace hd
  cases links with
  | zero => exact hwalk _
  | succ links => exact hwalk _

theorem absolute_start (place cwd : Place) :
    absolute place ≠ [] ∧ origin (absolute place) cwd = [] := by
  rw [absolute]
  split_ifs with hne
  · exact ⟨List.cons_ne_nil _ _, rfl⟩
  · obtain ⟨name, rest, rfl⟩ := List.exists_cons_of_ne_nil hne
    exact ⟨List.cons_ne_nil _ _, rfl⟩

/-- The status of a place by its path is that of the node. -/
theorem stat_absolute {place : Place} {d : Node} (cwd : Place) (hplace : ∀ n ∈ place, Proper n)
    (htop : fs.isDirectory = true) (hd : nodeAt fs place = some d) (hlink : d.isLink = false) :
    stat fs cwd (absolute place) = some d := by
  obtain ⟨hne, horigin⟩ := absolute_start place cwd
  rw [stat, if_neg hne, horigin, walk_absolute hplace htop hd hlink]
  exact hd

/-- **The path of a directory from the top opens it.** -/
theorem openat_absolute {place : Place} {d : Node} (cwd : Place) {flags : OpenFlags}
    (hplace : ∀ n ∈ place, Proper n) (htop : fs.isDirectory = true)
    (hd : nodeAt fs place = some d) (hdir : d.isDirectory = true) :
    openat fs cwd (absolute place) flags = some place := by
  obtain ⟨hne, horigin⟩ := absolute_start place cwd
  rw [openat, if_neg hne, horigin,
    walk_absolute hplace htop hd (isDirectory_not_link hdir)]
  dsimp only
  rw [hd]
  cases d with
  | directory entries => rfl
  | file content => exact nomatch hdir
  | link target => exact nomatch hdir
  | special => exact nomatch hdir

end Absolute

end FileTree
