import Mathlib.Data.List.DropRight
import Gargantua.Lib.FileTree

/-! # Static files (`src/http/static_files.c`)

    A directory is served below a prefix of the URL.  What is left of the URL is
    walked segment by segment, with a descriptor for each directory, so that no
    link is followed and no segment leads upwards.  The file system is a tree
    that stays as it is while a request is served; any system call may fail. -/

namespace StaticFiles

open CString FileTree

/-- `STATIC_MAX_PATH` and `STATIC_MAX_BYTES`. -/
abbrev STATIC_MAX_PATH : Nat := 1024
abbrev STATIC_MAX_BYTES : Nat := 256 * 1024

abbrev BACKSLASH : Byte := 0x5C

/-- The system the server runs on: its files below a top directory, the working
    directory, and which of its calls fail.  `read` is how many bytes `fread` gets
    of a file at most. -/
structure Host where
  fs : Node
  top : fs.isDirectory = true
  cwd : Place
  cwdProper : ∀ name ∈ cwd, Proper name
  pathMax : Nat
  mayOpen : Place → Bool
  mayDup : Bool
  mayFdopen : Bool
  read : Place → Nat

/-- `openat`, which may be refused. -/
def Host.openat (host : Host) (directory : Place) (path : Bytes) (flags : OpenFlags) :
    Option Place :=
  (FileTree.openat host.fs directory path flags).filter host.mayOpen

/-- `root_directory` and `g_prefix`. -/
structure Statics where
  root : Option Place := none
  urlPrefix : Bytes := []

/-! ## Set-up -/

/-- A path without the slashes at its end; one at its start stays. -/
def trimRoot : Bytes → Bytes
  | [] => []
  | c :: path => c :: path.rdropWhile (· == SLASH)

/-- `static_files_init`, `config_str` being given the name and the default. -/
def staticFilesInit (host : Host) (configStr : Bytes → Bytes → Bytes) : Option Statics :=
  let configured := configStr (lit "static.root") []
  if configured = [] then some {}
  else
    match realpath host.fs host.cwd host.pathMax configured with
    | none => none
    | some resolved =>
        if ((stat host.fs host.cwd resolved).any Node.isDirectory) = false then none
        else if resolved.length = 0 ∨ resolved.length + 1 ≥ STATIC_MAX_PATH then none
        else
          let root := trimRoot resolved
          let urlPrefix := configStr (lit "static.prefix") (lit "/static")
          if urlPrefix.length = 0 ∨ urlPrefix.head? ≠ some SLASH
              ∨ urlPrefix.length + 1 ≥ STATIC_MAX_PATH then none
          else
            (host.openat host.cwd root { directory := true, noFollow := true }).map fun place =>
              { root := some place
                urlPrefix := urlPrefix.rdropWhile (· == SLASH) }

/-! ## One file -/

/-- The table of `content_type_for`. -/
def contentTypes : List (Bytes × Bytes) :=
  [(lit ".html", lit "text/html; charset=utf-8"), (lit ".htm", lit "text/html; charset=utf-8"),
    (lit ".css", lit "text/css; charset=utf-8"), (lit ".mjs", lit "text/javascript; charset=utf-8"),
    (lit ".js", lit "text/javascript; charset=utf-8"),
    (lit ".json", lit "application/json; charset=utf-8"),
    (lit ".map", lit "application/json; charset=utf-8"),
    (lit ".xml", lit "application/xml; charset=utf-8"), (lit ".txt", lit "text/plain; charset=utf-8"),
    (lit ".csv", lit "text/csv; charset=utf-8"), (lit ".svg", lit "image/svg+xml"),
    (lit ".png", lit "image/png"), (lit ".jpg", lit "image/jpeg"), (lit ".jpeg", lit "image/jpeg"),
    (lit ".gif", lit "image/gif"), (lit ".webp", lit "image/webp"), (lit ".ico", lit "image/x-icon"),
    (lit ".pdf", lit "application/pdf"), (lit ".wasm", lit "application/wasm"),
    (lit ".woff2", lit "font/woff2"), (lit ".woff", lit "font/woff"), (lit ".ttf", lit "font/ttf")]

/-- `content_type_for`. -/
def contentTypeFor (path : Bytes) : Bytes :=
  match contentTypes.find? fun entry =>
      path.length > entry.1.length && path.drop (path.length - entry.1.length) == entry.1 with
  | some entry => entry.2
  | none => lit "application/octet-stream"

/-- `strip_prefix`. -/
def stripPrefix (urlPrefix urlPath : Bytes) : Option Bytes :=
  if urlPath.take urlPrefix.length ≠ urlPrefix then none
  else
    let tail := urlPath.drop urlPrefix.length
    if tail ≠ [] ∧ tail.head? ≠ some SLASH then none else some tail

/-- The loop of `open_static_path`, with so many steps to go. -/
def openLoop (host : Host) : Nat → Place → Bytes → Option Place
  | 0, _, _ => none
  | steps + 1, directory, part =>
      let name := part.takeWhile (· != SLASH)
      let slash := part.dropWhile (· != SLASH)
      if name = [] ∨ name.head? = some DOT ∨ BACKSLASH ∈ name then none
      else
        match host.openat directory name { directory := slash ≠ [], noFollow := true } with
        | none => none
        | some next =>
            match slash with
            | [] => some next
            | _ :: part => openLoop host steps next part

/-- `open_static_path`. -/
def openStaticPath (host : Host) (root : Place) (path : Bytes) : Option Place :=
  if host.mayDup = false then none else openLoop host STATIC_MAX_PATH root path

/-- The path below the root that `static_file_read` opens, behind the prefix. -/
def candidateOf (rest : Bytes) : Bytes :=
  if rest.length = 0 then (lit "/").tail ++ lit "index.html"
  else
    (if rest.head? = some SLASH then rest.tail else rest)
      ++ (if rest.getLast? = some SLASH then lit "index.html" else [])

/-- `static_file_read`: the content and its type. -/
def staticFileRead (host : Host) (statics : Statics) (urlPath : Bytes) (cap : Nat) :
    Option (Bytes × Bytes) :=
  match statics.root with
  | none => none
  | some root =>
      match stripPrefix statics.urlPrefix urlPath with
      | none => none
      | some rest =>
          let candidate := candidateOf rest
          if candidate.length = 0 ∨ candidate.length ≥ STATIC_MAX_PATH then none
          else
            match openStaticPath host root candidate with
            | none => none
            | some place =>
                if host.mayFdopen = false then none
                else
                  match nodeAt host.fs place with
                  | some (.file content) =>
                      if content.length > cap ∨ content.length > STATIC_MAX_BYTES then none
                      else
                        let out := (content.take content.length).take (host.read place)
                        if out.length ≠ content.length then none
                        else some (out, contentTypeFor candidate)
                  | _ => none

/-! ## What is opened -/

/-- A segment that may be walked. -/
structure Served (name : Bytes) : Prop where
  nonempty : name ≠ []
  noSlash : SLASH ∉ name
  noDot : name.head? ≠ some DOT
  noBackslash : BACKSLASH ∉ name

theorem Served.proper {name : Bytes} (h : Served name) : Proper name where
  nonempty := h.nonempty
  noSlash := h.noSlash
  noDot := fun he => h.noDot (by rw [he]; rfl)
  noDotDot := fun he => h.noDot (by rw [he]; rfl)

section Open

variable {host : Host}

theorem openat_some {directory place : Place} {path : Bytes} {flags : OpenFlags}
    (h : host.openat directory path flags = some place) :
    FileTree.openat host.fs directory path flags = some place :=
  (Option.filter_eq_some_iff.mp h).1

/-- **The walk opens the entry of each segment in turn.**  The string it is given
    is the segments with a slash between two of them. -/
theorem openLoop_spec : ∀ (steps : Nat) {directory place : Place} {part : Bytes},
    openLoop host steps directory part = some place →
      ∃ names, place = directory ++ names ∧ Segments.slashed SLASH names = SLASH :: part
        ∧ ∀ n ∈ names, Served n := by
  intro steps
  induction steps with
  | zero =>
      intro directory place part h
      exact nomatch h
  | succ steps ih =>
      intro directory place part h
      rw [openLoop] at h
      by_cases hbad : part.takeWhile (· != SLASH) = []
          ∨ (part.takeWhile (· != SLASH)).head? = some DOT
          ∨ BACKSLASH ∈ part.takeWhile (· != SLASH)
      · rw [if_pos hbad] at h
        exact nomatch h
      rw [if_neg hbad] at h
      rw [not_or, not_or] at hbad
      have hserved : Served (part.takeWhile (· != SLASH)) :=
        ⟨hbad.1, fun hmem => absurd (List.mem_takeWhile_imp hmem) (by decide), hbad.2.1, hbad.2.2⟩
      have hsplit := List.takeWhile_append_dropWhile (p := (· != SLASH)) (l := part)
      cases hopen : host.openat directory (part.takeWhile (· != SLASH))
          { directory := part.dropWhile (· != SLASH) ≠ [], noFollow := true } with
      | none =>
          rw [hopen] at h
          exact nomatch h
      | some next =>
          rw [hopen] at h
          dsimp only at h
          have hnext := openat_entry hserved.proper rfl (openat_some hopen)
          cases hslash : part.dropWhile (· != SLASH) with
          | nil =>
              rw [hslash] at h hsplit
              rw [List.append_nil] at hsplit
              refine ⟨[part.takeWhile (· != SLASH)], ?_, ?_, ?_⟩
              · rw [← hnext]
                exact (Option.some.inj h).symm
              · rw [Segments.slashed_cons, Segments.slashed_nil, List.append_nil, hsplit]
              · intro n hn
                rw [List.mem_singleton.mp hn]
                exact hserved
          | cons c rest =>
              rw [hslash] at h
              obtain ⟨names, hplace, hslashed, hnames⟩ := ih h
              have hc : c = SLASH := by
                have hhead := List.head?_dropWhile_not (· != SLASH) part
                rw [hslash] at hhead
                simpa using hhead
              refine ⟨part.takeWhile (· != SLASH) :: names, ?_, ?_, ?_⟩
              · rw [hplace, hnext, List.append_assoc, List.singleton_append]
              · rw [hslash, hc] at hsplit
                rw [Segments.slashed_cons, hslashed, hsplit]
              · exact List.forall_mem_cons.mpr ⟨hserved, hnames⟩

theorem openStaticPath_spec {root place : Place} {path : Bytes}
    (h : openStaticPath host root path = some place) :
    ∃ names, place = root ++ names ∧ Segments.slashed SLASH names = SLASH :: path
      ∧ ∀ n ∈ names, Served n := by
  rw [openStaticPath] at h
  split_ifs at h
  exact openLoop_spec STATIC_MAX_PATH h

end Open

/-! ## Prefixes -/

theorem stripPrefix_spec {urlPrefix url rest : Bytes} (h : stripPrefix urlPrefix url = some rest) :
    url = urlPrefix ++ rest ∧ (rest = [] ∨ ∃ tail, rest = SLASH :: tail) := by
  by_cases htake : url.take urlPrefix.length ≠ urlPrefix
  · rw [stripPrefix, if_pos htake] at h
    exact nomatch h
  rw [stripPrefix, if_neg htake] at h
  rw [not_not] at htake
  by_cases htail : url.drop urlPrefix.length ≠ []
      ∧ (url.drop urlPrefix.length).head? ≠ some SLASH
  · rw [if_pos htail] at h
    exact nomatch h
  rw [if_neg htail] at h
  obtain rfl := Option.some.inj h
  refine ⟨?_, ?_⟩
  · conv_lhs => rw [← List.take_append_drop urlPrefix.length url, htake]
  · cases hrest : url.drop urlPrefix.length with
    | nil => exact Or.inl rfl
    | cons c tail =>
        rw [hrest, not_and, not_not] at htail
        have hc := htail (List.cons_ne_nil c tail)
        rw [List.head?_cons] at hc
        exact Or.inr ⟨tail, by rw [Option.some.inj hc]⟩

/-- A URL with `index.html` behind it where it names a directory. -/
def completed (urlPrefix url : Bytes) : Bytes :=
  if url = urlPrefix then url ++ lit "/index.html"
  else if url.getLast? = some SLASH then url ++ lit "index.html"
  else url

theorem completed_eq {urlPrefix rest : Bytes} (h : rest = [] ∨ ∃ tail, rest = SLASH :: tail) :
    completed urlPrefix (urlPrefix ++ rest) = urlPrefix ++ SLASH :: candidateOf rest := by
  rcases h with rfl | ⟨tail, rfl⟩
  · rw [List.append_nil, completed, if_pos rfl]
    rfl
  · have hne : urlPrefix ++ SLASH :: tail ≠ urlPrefix := fun he =>
      nomatch List.append_right_eq_self.mp he
    have hlast : (urlPrefix ++ SLASH :: tail).getLast? = (SLASH :: tail).getLast? := by
      rw [List.getLast?_append, List.getLast?_cons, Option.some_or]
    have hlen : ¬ (SLASH :: tail).length = 0 := Nat.succ_ne_zero _
    rw [completed, if_neg hne, hlast, candidateOf, if_neg hlen, if_pos List.head?_cons,
      List.tail_cons]
    split_ifs
    · rw [List.append_assoc, List.cons_append]
    · rw [List.append_nil]

/-! ## Where the root is -/

section Root

variable {host : Host} {configStr : Bytes → Bytes → Bytes} {statics : Statics}

/-- What `static_files_init` sets up: a directory that `static.root` leads to, and
    the configured prefix without the slashes at its end. -/
structure Rooted (host : Host) (configStr : Bytes → Bytes → Bytes) (statics : Statics)
    (root : Place) : Prop where
  leads : walk host.fs true SYMLOOP_MAX
    (origin (configStr (lit "static.root") []) host.cwd)
    (components (configStr (lit "static.root") [])) = some root
  directory : ∃ d, nodeAt host.fs root = some d ∧ d.isDirectory = true
  urlPrefix : statics.urlPrefix
    = (configStr (lit "static.prefix") (lit "/static")).rdropWhile (· == SLASH)

theorem trimRoot_absolute {place : Place} (hplace : ∀ n ∈ place, Proper n) :
    trimRoot (absolute place) = absolute place := by
  rw [absolute]
  split_ifs with hne
  · rfl
  · obtain ⟨name, rest, rfl⟩ := List.exists_cons_of_ne_nil hne
    have hlast := slashed_getLast hplace hne
    rw [Segments.slashed_cons] at hlast ⊢
    rw [trimRoot]
    refine congrArg (SLASH :: ·) (List.rdropWhile_eq_self_iff.mpr fun h => ?_)
    rw [List.getLast?_cons_of_ne_nil h, List.getLast?_eq_some_getLast h] at hlast
    rw [beq_eq_false_iff_ne] at hlast
    rw [Bool.not_eq_true, beq_eq_false_iff_ne]
    exact fun heq => hlast (congrArg some heq)

theorem init_rooted (h : staticFilesInit host configStr = some statics) {root : Place}
    (hroot : statics.root = some root) : Rooted host configStr statics root := by
  rw [staticFilesInit] at h
  by_cases hoff : configStr (lit "static.root") [] = []
  · rw [if_pos hoff] at h
    rw [← Option.some.inj h] at hroot
    cases hroot
  rw [if_neg hoff] at h
  cases hreal : realpath host.fs host.cwd host.pathMax (configStr (lit "static.root") []) with
  | none =>
      rw [hreal] at h
      cases h
  | some resolved =>
      rw [hreal] at h
      dsimp only at h
      split_ifs at h with hstat hlen hprefix
      obtain ⟨place, hopen, rfl⟩ := Option.map_eq_some_iff.mp h
      obtain rfl : place = root := Option.some.inj hroot
      rw [realpath, if_neg hoff] at hreal
      cases hwalk : walk host.fs true SYMLOOP_MAX
          (origin (configStr (lit "static.root") []) host.cwd)
          (components (configStr (lit "static.root") [])) with
      | none =>
          rw [hwalk] at hreal
          cases hreal
      | some p =>
          rw [hwalk] at hreal
          dsimp only at hreal
          cases hnode : nodeAt host.fs p with
          | none =>
              rw [hnode] at hreal
              cases hreal
          | some d =>
              rw [hnode] at hreal
              dsimp only at hreal
              split_ifs at hreal with hgone
              rw [not_or, Bool.not_eq_true] at hgone
              obtain rfl := Option.some.inj hreal
              have hproper : ∀ n ∈ p, Proper n := by
                refine walk_proper ?_ (fun n hn => Segments.sep_not_mem hn) hwalk
                rw [origin]
                split_ifs
                · exact fun n hn => (by cases hn)
                · exact host.cwdProper
              rw [stat_absolute host.cwd hproper host.top hnode hgone.1, Option.any_some,
                Bool.not_eq_false] at hstat
              have hsame := openat_some hopen
              rw [trimRoot_absolute hproper,
                openat_absolute host.cwd hproper host.top hnode hstat] at hsame
              obtain rfl := Option.some.inj hsame
              exact ⟨hwalk, ⟨d, hnode, hstat⟩, rfl⟩

end Root

/-! ## What is served -/

section Served

variable {host : Host} {configStr : Bytes → Bytes → Bytes} {statics : Statics}

/-- What a file that is served is: the one at the segments behind the prefix,
    below the root, as a whole. -/
structure Inside (host : Host) (statics : Statics) (url out : Bytes) (root : Place)
    (names : List Bytes) : Prop where
  behind : url = statics.urlPrefix ∨ ∃ tail, url = statics.urlPrefix ++ SLASH :: tail
  segments : completed statics.urlPrefix url = statics.urlPrefix ++ Segments.slashed SLASH names
  served : ∀ n ∈ names, Served n
  directories : ∀ above below, names = above ++ below → below ≠ [] →
    ∃ d, nodeAt host.fs (root ++ above) = some d ∧ d.isDirectory = true
  file : nodeAt host.fs (root ++ names) = some (.file out)

/-- **Static files stay inside the root.** -/
theorem static_file_inside (hinit : staticFilesInit host configStr = some statics) {url : Bytes}
    {cap : Nat} {out mime : Bytes} (h : staticFileRead host statics url cap = some (out, mime)) :
    ∃ root names, statics.root = some root ∧ Rooted host configStr statics root
      ∧ Inside host statics url out root names := by
  rw [staticFileRead] at h
  cases hroot : statics.root with
  | none =>
      rw [hroot] at h
      exact nomatch h
  | some root =>
  rw [hroot] at h
  dsimp only at h
  cases hstrip : stripPrefix statics.urlPrefix url with
  | none =>
      rw [hstrip] at h
      exact nomatch h
  | some rest =>
  rw [hstrip] at h
  dsimp only at h
  obtain ⟨hurl, hrest⟩ := stripPrefix_spec hstrip
  by_cases hlong : (candidateOf rest).length = 0 ∨ (candidateOf rest).length ≥ STATIC_MAX_PATH
  · rw [if_pos hlong] at h
    exact nomatch h
  rw [if_neg hlong] at h
  cases hopen : openStaticPath host root (candidateOf rest) with
  | none =>
      rw [hopen] at h
      exact nomatch h
  | some place =>
  rw [hopen] at h
  dsimp only at h
  split_ifs at h
  obtain ⟨names, hplace, hslashed, hserved⟩ := openStaticPath_spec hopen
  cases hnode : nodeAt host.fs place with
  | none =>
      rw [hnode] at h
      exact nomatch h
  | some n =>
  rw [hnode] at h
  cases n with
  | directory entries => exact nomatch h
  | link target => exact nomatch h
  | special => exact nomatch h
  | file content =>
      dsimp only at h
      split_ifs at h with hsize hread
      rw [not_not] at hread
      have hout : out = content := by
        rw [← (Prod.mk.inj (Option.some.inj h)).1]
        rw [List.take_length] at hread ⊢
        exact List.take_of_length_le (by rw [List.length_take] at hread; omega)
      rw [hplace] at hnode
      refine ⟨root, names, rfl, init_rooted hinit hroot, ?_, ?_, hserved, ?_, by rw [hout, hnode]⟩
      · rcases hrest with rfl | ⟨tail, rfl⟩
        · exact Or.inl (by rw [hurl, List.append_nil])
        · exact Or.inr ⟨tail, hurl⟩
      · rw [hslashed, hurl]
        exact completed_eq hrest
      · intro above below hnames hbelow
        rw [hnames, ← List.append_assoc] at hnode
        exact isDirectory_above hnode hbelow

/-- A directory with a page, and a link that leads out of it. -/
def site : Node :=
  .directory [(lit "srv", .directory [(lit "index.html", .file (lit "<p>")),
    (lit "up", .link (lit ".."))])]

def siteHost : Host where
  fs := site
  top := rfl
  cwd := []
  cwdProper := fun _ h => (nomatch h)
  pathMax := 4096
  mayOpen _ := true
  mayDup := true
  mayFdopen := true
  read _ := 4096

/-- `static.root` is `/srv/`, and `static.prefix` is not set. -/
def siteConfig (key fallback : Bytes) : Bytes :=
  if key = lit "static.root" then lit "/srv/" else fallback

def siteStatics : Statics := ⟨some [lit "srv"], lit "/static"⟩

/-- The page of a URL that ends in a slash. -/
theorem static_file_page :
    ∃ root names, siteStatics.root = some root ∧ Rooted siteHost siteConfig siteStatics root
      ∧ Inside siteHost siteStatics (lit "/static/") (lit "<p>") root names :=
  @static_file_inside siteHost siteConfig siteStatics rfl (lit "/static/") 4096 (lit "<p>")
    (lit "text/html; charset=utf-8") (by decide)

/-- The link is not followed. -/
example : staticFileRead siteHost siteStatics (lit "/static/up/srv/index.html") 4096 = none := by
  decide

end Served

end StaticFiles
