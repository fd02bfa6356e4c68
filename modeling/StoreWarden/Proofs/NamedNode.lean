import StoreWarden.Os.FileSystem

/-!
# What a path names

Creating, filling, moving and removing a file change nodes that are no directories.  The way that
a path takes goes through directories only, so every path leads where it led before, and what it
names changes only if it leads to the very place that was changed.
-/

set_option autoImplicit false

namespace StoreWarden.Os.FileSystem

/-- The node a path names, if there is one. -/
def named? (fs : FileSystem) (p : Path) : Option Node := (fs.find p).toOption.map (·.2)

/-- Where the last part of a path would be, if that is a name. -/
def place? (fs : FileSystem) (p : Path) : Option Location :=
  match fs.reach p with
  | .ok ⟨dir, .name part, _⟩ => some (dir ++ [part])
  | _ => none

/-- A path by which a file at a location can be named. -/
def Fits (fs : FileSystem) (p : Path) (loc : Location) : Prop :=
  ∃ dir part, fs.reach p = .ok ⟨dir, .name part, false⟩ ∧ part.length ≤ maxName ∧
    loc = dir ++ [part]

/-- The same directories, and relative paths start from the same one. -/
structure SameDirs (fs other : FileSystem) : Prop where
  home : other.home = fs.home
  dirs : ∀ loc, other.node? loc = some .directory ↔ fs.node? loc = some .directory

theorem SameDirs.symm {fs other : FileSystem} (same : SameDirs fs other) : SameDirs other fs :=
  ⟨same.home.symm, fun loc => (same.dirs loc).symm⟩

theorem Fits.place?_eq {fs : FileSystem} {p : Path} {loc : Location} (fits : fs.Fits p loc) :
    fs.place? p = some loc := by
  obtain ⟨dir, part, reached, -, rfl⟩ := fits
  simp [place?, reached]

theorem Fits.ne_nil {fs : FileSystem} {p : Path} {loc : Location} (fits : fs.Fits p loc) :
    loc ≠ [] := by
  obtain ⟨dir, part, -, -, rfl⟩ := fits
  simp

/-! ## Paths lead through directories -/

theorem enter_eq_ok_iff (fs : FileSystem) (dir : Location) (part : Bytes) (next : Location) :
    fs.enter dir part = .ok next ↔
      (part = Path.dot ∧ next = dir) ∨
      (part ≠ Path.dot ∧ part = Path.dotDot ∧ next = dir.dropLast) ∨
      (part ≠ Path.dot ∧ part ≠ Path.dotDot ∧ part.length ≤ maxName ∧
        fs.node? (dir ++ [part]) = some .directory ∧ next = dir ++ [part]) := by
  unfold enter
  by_cases hdot : part = Path.dot
  · simp [hdot, eq_comm]
  · by_cases hdots : part = Path.dotDot
    · have apart : Path.dotDot ≠ Path.dot := by decide
      simp [hdots, apart, eq_comm]
    · by_cases long : maxName < part.length
      · have short : ¬ part.length ≤ maxName := by omega
        simp [hdot, hdots, long, short]
      · have short : part.length ≤ maxName := by omega
        rw [if_neg hdot, if_neg hdots, if_neg long]
        cases fs.node? (dir ++ [part]) with
        | none => simp [hdot, hdots]
        | some node => cases node <;> simp [hdot, hdots, short, @eq_comm _ next]

theorem SameDirs.enter_eq_ok_iff {fs other : FileSystem} (same : SameDirs fs other)
    (dir : Location) (part : Bytes) (next : Location) :
    other.enter dir part = .ok next ↔ fs.enter dir part = .ok next := by
  rw [FileSystem.enter_eq_ok_iff, FileSystem.enter_eq_ok_iff, same.dirs]

theorem SameDirs.walk_eq_ok {fs other : FileSystem} (same : SameDirs fs other)
    (parts : List Bytes) :
    ∀ {dir last : Location}, fs.walk dir parts = .ok last → other.walk dir parts = .ok last := by
  induction parts with
  | nil => intro dir last walked; exact walked
  | cons part rest ih =>
      intro dir last walked
      simp only [walk] at walked ⊢
      cases entered : fs.enter dir part with
      | error fault => simp [entered] at walked
      | ok next =>
          simp only [entered] at walked
          simp only [(same.enter_eq_ok_iff dir part next).2 entered]
          exact ih walked

theorem SameDirs.reach_eq_ok {fs other : FileSystem} (same : SameDirs fs other) {p : Path}
    {reached : Reached} (h : fs.reach p = .ok reached) : other.reach p = .ok reached := by
  unfold reach at h ⊢
  by_cases zero : p.bytes.contains 0 = true
  · simp only [if_pos zero] at h
    cases h
  by_cases empty : p.bytes = []
  · simp only [if_neg zero, if_pos empty] at h
    cases h
  by_cases long : maxPath < p.bytes.length
  · simp only [if_neg zero, if_neg empty, if_pos long] at h
    cases h
  simp only [if_neg zero, if_neg empty, if_neg long, same.home] at h ⊢
  cases last : p.parts.getLast? with
  | none => simpa only [last] using h
  | some part =>
      simp only [last] at h ⊢
      cases walked : fs.walk (if p.isAbsolute = true then [] else fs.home) p.parts.dropLast with
      | error fault =>
          simp only [walked] at h
          cases h
      | ok dir =>
          simp only [walked] at h
          simp only [same.walk_eq_ok _ walked]
          exact h

theorem SameDirs.reach_eq_ok_iff {fs other : FileSystem} (same : SameDirs fs other) {p : Path}
    {reached : Reached} : other.reach p = .ok reached ↔ fs.reach p = .ok reached :=
  ⟨same.symm.reach_eq_ok, same.reach_eq_ok⟩

theorem SameDirs.fits_iff {fs other : FileSystem} (same : SameDirs fs other) {p : Path}
    {loc : Location} : other.Fits p loc ↔ fs.Fits p loc := by
  simp only [Fits, same.reach_eq_ok_iff]

/-- A name that a path ends in is its last part, and no dots. -/
theorem last_of_reach_name {fs : FileSystem} {p : Path} {dir : Location} {part : Bytes}
    {slash : Bool} (h : fs.reach p = .ok ⟨dir, .name part, slash⟩) :
    p.parts.getLast? = some part ∧ part ≠ Path.dot ∧ part ≠ Path.dotDot := by
  unfold reach at h
  by_cases zero : p.bytes.contains 0 = true
  · simp only [if_pos zero] at h
    cases h
  by_cases empty : p.bytes = []
  · simp only [if_neg zero, if_pos empty] at h
    cases h
  by_cases long : maxPath < p.bytes.length
  · simp only [if_neg zero, if_neg empty, if_pos long] at h
    cases h
  simp only [if_neg zero, if_neg empty, if_neg long] at h
  cases last : p.parts.getLast? with
  | none => simp [last] at h
  | some found =>
      simp only [last] at h
      cases walked : fs.walk (if p.isAbsolute = true then [] else fs.home) p.parts.dropLast with
      | error fault => simp [walked] at h
      | ok start =>
          simp only [walked] at h
          by_cases hdot : found = Path.dot
          · simp [hdot] at h
          by_cases hdots : found = Path.dotDot
          · simp only [if_neg hdot, if_pos hdots] at h
            cases h
          simp only [if_neg hdot, if_neg hdots, Except.ok.injEq, Reached.mk.injEq,
            Last.name.injEq] at h
          obtain ⟨-, rfl, -⟩ := h
          exact ⟨rfl, hdot, hdots⟩

/-! ## What is named, by where it is -/

theorem named?_of_reach_error {fs : FileSystem} {p : Path} {fault : Fault}
    (h : fs.reach p = .error fault) : fs.named? p = none := by
  simp [named?, find, h, Except.toOption]

theorem named?_of_reach_dots {fs : FileSystem} {p : Path} {dir loc : Location} {slash : Bool}
    (h : fs.reach p = .ok ⟨dir, .dots loc, slash⟩) : fs.named? p = some .directory := by
  simp [named?, find, h, Except.toOption]

theorem named?_of_reach_name {fs : FileSystem} {p : Path} {dir : Location} {part : Bytes}
    {slash : Bool} (h : fs.reach p = .ok ⟨dir, .name part, slash⟩) :
    fs.named? p =
      if maxName < part.length then none
      else (fs.node? (dir ++ [part])).filter fun node => !(node.isFile && slash) := by
  simp only [named?, find, h]
  by_cases long : maxName < part.length
  · simp only [if_pos long]
    rfl
  · simp only [if_neg long]
    cases fs.node? (dir ++ [part]) with
    | none => rfl
    | some node =>
        cases hf : node.isFile && slash <;> simp [hf, Option.filter, Except.toOption]

/-- If directories are the same, then what a path names hangs on its own place alone. -/
theorem SameDirs.named?_eq {fs other : FileSystem} (same : SameDirs fs other) {p : Path}
    (there : ∀ loc, fs.place? p = some loc → other.node? loc = fs.node? loc) :
    other.named? p = fs.named? p := by
  cases h : fs.reach p with
  | error fault =>
      rw [named?_of_reach_error h]
      cases h' : other.reach p with
      | error other => exact named?_of_reach_error h'
      | ok reached => rw [same.reach_eq_ok_iff, h] at h'; cases h'
  | ok reached =>
      have h' := same.reach_eq_ok h
      obtain ⟨dir, last, slash⟩ := reached
      cases last with
      | dots loc => rw [named?_of_reach_dots h, named?_of_reach_dots h']
      | name part =>
          rw [named?_of_reach_name h, named?_of_reach_name h', there _ (by simp [place?, h])]

theorem named?_eq_file_iff {fs : FileSystem} {p : Path} {content : Bytes} {mode : Nat} :
    fs.named? p = some (.file content mode) ↔
      ∃ loc, fs.Fits p loc ∧ fs.node? loc = some (.file content mode) := by
  constructor
  · intro named
    cases h : fs.reach p with
    | error fault => simp [named?_of_reach_error h] at named
    | ok reached =>
        obtain ⟨dir, last, slash⟩ := reached
        cases last with
        | dots loc => simp [named?_of_reach_dots h] at named
        | name part =>
            rw [named?_of_reach_name h] at named
            by_cases long : maxName < part.length
            · simp [if_pos long] at named
            · rw [if_neg long] at named
              obtain ⟨there, kept⟩ := Option.filter_eq_some_iff.1 named
              have noSlash : slash = false := by simpa [Node.isFile] using kept
              exact ⟨_, ⟨dir, part, noSlash ▸ h, Nat.le_of_not_lt long, rfl⟩, there⟩
  · rintro ⟨loc, ⟨dir, part, h, short, rfl⟩, there⟩
    rw [named?_of_reach_name h, if_neg (Nat.not_lt.2 short), there]
    rfl

/-! ## Changes of files -/

theorem sameDirs_put_file {fs : FileSystem} {loc : Location} (hloc : loc ≠ [])
    (free : fs.node? loc ≠ some .directory) (content : Bytes) (mode : Nat) :
    SameDirs fs (fs.put loc (.file content mode)) := by
  refine ⟨rfl, fun other => ?_⟩
  by_cases h : other = loc
  · subst h; simp [node?_put_self fs hloc, free]
  · rw [node?_put_of_ne fs h]

theorem sameDirs_erase {fs : FileSystem} {loc : Location} (hloc : loc ≠ [])
    (free : fs.node? loc ≠ some .directory) : SameDirs fs (fs.erase loc) := by
  refine ⟨rfl, fun other => ?_⟩
  by_cases h : other = loc
  · subst h; simp [node?_erase_self fs hloc, free]
  · rw [node?_erase_of_ne fs h]

theorem named?_put_file_self {fs : FileSystem} {p : Path} {loc : Location} (fits : fs.Fits p loc)
    (free : fs.node? loc ≠ some .directory) (content : Bytes) (mode : Nat) :
    (fs.put loc (.file content mode)).named? p = some (.file content mode) := by
  have same := sameDirs_put_file fits.ne_nil free content mode
  exact named?_eq_file_iff.2 ⟨loc, same.fits_iff.2 fits, node?_put_self fs fits.ne_nil _⟩

theorem named?_put_file_of_ne {fs : FileSystem} {p : Path} {loc : Location} (hloc : loc ≠ [])
    (free : fs.node? loc ≠ some .directory) (elsewhere : fs.place? p ≠ some loc) (content : Bytes)
    (mode : Nat) : (fs.put loc (.file content mode)).named? p = fs.named? p := by
  refine (sameDirs_put_file hloc free content mode).named?_eq fun other hp => ?_
  have apart : other ≠ loc := by rintro rfl; exact elsewhere hp
  exact node?_put_of_ne fs apart _

theorem named?_erase_self {fs : FileSystem} {p : Path} {loc : Location} (fits : fs.Fits p loc)
    (free : fs.node? loc ≠ some .directory) : (fs.erase loc).named? p = none := by
  have same := sameDirs_erase fits.ne_nil free
  obtain ⟨dir, part, reached, short, rfl⟩ := same.fits_iff.2 fits
  rw [named?_of_reach_name reached, node?_erase_self fs (by simp)]
  simp

theorem named?_erase_of_ne {fs : FileSystem} {p : Path} {loc : Location} (hloc : loc ≠ [])
    (free : fs.node? loc ≠ some .directory) (elsewhere : fs.place? p ≠ some loc) :
    (fs.erase loc).named? p = fs.named? p := by
  refine (sameDirs_erase hloc free).named?_eq fun other hp => ?_
  have apart : other ≠ loc := by rintro rfl; exact elsewhere hp
  exact node?_erase_of_ne fs apart

/-- What was put at a place before does not matter. -/
theorem put_put (fs : FileSystem) (loc : Location) (old node : Node) :
    (fs.put loc old).put loc node = fs.put loc node := by
  simp [put, List.filter_filter]

theorem append_put_file (fs : FileSystem) {loc : Location} (hloc : loc ≠ []) (old : Bytes)
    (mode : Nat) (content : Bytes) :
    (fs.put loc (.file old mode)).append loc content =
      fs.put loc (.file (old ++ content) mode) := by
  simp only [append, node?_put_self fs hloc, put_put]

theorem setMode_put_file (fs : FileSystem) {loc : Location} (hloc : loc ≠ []) (content : Bytes)
    (old mode : Nat) :
    (fs.put loc (.file content old)).setMode loc mode = fs.put loc (.file content mode) := by
  simp only [setMode, node?_put_self fs hloc, put_put]

/-! ## Operations on files -/

/-- A created file is empty.  One that was there keeps its bits. -/
theorem create_eq_ok {fs next : FileSystem} {p : Path} {mode : Nat} {loc : Location}
    (h : fs.create p mode = .ok (loc, next)) :
    ∃ bits, fs.Fits p loc ∧ fs.node? loc ≠ some .directory ∧
      next = fs.put loc (.file [] bits) ∧
      (bits = mode ∨ ∃ content, fs.named? p = some (.file content bits)) := by
  unfold create at h
  cases reached : fs.reach p with
  | error fault => simp [reached] at h
  | ok at_ =>
      obtain ⟨dir, last, slash⟩ := at_
      cases last with
      | dots loc => simp [reached] at h
      | name part =>
          simp only [reached] at h
          cases slash with
          | true => simp at h
          | false =>
              by_cases long : maxName < part.length
              · simp [if_pos long] at h
              · have fits : fs.Fits p (dir ++ [part]) :=
                  ⟨dir, part, reached, Nat.le_of_not_lt long, rfl⟩
                simp only [Bool.false_eq_true, if_false, if_neg long] at h
                cases there : fs.node? (dir ++ [part]) with
                | none =>
                    simp only [there, Except.ok.injEq, Prod.mk.injEq] at h
                    obtain ⟨rfl, rfl⟩ := h
                    exact ⟨mode, fits, by simp [there], rfl, Or.inl rfl⟩
                | some node =>
                    cases node with
                    | directory => simp [there] at h
                    | file content bits =>
                        by_cases denied : bits &&& 0o200 = 0
                        · simp [there, denied] at h
                        · simp only [there, if_neg denied, Except.ok.injEq, Prod.mk.injEq] at h
                          obtain ⟨rfl, rfl⟩ := h
                          exact ⟨bits, fits, by simp [there], rfl,
                            Or.inr ⟨content, named?_eq_file_iff.2 ⟨_, fits, there⟩⟩⟩

/-- Looking up a path of a file gives the place where the file is. -/
theorem find_eq_ok_of_named? {fs : FileSystem} {p : Path} {content : Bytes} {mode : Nat}
    (named : fs.named? p = some (.file content mode)) :
    ∃ loc, fs.find p = .ok (loc, .file content mode) ∧ fs.Fits p loc ∧
      fs.node? loc = some (.file content mode) := by
  obtain ⟨loc, fits, there⟩ := named?_eq_file_iff.1 named
  obtain ⟨dir, part, reached, short, rfl⟩ := id fits
  refine ⟨_, ?_, fits, there⟩
  simp [find, reached, Nat.not_lt.2 short, there]

theorem rename_file_eq_ok {fs next : FileSystem} {source target : Path} {content : Bytes}
    {mode : Nat} (named : fs.named? source = some (.file content mode))
    (h : fs.rename source target = .ok next) :
    ∃ old new, fs.Fits source old ∧ fs.node? old = some (.file content mode) ∧
      fs.Fits target new ∧ fs.node? new ≠ some .directory ∧
      next = (fs.erase old).put new (.file content mode) := by
  obtain ⟨old, fits, there⟩ := named?_eq_file_iff.1 named
  obtain ⟨dir, part, reached, short, rfl⟩ := id fits
  unfold rename at h
  simp only [reached] at h
  cases reached' : fs.reach target with
  | error fault => simp [reached'] at h
  | ok at_ =>
      obtain ⟨dir', last', slash'⟩ := at_
      cases last' with
      | dots loc => simp [reached'] at h
      | name part' =>
          simp only [reached', if_neg (Nat.not_lt.2 short), there, Node.isFile,
            Bool.true_and] at h
          by_cases long : maxName < part'.length
          · simp [if_pos long] at h
          · cases slash' with
            | true => simp [if_neg long] at h
            | false =>
                have fits' : fs.Fits target (dir' ++ [part']) :=
                  ⟨dir', part', reached', Nat.le_of_not_lt long, rfl⟩
                simp only [if_neg long, Bool.false_eq_true, if_false] at h
                refine ⟨_, _, fits, there, fits', ?_⟩
                split at h
                · cases h
                · rename_i free
                  exact ⟨free, (Except.ok.inj h).symm⟩

theorem remove_eq_ok {fs next : FileSystem} {p : Path} (h : fs.remove p = .ok next) :
    ∃ loc content mode, fs.Fits p loc ∧ fs.node? loc = some (.file content mode) ∧
      next = fs.erase loc := by
  unfold remove at h
  cases reached : fs.reach p with
  | error fault => simp [reached] at h
  | ok at_ =>
      obtain ⟨dir, last, slash⟩ := at_
      cases last with
      | dots loc => simp [reached] at h
      | name part =>
          simp only [reached] at h
          by_cases long : maxName < part.length
          · simp [if_pos long] at h
          · simp only [if_neg long] at h
            split at h
            · cases h
            · cases h
            · rename_i content mode there
              cases slash with
              | true => simp at h
              | false =>
                  simp only [Bool.false_eq_true, if_false] at h
                  exact ⟨_, content, mode, ⟨dir, part, reached, Nat.le_of_not_lt long, rfl⟩,
                    there, (Except.ok.inj h).symm⟩

/-- If there was nothing to remove, then the path names nothing. -/
theorem named?_of_remove_notFound {fs : FileSystem} {p : Path} {fault : Fault}
    (h : fs.remove p = .error fault) (notFound : fault.isNotFound = true) :
    fs.named? p = none := by
  unfold remove at h
  cases reached : fs.reach p with
  | error fault' => exact named?_of_reach_error reached
  | ok at_ =>
      obtain ⟨dir, last, slash⟩ := at_
      cases last with
      | dots loc =>
          simp only [reached, Except.error.injEq] at h
          subst h
          exact absurd notFound (by decide)
      | name part =>
          simp only [reached] at h
          rw [named?_of_reach_name reached]
          by_cases long : maxName < part.length
          · rw [if_pos long]
          · simp only [if_neg long] at h ⊢
            split at h
            · rename_i nothing
              simp [nothing]
            · simp only [Except.error.injEq] at h
              subst h
              exact absurd notFound (by decide)
            · split at h
              · simp only [Except.error.injEq] at h
                subst h
                exact absurd notFound (by decide)
              · cases h

/-! ## Reading -/

theorem read_eq_ok_iff {fs : FileSystem} {p : Path} {content : Bytes} :
    fs.read p = .ok content ↔
      ∃ mode, fs.named? p = some (.file content mode) ∧ mode &&& 0o400 ≠ 0 := by
  simp only [read, named?]
  cases fs.find p with
  | error fault => simp [Except.toOption]
  | ok found =>
      obtain ⟨loc, node⟩ := found
      cases node with
      | directory => simp [Except.toOption]
      | file old mode =>
          simp only [Except.toOption, Option.map_some, Option.some.injEq, Node.file.injEq]
          by_cases denied : mode &&& 0o400 = 0
          · simp only [if_pos denied, reduceCtorEq, false_iff]
            rintro ⟨mode', ⟨-, rfl⟩, readable⟩
            exact readable denied
          · simp only [if_neg denied, Except.ok.injEq]
            constructor
            · rintro rfl
              exact ⟨mode, ⟨rfl, rfl⟩, denied⟩
            · rintro ⟨mode', ⟨rfl, -⟩, -⟩
              rfl

end StoreWarden.Os.FileSystem
