import StoreWarden.Proofs.LastPart
import StoreWarden.Proofs.NamedNode

/-!
# The temporary file is beside the record

The path of the temporary file has the parts of the record's path up to its file name, less single
dots, and its name is longer by the ending.  So both are in one directory, the way to the record
never leads through the temporary file, and nothing that happens to that file has a part in where
the record is found.
-/

set_option autoImplicit false

namespace StoreWarden

/-! ## The parts before a file name -/

namespace Path

variable {p : Path} {name base : Bytes}

theorem parts_append_slash (front back : Bytes) :
    (Path.mk (front ++ slash :: back)).parts = (Path.mk front).parts ++ (Path.mk back).parts := by
  simp [parts, splitSlashes_append]

theorem parts_then_slash (front : Bytes) :
    (Path.mk (front ++ [slash])).parts = (Path.mk front).parts := by
  rw [parts_append_slash]
  simp [parts, splitSlashes]

theorem parts_of_unbroken {q : Bytes} (nonempty : q ≠ []) (unbroken : slash ∉ q) :
    (Path.mk q).parts = [q] := by
  simp [parts, splitSlashes_of_not_mem unbroken, nonempty]

/-- What is idle at the end of a path are slashes, and parts that are single dots. -/
theorem parts_dropIdle (fuel : Nat) (back : Bytes) :
    ∃ n, (Path.mk back.reverse).parts =
      (Path.mk (dropIdle fuel back).reverse).parts ++ List.replicate n dot := by
  fun_induction dropIdle fuel back with
  | case1 back => exact ⟨0, (List.append_nil _).symm⟩
  | case2 fuel rest ih =>
      obtain ⟨n, same⟩ := ih
      refine ⟨n, ?_⟩
      rw [← same, List.reverse_cons]
      exact parts_then_slash rest.reverse
  | case3 fuel rest ih =>
      obtain ⟨n, same⟩ := ih
      refine ⟨n + 1, ?_⟩
      have cut : (46 :: 47 :: rest).reverse = rest.reverse ++ slash :: dot := by
        simp [slash, dot]
      have idle : (47 :: rest).reverse = rest.reverse ++ [slash] := List.reverse_cons
      have single : (Path.mk dot).parts = [dot] := parts_of_unbroken (by decide) (by decide)
      rw [idle, parts_then_slash] at same
      rw [cut, parts_append_slash, same, single, List.append_assoc, ← List.replicate_succ']
  | case4 fuel back plain idle => exact ⟨0, (List.append_nil _).symm⟩

theorem dropIdle_suffix (fuel : Nat) (back : Bytes) : dropIdle fuel back <:+ back := by
  fun_induction dropIdle fuel back with
  | case1 back => exact List.suffix_refl back
  | case2 fuel rest ih => exact ih.trans (List.suffix_cons 47 rest)
  | case3 fuel rest ih => exact ih.trans (List.suffix_cons 46 (47 :: rest))
  | case4 fuel back plain idle => exact List.suffix_refl back

theorem getLast?_of_dropIdle_eq_nil (fuel : Nat) {back : Bytes} (idle : dropIdle fuel back = [])
    (some_ : back ≠ []) : back.getLast? = some slash := by
  fun_induction dropIdle fuel back with
  | case1 back => exact absurd idle some_
  | case2 fuel rest ih =>
      cases rest with
      | nil => rfl
      | cons b rest => exact ih idle (List.cons_ne_nil b rest)
  | case3 fuel rest ih => exact ih idle (List.cons_ne_nil 47 rest)
  | case4 fuel back plain idle' => exact absurd idle some_

/-- The way a path is cut at its last telling part: what stands before that, and what is left out
on either side of it. -/
structure Cut (p : Path) (front name : Bytes) : Prop where
  parts : ∃ m n, p.parts = (Path.mk front).parts ++ List.replicate m dot ++
    ((Path.mk name).parts ++ List.replicate n dot)
  unbroken : slash ∉ name
  absolute : name ≠ [] → (Path.mk front).isAbsolute = p.isAbsolute

theorem isAbsolute_of_suffix {back : Bytes} (suffix : back <:+ p.bytes.reverse)
    (nonempty : back ≠ []) : (Path.mk back.reverse).isAbsolute = p.isAbsolute := by
  obtain ⟨idle, spelled⟩ := suffix
  have bytes : p.bytes = back.reverse ++ idle.reverse := by
    rw [← List.reverse_append, spelled, List.reverse_reverse]
  obtain ⟨b, rest, some_⟩ := List.exists_cons_of_ne_nil (List.reverse_ne_nil_iff.2 nonempty)
  simp only [isAbsolute, bytes, some_, List.cons_append, List.head?_cons]

theorem cut_splitLast (p : Path) : p.Cut p.splitLast.1 p.splitLast.2 := by
  obtain ⟨n, whole⟩ := parts_dropIdle p.bytes.length p.bytes.reverse
  have suffix := dropIdle_suffix p.bytes.length p.bytes.reverse
  rw [List.reverse_reverse] at whole
  unfold splitLast
  generalize dropIdle p.bytes.length p.bytes.reverse = back at whole suffix
  have joined : back.takeWhile (· ≠ slash) ++ back.dropWhile (· ≠ slash) = back :=
    List.takeWhile_append_dropWhile
  have unbroken : slash ∉ back.takeWhile (· ≠ slash) := fun mem => by
    simpa using List.all_eq_true.1 List.all_takeWhile slash mem
  have opens : ∀ b ∈ (back.dropWhile (· ≠ slash)).head?, b = slash := by
    intro b first
    have stops := List.head?_dropWhile_not (· ≠ slash) back
    rw [Option.mem_def.1 first] at stops
    simpa using stops
  simp only
  generalize back.takeWhile (· ≠ slash) = name at joined unbroken
  generalize back.dropWhile (· ≠ slash) = before at joined opens
  subst joined
  have unbroken' : slash ∉ name.reverse := by simpa using unbroken
  cases before with
  | nil =>
      refine ⟨⟨0, n, ?_⟩, unbroken', fun nonempty => ?_⟩
      · rw [List.append_nil] at whole
        simpa [dropIdle, parts, splitSlashes] using whole
      · rw [List.append_nil] at suffix
        rw [← isAbsolute_of_suffix suffix (by simpa using nonempty)]
        obtain ⟨b, rest, some_⟩ := List.exists_cons_of_ne_nil nonempty
        have other : b ≠ slash := by
          rintro rfl
          exact unbroken' (by simp [some_])
        simp [isAbsolute, dropIdle, some_, other]
  | cons b rest =>
      obtain rfl : b = slash := opens b rfl
      obtain ⟨m, front⟩ := parts_dropIdle (slash :: rest).length (slash :: rest)
      have suffix' : slash :: rest <:+ p.bytes.reverse := (List.suffix_append _ _).trans suffix
      have absolute := isAbsolute_of_suffix suffix' (List.cons_ne_nil _ _)
      have reversed : (name ++ slash :: rest).reverse = rest.reverse ++ slash :: name.reverse := by
        simp
      rw [reversed, parts_append_slash, ← parts_then_slash rest.reverse, ← List.reverse_cons, front]
        at whole
      by_cases idle : dropIdle (slash :: rest).length (slash :: rest) = []
      · have last := getLast?_of_dropIdle_eq_nil _ idle (List.cons_ne_nil _ _)
        simp only [idle, decide_true, ne_eq, reduceCtorEq, not_false_eq_true, Bool.and_self,
          if_true]
        refine ⟨⟨m, n, ?_⟩, unbroken', fun _ => ?_⟩
        · rw [whole, idle, List.append_assoc]
          rfl
        · rw [← absolute]
          simp only [isAbsolute, List.head?_reverse, last]
          rfl
      · simp only [idle, decide_false, Bool.false_and, Bool.false_eq_true, if_false]
        refine ⟨⟨m, n, ?_⟩, unbroken', fun _ => ?_⟩
        · rw [whole, List.append_assoc]
        · exact isAbsolute_of_suffix ((dropIdle_suffix _ _).trans suffix') idle

theorem cut_of_fileName? (p : Path) (named : p.fileName? = some name) :
    p.Cut p.splitLast.1 name ∧ name ≠ [] := by
  obtain ⟨rfl, telling⟩ : p.splitLast.2 = name ∧ p.splitLast.2 ≠ [] := by
    unfold fileName? at named
    simp only at named
    split at named
    · cases named
    · rename_i telling
      refine ⟨Option.some.inj named, ?_⟩
      intro empty
      simp [empty] at telling
  exact ⟨p.cut_splitLast, telling⟩

theorem parts_push (base : Bytes) (nonempty : name ≠ []) (unbroken : slash ∉ name) :
    (Path.mk (push base name)).parts = (Path.mk base).parts ++ [name] := by
  unfold push
  cases last : base.getLast? with
  | none =>
      rw [List.getLast?_eq_none_iff.1 last, parts_of_unbroken nonempty unbroken]
      rfl
  | some b =>
      obtain ⟨before, rfl⟩ := List.getLast?_eq_some_iff.1 last
      by_cases slashed : b = slash
      · subst slashed
        simp only [if_true]
        rw [parts_then_slash, List.append_assoc, List.singleton_append, parts_append_slash,
          parts_of_unbroken nonempty unbroken]
      · simp only [if_neg slashed]
        rw [parts_append_slash, parts_of_unbroken nonempty unbroken]

theorem isAbsolute_push (base : Bytes) (nonempty : name ≠ []) (unbroken : slash ∉ name) :
    (Path.mk (push base name)).isAbsolute = (Path.mk base).isAbsolute := by
  cases base with
  | nil =>
      obtain ⟨b, rest, rfl⟩ := List.exists_cons_of_ne_nil nonempty
      have other : b ≠ slash := by
        rintro rfl
        exact unbroken List.mem_cons_self
      simp [push, isAbsolute, other]
  | cons b rest =>
      unfold push isAbsolute
      split
      · rename_i none'
        simp at none'
      · split <;> rfl

end Path

/-! ## The two paths -/

namespace ExitRecord

/-- The parts of the temporary file's path, by those of the record's. -/
inductive Siblings (r : ExitRecord) : Prop
  | named {base : List Bytes} {name : Bytes} {m n : Nat}
      (record : r.path.parts = base ++ List.replicate m Path.dot ++
        name :: List.replicate n Path.dot)
      (temporary : r.temporary.parts = base ++ [name ++ temporaryEnding])
  | unnamed (bare : r.path.fileName? = none)
      (temporary : r.temporary.parts = r.path.parts ++ [temporaryEnding])

section
variable {r : ExitRecord} {name : Bytes}

theorem temporary_of_named (named : r.path.fileName? = some name) :
    r.temporary = ⟨Path.push r.path.splitLast.1 (name ++ temporaryEnding)⟩ := by
  simp only [temporary, Path.withFileName, named, Option.getD_some]

theorem temporary_of_bare (bare : r.path.fileName? = none) :
    r.temporary = ⟨Path.push r.path.bytes temporaryEnding⟩ := by
  simp only [temporary, Path.withFileName, bare, Option.getD_none, List.nil_append]

theorem temporaryEnding_ne_nil : temporaryEnding ≠ [] := by decide

theorem unbroken_temporaryEnding : Path.slash ∉ temporaryEnding := by decide

theorem unbroken_append_temporaryEnding (unbroken : Path.slash ∉ name) :
    Path.slash ∉ name ++ temporaryEnding := by
  simpa using ⟨unbroken, unbroken_temporaryEnding⟩

end

theorem isAbsolute_temporary (r : ExitRecord) : r.temporary.isAbsolute = r.path.isAbsolute := by
  cases named : r.path.fileName? with
  | none =>
      rw [temporary_of_bare named]
      exact Path.isAbsolute_push _ temporaryEnding_ne_nil unbroken_temporaryEnding
  | some name =>
      obtain ⟨cut, nonempty⟩ := r.path.cut_of_fileName? named
      rw [temporary_of_named named, Path.isAbsolute_push _ (by simp [nonempty])
        (unbroken_append_temporaryEnding cut.unbroken)]
      exact cut.absolute nonempty

theorem siblings (r : ExitRecord) : r.Siblings := by
  cases named : r.path.fileName? with
  | none =>
      refine .unnamed named ?_
      rw [temporary_of_bare named]
      exact Path.parts_push _ temporaryEnding_ne_nil unbroken_temporaryEnding
  | some name =>
      obtain ⟨cut, nonempty⟩ := r.path.cut_of_fileName? named
      obtain ⟨m, n, parts⟩ := cut.parts
      rw [Path.parts_of_unbroken nonempty cut.unbroken] at parts
      refine .named parts ?_
      rw [temporary_of_named named]
      exact Path.parts_push _ (by simp [nonempty]) (unbroken_append_temporaryEnding cut.unbroken)

end ExitRecord

/-! ## Where the two paths lead -/

namespace Os.FileSystem

variable {fs other : FileSystem} {p : Path} {dir loc : Location} {part : Bytes}

/-- The directory from which a path starts. -/
def startOf (fs : FileSystem) (p : Path) : Location := if p.isAbsolute then [] else fs.home

theorem walk_append_of_ok {next : Location} {front : List Bytes} (back : List Bytes) :
    fs.walk dir front = .ok next → fs.walk dir (front ++ back) = fs.walk next back := by
  induction front generalizing dir with
  | nil =>
      rintro ⟨⟩
      rfl
  | cons part rest ih =>
      simp only [walk, List.cons_append]
      cases fs.enter dir part with
      | error fault => rintro ⟨⟩
      | ok next => exact ih

theorem exists_walk_of_append {last : Location} {front back : List Bytes} :
    fs.walk dir (front ++ back) = .ok last → ∃ next, fs.walk dir front = .ok next := by
  induction front generalizing dir with
  | nil => exact fun _ => ⟨dir, rfl⟩
  | cons part rest ih =>
      simp only [walk, List.cons_append]
      cases fs.enter dir part with
      | error fault => rintro ⟨⟩
      | ok next => exact ih

theorem walk_dots (fs : FileSystem) (dir : Location) (n : Nat) :
    fs.walk dir (List.replicate n Path.dot) = .ok dir := by
  induction n with
  | zero => rfl
  | succ n ih => simpa only [List.replicate_succ, walk, enter, if_true] using ih

theorem walk_of_reach_name {slash : Bool} (h : fs.reach p = .ok ⟨dir, .name part, slash⟩) :
    fs.walk (fs.startOf p) p.parts.dropLast = .ok dir := by
  unfold reach at h
  split at h
  · cases h
  split at h
  · cases h
  split at h
  · cases h
  simp only at h
  split at h
  · cases h
  split at h
  · cases h
  · rename_i reached walked
    unfold startOf
    rw [walked]
    split at h
    · cases h
    split at h
    · cases h
    · cases h
      rfl

theorem walk_of_place? (placed : fs.place? p = some loc) : ∃ dir part,
    loc = dir ++ [part] ∧ p.parts.getLast? = some part ∧ part ≠ Path.dot ∧ part ≠ Path.dotDot ∧
      fs.walk (fs.startOf p) p.parts.dropLast = .ok dir := by
  unfold place? at placed
  split at placed
  · rename_i dir part slash reached
    obtain ⟨last, single, double⟩ := last_of_reach_name reached
    exact ⟨dir, part, (Option.some.inj placed).symm, last, single, double,
      walk_of_reach_name reached⟩
  · cases placed

/-- All is the same but what is at a location, and there is no directory there. -/
structure SameBut (fs other : FileSystem) (loc : Location) : Prop where
  home : other.home = fs.home
  nodes : ∀ spot ≠ loc, other.node? spot = fs.node? spot
  free : fs.node? loc ≠ some .directory
  free' : other.node? loc ≠ some .directory

theorem sameBut_put_file (nonempty : loc ≠ []) (free : fs.node? loc ≠ some .directory)
    (content : Bytes) (mode : Nat) : fs.SameBut (fs.put loc (.file content mode)) loc := by
  refine ⟨rfl, fun spot apart => node?_put_of_ne fs apart _, free, ?_⟩
  simp [node?_put_self fs nonempty]

theorem SameBut.sameDirs (same : fs.SameBut other loc) : SameDirs fs other := by
  refine ⟨same.home, fun spot => ?_⟩
  by_cases here : spot = loc
  · subst here
    simp [same.free, same.free']
  · rw [same.nodes spot here]

theorem SameBut.reach_eq (same : fs.SameBut other loc)
    (walked : other.walk (fs.startOf p) p.parts.dropLast =
      fs.walk (fs.startOf p) p.parts.dropLast) : other.reach p = fs.reach p := by
  unfold startOf at walked
  unfold reach
  simp only [same.home, walked]

/-- Entering what is not the place itself is the same. -/
theorem SameBut.walk_cons_eq (same : fs.SameBut other loc) (elsewhere : dir ++ [part] ≠ loc)
    (n : Nat) : other.walk dir (part :: List.replicate n Path.dot) =
      fs.walk dir (part :: List.replicate n Path.dot) := by
  have entered : other.enter dir part = fs.enter dir part := by
    unfold enter
    rw [same.nodes _ elsewhere]
  simp only [walk, entered]
  cases fs.enter dir part with
  | error fault => rfl
  | ok next => simp only [walk_dots]

theorem SameBut.find_eq (same : fs.SameBut other loc) (reached : other.reach p = fs.reach p)
    (elsewhere : fs.place? p ≠ some loc) : other.find p = fs.find p := by
  unfold find
  rw [reached]
  unfold place? at elsewhere
  cases found : fs.reach p with
  | error fault => rfl
  | ok at_ =>
      obtain ⟨dir, last, slash⟩ := at_
      cases last with
      | dots spot => rfl
      | name part =>
          rw [found] at elsewhere
          have apart : dir ++ [part] ≠ loc := fun here => elsewhere (congrArg some here)
          simp only [same.nodes _ apart]

end Os.FileSystem

namespace ExitRecord

open Os (FileSystem)
open Os.FileSystem (SameBut)

variable {r : ExitRecord} {fs other : FileSystem} {loc : Os.Location}

/-- Whatever happens where the temporary file is, the way to the record stays as it was, and so do
the faults met on it. -/
theorem reach_path_eq (same : fs.SameBut other loc) (placed : fs.place? r.temporary = some loc) :
    other.reach r.path = fs.reach r.path := by
  obtain ⟨dir, part, rfl, last, -, -, walked⟩ := FileSystem.walk_of_place? placed
  have start : fs.startOf r.temporary = fs.startOf r.path := by
    unfold FileSystem.startOf
    rw [r.isAbsolute_temporary]
  rw [start] at walked
  have follows := same.sameDirs.walk_eq_ok
  refine same.reach_eq ?_
  cases r.siblings with
  | @named base name m n record temporary =>
      rw [temporary, List.dropLast_concat] at walked
      rw [temporary, List.getLast?_concat, Option.some.injEq] at last
      have dotted : fs.walk (fs.startOf r.path) (base ++ List.replicate m Path.dot) = .ok dir := by
        rw [FileSystem.walk_append_of_ok _ walked, FileSystem.walk_dots]
      have dotted' := follows _ dotted
      rw [record]
      cases n with
      | zero =>
          rw [List.replicate_zero, List.dropLast_concat, dotted, dotted']
      | succ n =>
          -- the way goes on behind the record's name, which is shorter than the other
          have longer : dir ++ [name] ≠ dir ++ [part] := by
            intro here
            have shorter : name ++ temporaryEnding = name :=
              last.trans (List.cons.inj (List.append_cancel_left here)).1.symm
            exact temporaryEnding_ne_nil (List.append_right_eq_self.1 shorter)
          rw [List.replicate_succ', ← List.cons_append, ← List.append_assoc, List.dropLast_concat,
            FileSystem.walk_append_of_ok _ dotted, FileSystem.walk_append_of_ok _ dotted']
          exact same.walk_cons_eq longer n
  | unnamed bare temporary =>
      rw [temporary, List.dropLast_concat] at walked
      cases parts : r.path.parts using List.reverseRecOn with
      | nil => rfl
      | append_singleton front final =>
          rw [parts] at walked
          rw [List.dropLast_concat]
          obtain ⟨next, before⟩ := FileSystem.exists_walk_of_append walked
          rw [before, follows _ before]

theorem find_path_eq (same : fs.SameBut other loc) (placed : fs.place? r.temporary = some loc)
    (elsewhere : fs.place? r.path ≠ some loc) : other.find r.path = fs.find r.path :=
  same.find_eq (reach_path_eq same placed) elsewhere

end ExitRecord

end StoreWarden
