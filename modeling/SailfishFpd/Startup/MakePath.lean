import SailfishFpd.Lib.FileTree
import SailfishFpd.Lib.Machine

/-!
# The directories of the stores

`makePath` makes a directory and those above it that are missing, and gives each
its permissions and its owner right after it was made. When that fails it
returns `false` and leaves the directory behind; the next call finds it and
returns `true`, whatever its rights are.
-/

namespace SailfishFpd

open FileTree
open Reactive.Machine (along_true along_congr)

/-- The owner, the group and the `QFileDevice::Permissions` of a directory. -/
structure Rights where
  owner : UInt32
  group : UInt32
  permissions : UInt32
  deriving DecidableEq

abbrev DirPath := Path String

abbrev FileSystem := Tree String Rights

/-- The accounts, and the rights that `mkdir` gives to a directory. -/
structure Host where
  passwd : String → Option UInt32
  groups : String → Option UInt32
  fresh : DirPath → Rights

/-- The steps of a call that fail, by the directory they are for. -/
structure Faults where
  mkdir : DirPath → Bool
  setPermissions : DirPath → Bool
  getpwnam : DirPath → Bool
  getgrnam : DirPath → Bool
  chown : DirPath → Bool

def ReadOwner : UInt32 := 0x4000
def WriteOwner : UInt32 := 0x2000
def ExeOwner : UInt32 := 0x1000

/-- The arguments of `makePath` after the path, with their defaults. -/
structure MakePathArgs where
  user : Option String := none
  group : Option String := none
  permissions : UInt32 := ReadOwner ||| WriteOwner ||| ExeOwner

def do_chown (host : Host) (faults : Faults) (file_path : DirPath) (user_name group_name : String)
    (fs : FileSystem) : FileSystem × Bool :=
  match if faults.getpwnam file_path then none else host.passwd user_name with
  | none => (fs, false)
  | some uid =>
    match if faults.getgrnam file_path then none else host.groups group_name with
    | none => (fs, false)
    | some gid =>
      if faults.chown file_path then (fs, false)
      else (fs.modify file_path fun r => { r with owner := uid, group := gid }, true)

/-- The end of `makePath`, when the directory `dir` exists. -/
def makeLeaf (host : Host) (faults : Faults) (args : MakePathArgs) (dir : DirPath) (leaf : String)
    (fs : FileSystem) : FileSystem × Bool :=
  let path := dir.child leaf
  if h : faults.mkdir path = false ∧ fs.Exists dir then
    let fs := fs.mkdir dir leaf (host.fresh path) h.2
    if faults.setPermissions path then (fs, false)
    else
      let fs := fs.modify path fun r => { r with permissions := args.permissions }
      match args.user, args.group with
      | some user, some group => do_chown host faults path user group fs
      | _, _ => (fs, true)
  else (fs, false)

/-- The recursion is on the path: the directory it is in comes first. -/
def makePath (host : Host) (faults : Faults) (args : MakePathArgs) (path : DirPath)
    (fs : FileSystem) : FileSystem × Bool :=
  if fs.Exists path then (fs, true)
  else
    match path with
    | .root => (fs, false) -- the root exists
    | .child dir leaf =>
      let r := makePath host faults args dir fs
      if r.2 then makeLeaf host faults args dir leaf r.1 else (r.1, false)

/-! ## One call -/

section Call

variable (host : Host) (faults : Faults) (args : MakePathArgs)

/-- The owner that `do_chown` gives to a directory. -/
def newOwner (path : DirPath) (user_name group_name : String) : Option (UInt32 × UInt32) :=
  if faults.getpwnam path ∨ faults.getgrnam path ∨ faults.chown path then none
  else do
    let uid ← host.passwd user_name
    let gid ← host.groups group_name
    return (uid, gid)

/-- The rights that a directory is left with once `mkdir` has made it, and whether they are the
last that was to be done for it. -/
def outfit (path : DirPath) : Rights × Bool :=
  if faults.setPermissions path then (host.fresh path, false)
  else
    let r := { host.fresh path with permissions := args.permissions }
    match args.user, args.group with
    | some user, some group =>
      match newOwner host faults path user group with
      | some (uid, gid) => ({ r with owner := uid, group := gid }, true)
      | none => (r, false)
    | _, _ => (r, true)

/-- The rights a call asks for. -/
def HasRights (r : Rights) : Prop :=
  r.permissions = args.permissions ∧ ∀ user ∈ args.user, ∀ group ∈ args.group,
    host.passwd user = some r.owner ∧ host.groups group = some r.group

/-- All steps for a missing directory succeed. -/
def Clean (path : DirPath) : Prop :=
  faults.mkdir path = false ∧ (outfit host faults args path).2 = true

/-- All steps for the directories that are missing in `fs` succeed. -/
def Completes (path : DirPath) (fs : FileSystem) : Prop :=
  ∀ d ∈ path.upTo, ¬ fs.Exists d → Clean host faults args d

/-- The call gets as far as making `d`. -/
def MakesDir (path : DirPath) (fs : FileSystem) (d : DirPath) : Prop :=
  d ∈ path.upTo ∧ ¬ fs.Exists d ∧ faults.mkdir d = false ∧
    ∀ d' ∈ d.upTo, d' ≠ d → ¬ fs.Exists d' → Clean host faults args d'

/-- The call makes a directory and leaves it with other rights than it asks for. -/
def Spoils (path : DirPath) (fs : FileSystem) : Prop :=
  ∃ d, MakesDir host faults args path fs d ∧ ¬ HasRights host args (outfit host faults args d).1

variable {host faults args} {path dir : DirPath} {leaf : String} {fs : FileSystem}

theorem do_chown_eq (user group : String) :
    do_chown host faults path user group fs =
      match newOwner host faults path user group with
      | some (uid, gid) => (fs.modify path fun r => { r with owner := uid, group := gid }, true)
      | none => (fs, false) := by
  unfold do_chown newOwner
  by_cases hu : faults.getpwnam path
  · simp [hu]
  · cases hpasswd : host.passwd user with
    | none => simp [hu]
    | some uid =>
      by_cases hg : faults.getgrnam path
      · simp [hu, hg]
      · cases hgroup : host.groups group with
        | none => simp [hu, hg]
        | some gid => by_cases hc : faults.chown path <;> simp [hu, hg, hc]

theorem makeLeaf_made (hm : faults.mkdir (dir.child leaf) = false) (hd : fs.Exists dir) :
    makeLeaf host faults args dir leaf fs =
      (fs.mkdir dir leaf (outfit host faults args (dir.child leaf)).1 hd,
        (outfit host faults args (dir.child leaf)).2) := by
  unfold makeLeaf outfit
  rw [dif_pos ⟨hm, hd⟩]
  by_cases hp : faults.setPermissions (dir.child leaf)
  · simp [hp]
  · cases hu : args.user with
    | none => simp [hp]
    | some user =>
      cases hg : args.group with
      | none => simp [hp]
      | some group =>
        cases ho : newOwner host faults (dir.child leaf) user group with
        | none => simp [hp, do_chown_eq, ho]
        | some ids => simp [hp, do_chown_eq, ho]

theorem makeLeaf_refused (hm : faults.mkdir (dir.child leaf) = true) :
    makeLeaf host faults args dir leaf fs = (fs, false) := by
  rw [makeLeaf, dif_neg (by simp [hm])]

theorem newOwner_some {user group : String} {uid gid : UInt32}
    (h : newOwner host faults path user group = some (uid, gid)) :
    host.passwd user = some uid ∧ host.groups group = some gid := by
  unfold newOwner at h
  split at h
  · cases h
  · cases hpasswd : host.passwd user with
    | none => simp [hpasswd] at h
    | some uid' =>
      cases hgroup : host.groups group with
      | none => simp [hpasswd, hgroup] at h
      | some gid' => simpa [hpasswd, hgroup] using h

theorem hasRights_of_clean (h : Clean host faults args path) :
    HasRights host args (outfit host faults args path).1 := by
  have hok := h.2
  unfold outfit at hok ⊢
  by_cases hp : faults.setPermissions path
  · simp [hp] at hok
  · cases hu : args.user with
    | none => simp [hp, HasRights, hu]
    | some user =>
      cases hg : args.group with
      | none => simp [hp, HasRights, hg]
      | some group =>
        cases ho : newOwner host faults path user group with
        | none => simp [hp, hu, hg, ho] at hok
        | some ids =>
          obtain ⟨huid, hgid⟩ := newOwner_some ho
          simp [hp, HasRights, hu, hg, ho, huid, hgid]

/-! ## What a call leaves -/

/-- What a call returns and leaves, in terms of the steps that fail. -/
structure Leaves (host : Host) (faults : Faults) (args : MakePathArgs) (path : DirPath)
    (fs : FileSystem) (r : FileSystem × Bool) : Prop where
  ok : r.2 = true ↔ Completes host faults args path fs
  found : r.2 = true → r.1.Exists path
  made : ∀ d, MakesDir host faults args path fs d →
    r.1.entry d = some (outfit host faults args d).1
  rest : ∀ d, ¬ MakesDir host faults args path fs d → r.1.entry d = fs.entry d

theorem leaves_of_exists (h : fs.Exists path) : Leaves host faults args path fs (fs, true) := by
  have hall : ∀ d ∈ path.upTo, fs.Exists d := fun d hd => Tree.exists_of_mem_upTo h hd
  refine ⟨iff_of_true rfl fun d hd hno => absurd (hall d hd) hno, fun _ => h, fun d hd => ?_,
    fun _ _ => rfl⟩
  exact absurd (hall d hd.1) hd.2.1

/-- Above a missing directory, a call makes what the call for the directory above makes. -/
theorem makesDir_child_iff (hno : ¬ fs.Exists (dir.child leaf)) (d : DirPath) :
    MakesDir host faults args (dir.child leaf) fs d ↔
      MakesDir host faults args dir fs d ∨
        d = dir.child leaf ∧ faults.mkdir d = false ∧ Completes host faults args dir fs := by
  refine ⟨?_, ?_⟩
  · rintro ⟨hd, hmissing, hmkdir, habove⟩
    rcases List.mem_cons.mp hd with rfl | hd
    · refine .inr ⟨rfl, hmkdir, fun d' hd' hmissing' => ?_⟩
      refine habove d' (List.mem_cons_of_mem _ hd') ?_ hmissing'
      rintro rfl
      exact Path.child_not_mem_upTo dir leaf hd'
    · exact .inl ⟨hd, hmissing, hmkdir, habove⟩
  · rintro (⟨hd, hmissing, hmkdir, habove⟩ | ⟨rfl, hmkdir, hcompletes⟩)
    · exact ⟨List.mem_cons_of_mem _ hd, hmissing, hmkdir, habove⟩
    · refine ⟨Path.mem_upTo_self _, hno, hmkdir, fun d' hd' hne => ?_⟩
      exact hcompletes d' ((List.mem_cons.mp hd').resolve_left hne)

theorem completes_child_iff (hno : ¬ fs.Exists (dir.child leaf)) :
    Completes host faults args (dir.child leaf) fs ↔
      Completes host faults args dir fs ∧ Clean host faults args (dir.child leaf) := by
  refine ⟨fun h => ⟨fun d hd => h d (List.mem_cons_of_mem _ hd), ?_⟩, fun h d hd => ?_⟩
  · exact h _ List.mem_cons_self hno
  · rcases List.mem_cons.mp hd with rfl | hd
    · exact fun _ => h.2
    · exact h.1 d hd

/-- The call ends without the last directory: it leaves what the call for the one above left. -/
theorem Leaves.ends {r : FileSystem × Bool} (h : Leaves host faults args dir fs r)
    (hfails : ¬ Completes host faults args (dir.child leaf) fs)
    (hmakes : ∀ d, MakesDir host faults args (dir.child leaf) fs d ↔
      MakesDir host faults args dir fs d) :
    Leaves host faults args (dir.child leaf) fs (r.1, false) := by
  refine ⟨iff_of_false (by simp) hfails, by simp, fun d hd => ?_, fun d hd => ?_⟩
  · exact h.made d ((hmakes d).mp hd)
  · exact h.rest d fun hd' => hd ((hmakes d).mpr hd')

/-- The directory above was completed: what is left is the one step for the last. -/
theorem leaves_of_completes {r : FileSystem × Bool} (hno : ¬ fs.Exists (dir.child leaf))
    (h : Leaves host faults args dir fs r) (hok : r.2 = true) :
    Leaves host faults args (dir.child leaf) fs
      (makeLeaf host faults args dir leaf r.1) := by
  have hcompletes := h.ok.mp hok
  cases hm : faults.mkdir (dir.child leaf) with
  | true =>
    rw [makeLeaf_refused hm]
    refine h.ends (fun hc => ?_) fun d => ?_
    · have hclean := ((completes_child_iff hno).mp hc).2.1
      rw [hm] at hclean
      cases hclean
    · rw [makesDir_child_iff hno]
      refine ⟨fun hd => hd.resolve_right ?_, .inl⟩
      rintro ⟨rfl, hmkdir, -⟩
      rw [hm] at hmkdir
      cases hmkdir
  | false =>
    rw [makeLeaf_made hm (h.found hok)]
    refine ⟨?_, fun _ => ?_, fun d hd => ?_, fun d hd => ?_⟩
    · rw [completes_child_iff hno]
      exact ⟨fun hc => ⟨hcompletes, hm, hc⟩, fun hc => hc.2.2⟩
    · exact Tree.exists_of_entry (by rw [Tree.entry_mkdir, if_pos rfl])
    · rw [Tree.entry_mkdir]
      rcases (makesDir_child_iff hno d).mp hd with hd | ⟨rfl, -, -⟩
      · have hne : d ≠ dir.child leaf := by
          rintro rfl
          exact Path.child_not_mem_upTo dir leaf hd.1
        rw [if_neg hne]
        exact h.made d hd
      · rw [if_pos rfl]
    · rw [Tree.entry_mkdir]
      have hne : d ≠ dir.child leaf := by
        rintro rfl
        exact hd ((makesDir_child_iff hno _).mpr (.inr ⟨rfl, hm, hcompletes⟩))
      rw [if_neg hne]
      exact h.rest d fun hd' => hd ((makesDir_child_iff hno d).mpr (.inl hd'))

/-- It was not: the call ends there. -/
theorem leaves_of_fails {r : FileSystem × Bool} (hno : ¬ fs.Exists (dir.child leaf))
    (h : Leaves host faults args dir fs r) (hok : r.2 = false) :
    Leaves host faults args (dir.child leaf) fs (r.1, false) := by
  have hfails : ¬ Completes host faults args dir fs := by
    rw [← h.ok, hok]
    simp
  refine h.ends (fun hc => hfails ((completes_child_iff hno).mp hc).1) fun d => ?_
  rw [makesDir_child_iff hno]
  exact ⟨fun hd => hd.resolve_right fun hc => hfails hc.2.2, .inl⟩

/-- **What `makePath` does**, by recursion over the path. -/
theorem makePath_leaves (host : Host) (faults : Faults) (args : MakePathArgs) (path : DirPath)
    (fs : FileSystem) :
    Leaves host faults args path fs (makePath host faults args path fs) := by
  induction path with
  | root =>
    have hroot : fs.Exists .root := fs.root
    rw [makePath, if_pos hroot]
    exact leaves_of_exists hroot
  | child dir leaf ih =>
    by_cases h : fs.Exists (dir.child leaf)
    · rw [makePath, if_pos h]
      exact leaves_of_exists h
    · rw [makePath, if_neg h]
      cases hok : (makePath host faults args dir fs).2 with
      | true => simpa [hok] using leaves_of_completes h ih hok
      | false => simpa [hok] using leaves_of_fails h ih hok

end Call

/-! ## A call at every start -/

section Starts

variable (host : Host) (args : MakePathArgs) (path : DirPath)

/-- The daemon, which calls `makePath` with the same arguments at each of its starts. -/
def pathMaker : Reactive.Machine FileSystem Faults Bool where
  step fs faults := makePath host faults args path fs

abbrev StartEdge := Reactive.Edge FileSystem Faults Bool

/-- Some directory that did not exist in `fs₀` has other rights than a call asks for. -/
def Spoiled (fs₀ fs : FileSystem) : Prop :=
  ∃ d ∈ path.upTo, ¬ fs₀.Exists d ∧ ∃ r, fs.entry d = some r ∧ ¬ HasRights host args r

/-- What a call establishes after the calls since `fs₀`. -/
structure Establishes (fs₀ : FileSystem) (e : StartEdge) : Prop where
  keeps : Tree.Keeps fs₀ e.dst
  found : e.out = true → e.dst.Exists path
  rights : e.out = true → ∀ d ∈ path.upTo, ¬ fs₀.Exists d →
    ∀ r, e.dst.entry d = some r → HasRights host args r

variable {host args path} {faults : Faults} {fs₀ fs : FileSystem}

theorem keeps_makePath : Tree.Keeps fs (makePath host faults args path fs).1 := by
  intro d r hd
  rw [(makePath_leaves host faults args path fs).rest d fun hm => hm.2.1 (Tree.exists_of_entry hd)]
  exact hd

theorem spoiled_makePath_iff (hkeeps : Tree.Keeps fs₀ fs) :
    Spoiled host args path fs₀ (makePath host faults args path fs).1 ↔
      Spoiled host args path fs₀ fs ∨ Spoils host faults args path fs := by
  have hleaves := makePath_leaves host faults args path fs
  refine ⟨?_, ?_⟩
  · rintro ⟨d, hd, hnew, r, hr, hrights⟩
    by_cases hm : MakesDir host faults args path fs d
    · rw [hleaves.made d hm] at hr
      obtain rfl := Option.some.inj hr
      exact .inr ⟨d, hm, hrights⟩
    · rw [hleaves.rest d hm] at hr
      exact .inl ⟨d, hd, hnew, r, hr, hrights⟩
  · rintro (⟨d, hd, hnew, r, hr, hrights⟩ | ⟨d, hm, hrights⟩)
    · exact ⟨d, hd, hnew, r, keeps_makePath d r hr, hrights⟩
    · exact ⟨d, hm.1, fun h₀ => hm.2.1 (hkeeps.exists h₀), _, hleaves.made d hm, hrights⟩

theorem not_spoils_of_completes (h : Completes host faults args path fs) :
    ¬ Spoils host faults args path fs := by
  rintro ⟨d, ⟨hd, hmissing, -, -⟩, hrights⟩
  exact hrights (hasRights_of_clean (h d hd hmissing))

theorem visits_makePath (calls : List Faults) :
    (pathMaker host args path).Visits fs₀ calls fun past fs => Tree.Keeps fs₀ fs ∧
      (Spoiled host args path fs₀ fs ↔ ∃ p ∈ past, Spoils host p.input args path p.src) := by
  refine along_true.visits ?_ ?_
  · refine ⟨Tree.Keeps.refl fs₀, iff_of_false ?_ (by simp)⟩
    rintro ⟨d, -, hnew, r, hr, -⟩
    exact hnew (Tree.exists_of_entry hr)
  · rintro past fs faults ⟨hkeeps, hspoiled⟩ -
    refine ⟨hkeeps.trans keeps_makePath, ?_⟩
    rw [show ((pathMaker host args path).step fs faults).1 = _ from rfl]
    refine (spoiled_makePath_iff hkeeps).trans ?_
    simp [hspoiled, or_and_right, exists_or]

theorem establishes_iff (hkeeps : Tree.Keeps fs₀ fs) :
    Establishes host args path fs₀ ((pathMaker host args path).edge fs faults) ↔
      (Completes host faults args path fs → ¬ Spoiled host args path fs₀ fs) := by
  have hleaves := makePath_leaves host faults args path fs
  have hafter : Completes host faults args path fs →
      (Spoiled host args path fs₀ (makePath host faults args path fs).1 ↔
        Spoiled host args path fs₀ fs) := by
    intro hc
    rw [spoiled_makePath_iff hkeeps]
    exact or_iff_left (not_spoils_of_completes hc)
  refine ⟨fun h hc hspoiled => ?_, fun h => ⟨hkeeps.trans keeps_makePath, hleaves.found, ?_⟩⟩
  · obtain ⟨d, hd, hnew, r, hr, hrights⟩ := (hafter hc).mpr hspoiled
    exact hrights (h.rights (hleaves.ok.mpr hc) d hd hnew r hr)
  · intro hok d hd hnew r hr
    have hc := hleaves.ok.mp hok
    by_contra hrights
    exact h hc ((hafter hc).mp ⟨d, hd, hnew, r, hr, hrights⟩)

/-- **A call establishes what it reports exactly when it does not find a directory that an earlier
call made and failed to give its rights**; what was there before the first call it always keeps,
and the path always exists when it returns `true`. -/
theorem makePath_establishes (host : Host) (args : MakePathArgs) (path : DirPath)
    (fs₀ : FileSystem) (calls : List Faults) :
    ((pathMaker host args path).Along fs₀ calls
        (fun _ e => Establishes host args path fs₀ e) ↔
      (pathMaker host args path).Along fs₀ calls fun past e =>
        Completes host e.input args path e.src →
          ∀ p ∈ past, ¬ Spoils host p.input args path p.src) ∧
      (pathMaker host args path).Along fs₀ calls fun _ e =>
        Tree.Keeps fs₀ e.dst ∧ (e.out = true → e.dst.Exists path) := by
  refine ⟨?_, ?_⟩
  · refine along_congr (visits_makePath calls) ?_
    rintro past fs faults ⟨hkeeps, hspoiled⟩
    rw [establishes_iff hkeeps, hspoiled]
    simp
  · refine along_true.of_visits (visits_makePath calls) ?_
    rintro past fs faults ⟨hkeeps, -⟩ -
    exact ⟨hkeeps.trans keeps_makePath, (makePath_leaves host faults args path fs).found⟩

end Starts

/-- The first call makes `/a` and cannot set its permissions; the second finds it and is content,
with what `mkdir` gave. -/
theorem spoiled_path_is_reported_made :
    let host : Host := ⟨fun _ => none, fun _ => none, fun _ => ⟨0, 0, 0x7755⟩⟩
    let fs₀ : FileSystem := ⟨fun p => if p = .root then some ⟨0, 0, 0x7755⟩ else none, by decide,
      fun dir leaf h => by simp at h⟩
    let path : DirPath := .child .root "a"
    let never : DirPath → Bool := fun _ => false
    let calls : List Faults :=
      [⟨never, fun d => d = path, never, never, never⟩, ⟨never, never, never, never, never⟩]
    let edges := (pathMaker host {} path).edges fs₀ calls
    edges.map (·.out) = [false, true] ∧
      edges.map (fun e => (e.dst.entry path).map (·.permissions)) = [some 0x7755, some 0x7755] ∧
      ¬ (pathMaker host {} path).Along fs₀ calls
        fun _ e => Establishes host {} path fs₀ e := by
  refine ⟨by decide, by decide, fun h => ?_⟩
  have hlast := h [_] _ [] rfl
  have hrights := hlast.rights (by decide) (.child .root "a") (by decide) (by decide) ⟨0, 0, 0x7755⟩
    (by decide)
  exact absurd hrights.1 (by decide)

end SailfishFpd
