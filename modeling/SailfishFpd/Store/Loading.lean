import SailfishFpd.Store.Persistence

/-!
# Loading the fingers

`Reconciled F E m` says what the map `m` should be, when the file holds `F` and
the HAL reports the ids `E`: it has the reported ids for keys, each under its
name in the file or a generated one. There is one such map. `loadFingers` makes
it, whatever the order and the repetitions of the reports, and saves it; loading
again finds nothing to change.
-/

namespace SailfishFpd

open FPDCommunity

/-- The map that belongs to a file and a list of reported ids. -/
structure Reconciled (F : FingerMap) (E : List UInt32) (m : FingerMap) : Prop where
  keys : ∀ k, k ∈ m ↔ k ∈ E
  known : ∀ k ∈ E, ∀ name, F[k]? = some name → m[k]? = some name
  unknown : ∀ k ∈ E, k ∉ F → m[k]? = some (unknownName k)

namespace Reconciled

variable {F m m' : FingerMap} {E E' : List UInt32}

theorem getElem? (h : Reconciled F E m) (k : UInt32) :
    m[k]? = if k ∈ E then some ((F[k]?).getD (unknownName k)) else none := by
  by_cases hk : k ∈ E
  · rw [if_pos hk]
    cases hF : F[k]? with
    | some name => exact h.known k hk name hF
    | none =>
      refine h.unknown k hk fun hm => ?_
      simp [Std.ExtTreeMap.mem_iff_isSome_getElem?, hF] at hm
  · rw [if_neg hk]
    exact Std.ExtTreeMap.getElem?_eq_none fun hm => hk ((h.keys k).mp hm)

/-- Only the set of the reported ids counts. -/
theorem unique (h : Reconciled F E m) (h' : Reconciled F E' m') (hE : ∀ k, k ∈ E' ↔ k ∈ E) :
    m' = m := by
  apply Std.ExtTreeMap.ext_getElem?
  intro k
  rw [h.getElem?, h'.getElem?]
  simp only [hE]

theorem again (h : Reconciled F E m) : Reconciled m E m :=
  ⟨h.keys, fun _ _ _ hm => hm, fun k hk hno => absurd ((h.keys k).mpr hk) hno⟩

end Reconciled

theorem reconciled_reconcile (F : FingerMap) (E : List UInt32) :
    Reconciled F E (reconcile E F) := by
  refine ⟨fun k => mem_reconcile, fun k hk name hF => getElem?_reconcile_of_mem hk hF,
    fun k hk hno => ?_⟩
  rw [getElem?_reconcile, if_pos hk, Std.ExtTreeMap.getElem?_eq_none hno, Option.getD_none]

structure Env.Writes (env : Env) : Prop where
  openWrite : env.openWrite = true
  room : env.room = none

/-- A later load can read the file if the earlier one could, or at any rate what that one wrote, and
it writes only if the earlier one did, and all of it. -/
structure Env.Repeats (env env' : Env) : Prop where
  openRead : env'.openRead = env.openRead ∨ env'.openRead = true ∧ env.openWrite = true
  openWrite : env'.openWrite = true → env.openWrite = true ∧ env'.room = none

/-- The ids that an enumeration records. -/
def reportedIds (is : List Input) : List UInt32 := (enumeratedIds is).filter (· ≠ 0)

section Runs

variable [QDataStream]

/-- An enumeration: the HAL was asked in `s`, reported during `is`, and `i` handles its end. -/
structure Enumeration (s : System) (is : List Input) (i : Input) : Prop where
  asked : ∃ hal before, s.fpd.m_androidFP = (AndroidFP.enumerate hal before).self
  completes : CompletesEnumeration (daemon.edge (daemon.final s is) i)

/-- The map the file holds when the enumeration ends, the empty one if it cannot be opened. -/
def fileMap (s : System) (is : List Input) (i : Input) : FingerMap :=
  (daemon.final s is).fpd.readDatabase i.env

/-- What a reconciliation guarantees at its end `d`. -/
structure Loads (env : Env) (F : FingerMap) (E : List UInt32) (d : FPDCommunity) : Prop where
  map : Reconciled F E d.m_fingerMap
  file : env.Writes → d.database = some (QDataStream.write d.m_fingerMap) ∧
    QDataStream.read (QDataStream.write d.m_fingerMap) = d.m_fingerMap
  again : (env.openWrite = true → env.room = none) → ∀ env', env.Repeats env' →
    ∀ d' : FPDCommunity, d'.m_fingerMap = d.m_fingerMap → d'.database = d.database →
      (∀ k, k ∈ d'.m_androidFP.fingerprints ↔ k ∈ E) → (loadFingers env' { self := d' }).self = d'

theorem reportedIds_eq {s : System} {is : List Input} {i : Input} (h : Enumeration s is i) :
    (daemon.final s is).fpd.m_androidFP.fingerprints = reportedIds is := by
  obtain ⟨hal, before, hasked⟩ := h.asked
  rw [fingerprints_eq, hasked]
  rfl

theorem enumeration_map {s : System} {is : List Input} {i : Input} (h : Enumeration s is i) :
    Reconciled (fileMap s is i) (reportedIds is)
      (daemon.step (daemon.final s is) i).1.fpd.m_fingerMap := by
  rw [(step_edits _ i).1, edit_of_completes h.completes, reportedIds_eq h]
  exact reconciled_reconcile _ _

theorem enumeration_database {s : System} {is : List Input} {i : Input} (h : Enumeration s is i) :
    (daemon.step (daemon.final s is) i).1.fpd.database =
      saved i.env { (daemon.final s is).fpd with
        m_fingerMap := (daemon.step (daemon.final s is) i).1.fpd.m_fingerMap } := by
  rw [(step_edits _ i).2.1, (step_edits _ i).1, edit_of_completes h.completes]
  rfl

section Again

variable {s : System} {is : List Input} {i : Input} {env : Env} {d : FPDCommunity}

/-- A load reads the file as the one before it did, or the map that was saved. -/
theorem readDatabase_again [LawfulQDataStream]
    (hroom : i.env.openWrite = true → i.env.room = none) (hrepeats : i.env.Repeats env)
    (hdb : d.database = saved i.env { (daemon.final s is).fpd with m_fingerMap := d.m_fingerMap })
    (hm : Reconciled (fileMap s is i) (reportedIds is) d.m_fingerMap) :
    Reconciled (d.readDatabase env) (reportedIds is) d.m_fingerMap := by
  cases hopen : i.env.openWrite with
  | false =>
    have hin : env.openRead = i.env.openRead := by simpa [hopen] using hrepeats.openRead
    have hfile : d.readDatabase env = fileMap s is i := by
      simp [fileMap, readDatabase, hdb, saved, hopen, hin]
    rwa [hfile]
  | true =>
    cases hin : env.openRead with
    | false =>
      have hbefore : i.env.openRead = false := by simpa [hin] using hrepeats.openRead
      have hfile : d.readDatabase env = fileMap s is i := by
        simp [fileMap, readDatabase, hin, hbefore]
      rwa [hfile]
    | true =>
      have hfile : d.readDatabase env = d.m_fingerMap := by
        simp [readDatabase, hdb, saved, hopen, hroom hopen, hin]
      rw [hfile]
      exact hm.again

/-- It makes the map that was made, and leaves the file as it is. -/
theorem loads_again [LawfulQDataStream] (h : Enumeration s is i)
    (hroom : i.env.openWrite = true → i.env.room = none) (hrepeats : i.env.Repeats env)
    (hmap : d.m_fingerMap = (daemon.step (daemon.final s is) i).1.fpd.m_fingerMap)
    (hdb : d.database = (daemon.step (daemon.final s is) i).1.fpd.database)
    (hE : ∀ k, k ∈ d.m_androidFP.fingerprints ↔ k ∈ reportedIds is) :
    (loadFingers env { self := d }).self = d := by
  have hm := enumeration_map h
  rw [← hmap] at hm
  rw [enumeration_database h, ← hmap] at hdb
  have hread := readDatabase_again hroom hrepeats hdb hm
  have hagain : reconcile d.m_androidFP.fingerprints (d.readDatabase env) = d.m_fingerMap :=
    hread.unique (reconciled_reconcile _ _) hE
  have hsaved : saved env d = d.database := by
    cases hopen : env.openWrite with
    | false => simp [saved, hopen]
    | true =>
      obtain ⟨hbefore, hfits⟩ := hrepeats.openWrite hopen
      simp [hdb, saved, hopen, hfits, hbefore, hroom hbefore]
  rw [loadFingers_self]
  simp only [hagain]
  show { d with database := saved env d } = d
  rw [hsaved]

end Again

/-- **Reconciliation of the file and the HAL.** When an enumeration ends, the map is reconciled and
saved, loading again changes nothing, and another enumeration that finds the same map in the file
and reports the same set of ids makes the same map and the same file. -/
theorem load_reconciles [LawfulQDataStream] {s : System} {is : List Input} {i : Input}
    (h : Enumeration s is i) :
    let d := (daemon.step (daemon.final s is) i).1.fpd
    Loads i.env (fileMap s is i) (reportedIds is) d ∧
      ∀ s' is' i', Enumeration s' is' i' → fileMap s' is' i' = fileMap s is i →
        (∀ k, k ∈ reportedIds is' ↔ k ∈ reportedIds is) →
          let d' := (daemon.step (daemon.final s' is') i').1.fpd
          d'.m_fingerMap = d.m_fingerMap ∧
            (i.env.Writes → i'.env.Writes → d'.database = d.database) := by
  have hwritten : ∀ {s is i}, Enumeration s is i → i.env.Writes →
      (daemon.step (daemon.final s is) i).1.fpd.database =
        some (QDataStream.write (daemon.step (daemon.final s is) i).1.fpd.m_fingerMap) := by
    intro s is i h hw
    rw [enumeration_database h]
    simp [saved, hw.openWrite, hw.room]
  refine ⟨⟨enumeration_map h, fun hw => ?_, fun hroom env hrepeats d' hmap hdb hE => ?_⟩, ?_⟩
  · exact ⟨hwritten h hw, LawfulQDataStream.read_write _⟩
  · exact loads_again h hroom hrepeats hmap hdb hE
  · intro s' is' i' h' hF hE
    have hmap := (enumeration_map h).unique (hF ▸ enumeration_map h') hE
    refine ⟨hmap, fun hw hw' => ?_⟩
    rw [hwritten h hw, hwritten h' hw', hmap]

end Runs

/-- The start finds `7` in the file and a finger it does not know, reported twice. -/
theorem load_reconciles_start :
    letI := qt56
    let file : FingerMap := (∅ : FingerMap).insert 7 "left"
    let s := boot (.answering SYS_OK) (fun _ => "") (some (QDataStream.write file))
    let is : List Input :=
      [⟨.callback (.enumerate 9 2), .answering SYS_OK⟩,
        ⟨.callback (.enumerate 7 1), .answering SYS_OK⟩,
        ⟨.callback (.enumerate 9 0), .answering SYS_OK⟩]
    let d := (daemon.step (daemon.final s is) ⟨.deliver, .answering SYS_OK⟩).1.fpd
    d.m_fingerMap.toList = [(7, "left"), (9, "Unknown 9")] ∧
      Loads (.answering SYS_OK) (fileMap s is ⟨.deliver, .answering SYS_OK⟩) [9, 7, 9] d := by
  let := qt56
  have := qt56_lawful
  intro file s is d
  have h : Enumeration s is ⟨.deliver, .answering SYS_OK⟩ := by
    refine ⟨⟨(Env.answering SYS_OK).hal, {}, ?_⟩, rfl, [], rfl⟩
    show (boot _ _ _).fpd.m_androidFP = _
    rw [boot_fpd]
    rfl
  exact ⟨by decide, (load_reconciles h).1⟩

end SailfishFpd
