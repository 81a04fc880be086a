import SailfishFpd.Store.Reconcile
import SailfishFpd.QtStream

/-!
# Persistence

Every slot that changes `m_fingerMap` saves it after its last change. From the
first completed enumeration on, the database decodes to the map between any two
handlers, and a restart that enumerates the same fingers reads the same map.
The id `0` is the exception: an enumeration never reports it.
-/

namespace SailfishFpd

open Reactive.Machine (along_of_forall_mem along_cons along_nil)

structure Env.FilesOk (env : Env) : Prop where
  openRead : env.openRead = true
  openWrite : env.openWrite = true
  room : env.room = none

theorem answering_filesOk (status : Int) : (Env.answering status).FilesOk := ⟨rfl, rfl, rfl⟩

/-- The step runs the slot of `enumerated`. -/
def CompletesEnumeration (e : Edge) : Prop :=
  e.input.event = .deliver ∧ ∃ queue, e.src.queue = .enumerated :: queue

/-- An enumeration has completed, so the map was loaded. -/
def Loaded (past : List Edge) : Prop := ∃ e ∈ past, CompletesEnumeration e

instance : DecidablePred CompletesEnumeration := fun e =>
  decidable_of_iff (e.input.event = .deliver ∧ e.src.queue.head? = some .enumerated)
    (and_congr_right' List.head?_eq_some_iff)

instance (past : List Edge) : Decidable (Loaded past) :=
  inferInstanceAs (Decidable (∃ e ∈ past, CompletesEnumeration e))

theorem loaded_snoc {past : List Edge} {e : Edge} :
    Loaded (past ++ [e]) ↔ Loaded past ∨ CompletesEnumeration e := by
  simp [Loaded, or_and_right, exists_or]

theorem not_loaded_nil : ¬ Loaded [] := by simp [Loaded]

/-- The ids the HAL reported to enumerations, the `0` of an empty store included. -/
def enumeratedIds (is : List Input) : List UInt32 :=
  is.filterMap fun i => match i.event with
    | .callback (.enumerate finger _) => some finger
    | _ => none

section Store

variable [QDataStream]

/-- The database decodes to the map. -/
def FPDCommunity.Persisted (d : FPDCommunity) : Prop :=
  ∃ bytes, d.database = some bytes ∧ QDataStream.read bytes = d.m_fingerMap

/-- The database file has `finger` under `name`. -/
def FPDCommunity.Stores (d : FPDCommunity) (finger : UInt32) (name : String) : Prop :=
  ∃ bytes, d.database = some bytes ∧ (QDataStream.read bytes)[finger]? = some name

theorem FPDCommunity.Persisted.stores_iff {d : FPDCommunity} (h : d.Persisted) {finger : UInt32}
    {name : String} : d.Stores finger name ↔ d.m_fingerMap[finger]? = some name := by
  obtain ⟨bytes, hbytes, hread⟩ := h
  refine ⟨?_, ?_⟩
  · rintro ⟨bytes', hbytes', hname⟩
    obtain rfl : bytes = bytes' := Option.some.inj (hbytes.symm.trans hbytes')
    rw [← hread]
    exact hname
  · intro hname
    exact ⟨bytes, hbytes, by rw [hread]; exact hname⟩

section Steps

variable [LawfulQDataStream] {s : System} {i : Input}

theorem persisted_of_edit (hopen : i.env.openWrite = true) (hroom : i.env.room = none)
    (he : s.edit i ≠ .keep) : (daemon.step s i).1.fpd.Persisted := by
  obtain ⟨hmap, hdb, -⟩ := step_edits s i
  refine ⟨QDataStream.write (daemon.step s i).1.fpd.m_fingerMap, ?_, LawfulQDataStream.read_write _⟩
  rw [hdb, hmap]
  cases he' : s.edit i with
  | keep => exact absurd he' he
  | _ => simp [FPDCommunity.databaseAfter, FPDCommunity.saved, hopen, hroom]

theorem step_persisted (hf : i.env.FilesOk) (h : s.fpd.Persisted) :
    (daemon.step s i).1.fpd.Persisted := by
  by_cases he : s.edit i = .keep
  · obtain ⟨hmap, hdb, -⟩ := step_edits s i
    obtain ⟨bytes, hbytes, hread⟩ := h
    rw [he] at hmap hdb
    exact ⟨bytes, hdb.trans hbytes, hread.trans hmap.symm⟩
  · exact persisted_of_edit hf.openWrite hf.room he

end Steps

theorem edit_of_completes {s : System} {i : Input}
    (h : CompletesEnumeration (daemon.edge s i)) :
    s.edit i =
      .load (FPDCommunity.reconcile s.fpd.m_androidFP.fingerprints (s.fpd.readDatabase i.env)) := by
  obtain ⟨hd, queue, hq⟩ := h
  exact System.edit_deliver hd hq

theorem store_of_quiet {s : System} {is : List Input}
    (h : daemon.Along s is fun _ e => e.src.edit e.input = .keep) :
    (daemon.final s is).fpd.m_fingerMap = s.fpd.m_fingerMap ∧
      (daemon.final s is).fpd.database = s.fpd.database := by
  refine h.invariant (I := fun _ t => t.fpd.m_fingerMap = s.fpd.m_fingerMap ∧
    t.fpd.database = s.fpd.database) ⟨rfl, rfl⟩ fun _ t i hI hi => ?_
  obtain ⟨hmap, hdb, -⟩ := step_edits t i
  rw [show t.edit i = .keep from hi] at hmap hdb
  exact ⟨hmap.trans hI.1, hdb.trans hI.2⟩

theorem step_fingerprints (s : System) (i : Input) :
    (daemon.step s i).1.fpd.m_androidFP.fingerprints =
      s.fpd.m_androidFP.fingerprints ++ (enumeratedIds [i]).filter (· ≠ 0) := by
  rw [step_androidFP]
  obtain ⟨event, env⟩ := i
  cases event with
  | call caller c =>
    by_cases hr : (s.fpd.requestOf caller c).isSome
    · cases c <;> simp [hr, enumeratedIds, FPDCommunity.prepared, AndroidFP.fingerprints]
    · simp [hr, enumeratedIds]
  | timeout => simp [enumeratedIds]
  | deliver => simp [enumeratedIds]
  | callback cb =>
    cases cb with
    | enumerate finger remaining =>
      by_cases hf : finger = 0 <;>
        simp [hf, enumeratedIds, AndroidFP.callback, AndroidFP.enumerateCallback,
          AndroidFP.fingerprints]
    | _ =>
      simpa [enumeratedIds, AndroidFP.fingerprints] using AndroidFP.callback_m_fingers (by simp)

theorem fingerprints_eq (s : System) (is : List Input) :
    (daemon.final s is).fpd.m_androidFP.fingerprints =
      s.fpd.m_androidFP.fingerprints ++ (enumeratedIds is).filter (· ≠ 0) := by
  induction is generalizing s with
  | nil => simp [enumeratedIds]
  | cons i is ih =>
    have hcons : enumeratedIds (i :: is) = enumeratedIds [i] ++ enumeratedIds is :=
      List.filterMap_append (l := [i])
    rw [daemon.final_cons, ih, step_fingerprints, hcons, List.filter_append, List.append_assoc]

/-- The restarted daemon, in state `t`, takes the inputs `is` without touching the list, and with
`i` completes its enumeration, which reported the keys of `m`. -/
structure Reenumerates (t : System) (is : List Input) (i : Input) (m : FingerMap) : Prop where
  filesOk : i.env.FilesOk
  quiet : daemon.Along t is fun _ e => e.src.edit e.input = .keep
  completes : CompletesEnumeration (daemon.edge (daemon.final t is) i)
  reports : ∀ k, k ≠ 0 → (k ∈ enumeratedIds is ↔ k ∈ m)

/-- A daemon restarted on a file that holds `m` has `m` again, less the id `0`. -/
theorem map_of_reenumerates {d : FPDCommunity} (hd : d.Persisted) {env : Env}
    {getprop : String → String} {is : List Input} {i : Input}
    (h : Reenumerates (boot env getprop d.database) is i d.m_fingerMap) :
    (daemon.final (boot env getprop d.database) (is ++ [i])).fpd.m_fingerMap =
      d.m_fingerMap.erase 0 := by
  obtain ⟨bytes, hbytes, hread⟩ := hd
  obtain ⟨-, hdb⟩ := store_of_quiet h.quiet
  have hload := (step_edits (daemon.final (boot env getprop d.database) is) i).1
  rw [edit_of_completes h.completes] at hload
  rw [daemon.final_snoc, hload]
  have hbase : (daemon.final (boot env getprop d.database) is).fpd.readDatabase i.env =
      d.m_fingerMap := by
    rw [FPDCommunity.readDatabase, hdb, boot_fpd]
    simp [hbytes, h.filesOk.openRead, hread]
  rw [Edit.apply, hbase]
  refine FPDCommunity.reconcile_eq_erase fun k => ?_
  rw [fingerprints_eq, boot_fpd]
  by_cases hk : k = 0
  · simp [AndroidFP.fingerprints, hk]
  · simp [AndroidFP.fingerprints, hk, h.reports k hk]

section Runs

variable [LawfulQDataStream] (env : Env) (getprop : String → String)
  (database : Option (List UInt8))

theorem persisted_of_loaded {is : List Input} (hf : ∀ i ∈ is, i.env.FilesOk) :
    daemon.Visits (boot env getprop database) is fun past s =>
      Loaded past → s.fpd.Persisted := by
  refine (along_of_forall_mem hf).visits ?_ fun past s i hI hi hl => ?_
  · exact fun hl => absurd hl not_loaded_nil
  · rcases loaded_snoc.mp hl with hl | hc
    · exact step_persisted hi (hI hl)
    · exact persisted_of_edit hi.openWrite hi.room (by rw [edit_of_completes hc]; simp)

/-- **Persistence**: from the first completed enumeration on, the database decodes to the map; a
restart whose enumeration reports the keys of the map ends with the map, less an entry under the
id `0`. -/
theorem restart_restores (is : List Input) (hf : ∀ i ∈ is, i.env.FilesOk) :
    daemon.Visits (boot env getprop database) is fun past s =>
      (∃ e ∈ past, CompletesEnumeration e) →
        s.fpd.Persisted ∧
          ∀ env' getprop' js j,
            Reenumerates (boot env' getprop' s.fpd.database) js j s.fpd.m_fingerMap →
              (daemon.final (boot env' getprop' s.fpd.database) (js ++ [j])).fpd.m_fingerMap =
                s.fpd.m_fingerMap.erase 0 :=
  (persisted_of_loaded env getprop database hf).mono fun _ _ h hc =>
    ⟨h hc, fun _ _ _ _ hr => map_of_reenumerates (h hc) hr⟩

end Runs

end Store

section Restart

/-- The start finds a finger, and `:1.5` enrols another one. -/
def enrolInputs : List Input :=
  [⟨.callback (.enumerate 7 0), .answering SYS_OK⟩, ⟨.deliver, .answering SYS_OK⟩,
    ⟨.call ":1.5" (.Enroll "left"), .answering SYS_OK⟩,
    ⟨.callback (.enrollresult 8 0), .answering SYS_OK⟩,
    ⟨.deliver, .answering SYS_OK⟩, ⟨.deliver, .answering SYS_OK⟩]

/-- What the HAL reports to the restarted daemon. -/
def restartInputs : List Input :=
  [⟨.callback (.enumerate 8 1), .answering SYS_OK⟩,
    ⟨.callback (.enumerate 7 0), .answering SYS_OK⟩]

theorem restart_restores_enrolled :
    letI := qt56
    let s := daemon.final (boot (.answering SYS_OK) (fun _ => "") none) enrolInputs
    s.fpd.Persisted ∧
      (daemon.final (boot (.answering SYS_OK) (fun _ => "") s.fpd.database)
        (restartInputs ++ [⟨.deliver, .answering SYS_OK⟩])).fpd.m_fingerMap =
          ((∅ : FingerMap).insert 7 "Unknown 7").insert 8 "left" := by
  let := qt56
  have := qt56_lawful
  intro s
  have hf : ∀ i ∈ enrolInputs, i.env.FilesOk := by simp [enrolInputs, answering_filesOk]
  have hdone : ∃ e ∈ daemon.edges (boot (.answering SYS_OK) (fun _ => "") none) enrolInputs,
      CompletesEnumeration e := ⟨_, .tail _ (.head _), rfl, [], rfl⟩
  have hmap : s.fpd.m_fingerMap = ((∅ : FingerMap).insert 7 "Unknown 7").insert 8 "left" := by
    decide +kernel
  obtain ⟨hpersisted, hrestart⟩ := (restart_restores _ _ _ _ hf).final hdone
  have hreports : Reenumerates (boot (.answering SYS_OK) (fun _ => "") s.fpd.database) restartInputs
      ⟨.deliver, .answering SYS_OK⟩ s.fpd.m_fingerMap := by
    refine ⟨answering_filesOk _, along_cons rfl (along_cons rfl along_nil), ⟨rfl, [], rfl⟩,
      fun k _ => ?_⟩
    rw [hmap]
    simp [restartInputs, enumeratedIds, @eq_comm UInt32 k]
  refine ⟨hpersisted, (hrestart _ _ _ _ hreports).trans ?_⟩
  rw [hmap]
  decide +kernel

end Restart

/-- `:1.5`'s enrolment is reported under the id `0`, and added; the restarted daemon takes the same
report for that of an empty store, and the finger is gone. -/
theorem finger_zero_is_forgotten :
    letI := qt56
    let s := daemon.final (boot (.answering SYS_OK) (fun _ => "") none)
      [⟨.callback (.enumerate 0 0), .answering SYS_OK⟩, ⟨.deliver, .answering SYS_OK⟩,
        ⟨.call ":1.5" (.Enroll "left"), .answering SYS_OK⟩,
        ⟨.callback (.enrollresult 0 0), .answering SYS_OK⟩,
        ⟨.deliver, .answering SYS_OK⟩, ⟨.deliver, .answering SYS_OK⟩]
    let restarted := daemon.final (boot (.answering SYS_OK) (fun _ => "") s.fpd.database)
      [⟨.callback (.enumerate 0 0), .answering SYS_OK⟩, ⟨.deliver, .answering SYS_OK⟩]
    s.fpd.m_fingerMap.toList = [(0, "left")] ∧ restarted.fpd.m_fingerMap.toList = [] := by
  decide

end SailfishFpd
