import SailfishFpd.Session.Enrolment
import SailfishFpd.Store.Lookup

/-!
# Names identify fingers

`Enroll` refuses a name that is on the list. `loadFingers` does not look when it
makes up the name of a finger that the file does not know: a finger that was
enrolled as `Unknown 8` and the new finger `8` then have one name, and `Remove`
takes the first that has it.
-/

namespace SailfishFpd

open FPDCommunity
open Reactive.Machine (visits_iff_along_of_invariant along_true along_cons along_nil)

/-- No two fingers have one name. -/
def FingerMap.Distinct (m : FingerMap) : Prop :=
  ∀ (k l : UInt32) (name : String), m[k]? = some name → m[l]? = some name → k = l

namespace FingerMap

theorem distinct_empty : Distinct ∅ := by
  intro k l name hk
  simp at hk

theorem Distinct.erase {m : FingerMap} (h : Distinct m) (a : UInt32) : Distinct (m.erase a) := by
  have hsome : ∀ {k : UInt32} {name : String}, (m.erase a)[k]? = some name →
      m[k]? = some name := by
    intro k name hk
    rw [Std.ExtTreeMap.getElem?_erase] at hk
    split at hk
    · cases hk
    · exact hk
  intro k l name hk hl
  exact h k l name (hsome hk) (hsome hl)

theorem distinct_insert {m : FingerMap} (h : Distinct m) (a : UInt32) (name : String) :
    Distinct (m.insert a name) ↔ ∀ k : UInt32, m[k]? = some name → k = a := by
  refine ⟨fun hd k hk => ?_, fun hfree k l n hk hl => ?_⟩
  · by_contra hne
    refine hne (hd k a name ?_ (by simp))
    simpa [Std.ExtTreeMap.getElem?_insert, Ne.symm hne] using hk
  · rw [Std.ExtTreeMap.getElem?_insert] at hk hl
    by_cases hka : a = k <;> by_cases hla : a = l
    · exact hka.symm.trans hla
    · obtain rfl : name = n := by simpa [hka] using hk
      rw [if_neg (by simpa using hla)] at hl
      exact absurd (hfree l hl).symm hla
    · obtain rfl : name = n := by simpa [hla] using hl
      rw [if_neg (by simpa using hka)] at hk
      exact absurd (hfree k hk).symm hka
    · rw [if_neg (by simpa using hka)] at hk
      rw [if_neg (by simpa using hla)] at hl
      exact h k l n hk hl

end FingerMap

/-- No name that is made up for a reported finger is that of another one in the file `m`. -/
def InventsNone (reported : List UInt32) (m : FingerMap) : Prop :=
  ∀ k ∈ reported, k ∉ m → ∀ l ∈ reported, m[l]? ≠ some (unknownName k)

/-- Made-up names differ; they may only be those of the file. -/
theorem distinct_reconcile {m : FingerMap} (h : m.Distinct) (reported : List UInt32) :
    (reconcile reported m).Distinct ↔ InventsNone reported m := by
  refine ⟨fun hd k hk hkm l hl hname => ?_, fun hfree k l name hk hl => ?_⟩
  · have hnone : m[k]? = none := Std.ExtTreeMap.getElem?_eq_none hkm
    have hkl : k = l := by
      refine hd k l (unknownName k) ?_ (getElem?_reconcile_of_mem hl hname)
      rw [getElem?_reconcile, if_pos hk, hnone, Option.getD_none]
    rw [← hkl, hnone] at hname
    cases hname
  · rw [getElem?_reconcile] at hk hl
    by_cases hkr : k ∈ reported <;> by_cases hlr : l ∈ reported
    · rw [if_pos hkr] at hk
      rw [if_pos hlr] at hl
      cases hkm : m[k]? with
      | some a =>
        obtain rfl : a = name := by simpa [hkm] using hk
        cases hlm : m[l]? with
        | some b =>
          obtain rfl : b = a := by simpa [hlm] using hl
          exact h k l b hkm hlm
        | none =>
          obtain rfl : unknownName l = a := by simpa [hlm] using hl
          have hno : l ∉ m := by simp [Std.ExtTreeMap.mem_iff_isSome_getElem?, hlm]
          exact absurd hkm (hfree l hlr hno k hkr)
      | none =>
        obtain rfl : unknownName k = name := by simpa [hkm] using hk
        have hno : k ∉ m := by simp [Std.ExtTreeMap.mem_iff_isSome_getElem?, hkm]
        cases hlm : m[l]? with
        | some b =>
          obtain rfl : b = unknownName k := by simpa [hlm] using hl
          exact absurd hlm (hfree k hkr hno l hlr)
        | none => exact (unknownName_injective (by simpa [hlm] using hl)).symm
    · rw [if_neg hlr] at hl; cases hl
    · rw [if_neg hkr] at hk; cases hk
    · rw [if_neg hkr] at hk; cases hk

/-- A finger is added under a name that no other finger has. -/
def AddsFresh (e : Edge) : Prop :=
  e.input.event = .deliver → ∀ finger queue, e.src.queue = .succeeded finger :: queue →
    ∀ k : UInt32, e.src.fpd.m_fingerMap[k]? = some e.src.fpd.m_addingFinger → k = finger

section Runs

variable [QDataStream]

/-- An enumeration makes up no name that is taken. -/
def InventsFresh (e : Edge) : Prop :=
  e.input.event = .deliver → ∀ queue, e.src.queue = .enumerated :: queue →
    InventsNone e.src.fpd.m_androidFP.fingerprints (e.src.fpd.readDatabase e.input.env)

/-- A name is that of one finger: in the list, for `Remove`, and in `Identified`. -/
structure NamesIdentify (s : System) : Prop where
  distinct : s.fpd.m_fingerMap.Distinct
  removes : ∀ caller env name k status,
    (.remove 0 k, status) ∈ requestsOf (daemon.step s ⟨.call caller (.Remove name), env⟩).2.out →
      ∀ l, s.fpd.m_fingerMap[l]? = some name ↔ l = k
  identifies : ∀ k ∈ s.fpd.m_fingerMap, ∀ l ∈ s.fpd.m_fingerMap, ∀ name,
    .signal (.Identified name) ∈ (slot_authenticated k { self := s.fpd }).out →
      .signal (.Identified name) ∈ (slot_authenticated l { self := s.fpd }).out → k = l

/-- The names of the list and of the file are distinct. -/
structure UniqueNames (d : FPDCommunity) : Prop where
  map : d.m_fingerMap.Distinct
  file : ∀ bytes, d.database = some bytes → (QDataStream.read bytes).Distinct

variable {s : System} {i : Input}

theorem remove_request {caller : String} {env : Env} {name : String} {k : UInt32} {status : Int}
    (h : (.remove 0 k, status) ∈
      requestsOf (daemon.step s ⟨.call caller (.Remove name), env⟩).2.out) :
    s.fpd.m_fingerMap[k]? = some name := by
  rw [step_call] at h
  have hrequests := invoke_requests env caller (.Remove name) { self := s.fpd }
  rcases callMove_cases s.fpd env.hal caller (.Remove name) with
    ⟨-, hm⟩ | ⟨hc, -⟩ | ⟨r, hr, -, hm⟩ | ⟨r, hr, -, hm⟩
  · rw [hm] at hrequests
    rw [hrequests] at h
    cases h
  · cases hc
  all_goals
    rw [hm] at hrequests
    rw [hrequests] at h
    obtain ⟨hkey, rfl⟩ := requests_of_some hr
    obtain ⟨rfl, -⟩ : k = s.fpd.keyOf name ∧ status = env.hal (.remove 0 (s.fpd.keyOf name)) := by
      simpa [hr] using h
    exact getElem?_keyOf (by_contra fun hname => hkey (keyOf_unlisted hname))

omit [QDataStream] in
theorem identified_name {d : FPDCommunity} {k : UInt32} {name : String} (hk : k ∈ d.m_fingerMap)
    (h : .signal (.Identified name) ∈ (slot_authenticated k { self := d }).out) :
    d.m_fingerMap[k]? = some name := by
  obtain ⟨listed, hlisted⟩ := Option.isSome_iff_exists.mp
    (Std.ExtTreeMap.mem_iff_isSome_getElem?.mp hk)
  have hname : d.identifiedName k = listed := by simp [identifiedName, hlisted]
  rw [slot_authenticated_out, hname] at h
  obtain rfl : name = listed := by
    simpa [stateChange] using h
  exact hlisted

theorem namesIdentify_of_distinct (h : s.fpd.m_fingerMap.Distinct) : NamesIdentify s := by
  refine ⟨h, fun caller env name k status hk l => ?_, fun k hk l hl name hnk hnl => ?_⟩
  · have hname := remove_request hk
    refine ⟨fun hl => h l k name hl hname, ?_⟩
    rintro rfl
    exact hname
  · exact h k l name (identified_name hk hnk) (identified_name hl hnl)

theorem UniqueNames.readDatabase {d : FPDCommunity} (h : UniqueNames d) (env : Env) :
    (d.readDatabase env).Distinct := by
  unfold FPDCommunity.readDatabase
  split
  · next bytes hbytes _ => exact h.file bytes hbytes
  · exact FingerMap.distinct_empty

theorem distinct_step (h : UniqueNames s.fpd) (i : Input) :
    (daemon.step s i).1.fpd.m_fingerMap.Distinct ↔
      AddsFresh (daemon.edge s i) ∧ InventsFresh (daemon.edge s i) := by
  rw [(step_edits s i).1]
  have hadds : (∀ finger queue, i.event = .deliver → s.queue ≠ .succeeded finger :: queue) →
      AddsFresh (daemon.edge s i) := fun hno hd finger queue hq => absurd hq (hno finger queue hd)
  have hinvents : (∀ queue, i.event = .deliver → s.queue ≠ .enumerated :: queue) →
      InventsFresh (daemon.edge s i) := fun hno hd queue hq => absurd hq (hno queue hd)
  rcases s.edit_cases i with he | ⟨hd, f, queue, hq⟩ | ⟨hd, f, queue, hq⟩ | ⟨hd, queue, hq⟩
  · rw [he]
    refine iff_of_true h.map ⟨hadds fun f queue hd hq => ?_, hinvents fun queue hd hq => ?_⟩
    · rw [System.edit_deliver hd hq] at he; cases he
    · rw [System.edit_deliver hd hq] at he; cases he
  · rw [System.edit_deliver hd hq, signalEdit, Edit.apply, FingerMap.distinct_insert h.map]
    refine ⟨fun hfree => ⟨fun _ f' queue' hq' => ?_, hinvents fun queue' _ hq' => ?_⟩,
      fun hg => hg.1 hd f queue hq⟩
    · rw [show s.queue = _ from hq'] at hq
      cases hq
      exact hfree
    · rw [hq] at hq'; cases hq'
  · refine iff_of_true ?_ ⟨hadds fun f' queue' _ hq' => ?_, hinvents fun queue' _ hq' => ?_⟩
    · rw [System.edit_deliver hd hq, signalEdit]
      split
      · exact FingerMap.distinct_empty
      · exact h.map.erase f
    · rw [hq] at hq'; cases hq'
    · rw [hq] at hq'; cases hq'
  · rw [System.edit_deliver hd hq, signalEdit, Edit.apply,
      distinct_reconcile (h.readDatabase i.env)]
    refine ⟨fun hfree => ⟨hadds fun f queue' _ hq' => ?_, fun _ _ _ => hfree⟩,
      fun hg => hg.2 hd queue hq⟩
    rw [hq] at hq'; cases hq'

variable [LawfulQDataStream] [CutQDataStream]

/-- What is saved has distinct names, be it written in part only. -/
theorem UniqueNames.saved {d : FPDCommunity} (h : UniqueNames d) {env : Env} {bytes : List UInt8}
    (hbytes : d.saved env = some bytes) : (QDataStream.read bytes).Distinct := by
  unfold FPDCommunity.saved at hbytes
  split at hbytes
  · cases hroom : env.room with
    | none =>
      obtain rfl : QDataStream.write d.m_fingerMap = bytes := by simpa [hroom] using hbytes
      rw [LawfulQDataStream.read_write]
      exact h.map
    | some n =>
      obtain rfl : (QDataStream.write d.m_fingerMap).take n = bytes := by
        simpa [hroom] using hbytes
      by_cases hn : n < (QDataStream.write d.m_fingerMap).length
      · rw [CutQDataStream.read_take _ hn]
        exact FingerMap.distinct_empty
      · rw [List.take_of_length_le (by omega), LawfulQDataStream.read_write]
        exact h.map
  · exact h.file bytes hbytes

/-- So the file keeps its names distinct when the list does. -/
theorem uniqueNames_step (h : UniqueNames s.fpd)
    (hmap : (daemon.step s i).1.fpd.m_fingerMap.Distinct) :
    UniqueNames (daemon.step s i).1.fpd := by
  obtain ⟨hm, hdb, -⟩ := step_edits s i
  refine ⟨hmap, fun bytes hbytes => ?_⟩
  rw [hdb] at hbytes
  by_cases he : s.edit i = .keep
  · rw [he] at hbytes
    exact h.file bytes hbytes
  · have hnew : UniqueNames { s.fpd with m_fingerMap := (s.edit i).apply s.fpd.m_fingerMap } :=
      ⟨hm ▸ hmap, h.file⟩
    have hsaved : s.fpd.databaseAfter i.env (s.edit i) = FPDCommunity.saved i.env
        { s.fpd with m_fingerMap := (s.edit i).apply s.fpd.m_fingerMap } := by
      cases he' : s.edit i with
      | keep => exact absurd he' he
      | _ => rfl
    rw [hsaved] at hbytes
    exact hnew.saved hbytes

/-- **Names identify fingers, exactly in the runs that add and make up only fresh names**, from a
file with distinct names; when every success is handled in an enrolment, in those that make up only
fresh names. -/
theorem names_identify (env : Env) (getprop : String → String) (database : Option (List UInt8))
    (hfile : ∀ bytes, database = some bytes → (QDataStream.read bytes).Distinct)
    (is : List Input) :
    ((daemon.Visits (boot env getprop database) is fun _ s => NamesIdentify s) ↔
      daemon.Along (boot env getprop database) is fun _ e => AddsFresh e ∧ InventsFresh e) ∧
    (daemon.Along (boot env getprop database) is SuccessInTime →
      ((daemon.Visits (boot env getprop database) is fun _ s => NamesIdentify s) ↔
        daemon.Along (boot env getprop database) is fun _ e => InventsFresh e)) := by
  have hboot : UniqueNames (boot env getprop database).fpd := by
    rw [boot_fpd]
    exact ⟨FingerMap.distinct_empty, hfile⟩
  have hiff : (daemon.Visits (boot env getprop database) is fun _ s => NamesIdentify s) ↔
      daemon.Along (boot env getprop database) is fun _ e => AddsFresh e ∧ InventsFresh e := by
    refine visits_iff_along_of_invariant along_true (I := fun _ s => UniqueNames s.fpd) hboot
      (fun _ _ h => namesIdentify_of_distinct h.map) (fun past s i h _ hg => ?_)
      fun past s i h _ hs => (distinct_step h i).mp hs.distinct
    exact uniqueNames_step h ((distinct_step h i).mpr hg)
  refine ⟨hiff, fun htime => hiff.trans ⟨fun h => h.mono fun _ _ hg => hg.2, fun h => ?_⟩⟩
  -- the name of a running `Enroll` is not on the list
  have hunlisted := visits_addingUnlisted env getprop database is
  refine (h.and (htime.and hunlisted.along)).mono ?_
  rintro past e ⟨hinvents, hintime, hadding, -⟩
  refine ⟨fun hd finger queue hq k hk => ?_, hinvents⟩
  have hs := hintime hd _ queue hq ⟨finger, rfl⟩
  exact absurd (FingerMap.mem_values.mpr ⟨k, hk⟩) (hadding hs)

end Runs

/-- The HAL has one finger more than the file, and the name made up for it is free. -/
theorem names_identify_enumerated :
    letI := qt56
    NamesIdentify (daemon.final (boot (.answering SYS_OK) (fun _ => "")
        (some (QDataStream.write ((∅ : FingerMap).insert 7 "left"))))
      [⟨.callback (.enumerate 7 1), .answering SYS_OK⟩,
        ⟨.callback (.enumerate 8 0), .answering SYS_OK⟩, ⟨.deliver, .answering SYS_OK⟩]) := by
  let := qt56
  have := qt56_lawful
  have := qt56_cut
  have hfile : ∀ bytes, some (QDataStream.write ((∅ : FingerMap).insert 7 "left")) = some bytes →
      (QDataStream.read bytes).Distinct := by
    intro bytes h
    rw [← Option.some.inj h, LawfulQDataStream.read_write,
      FingerMap.distinct_insert FingerMap.distinct_empty]
    simp
  refine ((names_identify _ _ _ hfile _).1.mpr ?_).final
  refine along_cons ⟨fun hd => ?_, fun hd => ?_⟩ (along_cons ⟨fun hd => ?_, fun hd => ?_⟩
    (along_cons ⟨fun _ f queue hq => ?_, fun _ _ _ => ?_⟩ along_nil))
  · cases hd
  · cases hd
  · cases hd
  · cases hd
  · cases (List.cons.inj hq).1
  · rintro k hk - l - hname
    have hfree : unknownName k ≠ "left" := by
      have hk : k ∈ [(7 : UInt32), 8] := hk
      rcases List.mem_cons.mp hk with rfl | hk
      · decide
      · obtain rfl := List.mem_singleton.mp hk
        decide
    have hread : (QDataStream.read (QDataStream.write ((∅ : FingerMap).insert 7 "left")))[l]? =
        some (unknownName k) := hname
    rw [LawfulQDataStream.read_write, Std.ExtTreeMap.getElem?_insert] at hread
    split at hread
    · exact hfree (Option.some.inj hread).symm
    · simp at hread

/-- The file has finger `7` as `Unknown 8`, and the HAL has finger `8` as well: both then have that
name, and finger `8` cannot be removed. -/
theorem unknown_finger_takes_name :
    letI := qt56
    let file : FingerMap := (∅ : FingerMap).insert 7 "Unknown 8"
    let s := daemon.final (boot (.answering SYS_OK) (fun _ => "") (some (QDataStream.write file)))
      [⟨.callback (.enumerate 7 1), .answering SYS_OK⟩,
        ⟨.callback (.enumerate 8 0), .answering SYS_OK⟩, ⟨.deliver, .answering SYS_OK⟩]
    file.Distinct ∧ s.fpd.m_fingerMap.toList = [(7, "Unknown 8"), (8, "Unknown 8")] ∧
      requestsOf (daemon.step s
        ⟨.call ":1.5" (.Remove "Unknown 8"), .answering SYS_OK⟩).2.out = [(.remove 0 7, SYS_OK)] ∧
      ¬ NamesIdentify s := by
  let := qt56
  intro file s
  have hfile : file.Distinct := by
    rw [FingerMap.distinct_insert FingerMap.distinct_empty]
    simp
  refine ⟨hfile, by decide, by decide, fun h => ?_⟩
  have hsame := h.distinct 7 8 "Unknown 8" (by decide) (by decide)
  exact absurd hsame (by decide)

end SailfishFpd
